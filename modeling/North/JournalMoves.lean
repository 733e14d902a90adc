import North.JournalState
import Mathlib.Data.Set.Function
import Mathlib.Logic.Relation

/-! What the sections of the journal do to its commands. A section that succeeds makes
one of a few moves on the command part of the file; the event sections make none. -/
namespace North
namespace Journal

open Machine Protocol

/-- The part of a journal file that commands are decided on. -/
@[ext]
structure CommandView where
  commands : List CommandRecord := []
  tombstones : List CommandTombstone := []
  processed : String → ℕ := fun _ => 0

def JournalFile.view (s : JournalFile) : CommandView :=
  ⟨s.commands,s.commandTombstones,fun id => (s.session id).processedThroughSeq⟩

namespace CommandView

variable (v : CommandView)

def Terminal (sessionId : String) (seq : ℕ) : Prop :=
  (∃ r ∈ v.commands, r.sessionId = sessionId ∧ r.serverCommandSeq = seq ∧ r.state = .terminal) ∨
    ∃ t ∈ v.tombstones, t.sessionId = sessionId ∧ t.serverCommandSeq = seq

def expected (sessionId : String) : ℕ := saturatingSucc u64Max (v.processed sessionId)

/-- A cancel may start above a gap while an earlier command of its session runs. -/
def Overtakes (r : CommandRecord) : Prop :=
  r.command.isSessionCancel = true ∧ ∃ r' ∈ v.commands, r'.sessionId = r.sessionId ∧
    r'.serverCommandSeq < r.serverCommandSeq ∧ r'.state = .dispatchStarted

def MayStart (r : CommandRecord) : Prop :=
  r.serverCommandSeq ≤ v.expected r.sessionId ∨ v.Overtakes r

/-- The commands of a session that wait above a gap. -/
def waiting (sessionId : String) : ℕ :=
  (v.commands.filter fun r => r.sessionId == sessionId &&
    decide (v.expected sessionId < r.serverCommandSeq) && r.state != .terminal).length

def update (commandId : String) (f : CommandRecord → CommandRecord) : CommandView :=
  { v with commands := Table.updateFirst (fun r => decide (r.commandId = commandId)) f v.commands }

end CommandView

def startRecord (now : String) (r : CommandRecord) : CommandRecord :=
  { r with state := .dispatchStarted, updatedAt := now }

/-- The moves of a journal whose command envelopes come from `E`. -/
inductive Moves (J : Handle) (E : Set CommandEnvelope) (v : CommandView) : CommandView → Prop
  | still : Moves J E v v
  | receive {e : CommandEnvelope} {now : Clock} (he : e ∈ E) (hvalid : e.validate = .ok ())
      (hfree : ∀ r ∈ v.commands,
        recordConflicts J.daemonId e (J.commandDigest e) (messageIdOf e.command) r = false)
      (hburied : ∀ t ∈ v.tombstones,
        tombstoneConflicts J.daemonId e (J.commandDigest e) (messageIdOf e.command) t = false)
      (hnew : ∀ r ∈ v.commands, r.commandId ≠ e.commandId)
      (hnew' : ∀ t ∈ v.tombstones, t.commandId ≠ e.commandId)
      (hseq : v.expected e.sessionId ≤ e.serverCommandSeq)
      (hroom : v.expected e.sessionId < e.serverCommandSeq →
        v.waiting e.sessionId < J.config.maxGapBufferEntriesPerSession) :
      Moves J E v { v with commands := v.commands ++
        [receivedRecord J e (J.commandDigest e) (messageIdOf e.command) now] }
  | start {r : CommandRecord} {now : String}
      (hr : v.commands.find? (fun x => decide (x.commandId = r.commandId)) = some r)
      (hstate : r.state = .received) (hmay : v.MayStart r) :
      Moves J E v (v.update r.commandId (startRecord now))
  | finish {r : CommandRecord} {outcome : DispatchOutcome} {now : String} {fuel cursor : ℕ}
      (hr : v.commands.find? (fun x => decide (x.commandId = r.commandId)) = some r)
      (hadvance : Watermark.advance u64Max
        (terminalIn (v.update r.commandId (terminate outcome now)).commands r.sessionId) fuel
        (v.processed r.sessionId) = some cursor) :
      Moves J E v { v.update r.commandId (terminate outcome now) with
        processed := Function.update v.processed r.sessionId cursor }
  | compact (sessionId : String) :
      Moves J E v { v with
        commands := v.commands.filter fun r =>
          !compactableCommand sessionId (v.processed sessionId) r
        tombstones := v.tombstones ++ (v.commands.filter
          (compactableCommand sessionId (v.processed sessionId))).map commandTombstone }

namespace JournalFile

variable (s : JournalFile)

theorem session_modify (id id' : String) (f : SessionJournal → SessionJournal) :
    ({ s with sessions := s.sessions.modify id {} f } : JournalFile).session id' =
      if id' = id then f (s.session id) else s.session id' := by
  simp only [session,OrdMap.get_modify]
  split_ifs <;> rfl

theorem expectedCommandSequence_eq (id : String) :
    s.expectedCommandSequence id = s.view.expected id := by
  simp only [expectedCommandSequence,CommandView.expected,view,session]
  cases s.sessions.get id with
  | none => decide
  | some session => rfl

end JournalFile

section

variable {J : Handle} {E : Set CommandEnvelope} {s s' : JournalFile}

theorem validateCommandIdentity_ok {daemonId digest : String} {e : CommandEnvelope}
    {m : Option String} (h : validateCommandIdentity s daemonId e digest m = .ok ()) :
    (∀ r ∈ s.commands, recordConflicts daemonId e digest m r = false) ∧
      ∀ t ∈ s.commandTombstones, tombstoneConflicts daemonId e digest m t = false := by
  unfold validateCommandIdentity at h
  split_ifs at h with h₁ h₂
  simpa using And.intro h₁ h₂

/-- What a successful `prepare_command` found: the live record, a tombstone, or nothing. -/
theorem prepareCommand_cases {e : CommandEnvelope} {digest : String} {m : Option String}
    {now : Clock} {p : Prepared} (h : prepareCommand J e digest m now s = .ok (p,s')) :
    validateCommandIdentity s J.daemonId e digest m = .ok () ∧
    ((s.commands.find? (fun r => decide (r.commandId = e.commandId)) = some p.record ∧ s' = s ∧
        p.buffered = decide (s.view.expected e.sessionId < p.record.serverCommandSeq)) ∨
      (s' = s ∧ p.record.state = .terminal) ∨
      ((∀ r ∈ s.commands, r.commandId ≠ e.commandId) ∧
        (∀ t ∈ s.commandTombstones, t.commandId ≠ e.commandId) ∧
        (s.view.expected e.sessionId ≤ e.serverCommandSeq ∧
          (s.view.expected e.sessionId < e.serverCommandSeq →
            s.view.waiting e.sessionId < J.config.maxGapBufferEntriesPerSession)) ∧
        p.record = receivedRecord J e digest m now ∧
        p.buffered = decide (s.view.expected e.sessionId < e.serverCommandSeq) ∧
        s' = { s with commands := s.commands ++ [p.record] })) := by
  unfold prepareCommand at h
  cases hid : validateCommandIdentity s J.daemonId e digest m with
  | error err => simp [hid,bind,Except.bind] at h
  | ok u =>
    refine ⟨rfl,?_⟩
    simp only [hid,bind,Except.bind,JournalFile.expectedCommandSequence_eq] at h
    split at h
    · rename_i existing hfind
      obtain ⟨rfl,rfl⟩ : _ = p ∧ s = s' := by simpa [pure,Except.pure] using h
      exact .inl ⟨hfind,rfl,rfl⟩
    · rename_i hnone
      split at h
      · obtain ⟨rfl,rfl⟩ : _ = p ∧ s = s' := by simpa [pure,Except.pure] using h
        exact .inr (.inl ⟨rfl,rfl⟩)
      · rename_i hnone'
        split_ifs at h with hgap hlow
        · obtain ⟨rfl,rfl⟩ : _ = p ∧ _ = s' := by simpa [pure,Except.pure] using h
          exact .inr (.inr ⟨Table.find?_key_none.mp hnone,Table.find?_key_none.mp hnone',
            ⟨by omega,fun hlt => Nat.lt_of_not_le fun hle => hgap ⟨hlt,hle⟩⟩,rfl,rfl,rfl⟩)

theorem prepareCommand_moves {e : CommandEnvelope} {now : Clock} {p : Prepared} (he : e ∈ E)
    (hvalid : e.validate = .ok ())
    (h : prepareCommand J e (J.commandDigest e) (messageIdOf e.command) now s = .ok (p,s')) :
    Moves J E s.view s'.view := by
  obtain ⟨hid,⟨-,rfl,-⟩ | ⟨rfl,-⟩ | ⟨hnew,hnew',⟨hseq,hroom⟩,hp,-,rfl⟩⟩ :=
    prepareCommand_cases h
  · exact .still
  · exact .still
  · have hmove := @Moves.receive J E s.view e now he hvalid (validateCommandIdentity_ok hid).1
      (validateCommandIdentity_ok hid).2 hnew hnew' hseq hroom
    rw [← hp] at hmove
    exact hmove

theorem markDispatchStarted_cases {commandId : String} {now : Clock} {started : Bool}
    (h : markDispatchStarted commandId now s = .ok (started,s')) :
    (started = false ∧ s' = s) ∨
      (started = true ∧ ∃ r, s.commands.find? (fun x => decide (x.commandId = commandId)) = some r ∧
        r.state = .received ∧ s'.view = s.view.update commandId (startRecord (now 0))) := by
  unfold markDispatchStarted at h
  split at h
  · simp at h
  · rename_i r hfind
    split_ifs at h with hr
    · obtain ⟨rfl,rfl⟩ : false = started ∧ s = s' := by simpa using h
      exact .inl ⟨rfl,rfl⟩
    · obtain ⟨rfl,rfl⟩ : true = started ∧ _ = s' := by simpa using h
      exact .inr ⟨rfl,r,hfind,by simpa using hr,rfl⟩

theorem pushRuntimeEvents_spec (commandId sessionId : String) (now : Clock) (events : List Event) :
    ∀ (index : ℕ) (s : JournalFile), ∃ envelopes : List EventEnvelope,
      (pushRuntimeEvents J commandId sessionId now index events s).1 = envelopes ∧
      (pushRuntimeEvents J commandId sessionId now index events s).2 =
        { s with events := s.events ++ envelopes.map (eventRecord J) } := by
  induction events with
  | nil => exact fun index s => ⟨[],rfl,by simp [pushRuntimeEvents]⟩
  | cons event rest ih =>
    intro index s
    simp only [pushRuntimeEvents]
    obtain ⟨envelopes,h₁,h₂⟩ := ih (index+1) { s with events := s.events ++ [eventRecord J
      ⟨"runtime-" ++ commandId ++ "-" ++ toString (index+1),sessionId,
        s.nextEventSequence sessionId,now (index+1),Protocol.schemaVersion,event⟩] }
    exact ⟨_::envelopes,by rw [h₁],by rw [h₂]; simp⟩

theorem pushUnknownEvent_spec (commandId sessionId operationId now : String)
    (outcome : DispatchOutcome) (s : JournalFile) :
    (pushUnknownEvent J commandId sessionId operationId outcome now s).2 =
      { s with events := s.events ++
        (pushUnknownEvent J commandId sessionId operationId outcome now s).1.map (eventRecord J) } := by
  cases outcome <;> simp [pushUnknownEvent]

theorem finishCommand_cases {commandId : String} {outcome : DispatchOutcome} {events : List Event}
    {now : Clock} {emitted : List EventEnvelope}
    (h : finishCommand J commandId outcome events now s = some (.ok (emitted,s'))) :
    ∃ r cursor, s.commands.find? (fun x => decide (x.commandId = commandId)) = some r ∧
      Watermark.advance u64Max
        (terminalIn (s.updateCommand commandId (terminate outcome (now 0))).commands r.sessionId)
        ((s.updateCommand commandId (terminate outcome (now 0))).commands.length+1)
        (s.session r.sessionId).processedThroughSeq = some cursor ∧
      s' = { s.updateCommand commandId (terminate outcome (now 0)) with
        sessions := s.sessions.modify r.sessionId {} fun session =>
          { session with processedThroughSeq := cursor }
        events := s.events ++ emitted.map (eventRecord J) } := by
  unfold finishCommand at h
  split at h
  · simp at h
  · rename_i r hfind
    simp only [advanceProcessed,bind,Option.bind_eq_some_iff] at h
    obtain ⟨s₁,⟨cursor,hadvance,hs₁⟩,h⟩ := h
    obtain ⟨envelopes,henv,hfile⟩ := pushRuntimeEvents_spec (J := J) commandId r.sessionId now events 0 s₁
    rw [pushUnknownEvent_spec,hfile,henv] at h
    simp only [pure,Option.some.injEq,Except.ok.injEq,Prod.mk.injEq] at h hs₁
    obtain ⟨rfl,rfl⟩ := h
    subst hs₁
    exact ⟨r,cursor,hfind,hadvance,by simp [JournalFile.updateCommand]⟩

theorem finishCommand_moves {commandId : String} {outcome : DispatchOutcome} {events : List Event}
    {now : Clock} {emitted : List EventEnvelope}
    (h : finishCommand J commandId outcome events now s = some (.ok (emitted,s'))) :
    Moves J E s.view s'.view := by
  obtain ⟨r,cursor,hfind,hadvance,rfl⟩ := finishCommand_cases h
  obtain rfl := (Table.find?_key hfind).2
  have hmove := @Moves.finish J E s.view r outcome (now 0) _ cursor hfind hadvance
  convert hmove using 1
  ext id
  · rfl
  · rfl
  · simp only [JournalFile.view,JournalFile.session,OrdMap.get_modify,Function.update_apply]
    split_ifs <;> rfl

theorem compactSession_moves (sessionId : String) :
    Moves J E s.view (compactSession J sessionId s).view :=
  .compact sessionId

theorem appendEvent_cases {eventId sessionId : String} {event : Event} {now : Clock}
    {a : AppendedEvent} (h : appendEvent J eventId sessionId event now s = .ok (a,s')) :
    s' = s ∨ ((∀ r ∈ s.events, r.daemonId = J.daemonId → r.envelope.eventId ≠ eventId) ∧
      (∀ t ∈ s.eventTombstones, t.daemonId = J.daemonId → t.eventId ≠ eventId) ∧
      a.envelope = ⟨eventId,sessionId,s.nextEventSequence sessionId,now 0,schemaVersion,event⟩ ∧
      s' = pushEvent J s a.envelope) := by
  unfold appendEvent at h
  split at h
  · split_ifs at h
    obtain ⟨-,rfl⟩ : _ ∧ s = s' := by simpa using h
    exact .inl rfl
  · rename_i hnone
    split at h
    · dsimp only at h
      split_ifs at h
      obtain ⟨-,rfl⟩ : _ ∧ s = s' := by simpa using h
      exact .inl rfl
    · rename_i hnone'
      simp only [bind,Except.bind] at h
      split at h
      · simp at h
      · split at h
        · simp at h
        · obtain ⟨rfl,rfl⟩ : _ = a ∧ _ = s' := by simpa [pure,Except.pure] using h
          exact .inr ⟨by simpa using hnone,by simpa using hnone',rfl,rfl⟩

theorem appendEvent_view {eventId sessionId : String} {event : Event} {now : Clock}
    {a : AppendedEvent} (h : appendEvent J eventId sessionId event now s = .ok (a,s')) :
    s'.view = s.view := by
  obtain rfl | ⟨-,-,-,rfl⟩ := appendEvent_cases h <;> rfl

theorem appendEventEnvelope_view {envelope : EventEnvelope} {duplicate : Bool} {a : AppendedEvent}
    (h : appendEventEnvelope J envelope duplicate s = .ok (a,s')) : s'.view = s.view := by
  simp only [appendEventEnvelope,bind,Except.bind] at h
  split at h
  · simp at h
  · split at h
    · obtain ⟨-,rfl⟩ : _ ∧ s = s' := by simpa [pure,Except.pure] using h
      rfl
    · split_ifs at h
      · obtain ⟨-,rfl⟩ : _ ∧ s = s' := by simpa [pure,Except.pure] using h
        rfl
      · obtain ⟨-,rfl⟩ : _ ∧ _ = s' := by simpa [pure,Except.pure] using h
        rfl

theorem view_modify (s : JournalFile) (id : String) (f : SessionJournal → SessionJournal)
    (events : List EventRecord) (hf : ∀ x, (f x).processedThroughSeq = x.processedThroughSeq) :
    ({ s with sessions := s.sessions.modify id {} f, events := events } : JournalFile).view =
      s.view := by
  ext id'
  · rfl
  · rfl
  · simp only [JournalFile.view,JournalFile.session,OrdMap.get_modify]
    split_ifs with h
    · subst h
      simp [hf]
    · rfl

theorem noteAcknowledged_processed (ack : EventAck) (x : SessionJournal) :
    (noteAcknowledged ack x).processedThroughSeq = x.processedThroughSeq := by
  unfold noteAcknowledged
  split_ifs <;> rfl

theorem advanceEventAck_cases {sessionId : String} (h : advanceEventAck s sessionId = some s') :
    ∃ cursor, Watermark.advance u64Max (s.acknowledgedAt sessionId) (s.events.length+1)
        (s.session sessionId).eventAckThroughSeq = some cursor ∧
      s' = { s with sessions := s.sessions.modify sessionId {} (·.raiseEventAck cursor) } := by
  simp only [advanceEventAck,bind,Option.bind_eq_some_iff] at h
  obtain ⟨cursor,hadvance,hs⟩ := h
  exact ⟨cursor,hadvance,(Option.some.inj hs).symm⟩

theorem advanceEventAck_view {sessionId : String} (h : advanceEventAck s sessionId = some s') :
    s'.view = s.view := by
  obtain ⟨cursor,-,rfl⟩ := advanceEventAck_cases h
  refine view_modify s sessionId _ s.events fun x => ?_
  unfold SessionJournal.raiseEventAck
  split_ifs <;> rfl

/-- What a successful `acknowledge_event` met: a tombstone, an acknowledged record, or
a live record that it acknowledges. -/
theorem acknowledgeEvent_cases {ack : EventAck} {u : Unit}
    (h : acknowledgeEvent ack s = some (.ok (u,s'))) :
    (∃ t ∈ s.eventTombstones, t.eventId = ack.eventId ∧ t.sessionId = ack.sessionId ∧
      t.daemonEventSeq = ack.daemonEventSeq ∧
      s' = s.updateEventTombstone ack.eventId (fillTombstoneStatus ack.status)) ∨
    ∃ r, s.events.find? (fun r => decide (r.envelope.eventId = ack.eventId)) = some r ∧
      r.envelope.sessionId = ack.sessionId ∧ r.envelope.daemonEventSeq = ack.daemonEventSeq ∧
      ((r.acknowledged = true ∧ s' = s.updateEvent ack.eventId (fillStatus ack.status)) ∨
        (r.acknowledged = false ∧
          advanceEventAck (markAcknowledged s ack) ack.sessionId = some s')) := by
  unfold acknowledgeEvent at h
  split at h
  · split at h
    · rename_i t hfind
      by_cases hc : t.sessionId ≠ ack.sessionId ∨ t.daemonEventSeq ≠ ack.daemonEventSeq ∨
          t.acknowledgement.any (· ≠ ack.status) = true
      · rw [if_pos hc] at h
        simp at h
      · rw [if_neg hc] at h
        obtain rfl : _ = s' := by simpa using h
        obtain ⟨hmem,hid⟩ := Table.find?_key hfind
        push Not at hc
        exact .inl ⟨t,hmem,hid,hc.1,hc.2.1,rfl⟩
    · simp at h
  · rename_i r hfind
    by_cases hc : r.envelope.sessionId ≠ ack.sessionId ∨
        r.envelope.daemonEventSeq ≠ ack.daemonEventSeq
    · rw [if_pos hc] at h
      simp at h
    · rw [if_neg hc] at h
      push Not at hc
      refine .inr ⟨r,hfind,hc.1,hc.2,?_⟩
      cases hack : r.acknowledged with
      | true =>
        rw [if_pos hack] at h
        split_ifs at h with hstatus
        · simp at h
        · obtain rfl : _ = s' := by simpa using h
          exact .inl ⟨rfl,rfl⟩
      | false =>
        rw [if_neg (by simp [hack])] at h
        simp only [bind,Option.bind_eq_some_iff,pure,Option.some.injEq,Except.ok.injEq,
          Prod.mk.injEq,true_and] at h
        obtain ⟨s₁,hadvance,rfl⟩ := h
        exact .inr ⟨rfl,hadvance⟩

theorem acknowledgeEvent_view {ack : EventAck} {u : Unit}
    (h : acknowledgeEvent ack s = some (.ok (u,s'))) : s'.view = s.view := by
  obtain ⟨t,-,-,-,-,rfl⟩ | ⟨r,-,-,-,⟨-,rfl⟩ | ⟨-,hadvance⟩⟩ := acknowledgeEvent_cases h
  · rfl
  · rfl
  · rw [advanceEventAck_view hadvance]
    exact view_modify s ack.sessionId _ _ (noteAcknowledged_processed ack)

theorem reconcileSession_view (s : JournalFile) (remote : SessionReconcileState) :
    (reconcileSession s remote).view = s.view :=
  view_modify s remote.sessionId _ _ fun _ => rfl

theorem applyReconciliation_view (s : JournalFile) (snapshot : ReconcileSnapshot) :
    (applyReconciliation snapshot s).view = s.view := by
  unfold applyReconciliation
  induction snapshot.sessions generalizing s with
  | nil => rfl
  | cons remote rest ih => rw [List.foldl_cons,ih,reconcileSession_view]

end

/-- A handle whose digests spell the identity of an envelope out. -/
def plainHandle : Handle where
  daemonId := "daemon-1"
  commandDigest e := e.sessionId ++ "/" ++ toString e.serverCommandSeq ++ "/" ++ e.commandId
  eventDigest e := e.sessionId ++ "/" ++ toString e.daemonEventSeq ++ "/" ++ e.eventId

end Journal
end North
