import North.JournalEmits
import North.JournalIntake
import North.Lib.Backed

/-! A daemon acknowledges only commands that its journal took. Every operation keeps the
journal's trail when the command it takes is one of the commands in question, and every
command acknowledgement among its frames names a record or a tombstone. -/
namespace North

namespace Protocol

def commandAcksOf (frames : List DaemonFrame) : List CommandAck :=
  frames.filterMap fun
    | .commandAck ack => some ack
    | _ => none

theorem commandAcksOf_append (frames more : List DaemonFrame) :
    commandAcksOf (frames ++ more) = commandAcksOf frames ++ commandAcksOf more := by
  simp [commandAcksOf]

theorem commandAcksOf_map_event (envelopes : List EventEnvelope) :
    commandAcksOf (envelopes.map .event) = [] := by
  simp [commandAcksOf]

end Protocol

namespace Journal

open Machine Protocol Prog

def CommandIdentity.ack (i : CommandIdentity) : CommandAck :=
  ⟨i.commandId,i.sessionId,i.serverCommandSeq,Protocol.schemaVersion⟩

/-- A record or a tombstone of the journal has this acknowledgement. -/
def JournalFile.Took (s : JournalFile) (ack : CommandAck) : Prop := ∃ i ∈ s.view.identities, i.ack = ack

def Host.Took {σ : Type} (h : Host σ) (ack : CommandAck) : Prop := ∃ s ∈ h.history, s.Took ack

def Host.Current {σ : Type} (h : Host σ) : Prop := h.state ∈ h.history

theorem JournalFile.took_record {s : JournalFile} {r : CommandRecord} (hr : r ∈ s.commands) :
    s.Took (commandAck r) :=
  ⟨r.identity,CommandView.mem_identities.mpr (.inl ⟨r,hr,rfl⟩),rfl⟩

theorem JournalFile.took_tombstone {s : JournalFile} {t : CommandTombstone} (ht : t ∈ s.commandTombstones) :
    s.Took t.identity.ack :=
  ⟨t.identity,CommandView.mem_identities.mpr (.inr ⟨t,ht,rfl⟩),rfl⟩

theorem prepareCommand_took {J : Handle} {s s' : JournalFile} {e : CommandEnvelope} {digest : String}
    {m : Option String} {now : Clock} {p : Prepared} (h : prepareCommand J e digest m now s = .ok (p,s')) :
    s'.Took (commandAck p.record) := by
  unfold prepareCommand at h
  cases hid : validateCommandIdentity s J.daemonId e digest m with
  | error err => simp [hid,bind,Except.bind] at h
  | ok u =>
    simp only [hid,bind,Except.bind] at h
    split at h
    · rename_i existing hfind
      obtain ⟨rfl,rfl⟩ : _ = p ∧ s = s' := by simpa [pure,Except.pure] using h
      exact JournalFile.took_record (List.mem_of_find?_eq_some hfind)
    · split at h
      · rename_i tombstone hfind
        obtain ⟨rfl,rfl⟩ : _ = p ∧ s = s' := by simpa [pure,Except.pure] using h
        exact JournalFile.took_tombstone (List.mem_of_find?_eq_some hfind)
      · split_ifs at h
        obtain ⟨rfl,rfl⟩ : _ = p ∧ _ = s' := by simpa [pure,Except.pure] using h
        exact JournalFile.took_record (by simp)

section

variable {σ ε α β : Type} {W : World σ} {K : Set CommandAck}

/-- What a host took stays taken, and its memory is in its history. -/
abbrev Goes (h h' : Host σ) : Prop := Onward Host.Current Host.Took h h'

/-- The program acknowledges only what the journal took. -/
abbrev Acks (K : Set CommandAck) (m : Prog (Host σ) ε α) (out : α → List CommandAck) : Prop :=
  Backs Host.Current Host.Took K m out

theorem goes_settle (h : Host σ) (state file : JournalFile) : Goes h (h.settle state file) :=
  ⟨fun _ => List.mem_cons_self,fun _ ⟨s,hs,htook⟩ => ⟨s,List.mem_cons_of_mem _ hs,htook⟩⟩

theorem goes_update (section_ : Clock → Section α) : Within Goes (update W section_) := by
  intro h r h' hexec
  simp only [exec,update] at hexec
  split at hexec
  · simp at hexec
  · obtain ⟨-,rfl⟩ : _ ∧ _ = h' := by simpa using hexec
    exact goes_settle h _ _
  · split at hexec <;>
    · obtain ⟨-,rfl⟩ : _ ∧ _ = h' := by simpa only [Option.some.injEq,Prod.mk.injEq] using hexec
      exact goes_settle h _ _

theorem goes_callRuntime (f : σ → α × σ) : Within Goes (callRuntime f) := by
  rintro h r h' hexec
  obtain ⟨-,rfl⟩ : _ = r ∧ _ = h' := by simpa [exec,callRuntime] using hexec
  exact ⟨id,fun _ => id⟩

theorem goes_noteHanded (commandId : String) : Within Goes (noteHanded commandId : Op σ Unit) := by
  rintro h r h' hexec
  obtain ⟨-,rfl⟩ : _ = r ∧ _ = h' := by simpa [noteHanded,exec_modify] using hexec
  exact ⟨id,fun _ => id⟩

theorem goes_noteAcceptance (accepted : CommandAcceptance) :
    Within Goes (noteAcceptance accepted : Op σ Unit) := by
  unfold noteAcceptance
  split
  · exact goes_noteHanded _
  · exact within_pure _

theorem acks_journaled {m : Op σ α} {out : α → List CommandAck} (h : Acks K m out) :
    Acks K (journaled m) out := by
  refine (backs_attempt h).bind fun r => ?_
  cases r with
  | ok a => exact backs_pure fun _ hk => .inr hk
  | error e => exact (backs_fail _ _).mono fun _ _ hk => .inr hk

/-! ### Journal operations -/

theorem goes_commandRecord (commandId : String) :
    Within Goes (commandRecord commandId : Op σ CommandRecord) := by
  refine within_bind (within_look _) fun found => ?_
  cases found with
  | none => exact within_fail _
  | some record => exact within_pure record

theorem unheard_commandRecord (commandId : String) :
    Acks K (commandRecord commandId : Op σ CommandRecord) fun _ => [] :=
  backs_silent (goes_commandRecord _)

theorem acks_commandRecord (commandId : String) :
    Acks K (commandRecord commandId : Op σ CommandRecord) fun record => [commandAck record] := by
  refine backs_of_onward (goes_commandRecord _) fun h record h' hcurrent hexec => ?_
  obtain ⟨rfl,hfind⟩ := commandRecord_ok hexec
  simpa using ⟨_,hcurrent,JournalFile.took_record (List.mem_of_find?_eq_some hfind)⟩

theorem unheard_finishCommandOp (commandId : String) (outcome : DispatchOutcome) (events : List Event) :
    Acks K (finishCommandOp W commandId outcome events) fun _ => [] := backs_silent (goes_update _)

theorem unheard_compactSessionOp (sessionId : String) :
    Acks K (compactSessionOp W sessionId) fun _ => [] := backs_silent (goes_update _)

theorem acks_completeCommand (commandId : String) (outcome : DispatchOutcome) (events : List Event) :
    Acks K (completeCommand W commandId outcome events) fun _ => [] :=
  Backs.after (unheard_commandRecord commandId) fun _ => (unheard_finishCommandOp _ _ _).after fun _ =>
    (unheard_compactSessionOp _).after fun _ => backs_pure (by simp)

theorem acks_acceptCommandWithControl (e : CommandEnvelope) (allow : Bool) :
    Acks K (acceptCommandWithControl W e allow) fun accepted => [accepted.result.acknowledgement] := by
  have hprepare : ∀ K' : Set CommandAck, Acks K' (update W fun now s => some (prepareCommand W.handle e
      (W.handle.commandDigest e) (messageIdOf e.command) now s)) fun p => [commandAck p.record] := by
    refine fun K' => backs_of_onward (goes_update _) fun h p h' hcurrent hexec => ?_
    obtain ⟨s,hsection,hsettled⟩ := update_ok hexec
    have htook := prepareCommand_took (Option.some.inj hsection)
    rw [← hsettled.state] at htook
    simpa using ⟨_,(goes_update _ _ _ _ hexec).1 hcurrent,htook⟩
  refine Backs.after (backs_silent (within_orFail _)) fun _ => (hprepare K).bind fun p =>
    Backs.after (backs_silent (within_look _)) fun prior => ?_
  dsimp only
  split_ifs
  · exact backs_pure fun _ hk => .inr hk
  · refine Backs.after (backs_silent (goes_update _)) fun started => ?_
    split_ifs
    · exact backs_pure fun _ hk => .inr hk
    · exact (acks_commandRecord _).bind fun current => backs_pure fun _ hk => .inr hk

theorem acks_intake (e : CommandEnvelope) :
    Acks K (if e.command.isSessionCancel then acceptControlCommand W e else acceptCommand W e)
      fun accepted => [accepted.result.acknowledgement] := by
  split_ifs
  · exact acks_acceptCommandWithControl e true
  · exact acks_acceptCommandWithControl e false

theorem acks_acceptNextReadyCommand (sessionId : String) :
    Acks K (acceptNextReadyCommand W sessionId) fun accepted =>
      accepted.toList.map (·.result.acknowledgement) := by
  refine Backs.after (backs_silent (within_look _)) fun next => ?_
  cases next with
  | none => exact backs_pure (by simp)
  | some command => exact triple_map (acks_acceptCommandWithControl command false) fun _ _ hs => hs

theorem acks_processCommand (e : CommandEnvelope) :
    Acks K (processCommand W e) fun result => [result.acknowledgement] := by
  refine (acks_intake e).bind fun accepted => ?_
  cases hc : accepted.command with
  | none => exact backs_pure fun _ hk => .inr hk
  | some command =>
    exact Backs.after (backs_silent (goes_noteHanded _)) fun _ =>
      Backs.after (backs_silent (goes_callRuntime _)) fun outcome =>
      Backs.after (backs_silent (goes_callRuntime _)) fun events => (unheard_finishCommandOp _ _ _).after
        fun _ => (unheard_compactSessionOp _).after fun _ => backs_pure fun _ hk => .inr hk

def acksBy (results : List CommandProcessResult) : List CommandAck := results.map (·.acknowledgement)

theorem acksBy_snoc {results : List CommandProcessResult} (result : CommandProcessResult)
    (hk : ∀ k ∈ acksBy results, k ∈ K) :
    ∀ k ∈ acksBy (results ++ [result]), k ∈ K ∪ {k | k ∈ [result.acknowledgement]} := by
  intro k h
  simp only [acksBy,List.map_append,List.map_cons,List.map_nil,List.mem_append] at h
  exact h.imp_left (hk k)

theorem acks_processReadyLoop (sessionId : String) (fuel : ℕ) (results : List CommandProcessResult)
    (hk : ∀ k ∈ acksBy results, k ∈ K) : Acks K (processReadyLoop W sessionId fuel results) acksBy := by
  induction fuel generalizing results K with
  | zero =>
    intro h hs r h' he
    simp [exec,processReadyLoop] at he
  | succ fuel ih =>
    refine Backs.after (backs_silent (within_look _)) fun next => ?_
    cases next with
    | none => exact backs_pure hk
    | some command => exact (acks_processCommand command).bind fun result => ih _ (acksBy_snoc _ hk)

theorem acks_processReady (sessionId : String) : Acks K (processReady W sessionId) acksBy :=
  Backs.after (backs_silent (within_look _)) fun fuel =>
    acks_processReadyLoop sessionId fuel [] (by simp [acksBy])

theorem acks_recoverOutcome (record : CommandRecord) : Acks K (recoverOutcome W record) fun _ => [] :=
  Backs.after (backs_silent (goes_callRuntime _)) fun _ => backs_pure (by simp)

theorem acks_records (f : CommandRecord → Bool) :
    Acks K (look fun h : Host σ => h.state.commands.filter f : Op σ _) (·.map commandAck) := by
  refine backs_look fun h hcurrent k hk => ?_
  obtain ⟨r,hr,rfl⟩ := List.mem_map.mp hk
  exact ⟨_,hcurrent,JournalFile.took_record (List.mem_of_mem_filter hr)⟩

theorem acks_resolveStarted (records : List CommandRecord) (results : List CommandProcessResult)
    (hrecords : ∀ r ∈ records, commandAck r ∈ K) (hk : ∀ k ∈ acksBy results, k ∈ K) :
    Acks K (resolveStarted W records results) acksBy := by
  induction records generalizing results with
  | nil => exact backs_pure hk
  | cons record records ih =>
    refine Backs.after (acks_recoverOutcome record) fun outcome =>
      Backs.after (acks_completeCommand _ _ _) fun emitted =>
        ih _ (fun r hr => hrecords r (by simp [hr])) fun k h => ?_
    rcases acksBy_snoc _ hk k h with h | h
    · exact h
    · obtain rfl : k = commandAck record := List.mem_singleton.mp h
      exact hrecords record (by simp)

theorem acks_acceptReadySessions (sessionIds : List String) (actions : RecoveryActions)
    (hk : ∀ k ∈ acksBy actions.results, k ∈ K) :
    Acks K (acceptReadySessions W sessionIds actions) fun actions => acksBy actions.results := by
  induction sessionIds generalizing actions K with
  | nil => exact backs_pure hk
  | cons sessionId sessionIds ih =>
    refine (acks_acceptNextReadyCommand sessionId).bind fun accepted => ?_
    cases accepted with
    | none => exact ih actions fun k h => .inl (hk k h)
    | some accepted =>
      exact Backs.after (backs_silent (goes_noteAcceptance accepted)) fun _ =>
        ih _ (acksBy_snoc accepted.result hk)

theorem acks_recoverForScheduler :
    Acks K (recoverForScheduler W) fun actions => acksBy actions.results :=
  (acks_records _).bind fun records =>
    (acks_resolveStarted records [] (fun r hr => .inr (List.mem_map_of_mem hr)) (by simp [acksBy])).bind
      fun results => Backs.after (backs_silent (within_look _)) fun sessionIds =>
        acks_acceptReadySessions sessionIds ⟨results,[]⟩ fun _ h => .inr h

theorem acks_recoverRecords (records : List CommandRecord) (results : List CommandProcessResult)
    (hrecords : ∀ r ∈ records, commandAck r ∈ K) (hk : ∀ k ∈ acksBy results, k ∈ K) :
    Acks K (recoverRecords W records results) acksBy := by
  induction records generalizing results K with
  | nil => exact backs_pure hk
  | cons record records ih =>
    unfold recoverRecords
    have hrest : ∀ r ∈ records, commandAck r ∈ K := fun r hr => hrecords r (by simp [hr])
    split_ifs
    · exact (acks_processCommand _).bind fun result =>
        ih _ (fun r hr => .inl (hrest r hr)) (acksBy_snoc _ hk)
    · refine Backs.after (acks_recoverOutcome record) fun outcome =>
        Backs.after (unheard_finishCommandOp _ _ _) fun emitted =>
          Backs.after (unheard_compactSessionOp _) fun _ => ih _ hrest fun k h => ?_
      rcases acksBy_snoc _ hk k h with h | h
      · exact h
      · obtain rfl : k = commandAck record := List.mem_singleton.mp h
        exact hrecords record (by simp)

theorem acks_processReadySessions (sessionIds : List String) (results : List CommandProcessResult)
    (hk : ∀ k ∈ acksBy results, k ∈ K) : Acks K (processReadySessions W sessionIds results) acksBy := by
  induction sessionIds generalizing results K with
  | nil => exact backs_pure hk
  | cons sessionId sessionIds ih =>
    refine (acks_processReady sessionId).bind fun ready => ih _ fun k h => ?_
    simp only [acksBy,List.map_append,List.mem_append] at h
    exact h.imp_left (hk k)

theorem acks_recover : Acks K (recover W) acksBy :=
  (acks_records _).bind fun records =>
    (acks_recoverRecords records [] (fun r hr => .inr (List.mem_map_of_mem hr)) (by simp [acksBy])).bind
      fun results => Backs.after (backs_silent (within_look _)) fun sessionIds =>
        acks_processReadySessions sessionIds results fun _ h => .inr h

theorem goes_reopen : Within Goes (reopen W) := by
  refine within_bind (within_look _) fun opened => within_bind (within_orFail _) fun state => ?_
  rintro h r h' hexec
  obtain ⟨-,rfl⟩ : _ = r ∧ _ = h' := by simpa [exec_modify] using hexec
  exact goes_settle h _ _

/-! ### Operations of the coordinator -/

theorem commandAcksOf_result (result : CommandProcessResult) :
    commandAcksOf (commandResultToFrames result) = [result.acknowledgement] := by
  simp [commandResultToFrames,commandAcksOf]

theorem commandAcksOf_results (results : List CommandProcessResult) :
    commandAcksOf (commandResultsToFrames results) = acksBy results := by
  induction results with
  | nil => rfl
  | cons result results ih =>
    rw [commandResultsToFrames,List.flatMap_cons,commandAcksOf_append,commandAcksOf_result]
    exact congrArg (result.acknowledgement::·) ih

theorem acks_answerCommand {conflict : String → α} {m : Op σ α} {out : α → List CommandAck}
    (hconflict : ∀ reason, out (conflict reason) = []) (hm : Acks K m out) :
    Acks K (Coordinator.answerCommand conflict m) out := by
  refine (backs_attempt hm).bind fun result => ?_
  cases result with
  | ok a => exact backs_pure fun _ hk => .inr hk
  | error e =>
    cases e <;> first
      | exact backs_pure (by simp [hconflict])
      | exact backs_fail _ _

theorem acks_acceptEventAck (ack : EventAck) : Acks K (Coordinator.acceptEventAck W ack) commandAcksOf := by
  refine (backs_attempt (backs_silent (within_bind (within_orFail _) fun _ => goes_update _))).bind
    fun result => ?_
  cases result with
  | ok _ => exact Backs.after (acks_journaled (unheard_compactSessionOp _)) fun _ =>
      backs_pure (by simp [commandAcksOf])
  | error e =>
    cases e <;> first
      | exact backs_pure (by simp [commandAcksOf])
      | exact backs_fail _ _

theorem acks_acceptServerFrame (frame : ServerFrame) :
    Acks K (Coordinator.acceptServerFrame W frame) fun actions => commandAcksOf actions.frames := by
  cases frame with
  | welcome => exact backs_pure (by simp [commandAcksOf])
  | reconcile snapshot => exact backs_pure (by simp [commandAcksOf])
  | protocolError code message => exact backs_fail _ _
  | eventAck ack => exact (acks_acceptEventAck ack).bind fun frames => backs_pure fun _ h => .inr h
  | command command =>
    refine acks_answerCommand (fun _ => by simp [commandAcksOf]) ?_
    refine (acks_intake command).bind fun accepted =>
      Backs.after (backs_silent (goes_noteAcceptance accepted)) fun _ => backs_pure fun k h => ?_
    rw [acceptanceActions,commandAcksOf_result] at h
    exact .inr h

theorem acks_processServerFrame (frame : ServerFrame) :
    Acks K (Coordinator.processServerFrame W frame) commandAcksOf := by
  cases frame with
  | welcome => exact backs_pure (by simp [commandAcksOf])
  | reconcile snapshot => exact backs_pure (by simp [commandAcksOf])
  | protocolError code message => exact backs_fail _ _
  | eventAck ack => exact acks_acceptEventAck ack
  | command command =>
    refine acks_answerCommand (fun _ => by simp [commandAcksOf]) ?_
    refine (acks_processCommand command).bind fun result => (acks_processReady _).bind fun ready =>
      backs_pure fun k h => ?_
    rw [commandAcksOf_append,commandAcksOf_result,commandAcksOf_results,List.mem_append] at h
    exact h.elim (fun h => .inl (.inr h)) .inr

theorem acks_replaySessions (sessions : List SessionReconcileState) (replay : List DaemonFrame)
    (hk : ∀ k ∈ commandAcksOf replay, k ∈ K) :
    Acks K (Coordinator.replaySessions sessions replay : CoordOp σ _) commandAcksOf := by
  induction sessions generalizing replay with
  | nil => exact backs_pure hk
  | cons session sessions ih =>
    refine Backs.after (backs_silent (within_look _)) fun events => ih _ ?_
    rw [commandAcksOf_append,commandAcksOf_map_event,List.append_nil]
    exact hk

theorem acks_finishRuntime (sessionId commandId : String) (outcome : DispatchOutcome)
    (events : List Event) : Acks K (Coordinator.finishRuntime W sessionId commandId outcome events)
      fun actions => commandAcksOf actions.frames := by
  refine Backs.after (acks_journaled (acks_completeCommand _ _ _)) fun emitted =>
    (acks_journaled (acks_acceptNextReadyCommand sessionId)).bind fun accepted => ?_
  cases accepted with
  | none => exact backs_pure (by simp [commandAcksOf_map_event])
  | some accepted =>
    refine Backs.after (acks_journaled (backs_silent (goes_noteAcceptance accepted))) fun _ =>
      backs_pure fun k h => ?_
    rw [commandAcksOf_append,commandAcksOf_map_event,commandAcksOf_result,List.nil_append] at h
    exact .inr h

theorem acks_coordinatorRecover :
    Acks K (Coordinator.recoverForScheduler W) fun actions => commandAcksOf actions.frames := by
  refine (acks_journaled acks_recoverForScheduler).bind fun recovery => backs_pure fun k h => ?_
  rw [commandAcksOf_results] at h
  exact .inr h

/-- Every operation of a daemon acknowledges only commands that its journal took. -/
theorem DaemonOp.acks (op : DaemonOp) : Acks K (op.run W) commandAcksOf := by
  cases op with
  | recoverForScheduler =>
    exact acks_coordinatorRecover.bind fun actions => backs_pure fun _ h => .inr h
  | recover =>
    refine Backs.bind (acks_journaled acks_recover) fun results => backs_pure fun k h => ?_
    rw [commandAcksOf_results] at h
    exact .inr h
  | reconcile snapshot =>
    exact Backs.after (acks_journaled (backs_silent (within_bind (within_orFail _) fun _ => goes_update _)))
      fun _ => acks_replaySessions _ [] (by simp [commandAcksOf])
  | acceptServerFrame frame =>
    exact Backs.bind (acks_acceptServerFrame frame) fun actions => backs_pure fun _ h => .inr h
  | processServerFrame frame => exact acks_processServerFrame frame
  | finishRuntime sessionId commandId outcome events =>
    exact Backs.bind (acks_finishRuntime sessionId commandId outcome events) fun actions =>
      backs_pure fun _ h => .inr h
  | appendEvent eventId sessionId event =>
    exact Backs.after (acks_journaled (backs_silent (goes_update _))) fun _ =>
      backs_pure (by simp [commandAcksOf])
  | appendEventEnvelope envelope digest duplicate =>
    refine Backs.after (acks_journaled (backs_silent (within_bind (within_orFail _) fun _ => ?_))) fun _ =>
      backs_pure (by simp [commandAcksOf])
    split_ifs
    · exact within_fail _
    · exact goes_update _
  | compactSession sessionId =>
    exact Backs.after (acks_journaled (unheard_compactSessionOp _)) fun _ => backs_pure (by simp [commandAcksOf])
  | reopen =>
    exact Backs.after (acks_journaled (backs_silent goes_reopen)) fun _ => backs_pure (by simp [commandAcksOf])

end

end Journal
end North
