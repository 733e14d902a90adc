import North.JournalAcks
import North.JournalResults
import North.Lib.Steps

/-! The two advance loops of the journal. They step with a saturating addition, so one
that finds every place ahead of it marked turns at the largest sequence number for ever.
This module says which calls meet that, and so which runs have a call that never returns. -/
namespace North
namespace Journal

open Machine Protocol Prog Watermark

section

variable {J : Handle} {s : JournalFile}

theorem mem_sequences {commands : List CommandRecord} {sessionId : String} {seq : ℕ}
    (h : terminalIn commands sessionId seq = true) : seq ∈ commands.map (·.serverCommandSeq) := by
  simp only [terminalIn,List.any_eq_true,Bool.and_eq_true,beq_iff_eq] at h
  obtain ⟨r,hr,⟨-,hseq⟩,-⟩ := h
  exact List.mem_map.mpr ⟨r,hr,hseq⟩

theorem mem_eventSequences {sessionId : String} {seq : ℕ}
    (h : s.acknowledgedAt sessionId seq = true) : seq ∈ s.events.map (·.envelope.daemonEventSeq) := by
  obtain ⟨r,hr,-,-,hseq⟩ := (acknowledgedAt_iff _ _ _).mp h
  exact List.mem_map.mpr ⟨r,hr,hseq⟩

/-- `advance_processed` has no end just when its loop has none. -/
theorem advanceProcessed_none_iff {sessionId : String} :
    advanceProcessed s sessionId = none ↔ Full u64Max (terminalIn s.commands sessionId)
      (s.session sessionId).processedThroughSeq := by
  rw [← advance_none_iff _ fun m hm => mem_sequences hm,List.length_map]
  simp only [advanceProcessed,bind,pure]
  cases advance u64Max (terminalIn s.commands sessionId) (s.commands.length+1)
      (s.session sessionId).processedThroughSeq <;> simp

theorem advanceEventAck_none_iff {sessionId : String} :
    advanceEventAck s sessionId = none ↔ Full u64Max (s.acknowledgedAt sessionId)
      (s.session sessionId).eventAckThroughSeq := by
  rw [← advance_none_iff _ fun m hm => mem_eventSequences hm,List.length_map]
  simp only [advanceEventAck,bind,pure]
  cases advance u64Max (s.acknowledgedAt sessionId) (s.events.length+1)
      (s.session sessionId).eventAckThroughSeq <;> simp

/-- Finishing the command leaves no gap ahead of the processed boundary of its session. -/
def ClosesProcessed (s : JournalFile) (commandId : String) : Prop :=
  ∃ r, s.commands.find? (fun r => decide (r.commandId = commandId)) = some r ∧
    Full u64Max (fun seq => terminalIn s.commands r.sessionId seq || r.serverCommandSeq == seq)
      (s.session r.sessionId).processedThroughSeq

/-- The acknowledgement is the first one of a live event, and leaves no gap ahead of the
event watermark of its session. -/
def ClosesEventAck (s : JournalFile) (ack : EventAck) : Prop :=
  ∃ r, s.events.find? (fun r => decide (r.envelope.eventId = ack.eventId)) = some r ∧
    r.envelope.sessionId = ack.sessionId ∧ r.envelope.daemonEventSeq = ack.daemonEventSeq ∧
    r.acknowledged = false ∧
    Full u64Max (fun seq => s.acknowledgedAt ack.sessionId seq || ack.daemonEventSeq == seq)
      (s.session ack.sessionId).eventAckThroughSeq

theorem terminalIn_terminate {commandId : String} {outcome : DispatchOutcome} {now : String}
    {r : CommandRecord} (h : s.commands.find? (fun r => decide (r.commandId = commandId)) = some r)
    (seq : ℕ) :
    terminalIn (s.updateCommand commandId (terminate outcome now)).commands r.sessionId seq =
      (terminalIn s.commands r.sessionId seq || r.serverCommandSeq == seq) := by
  have hany := Table.any_updateFirst (f := terminate outcome now)
    (q := fun x => x.sessionId == r.sessionId && x.serverCommandSeq == seq && x.state == .terminal)
    (fun x hx => by simp_all [terminate]) h
  simpa [terminalIn,JournalFile.updateCommand,terminate] using hany

theorem acknowledgedAt_mark {ack : EventAck} {r : EventRecord}
    (h : s.events.find? (fun r => decide (r.envelope.eventId = ack.eventId)) = some r)
    (hsession : r.envelope.sessionId = ack.sessionId)
    (hseq : r.envelope.daemonEventSeq = ack.daemonEventSeq) (seq : ℕ) :
    (markAcknowledged s ack).acknowledgedAt ack.sessionId seq =
      (s.acknowledgedAt ack.sessionId seq || ack.daemonEventSeq == seq) := by
  have hany := Table.any_updateFirst (f := acknowledge ack.status)
    (q := fun x => x.envelope.sessionId == ack.sessionId && x.envelope.daemonEventSeq == seq &&
      x.acknowledged)
    (fun x hx => by simp_all [acknowledge]) h
  simpa [JournalFile.acknowledgedAt,markAcknowledged,JournalFile.updateEvent,acknowledge,hsession,
    hseq] using hany

theorem finishCommand_none_iff {commandId : String} {outcome : DispatchOutcome}
    {events : List Event} {now : Clock} :
    finishCommand J commandId outcome events now s = none ↔ ClosesProcessed s commandId := by
  unfold finishCommand ClosesProcessed
  cases hfind : s.commands.find? (fun r => decide (r.commandId = commandId)) with
  | none => simp
  | some r =>
    have hmarks : terminalIn (s.updateCommand commandId (terminate outcome (now 0))).commands
        r.sessionId = fun seq => terminalIn s.commands r.sessionId seq || r.serverCommandSeq == seq :=
      funext (terminalIn_terminate hfind)
    have hnone : advanceProcessed (s.updateCommand commandId (terminate outcome (now 0)))
        r.sessionId = none ↔ _ := advanceProcessed_none_iff
    rw [hmarks] at hnone
    simp only [Option.some.injEq,exists_eq_left']
    refine Iff.trans ?_ hnone
    simp only [bind]
    cases advanceProcessed (s.updateCommand commandId (terminate outcome (now 0))) r.sessionId <;>
      simp

theorem acknowledgeEvent_none_iff {ack : EventAck} :
    acknowledgeEvent ack s = none ↔ ClosesEventAck s ack := by
  unfold acknowledgeEvent ClosesEventAck
  cases hfind : s.events.find? (fun r => decide (r.envelope.eventId = ack.eventId)) with
  | none =>
    simp only [reduceCtorEq,false_and,exists_false,iff_false]
    split
    · split_ifs <;> simp
    · simp
  | some r =>
    simp only [Option.some.injEq,exists_eq_left']
    by_cases hidentity : r.envelope.sessionId = ack.sessionId ∧
        r.envelope.daemonEventSeq = ack.daemonEventSeq
    · obtain ⟨hsession,hseq⟩ := hidentity
      cases hacked : r.acknowledged with
      | true => 
        simp only [hsession,hseq]
        split_ifs <;> simp_all
      | false =>
        have hmarks : (markAcknowledged s ack).acknowledgedAt ack.sessionId =
            fun seq => s.acknowledgedAt ack.sessionId seq || ack.daemonEventSeq == seq :=
          funext (acknowledgedAt_mark hfind hsession hseq)
        have hcursor : ((markAcknowledged s ack).session ack.sessionId).eventAckThroughSeq =
            (s.session ack.sessionId).eventAckThroughSeq := by
          rw [markAcknowledged_session,if_pos rfl,noteAcknowledged_through]
        have hnone : advanceEventAck (markAcknowledged s ack) ack.sessionId = none ↔ _ :=
          advanceEventAck_none_iff
        rw [hmarks,hcursor] at hnone
        simp only [hsession,hseq,ne_eq,not_true,or_self,if_false,Bool.false_eq_true,true_and]
        refine Iff.trans ?_ hnone
        simp only [bind]
        cases advanceEventAck (markAcknowledged s ack) ack.sessionId <;> simp
    · have hconflict : r.envelope.sessionId ≠ ack.sessionId ∨
          r.envelope.daemonEventSeq ≠ ack.daemonEventSeq := by tauto
      simp only [hconflict,if_true,reduceCtorEq,false_iff]
      tauto

end

section

variable {σ : Type} {W : World σ}

theorem update_none_iff {α : Type} {section_ : Clock → Section α} {h : Host σ} :
    (update W section_).exec h = none ↔ section_ (W.weather h.tick).2 h.state = none := by
  unfold exec update
  split
  · simp [*]
  · simp [*]
  · split <;> simp [*]

theorem total_update {α : Type} {section_ : Clock → Section α}
    (h : ∀ now s, section_ now s ≠ none) : Total (update W section_) :=
  fun _ hnone => h _ _ (update_none_iff.mp hnone)

theorem total_commandRecord (commandId : String) : Total (commandRecord commandId : Op σ _) := by
  refine total_bind (total_look _) fun found => ?_
  cases found with
  | none => exact total_fail _
  | some record => exact total_pure record

theorem total_noteAcceptance (accepted : CommandAcceptance) :
    Total (noteAcceptance accepted : Op σ Unit) := by
  unfold noteAcceptance
  split
  · exact total_modify _
  · exact total_pure ()

theorem total_acceptCommandWithControl (envelope : CommandEnvelope) (control : Bool) :
    Total (acceptCommandWithControl W envelope control) := by
  unfold acceptCommandWithControl
  refine total_bind (total_orFail _) fun _ => ?_
  refine total_bind (total_update fun _ _ => by simp) fun p => ?_
  refine total_bind (total_look _) fun prior => ?_
  dsimp only
  split_ifs
  · exact total_pure _
  · refine total_bind (total_update fun _ _ => by simp) fun started => ?_
    split_ifs
    · exact total_pure _
    · exact total_bind (total_commandRecord _) fun _ => total_pure _

theorem total_acceptNextReadyCommand (sessionId : String) :
    Total (acceptNextReadyCommand W sessionId) := by
  refine total_bind (total_look _) fun next => ?_
  cases next with
  | none => exact total_pure none
  | some command =>
    exact total_map _ (total_acceptCommandWithControl command false)

/-- The calls that do not go through the runtime of the daemon. -/
def Call.direct : Call → Bool
  | .processCommand _ => false
  | .processReady _ => false
  | .recover => false
  | .recoverForScheduler => false
  | _ => true

/-- The condition under which a direct call meets a loop without end. -/
def Call.Spins (s : JournalFile) : Call → Prop
  | .completeCommand commandId _ _ => ClosesProcessed s commandId
  | .acknowledgeEvent ack => ack.validate = .ok () ∧ ClosesEventAck s ack
  | _ => False

theorem total_compactSessionOp (sessionId : String) : Total (compactSessionOp W sessionId) :=
  total_update fun _ _ => by simp

theorem finish_never_iff {commandId sessionId : String} {outcome : DispatchOutcome}
    {events : List Event} {h : Host σ} :
    (finishCommandOp W commandId outcome events >>= fun emitted =>
      compactSessionOp W sessionId >>= fun _ => pure emitted : Op σ _).exec h = none ↔
        ClosesProcessed h.state commandId := by
  rw [bind_never_of_total fun _ => total_bind (total_compactSessionOp sessionId)
    fun _ => total_pure _]
  exact update_none_iff.trans finishCommand_none_iff

theorem completeCommand_never_iff {commandId : String} {outcome : DispatchOutcome}
    {events : List Event} {h : Host σ} :
    (completeCommand W commandId outcome events).exec h = none ↔
      ClosesProcessed h.state commandId := by
  rw [completeCommand,bind_never]
  constructor
  · rintro (hfirst | ⟨record,h₁,hrecord,hrest⟩)
    · exact absurd hfirst (total_commandRecord commandId h)
    · obtain ⟨rfl,-⟩ := commandRecord_ok hrecord
      exact finish_never_iff.mp hrest
  · intro hcloses
    obtain ⟨record,hfind,-⟩ := id hcloses
    have hrecord : (commandRecord commandId : Op σ _).exec h = some (.ok record,h) := by
      rw [commandRecord,exec_bind,exec_look]
      simp only [hfind,exec_pure]
    exact .inr ⟨record,h,hrecord,finish_never_iff.mpr hcloses⟩

theorem acknowledgeEventOp_never_iff {ack : EventAck} {h : Host σ} :
    (acknowledgeEventOp W ack).exec h = none ↔
      ack.validate = .ok () ∧ ClosesEventAck h.state ack := by
  rw [acknowledgeEventOp,exec_bind,exec_orFail]
  cases hvalid : ack.validate with
  | error e => simp [protocolChecked,Except.mapError]
  | ok u => simpa [protocolChecked,Except.mapError] using update_none_iff.trans acknowledgeEvent_none_iff

/-- A direct call runs on for ever just when it meets a loop without end. -/
theorem run_never_iff {call : Call} (hcall : call.direct = true) {h : Host σ} :
    (call.run W).exec h = none ↔ call.Spins h.state := by
  have htotal : Total (call.run W) → ((call.run W).exec h = none ↔ False) :=
    fun ht => iff_false_intro (ht h)
  cases call with
  | acceptCommand e =>
    exact htotal (total_bind (total_acceptCommandWithControl e false) total_noteAcceptance)
  | acceptControlCommand e =>
    exact htotal (total_bind (total_acceptCommandWithControl e true) total_noteAcceptance)
  | acceptNextReadyCommand id =>
    refine htotal (total_bind (total_acceptNextReadyCommand id) fun accepted => ?_)
    cases accepted with
    | none => exact total_pure ()
    | some a => exact total_noteAcceptance a
  | processCommand e => simp [Call.direct] at hcall
  | processReady id => simp [Call.direct] at hcall
  | completeCommand id outcome events => exact map_never.trans completeCommand_never_iff
  | compactSession id => exact htotal (total_compactSessionOp id)
  | recover => simp [Call.direct] at hcall
  | recoverForScheduler => simp [Call.direct] at hcall
  | appendEvent id sessionId event => exact htotal (total_map _ (total_update fun _ _ => by simp))
  | appendEventEnvelope e digest duplicate =>
    refine htotal (total_map _ (total_bind (total_orFail _) fun _ => ?_))
    split_ifs
    · exact total_fail _
    · exact total_update fun _ _ => by simp
  | acknowledgeEvent ack => exact acknowledgeEventOp_never_iff
  | applyReconciliation snapshot =>
    exact htotal (total_bind (total_orFail _) fun _ => total_update fun _ _ => by simp)
  | reopen =>
    exact htotal (total_bind (total_look _) fun _ => total_bind (total_orFail _)
      fun _ => total_modify _)

/-- A call as a step of the host, whether it comes back with an error or not. -/
def callStep (W : World σ) (h : Host σ) (call : Call) : Option (Host σ) :=
  ((call.run W).exec h).map Prod.snd

theorem runCalls_eq_run (calls : List Call) (h : Host σ) :
    runCalls W calls h = Steps.run (callStep W) h calls := by
  induction calls generalizing h with
  | nil => rfl
  | cons call calls ih =>
    simp only [runCalls,Steps.run,callStep]
    cases (call.run W).exec h with
    | none => rfl
    | some p => exact ih p.2

theorem callStep_iff {call : Call} (hcall : call.direct = true) (h : Host σ) :
    (∃ h', callStep W h call = some h') ↔ ¬ call.Spins h.state := by
  rw [← run_never_iff hcall,callStep]
  cases (call.run W).exec h <;> simp

/-- The advance loops end in a run exactly when each of its calls leaves them a gap: in
the model a loop that is given up has no end, however many turns it is given, and a run
of calls goes through just when no call meets such a loop. -/
theorem loops_end_iff (W : World σ) (calls : List Call) (hcalls : ∀ call ∈ calls, call.direct = true)
    (h : Host σ) :
    (∀ s sessionId,
      (advanceProcessed s sessionId ≠ none ↔ Ends u64Max (terminalIn s.commands sessionId)
        (s.session sessionId).processedThroughSeq) ∧
      (advanceEventAck s sessionId ≠ none ↔ Ends u64Max (s.acknowledgedAt sessionId)
        (s.session sessionId).eventAckThroughSeq)) ∧
    ((∃ h', runCalls W calls h = some h') ↔
      Steps.Along (callStep W) (fun h call => ¬ call.Spins h.state) h calls) := by
  refine ⟨fun s sessionId => ⟨?_,?_⟩,?_⟩
  · rw [Ne,advanceProcessed_none_iff,ends_iff _ fun m hm => mem_sequences hm]
  · rw [Ne,advanceEventAck_none_iff,ends_iff _ fun m hm => mem_eventSequences hm]
  · rw [runCalls_eq_run]
    exact Steps.possible_iff_along (fun call hc => callStep_iff (hcalls call hc)) h

end

/-- The server's watermark is at the largest sequence number, so that the next event of
the session takes this number too. -/
def saturatedSnapshot : ReconcileSnapshot := ⟨1,[⟨"session-1",0,u64Max,[]⟩]⟩

def saturatedRun : List Call :=
  [.acceptCommand (resumeEnvelope 1 "a"),.applyReconciliation saturatedSnapshot,
    .completeCommand "a" .dispatchSucceeded [.agentActivity "working"]]

def saturatedAck : EventAck := acceptedAck "runtime-a-1" u64Max

theorem saturatedRun_returns : (∃ h : Host Unit, runCalls calmWorld saturatedRun { runtime := () } = some h) ∧
    Steps.Along (callStep calmWorld) (fun h call => ¬ call.Spins h.state) { runtime := () } saturatedRun := by
  have hreturns : (runCalls calmWorld saturatedRun { runtime := () }).isSome = true := by decide +kernel
  have hrun := Option.isSome_iff_exists.mp hreturns
  exact ⟨hrun,((loops_end_iff calmWorld saturatedRun (by decide) { runtime := () }).2).mp hrun⟩

/-- The frames are valid and the calls before it return, but the acknowledgement of that
event never does: its loop finds the event at the largest number again and again. -/
theorem saturatedAck_never_returns : saturatedSnapshot.validate = .ok () ∧ saturatedAck.validate = .ok () ∧
    ∃ h : Host Unit, runCalls calmWorld saturatedRun { runtime := () } = some h ∧
      runCalls calmWorld (saturatedRun ++ [.acknowledgeEvent saturatedAck]) { runtime := () } = none ∧
      ¬ Ends u64Max ((markAcknowledged h.state saturatedAck).acknowledgedAt "session-1")
        ((markAcknowledged h.state saturatedAck).session "session-1").eventAckThroughSeq := by
  refine ⟨by decide,by decide,?_⟩
  have hstate : (runCalls calmWorld saturatedRun { runtime := () }).map (fun h =>
      (((markAcknowledged h.state saturatedAck).session "session-1").eventAckThroughSeq,
        (markAcknowledged h.state saturatedAck).acknowledgedAt "session-1" u64Max)) =
      some (u64Max,true) := by decide +kernel
  obtain ⟨h,hrun,hh⟩ := Option.map_eq_some_iff.mp hstate
  obtain ⟨hcursor,hmarked⟩ := Prod.mk.inj hh
  refine ⟨h,hrun,by decide +kernel,?_⟩
  rw [ends_iff _ fun m hm => mem_eventSequences hm,not_not,hcursor]
  exact ⟨hmarked,fun m hlo hhi => absurd hhi (not_le.mpr hlo)⟩

end Journal
end North
