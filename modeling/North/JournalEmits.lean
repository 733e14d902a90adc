import North.Coordination
import North.JournalEvents
import North.JournalRuns

/-! Whole operations of a daemon keep its journal sound for the committed events, whatever
its persists do, and every event they send is one that the journal holds. -/
namespace North
namespace Journal

open Machine Protocol Prog

/-- Some state of the journal had this live event. -/
def Host.Recorded {σ : Type} (h : Host σ) (e : EventEnvelope) : Prop :=
  ∃ s ∈ h.history, ∃ r ∈ s.events, r.envelope = e

section

variable {σ ε α β : Type} {W : World σ} {C : Set EventRef} {P K : Set EventEnvelope}

/-- Memory and file are sound for the committed events `C`, the file holds what the memory
holds, the memory holds all it ever recorded, and it recorded `P` and holds `K`. -/
structure HostSound (W : World σ) (C : Set EventRef) (P K : Set EventEnvelope) (h : Host σ) : Prop where
  state : EventsSound W.handle C h.state
  file : EventsSound W.handle C h.file
  ahead : Retains h.state h.file
  current : h.state ∈ h.history
  past : ∀ e, h.Recorded e → h.state.Holds e
  recorded : ∀ e ∈ P, h.Recorded e
  kept : ∀ e ∈ K, h.state.Holds e

theorem HostSound.init (W : World σ) (runtime : σ) : HostSound W ∅ ∅ ∅ { runtime } where
  state := .empty _
  file := .empty _
  ahead := .refl _
  current := by simp
  past e he := by
    obtain ⟨s,hs,r,hr,-⟩ := he
    rw [List.mem_singleton.mp hs] at hr
    cases hr
  recorded := by simp
  kept := by simp

theorem HostSound.mono {h : Host σ} (hs : HostSound W C P K h) {L : Set EventEnvelope} (hsub : L ⊆ K) :
    HostSound W C P L h :=
  { hs with kept := fun e he => hs.kept e (hsub he) }

theorem HostSound.settle {h : Host σ} (hs : HostSound W C P K h) {state file : JournalFile}
    (hstate : EventsSound W.handle C state) (hfile : EventsSound W.handle C file)
    (hretains : Retains h.state state) (hahead : Retains state file) :
    HostSound W C P K (h.settle state file) := by
  refine ⟨hstate,hfile,hahead,List.mem_cons_self,fun e he => ?_,fun e he => ?_,
    fun e he => hretains e (hs.kept e he)⟩
  · obtain ⟨s,hmem,r,hr,rfl⟩ := he
    rcases List.mem_cons.mp hmem with rfl | hmem
    · exact .inl ⟨r,hr,rfl⟩
    · exact hretains _ (hs.past _ ⟨s,hmem,r,hr,rfl⟩)
  · obtain ⟨s,hmem,hr⟩ := hs.recorded e he
    exact ⟨s,List.mem_cons_of_mem _ hmem,hr⟩

/-- From a sound host that holds `K`, the program ends in one that also holds the events
of its result. -/
def Emits (W : World σ) (C : Set EventRef) (P K : Set EventEnvelope) (m : Prog (Host σ) ε α)
    (out : α → List EventEnvelope) : Prop :=
  Triple (HostSound W C P K) m (fun a => HostSound W C P (K ∪ {e | e ∈ out a})) (fun _ => HostSound W C P K)

/-- The program sends nothing of its own. -/
abbrev Silent (W : World σ) (C : Set EventRef) (P K : Set EventEnvelope) (m : Prog (Host σ) ε α) : Prop :=
  Emits W C P K m fun _ => []

theorem Emits.bind {m : Prog (Host σ) ε α} {f : α → Prog (Host σ) ε β} {out : α → List EventEnvelope}
    {out' : β → List EventEnvelope} (hm : Emits W C P K m out)
    (hf : ∀ a, Emits W C P (K ∪ {e | e ∈ out a}) (f a) out') : Emits W C P K (m >>= f) out' := by
  refine triple_bind hm fun a => (hf a).post (fun b h hs => hs.mono ?_) fun e h hs => hs.mono ?_
  · rintro e (he | he)
    · exact .inl (.inl he)
    · exact .inr he
  · exact Set.subset_union_left

theorem Emits.after {m : Prog (Host σ) ε α} {f : α → Prog (Host σ) ε β} {out : β → List EventEnvelope}
    (hm : Silent W C P K m) (hf : ∀ a, Emits W C P K (f a) out) : Emits W C P K (m >>= f) out := by
  refine Emits.bind hm fun a => ?_
  have hsame : K ∪ {e | e ∈ ([] : List EventEnvelope)} = K := by simp
  rw [hsame]
  exact hf a

theorem emits_pure {a : α} {out : α → List EventEnvelope} (h : ∀ e ∈ out a, e ∈ K) :
    Emits W C P K (pure a : Prog (Host σ) ε α) out := by
  refine triple_pure fun s hs => hs.mono ?_
  rintro e (he | he)
  · exact he
  · exact h e he

theorem silent_pure (a : α) : Silent W C P K (pure a : Prog (Host σ) ε α) := emits_pure (by simp)

theorem emits_look {f : Host σ → α} {out : α → List EventEnvelope}
    (h : ∀ s, HostSound W C P K s → ∀ e ∈ out (f s), s.state.Holds e) :
    Emits W C P K (look f : Prog (Host σ) ε α) out := by
  refine triple_look fun s hs => { hs with kept := ?_ }
  rintro e (he | he)
  · exact hs.kept e he
  · exact h s hs e he

theorem silent_look (f : Host σ → α) : Silent W C P K (look f : Prog (Host σ) ε α) :=
  emits_look (by simp)

theorem emits_fail (e : ε) (out : α → List EventEnvelope) :
    Emits W C P K (fail e : Prog (Host σ) ε α) out :=
  triple_fail fun _ hs => hs

theorem silent_orFail (r : Except ε α) : Silent W C P K (orFail r : Prog (Host σ) ε α) :=
  triple_orFail (fun _ _ hs _ => hs.mono (by simp)) fun _ _ hs _ => hs

theorem emits_attempt {ε' : Type} {m : Prog (Host σ) ε α} {out : α → List EventEnvelope}
    (h : Emits W C P K m out) : Emits W C P K (attempt m : Prog (Host σ) ε' (Except ε α)) fun
      | .ok a => out a
      | .error _ => [] :=
  triple_attempt h (fun _ _ hs => hs) fun _ _ hs => hs.mono (by simp)

theorem emits_journaled {m : Op σ α} {out : α → List EventEnvelope} (h : Emits W C P K m out) :
    Emits W C P K (journaled m) out := by
  refine (emits_attempt h).bind fun r => ?_
  cases r with
  | ok a => exact emits_pure fun e he => .inr he
  | error e => exact triple_fail fun s hs => hs.mono (by simp)

theorem emits_update {section_ : Clock → Section α} {out : α → List EventEnvelope}
    (hsection : ∀ now s a s', EventsSound W.handle C s → section_ now s = some (.ok (a,s')) →
      Carries W.handle C s s' (out a)) : Emits W C P K (update W section_) out := by
  rintro h hs r h' he
  simp only [exec,update] at he
  split at he
  · simp at he
  · obtain ⟨rfl,rfl⟩ : _ = r ∧ _ = h' := by simpa using he
    exact hs.settle hs.state hs.file (.refl _) hs.ahead
  · rename_i a s hsec
    have hcarries := hsection _ h.state a s hs.state hsec
    cases hw : (W.weather h.tick).1 with
    | done =>
      obtain ⟨rfl,rfl⟩ : _ = r ∧ _ = h' := by simpa [hw] using he
      have hsettled := hs.settle hcarries.sound hcarries.sound hcarries.retains (.refl _)
      refine { hsettled with kept := ?_ }
      rintro e (he | he)
      · exact hsettled.kept e he
      · exact hcarries.emitted e he
    | lost reason readable =>
      obtain ⟨rfl,rfl⟩ : _ = r ∧ _ = h' := by simpa only [hw,Option.some.injEq,Prod.mk.injEq] using he
      cases readable with
      | true => exact hs.settle hs.file hs.file hs.ahead (.refl _)
      | false => exact hs.settle hs.state hs.file (.refl _) hs.ahead
    | late reason readable =>
      obtain ⟨rfl,rfl⟩ : _ = r ∧ _ = h' := by simpa only [hw,Option.some.injEq,Prod.mk.injEq] using he
      cases readable with
      | true => exact hs.settle hcarries.sound hcarries.sound hcarries.retains (.refl _)
      | false => exact hs.settle hs.state hcarries.sound (.refl _) hcarries.retains

theorem HostSound.aside {h h' : Host σ} (hs : HostSound W C P K h) (hstate : h'.state = h.state)
    (hfile : h'.file = h.file) (hhistory : h'.history = h.history) : HostSound W C P K h' := by
  have hrecorded : ∀ e, h'.Recorded e ↔ h.Recorded e := by
    intro e
    unfold Host.Recorded
    rw [hhistory]
  refine ⟨?_,?_,?_,?_,fun e he => ?_,fun e he => (hrecorded e).mpr (hs.recorded e he),?_⟩
  · rw [hstate]
    exact hs.state
  · rw [hfile]
    exact hs.file
  · rw [hstate,hfile]
    exact hs.ahead
  · rw [hstate,hhistory]
    exact hs.current
  · rw [hstate]
    exact hs.past e ((hrecorded e).mp he)
  · rw [hstate]
    exact hs.kept

theorem silent_noteHanded (commandId : String) : Silent W C P K (noteHanded commandId : Op σ Unit) :=
  triple_modify fun _ hs => (hs.mono (by simp)).aside rfl rfl rfl

theorem silent_noteAcceptance (accepted : CommandAcceptance) :
    Silent W C P K (noteAcceptance accepted : Op σ Unit) := by
  unfold noteAcceptance
  split
  · exact silent_noteHanded _
  · exact silent_pure _

theorem silent_callRuntime (f : σ → α × σ) : Silent W C P K (callRuntime f) := by
  rintro h hs r h' he
  obtain ⟨rfl,rfl⟩ : _ = r ∧ _ = h' := by simpa [exec,callRuntime] using he
  exact (hs.mono (by simp)).aside rfl rfl rfl

/-! ### Journal operations -/

theorem silent_commandRecord (commandId : String) : Silent W C P K (commandRecord commandId) := by
  refine Emits.after (silent_look _) fun found => ?_
  cases found with
  | none => exact emits_fail _ _
  | some record => exact silent_pure record

theorem silent_compactSession (sessionId : String) : Silent W C P K (compactSessionOp W sessionId) := by
  refine emits_update fun now s a s' hs h => ?_
  obtain rfl : _ = s' := by simpa using h
  exact (compactSession_step _ C sessionId s).carries hs

theorem emits_finishCommand (commandId : String) (outcome : DispatchOutcome) (events : List Event) :
    Emits W C P K (finishCommandOp W commandId outcome events) id :=
  emits_update fun _ _ _ _ hs h => finishCommand_carries hs h

theorem emits_completeCommand (commandId : String) (outcome : DispatchOutcome) (events : List Event) :
    Emits W C P K (completeCommand W commandId outcome events) id :=
  Emits.after (silent_commandRecord commandId) fun record =>
    (emits_finishCommand commandId outcome events).bind fun _ =>
      Emits.after (silent_compactSession record.sessionId) fun _ => emits_pure fun _ he => .inr he

theorem emits_acceptCommandWithControl (e : CommandEnvelope) (allow : Bool) :
    Emits W C P K (acceptCommandWithControl W e allow) (·.result.emittedEvents) := by
  refine Emits.after (silent_orFail _) fun _ => Emits.after (emits_update fun now s a s' hs h => ?_)
    fun p => Emits.after (silent_look _) fun prior => ?_
  · exact (prepareCommand_step C (Option.some.inj h)).carries hs
  · dsimp only
    split_ifs
    · exact emits_pure (by simp)
    · refine Emits.after (emits_update fun now s a s' hs h => ?_) fun started => ?_
      · exact (markDispatchStarted_step C (Option.some.inj h)).carries hs
      · split_ifs
        · exact emits_pure (by simp)
        · exact Emits.after (silent_commandRecord _) fun current => emits_pure (by simp)

theorem emits_acceptNextReadyCommand (sessionId : String) :
    Emits W C P K (acceptNextReadyCommand W sessionId) fun accepted =>
      accepted.toList.flatMap (·.result.emittedEvents) := by
  refine Emits.after (silent_look _) fun next => ?_
  cases next with
  | none => exact emits_pure (by simp)
  | some command =>
    have h := emits_acceptCommandWithControl (W := W) (C := C) (P := P) (K := K) command false
    refine triple_map h fun a s hs => hs.mono ?_
    simp

theorem emits_processCommand (e : CommandEnvelope) :
    Emits W C P K (processCommand W e) (·.emittedEvents) := by
  have haccept : Emits W C P K (if e.command.isSessionCancel then acceptControlCommand W e
      else acceptCommand W e) (·.result.emittedEvents) := by
    split_ifs
    · exact emits_acceptCommandWithControl e true
    · exact emits_acceptCommandWithControl e false
  refine haccept.bind fun accepted => ?_
  cases hc : accepted.command with
  | none => exact emits_pure fun _ he => .inr he
  | some command =>
    exact Emits.after (silent_noteHanded _) fun _ => Emits.after (silent_callRuntime _) fun outcome =>
      Emits.after (silent_callRuntime _) fun events => (emits_finishCommand _ _ _).bind fun _ =>
        Emits.after (silent_compactSession _) fun _ => emits_pure fun _ he => .inr he

def emittedBy (results : List CommandProcessResult) : List EventEnvelope :=
  results.flatMap (·.emittedEvents)

theorem emittedBy_snoc {results : List CommandProcessResult} (result : CommandProcessResult)
    (hk : ∀ e ∈ emittedBy results, e ∈ K) :
    ∀ e ∈ emittedBy (results ++ [result]), e ∈ K ∪ {e | e ∈ result.emittedEvents} := by
  intro e he
  simp only [emittedBy,List.flatMap_append,List.flatMap_cons,List.flatMap_nil,List.append_nil,
    List.mem_append] at he
  rcases he with he | he
  · exact .inl (hk e he)
  · exact .inr he

theorem emits_processReadyLoop (sessionId : String) (fuel : ℕ) (results : List CommandProcessResult)
    (hk : ∀ e ∈ emittedBy results, e ∈ K) :
    Emits W C P K (processReadyLoop W sessionId fuel results) emittedBy := by
  induction fuel generalizing results K with
  | zero =>
    intro h hs r h' he
    simp [exec,processReadyLoop] at he
  | succ fuel ih =>
    refine Emits.after (silent_look _) fun next => ?_
    cases next with
    | none => exact emits_pure hk
    | some command =>
      exact (emits_processCommand command).bind fun result => ih _ (emittedBy_snoc _ hk)

theorem emits_processReady (sessionId : String) : Emits W C P K (processReady W sessionId) emittedBy :=
  Emits.after (silent_look _) fun fuel => emits_processReadyLoop sessionId fuel [] (by simp [emittedBy])

theorem silent_recoverOutcome (record : CommandRecord) : Silent W C P K (recoverOutcome W record) :=
  Emits.after (silent_callRuntime _) fun _ => silent_pure _

theorem emits_resolveStarted (records : List CommandRecord) (results : List CommandProcessResult)
    (hk : ∀ e ∈ emittedBy results, e ∈ K) :
    Emits W C P K (resolveStarted W records results) emittedBy := by
  induction records generalizing results K with
  | nil => exact emits_pure hk
  | cons record records ih =>
    exact Emits.after (silent_recoverOutcome record) fun outcome =>
      (emits_completeCommand record.commandId outcome []).bind fun emitted =>
        ih _ (emittedBy_snoc (recoveredResult record outcome emitted) hk)

theorem emits_acceptReadySessions (sessionIds : List String) (actions : RecoveryActions)
    (hk : ∀ e ∈ emittedBy actions.results, e ∈ K) :
    Emits W C P K (acceptReadySessions W sessionIds actions) fun actions => emittedBy actions.results := by
  induction sessionIds generalizing actions K with
  | nil => exact emits_pure hk
  | cons sessionId sessionIds ih =>
    refine (emits_acceptNextReadyCommand sessionId).bind fun accepted => ?_
    cases accepted with
    | none => exact ih actions fun e he => .inl (hk e he)
    | some accepted =>
      refine Emits.after (silent_noteAcceptance accepted) fun _ => ih _ ?_
      simpa using emittedBy_snoc accepted.result hk

theorem emits_recoverForScheduler :
    Emits W C P K (recoverForScheduler W) fun actions => emittedBy actions.results :=
  Emits.after (silent_look _) fun records =>
    (emits_resolveStarted records [] (by simp [emittedBy])).bind fun results =>
      Emits.after (silent_look _) fun sessionIds =>
        emits_acceptReadySessions sessionIds ⟨results,[]⟩ fun _ he => .inr he

theorem emits_recoverRecords (records : List CommandRecord) (results : List CommandProcessResult)
    (hk : ∀ e ∈ emittedBy results, e ∈ K) :
    Emits W C P K (recoverRecords W records results) emittedBy := by
  induction records generalizing results K with
  | nil => exact emits_pure hk
  | cons record records ih =>
    unfold recoverRecords
    split_ifs
    · exact (emits_processCommand _).bind fun result => ih _ (emittedBy_snoc _ hk)
    · refine Emits.after (silent_recoverOutcome record) fun outcome => ?_
      exact (emits_finishCommand _ _ _).bind fun emitted => Emits.after (silent_compactSession _)
        fun _ => ih _ (emittedBy_snoc (recoveredResult record outcome emitted) hk)

theorem emits_processReadySessions (sessionIds : List String) (results : List CommandProcessResult)
    (hk : ∀ e ∈ emittedBy results, e ∈ K) :
    Emits W C P K (processReadySessions W sessionIds results) emittedBy := by
  induction sessionIds generalizing results K with
  | nil => exact emits_pure hk
  | cons sessionId sessionIds ih =>
    refine (emits_processReady sessionId).bind fun ready => ih _ fun e he => ?_
    simp only [emittedBy,List.flatMap_append,List.mem_append] at he
    rcases he with he | he
    · exact .inl (hk e he)
    · exact .inr he

theorem emits_recover : Emits W C P K (recover W) emittedBy :=
  Emits.after (silent_look _) fun records =>
    (emits_recoverRecords records [] (by simp [emittedBy])).bind fun results =>
      Emits.after (silent_look _) fun sessionIds =>
        emits_processReadySessions sessionIds results fun _ he => .inr he

theorem emits_appendEvent (eventId sessionId : String) (event : Event) :
    Emits W C P K (appendEventOp W eventId sessionId event) fun appended => [appended.envelope] :=
  emits_update fun _ _ _ _ hs h => appendEvent_carries hs (Option.some.inj h)

theorem emits_appendEventEnvelope (envelope : EventEnvelope) (digest : String) (duplicate : Bool) :
    Emits W C P K (appendEventEnvelopeOp W envelope digest duplicate) fun appended =>
      [appended.envelope] := by
  refine Emits.after (silent_orFail _) fun _ => ?_
  split_ifs
  · exact emits_fail _ _
  · exact emits_update fun _ _ _ _ hs h => appendEventEnvelope_carries hs (Option.some.inj h)

theorem silent_acknowledgeEvent {ack : EventAck} (hack : ack.ref ∈ C) :
    Silent W C P K (acknowledgeEventOp W ack) :=
  Emits.after (silent_orFail _) fun _ => emits_update fun _ _ _ _ hs h =>
    acknowledgeEvent_carries hs hack h

theorem silent_applyReconciliation {snapshot : ReconcileSnapshot}
    (hsnapshot : ∀ remote ∈ snapshot.sessions, Backed C remote) :
    Silent W C P K (applyReconciliationOp W snapshot) := by
  refine Emits.after (silent_orFail _) fun _ => emits_update fun now s a s' hs h => ?_
  obtain rfl : _ = s' := by simpa using h
  exact applyReconciliation_carries hs hsnapshot

theorem silent_reopen : Silent W C P K (reopen W) := by
  refine triple_bind (Q := fun opened h => HostSound W C P K h ∧
      opened = openWithConfig W.handle.daemonId h.file) (triple_look fun h hs => ⟨hs,rfl⟩)
    fun opened => ?_
  refine triple_bind (Q := fun s h => HostSound W C P K h ∧ s = h.file)
    (triple_orFail (fun h s hs ho => ⟨hs.1,openWithConfig_ok (hs.2.symm.trans ho)⟩)
      fun h e hs _ => hs.1) fun s => ?_
  refine triple_modify fun h hs => ?_
  obtain ⟨hs,rfl⟩ := hs
  exact (hs.settle hs.file hs.file hs.ahead (.refl _)).mono (by simp)

/-! ### Operations of the coordinator -/

theorem eventsOf_results (results : List CommandProcessResult) :
    eventsOf (commandResultsToFrames results) = emittedBy results := by
  induction results with
  | nil => rfl
  | cons result results ih =>
    have hhead : eventsOf (commandResultToFrames result) = result.emittedEvents := by
      simp [commandResultToFrames,eventsOf]
    rw [commandResultsToFrames,List.flatMap_cons,eventsOf_append,hhead]
    exact congrArg (result.emittedEvents ++ ·) ih

theorem eventsOf_result (result : CommandProcessResult) :
    eventsOf (commandResultToFrames result) = result.emittedEvents := by
  simpa [commandResultsToFrames,emittedBy] using eventsOf_results [result]

theorem emits_replaySessions (sessions : List SessionReconcileState) (replay : List DaemonFrame)
    (hk : ∀ e ∈ eventsOf replay, e ∈ K) :
    Emits W C P K (Coordinator.replaySessions sessions replay : CoordOp σ _) eventsOf := by
  induction sessions generalizing replay K with
  | nil => exact emits_pure hk
  | cons session sessions ih =>
    have hreplay : Emits W C P K (look fun h : Host σ => replayEvents h.state session.sessionId session :
        CoordOp σ _) id := emits_look fun h hs => replayEvents_holds h.state _ _
    refine hreplay.bind fun events => ?_
    refine ih _ fun e he => ?_
    rw [eventsOf_append,eventsOf_map_event,List.mem_append] at he
    rcases he with he | he
    · exact .inl (hk e he)
    · exact .inr he

theorem emits_acceptEventAck {ack : EventAck} (hack : ack.ref ∈ C) :
    Emits W C P K (Coordinator.acceptEventAck W ack) eventsOf := by
  refine (emits_attempt (silent_acknowledgeEvent hack)).bind fun result => ?_
  cases result with
  | ok u =>
    exact Emits.after (emits_journaled (silent_compactSession _)) fun _ => emits_pure (by simp [eventsOf])
  | error error =>
    cases error with
    | identityConflict reason => exact emits_pure (by simp [eventsOf])
    | io | format | protocol | gapOverflow => exact emits_fail _ _

theorem emits_answerCommand {conflict : String → α} {m : Op σ α} {out : α → List EventEnvelope}
    (hconflict : ∀ reason, out (conflict reason) = []) (hm : Emits W C P K m out) :
    Emits W C P K (Coordinator.answerCommand conflict m) out := by
  refine (emits_attempt hm).bind fun result => ?_
  cases result with
  | ok actions => exact emits_pure fun _ he => .inr he
  | error error =>
    cases error with
    | identityConflict reason => exact emits_pure (by simp [hconflict])
    | io | format | protocol | gapOverflow => exact emits_fail _ _

theorem emits_acceptCommand (command : CommandEnvelope) :
    Emits W C P K (Coordinator.acceptCommand W command) fun actions => eventsOf actions.frames := by
  have haccept : Emits W C P K (if command.command.isSessionCancel then acceptControlCommand W command
      else acceptCommand W command) (·.result.emittedEvents) := by
    split_ifs
    · exact emits_acceptCommandWithControl command true
    · exact emits_acceptCommandWithControl command false
  refine haccept.bind fun accepted => Emits.after (silent_noteAcceptance accepted) fun _ => ?_
  refine emits_pure fun e he => .inr ?_
  rwa [acceptanceActions,eventsOf_result] at he

/-- The frame that an operation takes speaks of committed events only. -/
def DaemonOp.Backed (C : Set EventRef) (op : DaemonOp) : Prop :=
  (∀ ack, op.takes = some (.eventAck ack) → ack.ref ∈ C) ∧
    ∀ snapshot, op.takes = some (.reconcile snapshot) → ∀ remote ∈ snapshot.sessions, Journal.Backed C remote

theorem emits_acceptServerFrame {frame : ServerFrame} (hack : ∀ ack, frame = .eventAck ack → ack.ref ∈ C) :
    Emits W C P K (Coordinator.acceptServerFrame W frame) fun actions => eventsOf actions.frames := by
  cases frame with
  | welcome => exact emits_pure (by simp [eventsOf])
  | reconcile snapshot => exact emits_pure (by simp [eventsOf])
  | command command => exact emits_answerCommand (fun _ => by simp [eventsOf]) (emits_acceptCommand command)
  | eventAck ack =>
    exact (emits_acceptEventAck (hack ack rfl)).bind fun frames => emits_pure fun _ he => .inr he
  | protocolError code message => exact emits_fail _ _

theorem emits_processServerFrame {frame : ServerFrame} (hack : ∀ ack, frame = .eventAck ack → ack.ref ∈ C) :
    Emits W C P K (Coordinator.processServerFrame W frame) eventsOf := by
  cases frame with
  | welcome => exact emits_pure (by simp [eventsOf])
  | reconcile snapshot => exact emits_pure (by simp [eventsOf])
  | command command =>
    refine emits_answerCommand (fun _ => by simp [eventsOf]) ?_
    refine (emits_processCommand command).bind fun result => (emits_processReady _).bind fun ready => ?_
    refine emits_pure fun e he => ?_
    rw [eventsOf_append,eventsOf_result,eventsOf_results,List.mem_append] at he
    rcases he with he | he
    · exact .inl (.inr he)
    · exact .inr he
  | eventAck ack => exact emits_acceptEventAck (hack ack rfl)
  | protocolError code message => exact emits_fail _ _

theorem emits_finishRuntime (sessionId commandId : String) (outcome : DispatchOutcome)
    (events : List Event) :
    Emits W C P K (Coordinator.finishRuntime W sessionId commandId outcome events) fun actions =>
      eventsOf actions.frames := by
  refine (emits_journaled (emits_completeCommand commandId outcome events)).bind fun emitted => ?_
  refine (emits_journaled (emits_acceptNextReadyCommand sessionId)).bind fun accepted => ?_
  cases accepted with
  | none => exact emits_pure fun e he => .inl (.inr (by simpa [eventsOf_map_event] using he))
  | some accepted =>
    refine Emits.after (emits_journaled (silent_noteAcceptance accepted)) fun _ =>
      emits_pure fun e he => ?_
    rw [eventsOf_append,eventsOf_map_event,eventsOf_result,List.mem_append] at he
    rcases he with he | he
    · exact .inl (.inr he)
    · exact .inr (by simpa using he)

/-- Every operation of a daemon sends only what its journal holds, and keeps the journal
sound, if the frame it takes speaks of committed events. -/
theorem DaemonOp.emits {op : DaemonOp} (hop : op.Backed C) : Emits W C P K (op.run W) eventsOf := by
  cases op with
  | recoverForScheduler =>
    have hframes : Emits W C P K (Coordinator.recoverForScheduler W)
        fun actions : RuntimeActions => eventsOf actions.frames := by
      refine Emits.bind (emits_journaled emits_recoverForScheduler) fun recovery =>
        emits_pure fun e he => .inr ?_
      rwa [eventsOf_results] at he
    exact Emits.bind hframes fun actions => emits_pure fun _ he => .inr he
  | recover =>
    refine Emits.bind (emits_journaled emits_recover) fun results => emits_pure fun e he => .inr ?_
    rwa [eventsOf_results] at he
  | reconcile snapshot =>
    exact Emits.after (emits_journaled (silent_applyReconciliation (hop.2 snapshot rfl))) fun _ =>
      emits_replaySessions _ [] (by simp [eventsOf])
  | acceptServerFrame frame =>
    exact (emits_acceptServerFrame fun ack h => hop.1 ack (congrArg some h)).bind fun _ =>
      emits_pure fun _ he => .inr he
  | processServerFrame frame => exact emits_processServerFrame fun ack h => hop.1 ack (congrArg some h)
  | finishRuntime sessionId commandId outcome events =>
    exact (emits_finishRuntime sessionId commandId outcome events).bind fun _ =>
      emits_pure fun _ he => .inr he
  | appendEvent eventId sessionId event =>
    exact (emits_journaled (emits_appendEvent eventId sessionId event)).bind fun _ =>
      emits_pure fun _ he => .inr (by simpa [eventsOf] using he)
  | appendEventEnvelope envelope digest duplicate =>
    exact (emits_journaled (emits_appendEventEnvelope envelope digest duplicate)).bind fun _ =>
      emits_pure fun _ he => .inr (by simpa [eventsOf] using he)
  | compactSession sessionId =>
    exact Emits.after (emits_journaled (silent_compactSession sessionId)) fun _ =>
      emits_pure (by simp [eventsOf])
  | reopen => exact Emits.after (emits_journaled silent_reopen) fun _ => emits_pure (by simp [eventsOf])

end

end Journal
end North
