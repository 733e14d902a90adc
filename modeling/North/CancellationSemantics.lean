import North.RuntimeAnswers
import North.LoopCustody

/-! Cancellation in the start loop. While no command is given to a worker under a control that
has brought its fact, and none is suppressed for a first one beside a running command, a control
brings one terminal fact, and nothing but one SessionCancel starts after it is cancelled. -/
namespace North
namespace Scheduler

open Protocol Journal

namespace RuntimeScheduler

variable {S S' : RuntimeScheduler} {waiting hand : List String} {command : CommandEnvelope}
  {control : ℕ}

/-! ### The calls -/

/-- The command is not suppressed as the first fact of its control while its session is active,
and is not given to a worker when its control has brought its fact. -/
def fits (S : RuntimeScheduler) (command : CommandEnvelope) (control : ℕ) : Bool :=
  if S.isCancelled command control then
    S.terminalFactEmitted control || !S.isActive command.sessionId
  else S.isActive command.sessionId || S.permits == 0 || !S.terminalFactEmitted control

/-- The same of the queued commands that a cancellation suppresses, or of itself. -/
def fitsCancellation (S : RuntimeScheduler) (command : CommandEnvelope) (control : ℕ) : Bool :=
  if !(S.queuedOf command.sessionId).isEmpty then
    S.terminalFactEmitted control || !S.isActive command.sessionId
  else S.pendingCancellations.contains command.sessionId || S.fits command control

def fitsSchedule (S : RuntimeScheduler) (command : CommandEnvelope) : Bool :=
  let (control,S) := S.controlFor command
  if command.command.isSessionCancel then S.fitsCancellation command control
  else S.fits command control

def fitsRuntime (S : RuntimeScheduler) (command : CommandEnvelope) : Bool :=
  let (control,S) := S.controlFor command
  S.fits command control

/-- The next turn of a drain. -/
def fitsTurn (S : RuntimeScheduler) : Bool :=
  match S.queued with
  | [] => true
  | item::_ => S.fits item.command item.control

/-- The controls are in order, and each has brought one fact at most. -/
structure Ruled (S : RuntimeScheduler) (waiting : List String) : Prop where
  owned : S.Owned waiting
  facts : S.OneFact

namespace Ruled

theorem init : Ruled {} [] := ⟨Owned.init,OneFact.init⟩

theorem suppress (h : S.Ruled waiting) (hcontrol : S.controls.get command.sessionId = some control)
    (hfits : (S.terminalFactEmitted control || !S.isActive command.sessionId) = true) :
    (S.suppress command control).Ruled waiting := by
  refine ⟨h.owned.suppress (h.owned.lt_allocated hcontrol),h.facts.suppress ?_⟩
  rcases Bool.or_eq_true_iff.mp hfits with hdone | hidle
  · exact .inl hdone
  · refine .inr fun sessionId runtime hget => ?_
    rintro rfl
    have hsession := h.owned.apart _ _ runtime.control (h.owned.active _ _ hget) hcontrol
    simp [isActive,OrdMap.contains,← hsession,hget] at hidle

theorem enqueue (h : S.Ruled waiting) (hcontrol : S.controls.get command.sessionId = some control) :
    (S.enqueue command control).Ruled waiting :=
  ⟨h.owned.enqueue hcontrol,h.facts.frame rfl rfl rfl rfl rfl (fun _ => rfl) fun _ => id⟩

theorem scheduleRuntimeInner (h : S.Ruled waiting)
    (hcontrol : S.controls.get command.sessionId = some control) (hfits : S.fits command control = true)
    (hok : S.scheduleRuntimeInner command control = .ok S') : S'.Ruled waiting := by
  unfold RuntimeScheduler.scheduleRuntimeInner at hok
  unfold fits at hfits
  split_ifs at hok hfits with hcancelled hactive
  · obtain rfl := Except.ok.inj hok
    exact h.suppress hcontrol hfits
  · obtain rfl := Except.ok.inj hok
    exact h.enqueue hcontrol
  · cases hpermits : S.permits with
    | zero =>
      simp only [hpermits] at hok
      obtain rfl := Except.ok.inj hok
      exact h.enqueue hcontrol
    | succ permits =>
      simp only [hpermits] at hok
      have hspawn : ({ S with permits } : RuntimeScheduler).spawnRuntime command control =
          .ok (({ S with permits } : RuntimeScheduler).started command control) := if_neg hactive
      obtain rfl := Except.ok.inj (hspawn.symm.trans hok)
      have hnone : S.terminalFactEmitted control = false := by
        simpa [hactive,hpermits] using hfits
      have hidle : S.active.get command.sessionId = none := by
        simpa [isActive,OrdMap.contains] using hactive
      exact ⟨h.owned.started hcontrol,
        h.facts.started h.owned hcontrol hidle (Bool.eq_false_iff.mpr hcancelled) hnone⟩

theorem drainTurn (h : S.Ruled waiting) {more : Bool} (hfits : S.fitsTurn = true)
    (hok : S.drainTurn = .ok (more,S')) : S'.Ruled waiting := by
  cases hqueue : S.queued with
  | nil =>
    simp only [RuntimeScheduler.drainTurn,hqueue] at hok
    obtain rfl := (Prod.mk.inj (Except.ok.inj hok)).2
    exact h
  | cons item rest =>
    have hfits' : S.fits item.command item.control = true := by
      simpa only [fitsTurn,hqueue] using hfits
    rcases drainTurn_inner hqueue hok with rfl | hinner
    · exact h
    · have htaken : ({ S with queued := rest } : RuntimeScheduler).Ruled waiting := by
        refine ⟨h.owned.requeue ?_,h.facts.frame rfl rfl rfl rfl rfl (fun _ => rfl) fun _ => id⟩
        rw [hqueue]
        exact List.subset_cons_self item rest
      refine htaken.scheduleRuntimeInner ?_ hfits' hinner
      exact h.owned.queued item (by rw [hqueue]; exact List.mem_cons_self)

theorem suppressAll {items : List QueuedRuntime} (h : S.Ruled waiting)
    (hcontrols : ∀ item ∈ items, S.controls.get item.command.sessionId = some item.control)
    (hfits : ∀ item ∈ items, (S.terminalFactEmitted item.control ||
      !S.isActive item.command.sessionId) = true) : (S.suppressAll items).Ruled waiting := by
  induction items generalizing S with
  | nil => exact h
  | cons item items ih =>
    have hone := h.suppress (hcontrols item List.mem_cons_self) (hfits item List.mem_cons_self)
    refine ih hone (fun x hx => hcontrols x (List.mem_cons_of_mem _ hx)) fun x hx => ?_
    have hold := hfits x (List.mem_cons_of_mem _ hx)
    have hemitted : (S.suppress item.command item.control).terminalFactEmitted x.control =
        if x.control = item.control then true else S.terminalFactEmitted x.control :=
      emitted_setControl S item.control x.control fun c => { c with terminalFactEmitted := true }
    rw [hemitted]
    split_ifs
    · rfl
    · exact hold

theorem emitted_purged (S : RuntimeScheduler) (sessionId : String) (control k : ℕ) :
    (S.purged sessionId control).terminalFactEmitted k = S.terminalFactEmitted k := by
  show (S.setControl control fun c => { c with cancellationRequested := true }).terminalFactEmitted k = _
  rw [emitted_setControl]
  split_ifs with heq
  · rw [heq]
    rfl
  · rfl

theorem requested_purged (S : RuntimeScheduler) (sessionId : String) (control : ℕ) :
    (S.purged sessionId control).isCancellationRequested control = true := by
  simp [isCancellationRequested,RuntimeScheduler.purged,RuntimeScheduler.removeQueued,requestCancellation,
    RuntimeScheduler.setControl]

theorem purged (h : S.Ruled waiting) (hcontrol : S.controls.get command.sessionId = some control) :
    (S.purged command.sessionId control).Ruled waiting := by
  have hrequested : (S.requestCancellation control).Owned waiting :=
    h.owned.setControl (h.owned.lt_allocated hcontrol) fun _ _ => rfl
  refine ⟨hrequested.requeue (List.filter_subset_self _),
    h.facts.frame rfl rfl rfl rfl rfl (fun k => emitted_purged S _ control k) fun k hk => ?_⟩
  exact requested_setControl (f := fun c => { c with cancellationRequested := true })
    (fun _ _ => rfl) hk

theorem keepPending (h : S.Ruled waiting) (hcancelling : S.cancelling command.sessionId = true) :
    (S.keepPending command).Ruled waiting := by
  refine ⟨h.owned.keepPending hcancelling,?_⟩
  unfold RuntimeScheduler.keepPending
  split_ifs
  · exact h.facts
  · exact h.facts.frame rfl rfl rfl rfl rfl (fun _ => rfl) fun _ => id

theorem scheduleCancellation (ho : S.Owned waiting)
    (hpurged : (S.purged command.sessionId control).Ruled waiting)
    (hcontrol : S.controls.get command.sessionId = some control)
    (hcancel : command.command.isSessionCancel = true)
    (hfits : S.fitsCancellation command control = true)
    (hok : S.scheduleCancellation command control = .ok S') : S'.Ruled waiting := by
  rw [scheduleCancellation_eq] at hok
  have hcancelling : (S.purged command.sessionId control).cancelling command.sessionId = true :=
    (Option.any_eq_true _ _).mpr ⟨control,hcontrol,requested_purged S _ control⟩
  unfold fitsCancellation at hfits
  split_ifs at hok with hwork hpending
  · obtain rfl := Except.ok.inj hok
    obtain ⟨pending,hkept⟩ : ∃ pending, (S.purged command.sessionId control).keepPending command =
        { S.purged command.sessionId control with pendingCancellations := pending } := by
      unfold RuntimeScheduler.keepPending
      split_ifs <;> exact ⟨_,rfl⟩
    have hqueued : ∀ item ∈ S.queuedOf command.sessionId,
        item.command.sessionId = command.sessionId ∧ item.control = control := by
      intro item hitem
      obtain ⟨hmem,hsession⟩ := List.mem_filter.mp hitem
      have hsession' : item.command.sessionId = command.sessionId := by simpa using hsession
      have hget := ho.queued item hmem
      rw [hsession',hcontrol] at hget
      exact ⟨hsession',(Option.some.inj hget).symm⟩
    refine (hpurged.keepPending hcancelling).suppressAll (fun item hitem => ?_) fun item hitem => ?_
    · obtain ⟨hsession,hsame⟩ := hqueued item hitem
      rw [hkept,hsession,hsame]
      exact hcontrol
    · obtain ⟨hsession,hsame⟩ := hqueued item hitem
      have hsome : (!(S.queuedOf command.sessionId).isEmpty) = true := by
        simpa using List.ne_nil_of_mem hitem
      rw [if_pos hsome] at hfits
      rw [hkept,hsession,hsame]
      show ((S.purged command.sessionId control).terminalFactEmitted control || _) = true
      rw [emitted_purged]
      exact hfits
  · obtain rfl := Except.ok.inj hok
    exact hpurged
  · simp only [Bool.or_eq_true,not_or,Bool.not_eq_true] at hwork hpending
    have hpending' : S.pendingCancellations.contains command.sessionId = false := hpending
    rw [if_neg (by simp [hwork.2]),hpending',Bool.false_or] at hfits
    refine hpurged.scheduleRuntimeInner hcontrol ?_ hok
    -- a cancellation is never suppressed, so that the request does not matter
    simp only [fits,isCancelled,hcancel,Bool.not_true,Bool.and_false,Bool.false_eq_true,if_false] at hfits ⊢
    rw [emitted_purged]
    exact hfits

theorem noted (h : S.Ruled waiting) (command : CommandEnvelope) (control : ℕ)
    (hcancel : command.command.isSessionCancel = true → S.isCancellationRequested control = true) :
    (S.note (.scheduled command control)).Ruled waiting := by
  refine ⟨h.owned.note _,
    h.facts.note _ (fun _ => rfl) (fun _ => rfl) fun k hk => ?_⟩
  obtain ⟨rfl,hcancels⟩ : control = k ∧ command.command.isSessionCancel = true := by
    simpa [Trace.cancels] using hk
  exact hcancel hcancels

theorem controlFor (h : S.Ruled waiting) (command : CommandEnvelope) :
    (S.controlFor command).2.Ruled waiting ∧
      (S.controlFor command).2.controls.get command.sessionId = some (S.controlFor command).1 := by
  obtain ⟨howned,hcontrol⟩ := h.owned.controlFor command
  refine ⟨⟨howned,?_⟩,hcontrol⟩
  unfold RuntimeScheduler.controlFor
  cases S.controls.get command.sessionId with
  | some control => exact h.facts
  | none =>
    have hcells : ∀ k, (Function.update S.cells S.allocated
        ({ sessionId := command.sessionId } : RuntimeControl) k).terminalFactEmitted =
          (S.cells k).terminalFactEmitted ∧
        (Function.update S.cells S.allocated
          ({ sessionId := command.sessionId } : RuntimeControl) k).cancellationRequested =
          (S.cells k).cancellationRequested := by
      intro k
      by_cases hk : k = S.allocated
      · subst hk
        simp [h.owned.free S.allocated (Nat.le_refl _)]
      · simp [hk]
    exact h.facts.frame rfl rfl rfl rfl rfl (fun k => (hcells k).1) fun k hk => (hcells k).2.trans hk

theorem schedule (h : S.Ruled waiting) (hfits : S.fitsSchedule command = true)
    (hok : S.schedule command = .ok S') : S'.Ruled waiting := by
  obtain ⟨hT,hcontrol⟩ := h.controlFor command
  simp only [RuntimeScheduler.schedule] at hok
  simp only [fitsSchedule] at hfits
  generalize (S.controlFor command).2 = T at hok hfits hT hcontrol
  generalize (S.controlFor command).1 = control at hok hfits hcontrol
  cases hcancel : command.command.isSessionCancel with
  | true =>
    simp only [hcancel,if_true] at hok hfits
    have hpurged := (hT.purged hcontrol).noted command control fun _ => requested_purged T _ control
    have howned := hT.owned.note (.scheduled command control)
    exact scheduleCancellation howned hpurged hcontrol hcancel hfits hok
  | false =>
    simp only [hcancel,Bool.false_eq_true,if_false] at hok hfits
    have hnoted := hT.noted command control (fun hc => by simp [hcancel] at hc)
    split_ifs at hok with hrequested
    · obtain rfl := Except.ok.inj hok
      refine hnoted.suppress hcontrol ?_
      have hrequested' : T.isCancellationRequested control = true := hrequested
      have hcancelled : T.isCancelled command control = true := by
        simp [isCancelled,hcancel,hrequested']
      rw [fits,if_pos hcancelled] at hfits
      exact hfits
    · exact hnoted.scheduleRuntimeInner hcontrol hfits hok

theorem scheduleRuntime (h : S.Ruled waiting) (hcancelling : S.cancelling command.sessionId = true)
    (hfits : S.fitsRuntime command = true) (hok : S.scheduleRuntime command = .ok S') :
    S'.Ruled waiting := by
  obtain ⟨hT,hcontrol⟩ := h.controlFor command
  have hnoted := hT.noted command _ fun _ => (S.controlFor_cancelling command).trans hcancelling
  exact hnoted.scheduleRuntimeInner hcontrol hfits hok

theorem cleanup (h : S.Ruled waiting) {sessionId : String} (hfree : sessionId ∉ waiting) :
    (S.maybeCleanupControl sessionId).Ruled waiting := by
  refine ⟨h.owned.cleanup sessionId hfree,?_⟩
  unfold maybeCleanupControl
  cases S.controls.get sessionId with
  | none => exact h.facts
  | some control =>
    dsimp only
    split_ifs
    · exact h.facts
    · have hnoted := h.facts.note (.removed sessionId control) (fun _ => rfl) (fun _ => rfl)
        (fun _ hcancels => by simp [Trace.cancels] at hcancels)
      exact hnoted.frame rfl rfl rfl rfl rfl (fun _ => rfl) fun _ => id

theorem beginFinish (h : S.Ruled []) (hsteady : S.Steady hand) {c : RuntimeCompletion}
    {rest : List RuntimeCompletion} {f : Finishing} (hchannel : S.completions = c::rest)
    (hok : ({ S with completions := rest } : RuntimeScheduler).beginFinish c = .ok (f,S')) :
    S'.Ruled (f.followup.toList.flatMap RuntimeFollowup.waiting) := by
  refine ⟨?_,h.facts.beginFinish h.owned hsteady hchannel hok⟩
  obtain ⟨control,T,htaken,hfollowup,-,rfl⟩ := beginFinish_cases hok
  have hT : T.Owned [] ∧ control < T.allocated := by
    rcases takeOff_cases htaken with ⟨hget,rfl⟩ | ⟨hget,rfl⟩
    · refine ⟨{ h.owned with },?_⟩
      -- a control above all others has brought nothing
      by_contra hle
      have hcell := h.owned.free control (Nat.not_lt.mp hle)
      have hemitted := h.facts.suppressed _ _ hget
      rw [RuntimeScheduler.terminalFactEmitted,hcell] at hemitted
      cases hemitted
    · refine ⟨{ h.owned with active := fun sessionId runtime hold => ?_ },
        h.owned.bounded _ _ (h.owned.active c.sessionId ⟨c.commandId,control⟩ hget)⟩
      change (S.active.erase c.sessionId).get sessionId = some runtime at hold
      rw [OrdMap.get_erase] at hold
      split_ifs at hold
      exact h.owned.active sessionId runtime hold
  have hmarked : (T.marked c control).Owned [] := by
    unfold marked
    split_ifs
    · exact hT.1.markTerminalFactEmitted hT.2
    · exact hT.1
  refine { hmarked with pending := fun sessionId command hold => ?_, waiting := fun sessionId hmem => ?_ }
  · change ((T.marked c control).pendingCancellations.erase c.sessionId).get sessionId = some command at hold
    rw [OrdMap.get_erase] at hold
    split_ifs at hold
    exact hmarked.pending sessionId command hold
  · cases hpending : (T.marked c control).pendingCancellations.get c.sessionId with
    | none => simp [hfollowup,hpending] at hmem
    | some command =>
      obtain ⟨hsession,hcancelling⟩ := hmarked.pending _ _ hpending
      rw [hfollowup,hpending] at hmem
      simp only [Option.map_some,Option.toList_some,List.flatMap_cons,List.flatMap_nil,
        List.append_nil] at hmem
      split_ifs at hmem
      · simp [RuntimeFollowup.waiting] at hmem
      · obtain rfl : sessionId = command.sessionId := by simpa [RuntimeFollowup.waiting] using hmem
        rw [hsession]
        exact hcancelling

theorem work (h : S.Ruled waiting) (hsteady : S.Steady []) {place : ℕ} {move : WorkerMove}
    (hanswers : ∀ w outcome events, S.workers[place]? = some w → w.stage = .running →
      move = .returns outcome events → fitsAnswer w.command events = true) :
    (S.work place move).Ruled waiting :=
  ⟨h.owned.work place move,h.facts.work h.owned hsteady hanswers⟩

end Ruled

/-! ### The end of a control -/

/-- The control has brought its fact, and its session has nothing in the scheduler. -/
structure Released (S : RuntimeScheduler) (sessionId : String) (control : ℕ) : Prop where
  emitted : S.terminalFactEmitted control = true
  inactive : S.active.get sessionId = none
  unqueued : ∀ item ∈ S.queued, item.command.sessionId ≠ sessionId
  unsuppressed : ∀ commandId k, S.suppressed.get commandId = some k → (S.cells k).sessionId ≠ sessionId
  unpending : S.pendingCancellations.get sessionId = none

/-- No control goes that is not released. -/
def Retains (S S' : RuntimeScheduler) : Prop := ∀ sessionId control,
  S.controls.get sessionId = some control → S'.controls.get sessionId = some control ∨
    S'.Released sessionId control

theorem retains_of_controls (h : S'.controls = S.controls) : S.Retains S' :=
  fun _ _ hget => .inl (h ▸ hget)

theorem suppressAll_controls (items : List QueuedRuntime) :
    (S.suppressAll items).controls = S.controls := by
  induction items generalizing S with
  | nil => rfl
  | cons item items ih => exact ih (S := S.suppress item.command item.control)

theorem scheduleRuntimeInner_controls (hok : S.scheduleRuntimeInner command control = .ok S') :
    S'.controls = S.controls := by
  unfold scheduleRuntimeInner at hok
  split_ifs at hok with hcancelled hactive
  · obtain rfl := Except.ok.inj hok
    rfl
  · obtain rfl := Except.ok.inj hok
    rfl
  · cases hpermits : S.permits with
    | zero =>
      simp only [hpermits] at hok
      obtain rfl := Except.ok.inj hok
      rfl
    | succ permits =>
      simp only [hpermits] at hok
      have hspawn : ({ S with permits } : RuntimeScheduler).spawnRuntime command control =
          .ok (({ S with permits } : RuntimeScheduler).started command control) := if_neg hactive
      obtain rfl := Except.ok.inj (hspawn.symm.trans hok)
      rfl

theorem scheduleCancellation_controls (hok : S.scheduleCancellation command control = .ok S') :
    S'.controls = S.controls := by
  rw [scheduleCancellation_eq] at hok
  split_ifs at hok with hwork hpending
  · obtain rfl := Except.ok.inj hok
    rw [suppressAll_controls]
    unfold keepPending
    split_ifs <;> rfl
  · obtain rfl := Except.ok.inj hok
    rfl
  · exact (scheduleRuntimeInner_controls hok).trans rfl

theorem controlFor_controls {sessionId : String} (hget : S.controls.get sessionId = some control)
    (command : CommandEnvelope) : (S.controlFor command).2.controls.get sessionId = some control := by
  unfold controlFor
  cases hcontrol : S.controls.get command.sessionId with
  | some k => exact hget
  | none =>
    have hne : sessionId ≠ command.sessionId := by
      rintro rfl
      exact absurd (hcontrol.symm.trans hget) (by simp)
    show (S.controls.insert _ _).get sessionId = _
    rw [OrdMap.get_insert,if_neg hne,hget]

theorem schedule_retains (hok : S.schedule command = .ok S') : S.Retains S' := by
  have hcontrols : S'.controls = (S.controlFor command).2.controls := by
    simp only [schedule] at hok
    split_ifs at hok
    · exact (scheduleCancellation_controls hok).trans rfl
    · obtain rfl := Except.ok.inj hok
      rfl
    · exact (scheduleRuntimeInner_controls hok).trans rfl
  exact fun sessionId control hget => .inl (hcontrols ▸ controlFor_controls hget command)

theorem scheduleRuntime_retains (hok : S.scheduleRuntime command = .ok S') : S.Retains S' := by
  have hcontrols : S'.controls = (S.controlFor command).2.controls :=
    (scheduleRuntimeInner_controls hok).trans rfl
  exact fun sessionId control hget => .inl (hcontrols ▸ controlFor_controls hget command)

theorem drainTurn_controls {more : Bool} (hok : S.drainTurn = .ok (more,S')) :
    S'.controls = S.controls := by
  cases hqueue : S.queued with
  | nil =>
    simp only [drainTurn,hqueue] at hok
    obtain rfl := (Prod.mk.inj (Except.ok.inj hok)).2
    rfl
  | cons item rest =>
    rcases drainTurn_inner hqueue hok with rfl | hinner
    · rfl
    · exact (scheduleRuntimeInner_controls hinner).trans rfl

theorem beginFinish_controls {c : RuntimeCompletion} {f : Finishing}
    (hok : S.beginFinish c = .ok (f,S')) : S'.controls = S.controls := by
  obtain ⟨control,T,htaken,-,-,rfl⟩ := beginFinish_cases hok
  have hT : T.controls = S.controls := by
    rcases takeOff_cases htaken with ⟨-,rfl⟩ | ⟨-,rfl⟩ <;> rfl
  rw [← hT]
  unfold marked
  split_ifs <;> rfl

/-- The one call that drops a control looks at all four places first. -/
theorem cleanup_retains (S : RuntimeScheduler) (sessionId : String) :
    S.Retains (S.maybeCleanupControl sessionId) := by
  intro session k hget
  unfold maybeCleanupControl
  cases hcontrol : S.controls.get sessionId with
  | none => exact .inl hget
  | some control =>
    dsimp only
    split_ifs with hbusy
    · exact .inl hget
    · by_cases hsession : session = sessionId
      · obtain rfl := hsession
        obtain rfl := Option.some.inj (hcontrol.symm.trans hget)
        simp only [busy,Bool.or_eq_true,not_or,Bool.not_eq_true,Bool.not_eq_false'] at hbusy
        obtain ⟨hemitted,⟨⟨hactive,hqueued⟩,hsuppressed⟩,hpending⟩ := hbusy
        refine .inr ⟨hemitted,OrdMap.contains_eq_false.mp hactive,fun item hitem => ?_,fun id k hk => ?_,
          OrdMap.contains_eq_false.mp hpending⟩
        · simpa using List.any_eq_false.mp hqueued item hitem
        · have hother : (S.cells k).sessionId ≠ session := by
            simpa using List.any_eq_false.mp hsuppressed k (OrdMap.mem_values_of_get hk)
          exact hother
      · left
        show (S.controls.erase sessionId).get session = _
        rw [OrdMap.get_erase,if_neg hsession,hget]

end RuntimeScheduler
end Scheduler

namespace StartLoop

open Protocol Journal Scheduler Prog

def Rest.waiting : Rest → List String
  | .followup f => f.waiting
  | _ => []

/-- The sessions whose cancellation the task is to schedule again. -/
def Phase.waiting : Phase → List String
  | .draining f => f.followup.toList.flatMap (·.waiting)
  | .finishing _ f => f.toList.flatMap (·.waiting)
  | .emitting _ rest => rest.waiting
  | _ => []

namespace Loop

variable {σ : Type} {W : World σ} {L : Loop σ}

/-- A worker returns what the adapter answers to its command. -/
def answered (L : Loop σ) : Move → Prop
  | .work place (.returns outcome events) => ∀ w, L.scheduler.workers[place]? = some w →
    w.stage = .running → ∃ E s s', Runtime.dispatchForSessionWithControl E w.command.sessionId
      w.command.commandId w.command.command s = some ((outcome,events),s')
  | _ => True

def answeredRun (W : World σ) : Loop σ → List Move → Prop
  | _, [] => True
  | L, move::moves => L.answered move ∧ answeredRun W (L.step W move) moves

/-- The next call gives no command to a worker under a control that has brought its fact, and
suppresses none for the first fact of its control while its session is active. -/
def apart (L : Loop σ) : Move → Bool
  | .next => match L.phase with
    | .draining f => f.remaining == 0 || L.scheduler.fitsTurn
    | .emitting (command::_) _ => L.scheduler.fitsSchedule command
    | .emitting [] (.followup (.rescheduleCancellation command)) => L.scheduler.fitsRuntime command
    | _ => true
  | _ => true

def apartRun (W : World σ) : Loop σ → List Move → Bool
  | _, [] => true
  | L, move::moves => L.apart move && apartRun W (L.step W move) moves

/-- A drain that may drop a control carries no cancellation. -/
def Phase.tidy : Phase → Prop
  | .draining f => f.cleanup = true → f.followup = none
  | _ => True

structure Governed (W : World σ) (L : Loop σ) : Prop where
  kept : Kept W False L
  steady : L.scheduler.Steady []
  ruled : L.scheduler.Ruled L.phase.waiting
  tidy : Phase.tidy L.phase

theorem Governed.custody (h : Governed W L) (hrunning : L.running = true) : L.Custody False :=
  h.kept.custody hrunning

theorem Governed.same (h : Governed W L) {L' : Loop σ} (hkept : Kept W False L')
    (hscheduler : L'.scheduler = L.scheduler) (hwaiting : L'.phase.waiting ⊆ L.phase.waiting)
    (htidy : Phase.tidy L'.phase) : Governed W L' where
  kept := hkept
  steady := hscheduler ▸ h.steady
  ruled := hscheduler ▸ ⟨h.ruled.owned.forget hwaiting,h.ruled.facts⟩
  tidy := htidy

theorem act_same (m : CoordOp σ RuntimeActions) (rest : Rest) :
    (L.act m rest).scheduler = L.scheduler ∧ (L.act m rest).phase.waiting ⊆ rest.waiting ∧
      Phase.tidy (L.act m rest).phase := by
  unfold act
  split
  · exact ⟨rfl,List.nil_subset rest.waiting,trivial⟩
  · exact ⟨rfl,List.Subset.refl _,trivial⟩
  · exact ⟨rfl,List.nil_subset rest.waiting,trivial⟩

theorem Governed.act (h : Governed W L) {m : CoordOp σ RuntimeActions} {rest : Rest}
    (hkept : Kept W False (L.act m rest)) (hwaiting : rest.waiting ⊆ L.phase.waiting) :
    Governed W (L.act m rest) := by
  obtain ⟨hscheduler,hsub,htidy⟩ := L.act_same m rest
  exact h.same hkept hscheduler (List.Subset.trans hsub hwaiting) htidy

theorem Governed.halt (h : Governed W L) (hkept : Kept W False L.halt) : Governed W L.halt :=
  h.same hkept rfl (List.nil_subset L.phase.waiting) trivial

theorem restart_governed (h : Governed W L) (hkept : Kept W False (L.restart W)) :
    Governed W (L.restart W) := by
  rcases L.restart_cases h.kept.sound with ⟨host,-,hrestart⟩ | ⟨h₁,recovery,h₂,-,-,hrestart⟩
  · rw [hrestart] at hkept ⊢
    exact h.same hkept rfl (List.nil_subset L.phase.waiting) trivial
  · rw [hrestart] at hkept ⊢
    exact ⟨hkept,RuntimeScheduler.Steady.init,RuntimeScheduler.Ruled.init,trivial⟩

theorem handshake_governed (h : Governed W L) (snapshot : ReconcileSnapshot)
    (hkept : Kept W False (L.handshake W snapshot)) : Governed W (L.handshake W snapshot) := by
  rcases handshake_cases snapshot h.kept.sound with ⟨host,-,hhand⟩ | ⟨frames,host,-,hhand⟩
  · rw [hhand] at hkept ⊢
    exact h.same hkept rfl (List.nil_subset L.phase.waiting) trivial
  · rw [hhand] at hkept ⊢
    exact h.same hkept rfl (List.nil_subset L.phase.waiting) trivial

theorem takeFrame_governed (h : Governed W L) (frame : ServerFrame)
    (hkept : Kept W False (L.takeFrame W frame)) : Governed W (L.takeFrame W frame) := by
  rcases takeFrame_cases frame h.kept.sound with ⟨host,-,hframe⟩ | ⟨host,-,-,hframe⟩ |
    ⟨actions,host,-,hframe⟩ <;> rw [hframe] at hkept ⊢
  · exact h.same hkept rfl (List.nil_subset L.phase.waiting) trivial
  · exact h.same hkept rfl (List.nil_subset L.phase.waiting) trivial
  · exact h.same hkept rfl (List.nil_subset L.phase.waiting) trivial

theorem takeCompletion_governed (h : Governed W L) (hidle : L.phase = .idle)
    (hkept : Kept W False L.takeCompletion) : Governed W L.takeCompletion := by
  have hruled : L.scheduler.Ruled [] := by
    have hall := h.ruled
    rwa [hidle] at hall
  unfold takeCompletion at hkept ⊢
  cases hchannel : L.scheduler.completions with
  | nil => exact h
  | cons completion rest =>
    obtain ⟨f,S',hS',hkeeps⟩ := h.steady.beginFinish hchannel
    simp only [hchannel,hS'] at hkept ⊢
    obtain ⟨control,T,-,-,htidy,-⟩ := RuntimeScheduler.beginFinish_cases hS'
    exact ⟨hkept,hkeeps.steady.forget,hruled.beginFinish h.steady hchannel hS',htidy⟩

theorem afterDrain_governed {f : RuntimeScheduler.Finishing} {scheduler : RuntimeScheduler}
    (htidy : f.cleanup = true → f.followup = none) (hsteady : scheduler.Steady [])
    (hruled : scheduler.Ruled (f.followup.toList.flatMap (·.waiting)))
    (hkept : Kept W False (L.afterDrain f scheduler)) : Governed W (L.afterDrain f scheduler) := by
  refine ⟨hkept,(hsteady.endFinish f).steady,?_,trivial⟩
  show (scheduler.endFinish f).Ruled _
  unfold RuntimeScheduler.endFinish
  split_ifs with hcleanup
  · refine hruled.cleanup ?_
    simp [htidy hcleanup]
  · exact hruled

theorem drain_governed (h : Governed W L) {f : RuntimeScheduler.Finishing} (hphase : L.phase = .draining f)
    (hapart : (f.remaining == 0 || L.scheduler.fitsTurn) = true) (hkept : Kept W False (L.drain f)) :
    Governed W (L.drain f) := by
  have hruled : L.scheduler.Ruled (f.followup.toList.flatMap (·.waiting)) := by
    have hall := h.ruled
    rwa [hphase] at hall
  have htidy : f.cleanup = true → f.followup = none := by
    have hall := h.tidy
    rwa [hphase] at hall
  unfold drain at hkept ⊢
  cases hremaining : f.remaining with
  | zero =>
    simp only [hremaining] at hkept ⊢
    exact afterDrain_governed htidy h.steady hruled hkept
  | succ remaining =>
    have hfits : L.scheduler.fitsTurn = true := by simpa [hremaining] using hapart
    obtain ⟨more,S',hS',hkeeps⟩ := h.steady.drainTurn
    have hruled' := hruled.drainTurn hfits hS'
    simp only [hremaining,hS'] at hkept ⊢
    cases more with
    | true => exact ⟨hkept,hkeeps.steady,hruled',htidy⟩
    | false => exact afterDrain_governed htidy hkeeps.steady hruled' hkept

theorem emit_governed (h : Governed W L) {command : CommandEnvelope} {commands : List CommandEnvelope}
    {rest : Rest} (hphase : L.phase = .emitting (command::commands) rest)
    (hfits : L.scheduler.fitsSchedule command = true) {scheduler : RuntimeScheduler}
    (hschedule : L.scheduler.schedule command = .ok scheduler)
    (hkept : Kept W False { L with scheduler, phase := .emitting commands rest }) :
    Governed W { L with scheduler, phase := .emitting commands rest } := by
  have hruled : L.scheduler.Ruled rest.waiting := by
    have hall := h.ruled
    rwa [hphase] at hall
  exact ⟨hkept,(hkept.custody rfl).steady.forget,hruled.schedule hfits hschedule,trivial⟩

theorem next_governed (h : Governed W L) (hapart : L.apart .next = true)
    (hkept : Kept W False (L.next W)) : Governed W (L.next W) := by
  unfold next at hkept ⊢
  cases hphase : L.phase with
  | idle => exact h
  | halted phase => exact h
  | draining f =>
    simp only [hphase] at hkept
    refine drain_governed h hphase ?_ hkept
    simpa only [apart,hphase] using hapart
  | finishing completion followup =>
    simp only [hphase] at hkept
    refine h.act hkept ?_
    cases followup <;> simp [hphase,Phase.waiting,Rest.waiting,afterFinish]
  | emitting commands rest =>
    have hrunning : L.running = true := by simp [running,hphase]
    cases commands with
    | cons command commands =>
      have hfits : L.scheduler.fitsSchedule command = true := by
        simpa only [apart,hphase] using hapart
      simp only [hphase] at hkept
      cases hschedule : L.scheduler.schedule command with
      | ok scheduler =>
        simp only [hschedule] at hkept ⊢
        exact emit_governed h hphase hfits hschedule hkept
      | error reason =>
        simp only [hschedule] at hkept ⊢
        exact h.halt hkept
    | nil =>
      cases rest with
      | done =>
        simp only [hphase] at hkept
        exact h.same hkept rfl (List.nil_subset L.phase.waiting) trivial
      | followup followup =>
        cases followup with
        | finishCancellation command =>
          simp only [hphase] at hkept
          exact h.act hkept (List.nil_subset L.phase.waiting)
        | rescheduleCancellation command =>
          have hruled : L.scheduler.Ruled [command.sessionId] := by
            have hall := h.ruled
            rwa [hphase] at hall
          have hfits : L.scheduler.fitsRuntime command = true := by
            simpa only [apart,hphase] using hapart
          simp only [hphase] at hkept
          cases hschedule : L.scheduler.scheduleRuntime command with
          | ok scheduler =>
            simp only [hschedule] at hkept ⊢
            have hruled' := hruled.scheduleRuntime (hruled.owned.waiting _ (by simp)) hfits hschedule
            exact ⟨hkept,(hkept.custody rfl).steady.forget,
              ⟨hruled'.owned.forget (List.nil_subset _),hruled'.facts⟩,trivial⟩
          | error reason =>
            simp only [hschedule] at hkept ⊢
            exact h.halt hkept
      | cleanup command =>
        have hruled : L.scheduler.Ruled [] := by
          have hall := h.ruled
          rwa [hphase] at hall
        simp only [hphase] at hkept
        exact ⟨hkept,(h.steady.cleanup command.sessionId).steady,hruled.cleanup List.not_mem_nil,trivial⟩

theorem step_governed (h : Governed W L) {move : Move} (hanswered : L.answered move)
    (hapart : L.apart move = true) : Governed W (L.step W move) := by
  have hkept : Kept W False (L.step W move) := step_kept h.kept fun hfalse => hfalse.elim
  cases move with
  | restart => exact restart_governed h hkept
  | handshake snapshot =>
    simp only [step] at hkept ⊢
    split_ifs at hkept ⊢
    · exact handshake_governed h snapshot hkept
    · exact h
  | frame frame =>
    simp only [step] at hkept ⊢
    split_ifs at hkept ⊢
    · exact takeFrame_governed h frame hkept
    · exact h
  | completion =>
    simp only [step] at hkept ⊢
    split_ifs at hkept ⊢ with hidle
    · exact takeCompletion_governed h hidle hkept
    · exact h
  | next => exact next_governed h hapart hkept
  | work place move =>
    refine ⟨hkept,h.steady.work place move,h.ruled.work h.steady fun w outcome events hw hstage hmove => ?_,
      h.tidy⟩
    subst hmove
    obtain ⟨E,s,s',hcall⟩ := hanswered w hw hstage
    exact Runtime.dispatch_fits hcall
  | stop =>
    have hhalted : Kept W False L.halt := .halted h.kept.sound rfl
    simp only [step]
    cases L.phase <;> first | exact h | exact h.halt hhalted

theorem run_governed (h : Governed W L) {moves : List Move} (hanswered : answeredRun W L moves)
    (hapart : apartRun W L moves = true) : Governed W (L.run W moves) := by
  induction moves generalizing L with
  | nil => exact h
  | cons move moves ih =>
    simp only [apartRun,Bool.and_eq_true] at hapart
    exact ih (step_governed h hanswered.1 hapart.1) hanswered.2 hapart.2

theorem afterDrain_retains {f : RuntimeScheduler.Finishing} {scheduler : RuntimeScheduler}
    (hcontrols : scheduler.controls = L.scheduler.controls) :
    L.scheduler.Retains (L.afterDrain f scheduler).scheduler := by
  intro sessionId control hget
  rw [← hcontrols] at hget
  show (scheduler.endFinish f).controls.get _ = _ ∨ (scheduler.endFinish f).Released _ _
  unfold RuntimeScheduler.endFinish
  split_ifs
  · exact scheduler.cleanup_retains _ sessionId control hget
  · exact .inl hget

theorem next_retains (L : Loop σ) : L.scheduler.Retains (L.next W).scheduler := by
  have hsame : ∀ L' : Loop σ, L'.scheduler = L.scheduler → L.scheduler.Retains L'.scheduler :=
    fun L' heq => RuntimeScheduler.retains_of_controls (congrArg _ heq)
  unfold next
  cases L.phase with
  | idle => exact hsame _ rfl
  | halted phase => exact hsame _ rfl
  | draining f =>
    dsimp only [drain]
    cases f.remaining with
    | zero => exact afterDrain_retains rfl
    | succ remaining =>
      cases hturn : L.scheduler.drainTurn with
      | error reason => exact hsame _ rfl
      | ok turn =>
        obtain ⟨more,scheduler⟩ := turn
        have hcontrols := RuntimeScheduler.drainTurn_controls hturn
        cases more with
        | true => exact RuntimeScheduler.retains_of_controls hcontrols
        | false => exact afterDrain_retains hcontrols
  | finishing completion followup => exact hsame _ (act_same _ _).1
  | emitting commands rest =>
    cases commands with
    | cons command commands =>
      dsimp only
      cases hschedule : L.scheduler.schedule command with
      | ok scheduler => exact RuntimeScheduler.schedule_retains hschedule
      | error reason => exact hsame _ rfl
    | nil =>
      cases rest with
      | done => exact hsame _ rfl
      | cleanup command => exact L.scheduler.cleanup_retains command.sessionId
      | followup followup =>
        cases followup with
        | finishCancellation command => exact hsame _ (act_same _ _).1
        | rescheduleCancellation command =>
          dsimp only
          cases hschedule : L.scheduler.scheduleRuntime command with
          | ok scheduler => exact RuntimeScheduler.scheduleRuntime_retains hschedule
          | error reason => exact hsame _ rfl

theorem step_retains (L : Loop σ) {move : Move} (hmove : move ≠ .restart) :
    L.scheduler.Retains (L.step W move).scheduler := by
  have hsame : ∀ L' : Loop σ, L'.scheduler = L.scheduler → L.scheduler.Retains L'.scheduler :=
    fun L' heq => RuntimeScheduler.retains_of_controls (congrArg _ heq)
  cases move with
  | restart => exact absurd rfl hmove
  | handshake snapshot =>
    refine hsame _ ?_
    simp only [step,handshake]
    split_ifs
    · split <;> rfl
    · rfl
  | frame frame =>
    refine hsame _ ?_
    simp only [step,takeFrame]
    split_ifs
    · split
      · rfl
      · exact (act_same _ _).1
    · rfl
  | completion =>
    simp only [step]
    split_ifs
    · unfold takeCompletion
      cases hchannel : L.scheduler.completions with
      | nil => exact hsame _ rfl
      | cons completion rest =>
        dsimp only
        cases hfinish : ({ L.scheduler with completions := rest } : RuntimeScheduler).beginFinish
            completion with
        | error reason => exact hsame _ rfl
        | ok result =>
          obtain ⟨finishing,scheduler⟩ := result
          exact RuntimeScheduler.retains_of_controls
            ((RuntimeScheduler.beginFinish_controls hfinish).trans rfl)
    · exact hsame _ rfl
  | next => exact L.next_retains
  | work place move =>
    exact RuntimeScheduler.retains_of_controls (L.scheduler.work_frame place move).controls
  | stop =>
    refine hsame _ ?_
    simp only [step]
    cases L.phase <;> rfl

/-- A run in which no worker returns is one of the adapter. -/
theorem answeredRun_of_quiet {moves : List Move}
    (hquiet : ∀ move ∈ moves, ∀ place outcome events, move ≠ .work place (.returns outcome events)) :
    answeredRun W L moves := by
  induction moves generalizing L with
  | nil => trivial
  | cons move moves ih =>
    refine ⟨?_,ih fun m hm => hquiet m (List.mem_cons_of_mem _ hm)⟩
    cases move with
    | work place act =>
      cases act with
      | returns outcome events => exact absurd rfl (hquiet _ List.mem_cons_self place outcome events)
      | panics reason => trivial
      | release => trivial
      | send => trivial
    | restart => trivial
    | handshake snapshot => trivial
    | frame frame => trivial
    | completion => trivial
    | next => trivial
    | stop => trivial

theorem answeredRun_append {moves more : List Move} : answeredRun W L (moves ++ more) ↔
    answeredRun W L moves ∧ answeredRun W (L.run W moves) more := by
  induction moves generalizing L with
  | nil => simp [answeredRun,run]
  | cons move moves ih => simp only [List.cons_append,answeredRun,ih,and_assoc,run,List.foldl_cons]

end Loop

/-- Nothing but one SessionCancel is given to the executor under a control after a cancellation
was scheduled under it, one terminal event at most is sent under it, and what runs in a session
runs under the control the session has. -/
structure Singular (S : RuntimeScheduler) : Prop where
  alone : ∀ control, (passedSinceCancel S.trace control).length ≤ 1 ∧
    ∀ command ∈ passedSinceCancel S.trace control, command.command.isSessionCancel = true
  once : ∀ control, terminalFacts (sentUnder S.trace control) ≤ 1
  own : ∀ sessionId runtime, S.active.get sessionId = some runtime →
    S.controls.get sessionId = some runtime.control

theorem singular_of_ruled {S : RuntimeScheduler} {waiting : List String} (h : S.Ruled waiting) :
    Singular S := by
  refine ⟨fun control => ?_,h.facts.once,h.owned.active⟩
  rcases h.facts.alone control with hnone | ⟨command,hone,hcancel,-⟩
  · simp [hnone]
  · simp [hone,hcancel]

/-- In every run of the daemon with the clarification adapter in which no command is given to a
worker under a control that has brought its fact, and none is suppressed for a first fact while
its session is active: each control brings one fact and one SessionCancel at most, and it goes
only when its session has nothing left in the scheduler. -/
theorem cancellation_semantics {σ : Type} (W : World σ) (runtime : σ) (moves : List Move)
    (hanswered : Loop.answeredRun W (Loop.fresh runtime) moves)
    (hapart : Loop.apartRun W (Loop.fresh runtime) moves = true) :
    Singular ((Loop.fresh runtime).run W moves).scheduler ∧ ∀ move, move ≠ .restart →
      ((Loop.fresh runtime).run W moves).scheduler.Retains
        (((Loop.fresh runtime).run W moves).step W move).scheduler := by
  have hfresh : Loop.Governed W (Loop.fresh runtime) :=
    ⟨.halted (Sound.init runtime) rfl,RuntimeScheduler.Steady.init,RuntimeScheduler.Ruled.init,trivial⟩
  exact ⟨singular_of_ruled (Loop.run_governed hfresh hanswered hapart).ruled,
    fun move hmove => Loop.step_retains _ hmove⟩

/-- A retained session without repositories. -/
def plainStart : Runtime.StartInput := ⟨⟨"r",1,"Export","","",[],[],[]⟩,[],[]⟩

def plainSession : Runtime.Session :=
  ⟨some ⟨Runtime.startedContext plainStart [],false⟩,.stored (Runtime.startedContext plainStart [])⟩

/-- Everything works and the agent asks back; the flag is first seen at this moment, if at all. -/
def plainEnvironment (requested : Option Runtime.Moment) : Runtime.Environment where
  requested
  size := fun _ => 1000
  write := fun _ => none
  remove := fun _ => none
  decode := fun _ => none
  prepare := fun _ => none
  inspect := fun _ _ => .error ⟨.workspace,"no checkout",none,none⟩
  agent := .ok "Which format?"

def cancelledCall : List Move :=
  [.work 0 (.returns .dispatchSucceeded [.sessionCompleted "Pi clarification cancelled"]),.work 0 .release,
    .work 0 .send,.completion,.next,.next,.next,.next,.next]

/-- The cancelled command ends with the fact, and the cancellation is finished without a call. -/
theorem cancelledRun_singular :
    Loop.apartRun calmWorld (Loop.fresh ()) (cancelledRun ++ cancelledCall) = true ∧
      Singular ((Loop.fresh ()).run calmWorld (cancelledRun ++ cancelledCall)).scheduler := by
  have hapart : Loop.apartRun calmWorld (Loop.fresh ()) (cancelledRun ++ cancelledCall) = true := by
    decide +kernel
  have hworker : ((Loop.fresh ()).run calmWorld cancelledRun).scheduler.workers[0]? =
      some ⟨resumeEnvelope 1 "a",0,.running⟩ := by decide +kernel
  have hanswered : Loop.answeredRun calmWorld (Loop.fresh ()) (cancelledRun ++ cancelledCall) := by
    refine Loop.answeredRun_append.mpr ⟨Loop.answeredRun_of_quiet (by simp [cancelledRun,taken]),?_,
      Loop.answeredRun_of_quiet (by simp)⟩
    intro w hw _
    obtain rfl := Option.some.inj (hworker.symm.trans hw)
    exact ⟨plainEnvironment (some ⟨0,0⟩),plainSession,plainSession,rfl⟩
  exact ⟨hapart,(cancellation_semantics calmWorld () _ hanswered hapart).1⟩

def messageEnvelope (seq : ℕ) (commandId : String) : CommandEnvelope :=
  ⟨commandId,"session-1",seq,"1",1,.messageSend "message-1" "CSV, please."⟩

/-- The answer to a resumed session that asks back. -/
def askedBack : List Event :=
  [.sessionStarted "pi-session-1",.agentActivity "Pi clarification response received",
    .agentMessage "agent-response-a" "Which format?",.requirementAssessed {
      requirementId := "r"
      requirementRevision := 1
      verdict := .needsClarification
      blockers := ["Pi response was not a structured readiness assessment"]
      assumptions := ["North server remains readiness authority"]
      repositoriesReviewed := [] }]

/-- A command runs and a message waits for it in the journal. -/
def waitingMessage : List Move :=
  [.restart,.handshake ⟨1,[]⟩,.next] ++ taken (.command (resumeEnvelope 1 "a")) ++
    taken (.command (messageEnvelope 2 "b"))

/-- The command has returned when the cancellation comes: that is kept, and to be scheduled again
after the command, and before that the message is released and suppressed. -/
def lateCancel : List Move :=
  taken (.command (cancelEnvelope 3 "c")) ++
    [.work 0 .release,.work 0 .send,.completion,.next,.next,.next,.next]

def racedRun : List Move :=
  waitingMessage ++ (.work 0 (.returns .dispatchSucceeded askedBack))::(lateCancel ++
    [.work 0 (.returns .dispatchSucceeded [.sessionCompleted "Pi clarification cancelled: stop"]),
      .work 0 .release,.work 0 .send])

/-- Both the suppressed message and the cancellation complete the session. -/
theorem racedRun_two_facts : Loop.answeredRun calmWorld (Loop.fresh ()) racedRun ∧
    ((Loop.fresh ()).run calmWorld racedRun).running = true ∧
    ¬ Singular ((Loop.fresh ()).run calmWorld racedRun).scheduler := by
  have htwo : terminalFacts (sentUnder ((Loop.fresh ()).run calmWorld racedRun).scheduler.trace 0) = 2 := by
    decide +kernel
  have hfirst : ((Loop.fresh ()).run calmWorld waitingMessage).scheduler.workers[0]? =
      some ⟨resumeEnvelope 1 "a",0,.running⟩ := by decide +kernel
  have hsecond : ((((Loop.fresh ()).run calmWorld waitingMessage).step calmWorld
      (.work 0 (.returns .dispatchSucceeded askedBack))).run calmWorld lateCancel).scheduler.workers[0]? =
        some ⟨cancelEnvelope 3 "c",0,.running⟩ := by decide +kernel
  refine ⟨Loop.answeredRun_append.mpr ⟨Loop.answeredRun_of_quiet (by simp [waitingMessage,taken]),?_,
    Loop.answeredRun_append.mpr ⟨Loop.answeredRun_of_quiet (by simp [lateCancel,taken]),?_,
      Loop.answeredRun_of_quiet (by simp)⟩⟩,by decide +kernel,fun h => ?_⟩
  · intro w hw _
    obtain rfl := Option.some.inj (hfirst.symm.trans hw)
    exact ⟨plainEnvironment none,plainSession,plainSession,by decide +kernel⟩
  · intro w hw _
    obtain rfl := Option.some.inj (hsecond.symm.trans hw)
    exact ⟨plainEnvironment none,plainSession,{},by decide +kernel⟩
  · have hone := h.once 0
    omega

end StartLoop
end North
