import North.SchedulerRuns

/-! The terminal facts of a control. A control is meant to bring one terminal event, whatever
brings it: a worker, or a command suppressed in its place. The scheduler looks at the fact
before it suppresses, and not before it gives a command to a worker. -/
namespace North
namespace Scheduler

open Protocol Journal

def terminalFacts (events : List Event) : ℕ := events.countP fun event => hasTerminalEvent [event]

theorem hasTerminalEvent_iff {events : List Event} :
    hasTerminalEvent events = true ↔ 0 < terminalFacts events := by
  simp [hasTerminalEvent,terminalFacts]

/-- The session of a cancellation that is to be scheduled again. -/
def RuntimeFollowup.waiting : RuntimeFollowup → List String
  | .finishCancellation _ => []
  | .rescheduleCancellation command => [command.sessionId]

namespace Trace

def sentUnder (control : ℕ) : Trace → List Event
  | .sent completion k => if k = control then completion.events else []
  | _ => []

def passedUnder (control : ℕ) : Trace → Option CommandEnvelope
  | .passed command k => if k = control then some command else none
  | _ => none

/-- A SessionCancel is scheduled under the control. -/
def cancels (control : ℕ) : Trace → Bool
  | .scheduled command k => k == control && command.command.isSessionCancel
  | _ => false

end Trace

/-- The events put in completions under a control. -/
def sentUnder (trace : List Trace) (control : ℕ) : List Event :=
  trace.flatMap (Trace.sentUnder control)

/-- The commands given to the executor under a control since the first SessionCancel was
scheduled under it. -/
def passedSinceCancel : List Trace → ℕ → List CommandEnvelope
  | [], _ => []
  | entry::trace, control =>
    if entry.cancels control then trace.filterMap (Trace.passedUnder control)
    else passedSinceCancel trace control

section

variable {trace : List Trace} {entry : Trace} {control : ℕ}

theorem terminalFacts_append (events events' : List Event) :
    terminalFacts (events ++ events') = terminalFacts events + terminalFacts events' :=
  List.countP_append

theorem sentUnder_note (trace : List Trace) (entry : Trace) (control : ℕ) :
    sentUnder (trace ++ [entry]) control = sentUnder trace control ++ entry.sentUnder control := by
  simp [sentUnder]

theorem passedSinceCancel_note (trace : List Trace) (entry : Trace) (control : ℕ) :
    passedSinceCancel (trace ++ [entry]) control = passedSinceCancel trace control ++
      if trace.any (Trace.cancels control) then (entry.passedUnder control).toList else [] := by
  induction trace with
  | nil => cases hcancels : entry.cancels control <;> simp [passedSinceCancel,hcancels]
  | cons first trace ih =>
    rw [List.cons_append,passedSinceCancel,passedSinceCancel,List.any_cons]
    cases hcancels : first.cancels control with
    | false => simpa using ih
    | true => cases hpassed : entry.passedUnder control <;> simp [hpassed]

end

namespace RuntimeScheduler

variable {S S' : RuntimeScheduler} {waiting : List String} {command : CommandEnvelope} {control : ℕ}

/-! ### Whose control -/

/-- Every session has one control, and what it has in the scheduler is under that control;
the sessions with a cancellation kept, here or by the caller (`waiting`), have it requested. -/
structure Owned (S : RuntimeScheduler) (waiting : List String) : Prop where
  bounded : ∀ sessionId control, S.controls.get sessionId = some control → control < S.allocated
  apart : ∀ sessionId sessionId' control, S.controls.get sessionId = some control →
    S.controls.get sessionId' = some control → sessionId = sessionId'
  active : ∀ sessionId runtime, S.active.get sessionId = some runtime →
    S.controls.get sessionId = some runtime.control
  queued : ∀ item ∈ S.queued, S.controls.get item.command.sessionId = some item.control
  pending : ∀ sessionId command, S.pendingCancellations.get sessionId = some command →
    command.sessionId = sessionId ∧ S.cancelling sessionId = true
  waiting : ∀ sessionId ∈ waiting, S.cancelling sessionId = true
  free : ∀ control, S.allocated ≤ control → S.cells control = {}

/-- A control once requested stays so, and the sessions keep their controls. -/
theorem cancelling_mono {sessionId : String} (h : S.cancelling sessionId = true)
    (hcontrols : ∀ control, S.controls.get sessionId = some control →
      S'.controls.get sessionId = some control)
    (hrequested : ∀ control, S.isCancellationRequested control = true →
      S'.isCancellationRequested control = true) : S'.cancelling sessionId = true := by
  obtain ⟨control,hget,hasked⟩ := (Option.any_eq_true _ _).mp h
  exact (Option.any_eq_true _ _).mpr ⟨control,hcontrols control hget,hrequested control hasked⟩

theorem requested_setControl {f : RuntimeControl → RuntimeControl} {k : ℕ}
    (hf : ∀ c, c.cancellationRequested = true → (f c).cancellationRequested = true)
    (h : S.isCancellationRequested k = true) :
    (S.setControl control f).isCancellationRequested k = true := by
  by_cases hk : k = control
  · subst hk
    simpa [isCancellationRequested,setControl] using hf _ h
  · simpa [isCancellationRequested,setControl,hk] using h

theorem requested_mark {k : ℕ} (h : S.isCancellationRequested k = true) :
    (S.markTerminalFactEmitted control).isCancellationRequested k = true :=
  requested_setControl (f := fun c => { c with terminalFactEmitted := true }) (fun _ => id) h

theorem emitted_setControl (S : RuntimeScheduler) (control k : ℕ) (f : RuntimeControl → RuntimeControl) :
    (S.setControl control f).terminalFactEmitted k =
      if k = control then (f (S.cells control)).terminalFactEmitted else S.terminalFactEmitted k := by
  by_cases hk : k = control
  · subst hk
    simp [terminalFactEmitted,setControl]
  · simp [terminalFactEmitted,setControl,hk]

namespace Owned

theorem init : Owned {} [] where
  bounded := by simp [OrdMap.get,OrdMap.find]
  apart := by simp [OrdMap.get,OrdMap.find]
  active := by simp [OrdMap.get,OrdMap.find]
  queued := by simp
  pending := by simp [OrdMap.get,OrdMap.find]
  waiting := by simp
  free := fun _ _ => rfl

theorem lt_allocated (h : S.Owned waiting) (hcontrol : S.controls.get command.sessionId = some control) :
    control < S.allocated := h.bounded _ _ hcontrol

theorem forget {waiting' : List String} (h : S.Owned waiting) (hsub : waiting' ⊆ waiting) :
    S.Owned waiting' :=
  { h with waiting := fun sessionId hmem => h.waiting sessionId (hsub hmem) }

theorem note (h : S.Owned waiting) (entry : Trace) : (S.note entry).Owned waiting := { h with }

theorem setControl (h : S.Owned waiting) (hcontrol : control < S.allocated)
    {f : RuntimeControl → RuntimeControl}
    (hf : ∀ c, c.cancellationRequested = true → (f c).cancellationRequested = true) :
    (S.setControl control f).Owned waiting :=
  { h with
    pending := fun sessionId command hget =>
      ⟨(h.pending sessionId command hget).1,cancelling_mono (h.pending sessionId command hget).2
        (fun _ => id) fun _ => requested_setControl hf⟩
    waiting := fun sessionId hmem =>
      cancelling_mono (h.waiting sessionId hmem) (fun _ => id) fun _ => requested_setControl hf
    free := fun k hk => by
      have hne : k ≠ control := by
        have hle : S.allocated ≤ k := hk
        omega
      simpa [RuntimeScheduler.setControl,hne] using h.free k hk }

theorem markTerminalFactEmitted (h : S.Owned waiting) (hcontrol : control < S.allocated) :
    (S.markTerminalFactEmitted control).Owned waiting := h.setControl hcontrol fun _ => id

theorem suppress (h : S.Owned waiting) (hcontrol : control < S.allocated) :
    (S.suppress command control).Owned waiting := by
  have hmarked := h.markTerminalFactEmitted hcontrol
  exact { hmarked with }

theorem enqueue (h : S.Owned waiting) (hcontrol : S.controls.get command.sessionId = some control) :
    (S.enqueue command control).Owned waiting :=
  { h with
    queued := fun item hitem => by
      rcases List.mem_append.mp hitem with hitem | hitem
      · exact h.queued item hitem
      · rwa [List.mem_singleton.mp hitem] }

theorem started (h : S.Owned waiting) {permits : ℕ}
    (hcontrol : S.controls.get command.sessionId = some control) :
    ({ S with permits }.started command control).Owned waiting :=
  { h with
    active := fun sessionId runtime hget => by
      change (S.active.insert _ _).get sessionId = some runtime at hget
      rw [OrdMap.get_insert] at hget
      split_ifs at hget with hsession
      · obtain rfl := Option.some.inj hget
        subst hsession
        exact hcontrol
      · exact h.active sessionId runtime hget }

theorem requeue (h : S.Owned waiting) {queue : List QueuedRuntime} (hsub : queue ⊆ S.queued) :
    ({ S with queued := queue } : RuntimeScheduler).Owned waiting :=
  { h with queued := fun item hitem => h.queued item (hsub hitem) }

theorem keepPending (h : S.Owned waiting) (hcancelling : S.cancelling command.sessionId = true) :
    (S.keepPending command).Owned waiting := by
  unfold RuntimeScheduler.keepPending
  split_ifs
  · exact h
  · refine { h with pending := fun sessionId kept hget => ?_ }
    change (S.pendingCancellations.insert _ _).get sessionId = some kept at hget
    rw [OrdMap.get_insert] at hget
    split_ifs at hget with hsession
    · obtain rfl := Option.some.inj hget
      subst hsession
      exact ⟨rfl,hcancelling⟩
    · exact h.pending sessionId kept hget

theorem controlFor (h : S.Owned waiting) (command : CommandEnvelope) :
    (S.controlFor command).2.Owned waiting ∧
      (S.controlFor command).2.controls.get command.sessionId = some (S.controlFor command).1 := by
  unfold RuntimeScheduler.controlFor
  cases hcontrol : S.controls.get command.sessionId with
  | some control => exact ⟨h,hcontrol⟩
  | none =>
    have hkeeps : ∀ sessionId control, S.controls.get sessionId = some control →
        (S.controls.insert command.sessionId S.allocated).get sessionId = some control := by
      intro sessionId control hget
      have hne : sessionId ≠ command.sessionId := by
        rintro rfl
        rw [hcontrol] at hget
        exact absurd hget (by simp)
      rw [OrdMap.get_insert,if_neg hne,hget]
    have hcells : ∀ control, (Function.update S.cells S.allocated
        ({ sessionId := command.sessionId } : RuntimeControl) control).cancellationRequested =
          (S.cells control).cancellationRequested := by
      intro control
      by_cases hk : control = S.allocated
      · subst hk
        simp [h.free S.allocated (Nat.le_refl _)]
      · simp [hk]
    have hcancelling : ∀ sessionId, S.cancelling sessionId = true →
        RuntimeScheduler.cancelling { S with
          controls := S.controls.insert command.sessionId S.allocated
          cells := Function.update S.cells S.allocated { sessionId := command.sessionId }
          allocated := S.allocated+1 } sessionId = true := fun sessionId hold =>
      cancelling_mono hold (hkeeps sessionId) fun control hasked => (hcells control).trans hasked
    refine ⟨⟨fun sessionId control hget => ?_,fun sessionId sessionId' control hget hget' => ?_,
      fun sessionId runtime hget => hkeeps _ _ (h.active sessionId runtime hget),
      fun item hitem => hkeeps _ _ (h.queued item hitem),
      fun sessionId kept hget => ⟨(h.pending sessionId kept hget).1,
        hcancelling sessionId (h.pending sessionId kept hget).2⟩,
      fun sessionId hmem => hcancelling sessionId (h.waiting sessionId hmem),fun control hfree => ?_⟩,?_⟩
    · change (S.controls.insert _ _).get sessionId = some control at hget
      rw [OrdMap.get_insert] at hget
      split_ifs at hget
      · obtain rfl := Option.some.inj hget
        exact Nat.lt_succ_self _
      · exact Nat.lt_succ_of_lt (h.bounded sessionId control hget)
    · change (S.controls.insert _ _).get sessionId = some control at hget
      change (S.controls.insert _ _).get sessionId' = some control at hget'
      rw [OrdMap.get_insert] at hget hget'
      -- the new number is above all others
      split_ifs at hget hget' with hs hs' hs'
      · exact hs.trans hs'.symm
      · obtain rfl := Option.some.inj hget
        exact absurd (h.bounded sessionId' _ hget') (Nat.lt_irrefl _)
      · obtain rfl := Option.some.inj hget'
        exact absurd (h.bounded sessionId _ hget) (Nat.lt_irrefl _)
      · exact h.apart sessionId sessionId' control hget hget'
    · change S.allocated+1 ≤ control at hfree
      have hne : control ≠ S.allocated := by omega
      simpa [hne] using h.free control (by omega)
    · show (S.controls.insert _ _).get command.sessionId = _
      rw [OrdMap.get_insert,if_pos rfl]

/-- A control goes only when its session has nothing under it. -/
theorem cleanup (h : S.Owned waiting) (sessionId : String) (hfree : sessionId ∉ waiting) :
    (S.maybeCleanupControl sessionId).Owned waiting := by
  unfold maybeCleanupControl
  cases hcontrol : S.controls.get sessionId with
  | none => exact h
  | some control =>
    dsimp only
    split_ifs with hbusy
    · exact h
    · simp only [busy,Bool.or_eq_true,not_or,Bool.not_eq_true] at hbusy
      obtain ⟨-,⟨⟨hactive,hqueued⟩,-⟩,hpending⟩ := hbusy
      have hactive' := OrdMap.contains_eq_false.mp hactive
      have hpending' := OrdMap.contains_eq_false.mp hpending
      have hkeeps : ∀ other k, other ≠ sessionId → S.controls.get other = some k →
          (S.controls.erase sessionId).get other = some k := fun other k hne hget => by
        rw [OrdMap.get_erase,if_neg hne,hget]
      have hold : ∀ other k, (S.controls.erase sessionId).get other = some k →
          S.controls.get other = some k := fun other k hget => by
        rw [OrdMap.get_erase] at hget
        split_ifs at hget
        exact hget
      have hcancelling : ∀ other, other ≠ sessionId → S.cancelling other = true →
          RuntimeScheduler.cancelling { S with controls := S.controls.erase sessionId } other = true :=
        fun other hne hasked => cancelling_mono hasked (fun k => hkeeps other k hne) fun _ => id
      refine ⟨fun other k hget => h.bounded other k (hold other k hget),
        fun other other' k hget hget' => h.apart other other' k (hold other k hget) (hold other' k hget'),
        fun other runtime hget => hkeeps _ _ ?_ (h.active other runtime hget),
        fun item hitem => hkeeps _ _ ?_ (h.queued item hitem),
        fun other kept hget => ⟨(h.pending other kept hget).1,hcancelling other ?_ (h.pending other kept hget).2⟩,
        fun other hmem => hcancelling other ?_ (h.waiting other hmem),h.free⟩
      · rintro rfl
        exact absurd (hactive'.symm.trans hget) (by simp)
      · simpa using List.any_eq_false.mp hqueued item hitem
      · rintro rfl
        exact absurd (hpending'.symm.trans hget) (by simp)
      · rintro rfl
        exact hfree hmem

theorem work (h : S.Owned waiting) (place : ℕ) (move : WorkerMove) :
    (S.work place move).Owned waiting := by
  rcases S.work_cases place move with hsame | ⟨w,others,-,-,hcase⟩
  · rwa [hsame]
  · rcases hcase with ⟨-,_,_,_,-,-,hwork⟩ | ⟨-,_,_,_,-,-,hwork⟩ | ⟨-,_,_,_,-,-,hwork⟩ <;> rw [hwork] <;>
      exact { h with }

end Owned

/-! ### One fact -/

end RuntimeScheduler

/-- What a call of the executor may bring: one terminal event at most, and a cancellation
always brings one. -/
def fitsAnswer (command : CommandEnvelope) (events : List Event) : Bool :=
  terminalFacts events ≤ 1 && (!command.command.isSessionCancel || hasTerminalEvent events)

def WorkerStage.events : WorkerStage → Option (List Event)
  | .running => none
  | .returned _ events => some events
  | .released _ events => some events

namespace RuntimeScheduler

variable {S S' : RuntimeScheduler} {waiting hand : List String} {command : CommandEnvelope}
  {control : ℕ}

/-- The command's terminal fact is there, or it comes with the completion of the command. -/
def Accounts (S : RuntimeScheduler) (control : ℕ) (command : CommandEnvelope) : Prop :=
  S.terminalFactEmitted control = true ∨
    S.active.get command.sessionId = some ⟨command.commandId,control⟩ ∧
      ((∃ w ∈ S.workers, w.command = command) ∨
        ∃ c ∈ S.completions, c.commandId = command.commandId ∧ hasTerminalEvent c.events = true)

theorem Accounts.mono (h : S.Accounts control command)
    (hemitted : S.terminalFactEmitted control = true → S'.terminalFactEmitted control = true)
    (hactive : S'.active.get command.sessionId = S.active.get command.sessionId)
    (hworkers : ∀ w ∈ S.workers, ∃ w' ∈ S'.workers, w'.command = w.command)
    (hcompletions : ∀ c ∈ S.completions, c ∈ S'.completions) : S'.Accounts control command := by
  refine h.imp hemitted fun hcomes => ⟨hactive.trans hcomes.1,hcomes.2.imp ?_ ?_⟩
  · rintro ⟨w,hw,rfl⟩
    exact hworkers w hw
  · rintro ⟨c,hc,hid,hterminal⟩
    exact ⟨c,hcompletions c hc,hid,hterminal⟩

/-- A terminal event that is not marked yet is in the channel, and its command is active. -/
def Unmarked (S : RuntimeScheduler) (control : ℕ) : Prop :=
  ∃ c ∈ S.completions, hasTerminalEvent c.events = true ∧
    S.active.get c.sessionId = some ⟨c.commandId,control⟩

/-- Each control brings one terminal fact at most, and under a cancelled control nothing but
one SessionCancel is given to the executor. -/
structure OneFact (S : RuntimeScheduler) : Prop where
  once : ∀ control, terminalFacts (sentUnder S.trace control) ≤ 1
  unsent : ∀ control, S.terminalFactEmitted control = false →
    terminalFacts (sentUnder S.trace control) = 0 ∨ S.Unmarked control
  running : ∀ sessionId runtime, S.active.get sessionId = some runtime →
    S.terminalFactEmitted runtime.control = false
  suppressed : ∀ commandId control, S.suppressed.get commandId = some control →
    S.terminalFactEmitted control = true
  worker : ∀ w ∈ S.workers, ∀ events, w.stage.events = some events → fitsAnswer w.command events = true
  flagged : ∀ control, S.trace.any (Trace.cancels control) = true →
    S.isCancellationRequested control = true
  alone : ∀ control, passedSinceCancel S.trace control = [] ∨ ∃ command,
    passedSinceCancel S.trace control = [command] ∧ command.command.isSessionCancel = true ∧
      S.Accounts control command

/-- A completion is taken off where its command was suppressed, or else where it is active. -/
theorem takeOff_cases {c : RuntimeCompletion} (hok : S.takeOff c = .ok (control,S')) :
    (S.suppressed.get c.commandId = some control ∧
      S' = { S with suppressed := S.suppressed.erase c.commandId }) ∨
    (S.active.get c.sessionId = some ⟨c.commandId,control⟩ ∧
      S' = { S with active := S.active.erase c.sessionId }) := by
  unfold takeOff at hok
  cases hsuppressed : S.suppressed.get c.commandId with
  | some k =>
    simp only [hsuppressed] at hok
    obtain ⟨rfl,rfl⟩ := Prod.mk.inj (Except.ok.inj hok)
    exact .inl ⟨rfl,rfl⟩
  | none =>
    cases hactive : S.active.get c.sessionId with
    | none => simp [hsuppressed,hactive] at hok
    | some runtime =>
      simp only [hsuppressed,hactive] at hok
      split_ifs at hok with hid
      obtain ⟨rfl,rfl⟩ := Prod.mk.inj (Except.ok.inj hok)
      obtain ⟨id,k⟩ := runtime
      obtain rfl : id = c.commandId := not_not.mp hid
      exact .inr ⟨rfl,rfl⟩

/-- The fact of a completion is marked at its control. -/
def marked (S : RuntimeScheduler) (c : RuntimeCompletion) (control : ℕ) : RuntimeScheduler :=
  if hasTerminalEvent c.events then S.markTerminalFactEmitted control else S

/-- What `finish_active` does before its drain: take off, mark, and take the cancellation kept
for the session; without one, a control with its fact may be dropped after the drain. -/
theorem beginFinish_cases {c : RuntimeCompletion} {f : Finishing} (hok : S.beginFinish c = .ok (f,S')) :
    ∃ control T, S.takeOff c = .ok (control,T) ∧
      f.followup = ((T.marked c control).pendingCancellations.get c.sessionId).map (fun command =>
        if (T.marked c control).terminalFactEmitted control then .finishCancellation command
        else .rescheduleCancellation command) ∧
      (f.cleanup = true → f.followup = none) ∧
      S' = { T.marked c control with
        pendingCancellations := (T.marked c control).pendingCancellations.erase c.sessionId } := by
  simp only [beginFinish,bind,Except.bind] at hok
  cases htaken : S.takeOff c with
  | error reason => simp [htaken] at hok
  | ok taken =>
    obtain ⟨control,T⟩ := taken
    simp only [htaken] at hok
    obtain ⟨rfl,rfl⟩ := Prod.mk.inj (Except.ok.inj hok)
    refine ⟨control,T,rfl,rfl,fun hcleanup => ?_,rfl⟩
    exact Option.isNone_iff_eq_none.mp (Bool.and_eq_true_iff.mp hcleanup).1

theorem emitted_marked (S : RuntimeScheduler) (c : RuntimeCompletion) (control k : ℕ) :
    (S.marked c control).terminalFactEmitted k =
      if hasTerminalEvent c.events = true ∧ k = control then true else S.terminalFactEmitted k := by
  unfold marked
  by_cases hterminal : hasTerminalEvent c.events = true
  · simp only [hterminal,if_true,true_and]
    exact emitted_setControl S control k fun c => { c with terminalFactEmitted := true }
  · simp [hterminal]

namespace OneFact

theorem init : OneFact {} where
  once := by simp [sentUnder,terminalFacts]
  unsent := by simp [sentUnder,terminalFacts]
  running := by simp [OrdMap.get,OrdMap.find]
  suppressed := by simp [OrdMap.get,OrdMap.find]
  worker := by simp
  flagged := by simp
  alone := by simp [passedSinceCancel]

/-- A change of what the facts do not depend on. -/
theorem frame (h : S.OneFact) (htrace : S'.trace = S.trace) (hactive : S'.active = S.active)
    (hsuppressed : S'.suppressed = S.suppressed) (hworkers : S'.workers = S.workers)
    (hcompletions : S'.completions = S.completions)
    (hemitted : ∀ control, S'.terminalFactEmitted control = S.terminalFactEmitted control)
    (hrequested : ∀ control, S.isCancellationRequested control = true →
      S'.isCancellationRequested control = true) : S'.OneFact where
  once := htrace ▸ h.once
  unsent := fun control hnone => by
    rw [htrace,Unmarked,hcompletions,hactive]
    exact h.unsent control (hemitted control ▸ hnone)
  running := fun sessionId runtime hget => by
    rw [hemitted]
    exact h.running sessionId runtime (hactive ▸ hget)
  suppressed := fun commandId control hget => by
    rw [hemitted]
    exact h.suppressed commandId control (hsuppressed ▸ hget)
  worker := hworkers ▸ h.worker
  flagged := fun control hany => hrequested control (h.flagged control (htrace ▸ hany))
  alone := fun control => by
    simp only [htrace,Accounts,hemitted,hactive,hworkers,hcompletions]
    exact h.alone control

/-- A record entry without events that starts nothing; one of a cancellation must find it
requested. -/
theorem note (h : S.OneFact) (entry : Trace) (hsent : ∀ control, entry.sentUnder control = [])
    (hpassed : ∀ control, entry.passedUnder control = none)
    (hcancels : ∀ control, entry.cancels control = true → S.isCancellationRequested control = true) :
    (S.note entry).OneFact := by
  have hevents : ∀ control, sentUnder (S.note entry).trace control = sentUnder S.trace control := by
    intro control
    show sentUnder (S.trace ++ [entry]) control = _
    rw [sentUnder_note,hsent,List.append_nil]
  refine ⟨fun control => ?_,fun control hnone => ?_,h.running,h.suppressed,h.worker,
    fun control hany => ?_,fun control => ?_⟩
  · rw [hevents]
    exact h.once control
  · rw [hevents]
    exact h.unsent control hnone
  · change (S.trace ++ [entry]).any (Trace.cancels control) = true at hany
    rw [List.any_append,Bool.or_eq_true] at hany
    rcases hany with hold | hnew
    · exact h.flagged control hold
    · exact hcancels control (by simpa using hnew)
  · have hsame : passedSinceCancel (S.note entry).trace control = passedSinceCancel S.trace control := by
      show passedSinceCancel (S.trace ++ [entry]) control = _
      rw [passedSinceCancel_note,hpassed]
      simp
    rw [hsame]
    exact h.alone control

theorem remark (h : S.OneFact) (hemitted : S.terminalFactEmitted control = true) :
    (S.markTerminalFactEmitted control).OneFact := by
  refine h.frame rfl rfl rfl rfl rfl (fun k => ?_) fun _ => requested_mark
  rw [markTerminalFactEmitted,emitted_setControl]
  split_ifs with hk
  · rw [hk,hemitted]
  · rfl

/-- A command is suppressed when its control has brought its fact, or nothing runs under it. -/
theorem suppress (h : S.OneFact)
    (hfree : S.terminalFactEmitted control = true ∨
      ∀ sessionId runtime, S.active.get sessionId = some runtime → runtime.control ≠ control) :
    (S.suppress command control).OneFact := by
  have hemitted : ∀ k, (S.suppress command control).terminalFactEmitted k =
      if k = control then true else S.terminalFactEmitted k :=
    fun k => emitted_setControl S control k fun c => { c with terminalFactEmitted := true }
  have hmono : ∀ k, S.terminalFactEmitted k = true →
      (S.suppress command control).terminalFactEmitted k = true := fun k hk => by
    rw [hemitted]
    split_ifs
    · rfl
    · exact hk
  have hsent : ∀ k, sentUnder (S.suppress command control).trace k = sentUnder S.trace k ++
      if control = k then (S.suppressedCompletion command control).events else [] := by
    intro k
    show sentUnder (S.trace ++ [_]) k = _
    rw [sentUnder_note]
    rfl
  have hother : ∀ sessionId runtime, S.active.get sessionId = some runtime →
      runtime.control ≠ control := by
    intro sessionId runtime hget
    rcases hfree with hdone | hfree
    · rintro rfl
      exact absurd (h.running sessionId runtime hget) (by simp [hdone])
    · exact hfree sessionId runtime hget
  refine ⟨fun k => ?_,fun k hnone => ?_,fun sessionId runtime hget => ?_,fun id k hget => ?_,h.worker,
    fun k hany => ?_,fun k => ?_⟩
  · rw [hsent,terminalFacts_append]
    split_ifs with hk
    · subst hk
      cases hdone : S.terminalFactEmitted control with
      | true => simpa [suppressedCompletion,hdone,terminalFacts] using h.once control
      | false =>
        -- nothing is on its way, so the fact is the first one
        have hzero : terminalFacts (sentUnder S.trace control) = 0 := by
          refine (h.unsent control hdone).resolve_right ?_
          rintro ⟨c,-,-,hget⟩
          exact hother _ _ hget rfl
        rw [hzero]
        simp [suppressedCompletion,hdone,terminalFacts,hasTerminalEvent]
    · simpa [terminalFacts] using h.once k
  · rw [hemitted] at hnone
    split_ifs at hnone with hk
    rw [hsent,if_neg (Ne.symm hk),List.append_nil]
    refine (h.unsent k hnone).imp_right ?_
    rintro ⟨c,hc,hterminal,hget⟩
    exact ⟨c,List.mem_append_left _ hc,hterminal,hget⟩
  · rw [hemitted,if_neg (hother sessionId runtime hget)]
    exact h.running sessionId runtime hget
  · change (S.suppressed.insert _ _).get id = some k at hget
    rw [OrdMap.get_insert] at hget
    split_ifs at hget
    · rw [hemitted,if_pos (Option.some.inj hget).symm]
    · exact hmono k (h.suppressed id k hget)
  · change (S.trace ++ [_]).any (Trace.cancels k) = true at hany
    exact requested_mark (h.flagged k (by simpa [Trace.cancels] using hany))
  · have hsame : passedSinceCancel (S.suppress command control).trace k = passedSinceCancel S.trace k := by
      show passedSinceCancel (S.trace ++ [_]) k = _
      simp [passedSinceCancel_note,Trace.passedUnder]
    rw [hsame]
    refine (h.alone k).imp_right ?_
    rintro ⟨first,hfirst,hcancel,haccounts⟩
    refine ⟨first,hfirst,hcancel,haccounts.mono (hmono k) rfl (fun w hw => ⟨w,hw,rfl⟩) ?_⟩
    exact fun c hc => List.mem_append_left _ hc

/-- A command starts under a control without a fact; after a cancellation only the first
SessionCancel gets there. -/
theorem started (h : S.OneFact) (ho : S.Owned waiting) {permits : ℕ}
    (hcontrol : S.controls.get command.sessionId = some control)
    (hactive : S.active.get command.sessionId = none)
    (hcancelled : S.isCancelled command control = false)
    (hnone : S.terminalFactEmitted control = false) :
    ({ S with permits }.started command control).OneFact := by
  have hkeeps : ∀ sessionId runtime, S.active.get sessionId = some runtime →
      (S.active.insert command.sessionId ⟨command.commandId,control⟩).get sessionId = some runtime := by
    intro sessionId runtime hget
    have hne : sessionId ≠ command.sessionId := by
      rintro rfl
      exact absurd (hactive.symm.trans hget) (by simp)
    rw [OrdMap.get_insert,if_neg hne,hget]
  have hsent : ∀ k, sentUnder ({ S with permits }.started command control).trace k =
      sentUnder S.trace k := by
    intro k
    show sentUnder (S.trace ++ [_]) k = _
    simp [sentUnder_note,Trace.sentUnder]
  have hany : ∀ k, ({ S with permits }.started command control).trace.any (Trace.cancels k) =
      S.trace.any (Trace.cancels k) := by
    intro k
    show (S.trace ++ [_]).any (Trace.cancels k) = _
    simp [Trace.cancels]
  refine ⟨fun k => ?_,fun k hunmarked => ?_,fun sessionId runtime hget => ?_,h.suppressed,
    fun w hw events hevents => ?_,fun k hcancels => h.flagged k (hany k ▸ hcancels),fun k => ?_⟩
  · rw [hsent]
    exact h.once k
  · rw [hsent]
    refine (h.unsent k hunmarked).imp_right ?_
    rintro ⟨c,hc,hterminal,hget⟩
    exact ⟨c,hc,hterminal,hkeeps _ _ hget⟩
  · change (S.active.insert _ _).get sessionId = some runtime at hget
    rw [OrdMap.get_insert] at hget
    split_ifs at hget
    · obtain rfl := Option.some.inj hget
      exact hnone
    · exact h.running sessionId runtime hget
  · rcases List.mem_append.mp hw with hw | hw
    · exact h.worker w hw events hevents
    · rw [List.mem_singleton.mp hw] at hevents
      exact absurd hevents (by simp [WorkerStage.events])
  · have hpassed : passedSinceCancel ({ S with permits }.started command control).trace k =
        passedSinceCancel S.trace k ++ if S.trace.any (Trace.cancels k) then
          (Trace.passedUnder k (.passed command control)).toList else [] :=
      passedSinceCancel_note S.trace (.passed command control) k
    rw [hpassed]
    have hold : ∀ first, S.Accounts k first →
        RuntimeScheduler.Accounts ({ S with permits }.started command control) k first := by
      intro first haccounts
      refine haccounts.imp id fun hcomes => ⟨hkeeps _ _ hcomes.1,hcomes.2.imp_left ?_⟩
      rintro ⟨w,hw,hwf⟩
      exact ⟨w,List.mem_append_left _ hw,hwf⟩
    by_cases hk : S.trace.any (Trace.cancels k) = true ∧ control = k
    · obtain ⟨hcancels,rfl⟩ := hk
      have hrequested := h.flagged control hcancels
      have hcancel : command.command.isSessionCancel = true := by
        simpa [isCancelled,hrequested] using hcancelled
      -- what passed before still runs in the session, or has brought the fact
      have hfirst : passedSinceCancel S.trace control = [] := by
        refine (h.alone control).resolve_right ?_
        rintro ⟨first,-,-,haccounts⟩
        rcases haccounts with hdone | ⟨hget,-⟩
        · exact absurd hdone (by simp [hnone])
        · have hsession := ho.apart _ _ control (ho.active _ _ hget) hcontrol
          rw [hsession,hactive] at hget
          exact absurd hget (by simp)
      refine .inr ⟨command,?_,hcancel,.inr ⟨?_,.inl ?_⟩⟩
      · rw [hfirst,if_pos hcancels]
        simp [Trace.passedUnder]
      · show (S.active.insert _ _).get command.sessionId = _
        rw [OrdMap.get_insert,if_pos rfl]
      · exact ⟨⟨command,control,.running⟩,List.mem_append_right _ (List.mem_singleton.mpr rfl),rfl⟩
    · have hnothing : (if S.trace.any (Trace.cancels k) = true then
          (Trace.passedUnder k (.passed command control)).toList else []) = [] := by
        split_ifs with hcancels
        · rw [Trace.passedUnder,if_neg fun heq => hk ⟨hcancels,heq⟩]
          rfl
        · rfl
      rw [hnothing,List.append_nil]
      refine (h.alone k).imp_right ?_
      rintro ⟨first,hfirst,hcancel,haccounts⟩
      exact ⟨first,hfirst,hcancel,hold first haccounts⟩

theorem restage (h : S.OneFact) {w : Worker} {others workers : List Worker} {stage : WorkerStage}
    {permits : ℕ} (hothers : S.workers.Perm (w::others))
    (hworkers : workers.Perm (⟨w.command,w.control,stage⟩::others))
    (hstage : ∀ events, stage.events = some events → fitsAnswer w.command events = true) :
    ({ S with workers, permits } : RuntimeScheduler).OneFact := by
  have hkeeps : ∀ x ∈ S.workers, ∃ y ∈ workers, y.command = x.command := by
    intro x hx
    rcases List.mem_cons.mp (hothers.mem_iff.mp hx) with rfl | hx
    · exact ⟨_,hworkers.mem_iff.mpr List.mem_cons_self,rfl⟩
    · exact ⟨x,hworkers.mem_iff.mpr (List.mem_cons_of_mem _ hx),rfl⟩
  refine ⟨h.once,h.unsent,h.running,h.suppressed,fun x hx events hevents => ?_,h.flagged,fun k => ?_⟩
  · rcases List.mem_cons.mp (hworkers.mem_iff.mp hx) with rfl | hx
    · exact hstage events hevents
    · exact h.worker x (hothers.mem_iff.mpr (List.mem_cons_of_mem _ hx)) events hevents
  · refine (h.alone k).imp_right ?_
    rintro ⟨first,hfirst,hcancel,haccounts⟩
    exact ⟨first,hfirst,hcancel,haccounts.mono id rfl hkeeps fun _ => id⟩

theorem send (h : S.OneFact) (ho : S.Owned waiting) (hsteady : S.Steady hand) {w : Worker}
    {others workers : List Worker} {outcome : DispatchOutcome} {events : List Event}
    (hothers : S.workers.Perm (w::others)) (hworkers : workers.Perm others)
    (hstage : w.stage = .released outcome events) :
    (({ S with workers } : RuntimeScheduler).send (workerCompletion w.command outcome events)
      w.control).OneFact := by
  have hmem : w ∈ S.workers := hothers.mem_iff.mpr List.mem_cons_self
  have hactive := hsteady.worker w hmem
  have hnone : S.terminalFactEmitted w.control = false := h.running _ _ hactive
  have hfits := h.worker w hmem events (by rw [hstage]; rfl)
  obtain ⟨hle,hcancels⟩ : terminalFacts events ≤ 1 ∧
      (w.command.command.isSessionCancel = true → hasTerminalEvent events = true) := by
    simpa [fitsAnswer,← Bool.not_eq_true,imp_iff_not_or] using hfits
  have hzero : terminalFacts (sentUnder S.trace w.control) = 0 := by
    refine (h.unsent w.control hnone).resolve_right ?_
    rintro ⟨c,hc,-,hget⟩
    have hsession := ho.apart _ _ w.control (ho.active _ _ hget) (ho.active _ _ hactive)
    rw [hsession,hactive] at hget
    have hid := (ActiveRuntime.mk.inj (Option.some.inj hget)).1
    -- a command is with its worker or its completion is in the channel, not both
    refine List.disjoint_of_nodup_append hsteady.coming_nodup (List.mem_map.mpr ⟨w,hmem,rfl⟩) ?_
    exact List.mem_map.mpr ⟨c,hc,hid.symm⟩
  have hsent : ∀ k, sentUnder (({ S with workers } : RuntimeScheduler).send
      (workerCompletion w.command outcome events) w.control).trace k =
        sentUnder S.trace k ++ if w.control = k then events else [] :=
    fun k => sentUnder_note S.trace _ k
  have hnew : workerCompletion w.command outcome events ∈ (({ S with workers } : RuntimeScheduler).send
      (workerCompletion w.command outcome events) w.control).completions :=
    List.mem_append_right _ (List.mem_singleton.mpr rfl)
  refine ⟨fun k => ?_,fun k hunmarked => ?_,h.running,h.suppressed,fun x hx => ?_,fun k hany => ?_,
    fun k => ?_⟩
  · rw [hsent,terminalFacts_append]
    split_ifs with hk
    · subst hk
      omega
    · simpa [terminalFacts] using h.once k
  · rw [hsent,terminalFacts_append]
    split_ifs with hk
    · subst hk
      cases hterminal : hasTerminalEvent events with
      | true => exact .inr ⟨_,hnew,hterminal,hactive⟩
      | false =>
        have hno : ¬ 0 < terminalFacts events := by
          rw [← hasTerminalEvent_iff,hterminal]
          simp
        exact .inl (by omega)
    · refine (h.unsent k hunmarked).imp (fun hold => by simpa [terminalFacts] using hold) ?_
      rintro ⟨c,hc,hterminal,hget⟩
      exact ⟨c,List.mem_append_left _ hc,hterminal,hget⟩
  · exact h.worker x (hothers.mem_iff.mpr (List.mem_cons_of_mem _ (hworkers.mem_iff.mp hx)))
  · change (S.trace ++ [_]).any (Trace.cancels k) = true at hany
    exact h.flagged k (by simpa [Trace.cancels] using hany)
  · have hpassed : passedSinceCancel (({ S with workers } : RuntimeScheduler).send
        (workerCompletion w.command outcome events) w.control).trace k =
          passedSinceCancel S.trace k := by
      show passedSinceCancel (S.trace ++ [_]) k = _
      simp [passedSinceCancel_note,Trace.passedUnder]
    rw [hpassed]
    refine (h.alone k).imp_right ?_
    rintro ⟨first,hfirst,hcancel,haccounts⟩
    refine ⟨first,hfirst,hcancel,haccounts.imp_right fun hcomes => ⟨hcomes.1,?_⟩⟩
    rcases hcomes.2 with ⟨x,hx,rfl⟩ | ⟨c,hc,hid,hterminal⟩
    · rcases List.mem_cons.mp (hothers.mem_iff.mp hx) with rfl | hx
      · exact .inr ⟨_,hnew,rfl,hcancels hcancel⟩
      · exact .inl ⟨x,hworkers.mem_iff.mpr hx,rfl⟩
    · exact .inr ⟨c,List.mem_append_left _ hc,hid,hterminal⟩

theorem fitsAnswer_panic (command : CommandEnvelope) : fitsAnswer command panicEvents = true := by
  simp [fitsAnswer,terminalFacts,panicEvents,hasTerminalEvent]

theorem work (h : S.OneFact) (ho : S.Owned waiting) (hsteady : S.Steady hand) {place : ℕ}
    {move : WorkerMove} (hanswers : ∀ w outcome events, S.workers[place]? = some w →
      w.stage = .running → move = .returns outcome events → fitsAnswer w.command events = true) :
    (S.work place move).OneFact := by
  rcases S.work_cases place move with hsame | ⟨w,others,hplace,hothers,hcase⟩
  · rwa [hsame]
  · rcases hcase with ⟨hstage,outcome,events,workers,hmove,hworkers,hwork⟩ |
      ⟨-,outcome,events,workers,hstage,hworkers,hwork⟩ | ⟨-,outcome,events,workers,hstage,hworkers,hwork⟩
    · rw [hwork]
      refine h.restage hothers hworkers fun events' hevents => ?_
      obtain rfl := Option.some.inj hevents
      rcases hmove with hreturns | ⟨reason,-,-,rfl⟩
      · exact hanswers w outcome events hplace hstage hreturns
      · exact fitsAnswer_panic w.command
    · rw [hwork]
      refine h.restage hothers hworkers fun events' hevents => ?_
      obtain rfl := Option.some.inj hevents
      exact h.worker w (hothers.mem_iff.mpr List.mem_cons_self) events (by rw [hstage]; rfl)
    · rw [hwork]
      exact h.send ho hsteady hothers hworkers hstage

theorem takeSuppressed (h : S.OneFact) (hsteady : S.Steady hand) {c : RuntimeCompletion}
    {rest : List RuntimeCompletion} (hchannel : S.completions = c::rest)
    (hget : S.suppressed.get c.commandId = some control) :
    ({ S with
      completions := rest
      suppressed := S.suppressed.erase c.commandId } : RuntimeScheduler).OneFact := by
  -- the command is suppressed, so that it is active nowhere
  have hinactive : ∀ sessionId k, S.active.get sessionId ≠ some ⟨c.commandId,k⟩ := by
    intro sessionId k hactive
    refine List.disjoint_of_nodup_append hsteady.expecting_nodup
      (List.mem_map.mpr ⟨_,OrdMap.mem_values_of_get hactive,rfl⟩) ?_
    by_contra hnone
    exact absurd (hget.symm.trans (OrdMap.get_eq_none.mpr hnone)) (by simp)
  refine ⟨h.once,fun k hnone => ?_,h.running,fun id k hk => ?_,h.worker,h.flagged,fun k => ?_⟩
  · refine (h.unsent k hnone).imp_right ?_
    rintro ⟨x,hx,hterminal,hactive⟩
    rcases List.mem_cons.mp (hchannel ▸ hx) with rfl | hx
    · exact absurd hactive (hinactive _ _)
    · exact ⟨x,hx,hterminal,hactive⟩
  · rw [OrdMap.get_erase] at hk
    split_ifs at hk
    exact h.suppressed id k hk
  · refine (h.alone k).imp_right ?_
    rintro ⟨first,hfirst,hcancel,haccounts⟩
    refine ⟨first,hfirst,hcancel,haccounts.imp_right fun hcomes => ⟨hcomes.1,?_⟩⟩
    refine hcomes.2.imp_right ?_
    rintro ⟨x,hx,hid,hterminal⟩
    rcases List.mem_cons.mp (hchannel ▸ hx) with rfl | hx
    · exact absurd (hid ▸ hcomes.1) (hinactive _ _)
    · exact ⟨x,hx,hid,hterminal⟩

theorem takeActive (h : S.OneFact) (ho : S.Owned waiting) (hsteady : S.Steady hand)
    {c : RuntimeCompletion} {rest : List RuntimeCompletion} (hchannel : S.completions = c::rest)
    (hget : S.active.get c.sessionId = some ⟨c.commandId,control⟩) :
    (({ S with
      completions := rest
      active := S.active.erase c.sessionId } : RuntimeScheduler).marked c control).OneFact := by
  obtain ⟨hworkers,hrest⟩ := hsteady.front_alone hchannel
  have hkeeps : ∀ sessionId, sessionId ≠ c.sessionId →
      (S.active.erase c.sessionId).get sessionId = S.active.get sessionId := fun sessionId hne => by
    rw [OrdMap.get_erase,if_neg hne]
  generalize hT : ({ S with
    completions := rest
    active := S.active.erase c.sessionId } : RuntimeScheduler) = T
  have hemitted : ∀ k, (T.marked c control).terminalFactEmitted k =
      if hasTerminalEvent c.events = true ∧ k = control then true else S.terminalFactEmitted k := by
    intro k
    rw [emitted_marked,← hT]
    rfl
  have hmono : ∀ k, S.terminalFactEmitted k = true → (T.marked c control).terminalFactEmitted k = true :=
    fun k hk => by
      rw [hemitted]
      split_ifs
      · rfl
      · exact hk
  obtain ⟨htrace,hcompletions,hactive,hsuppressed,hat,hrequested⟩ :
      (T.marked c control).trace = S.trace ∧ (T.marked c control).completions = rest ∧
        (T.marked c control).active = S.active.erase c.sessionId ∧
        (T.marked c control).suppressed = S.suppressed ∧ (T.marked c control).workers = S.workers ∧
        ∀ k, S.isCancellationRequested k = true → (T.marked c control).isCancellationRequested k = true := by
    subst hT
    unfold marked
    split_ifs
    · exact ⟨rfl,rfl,rfl,rfl,rfl,fun _ hk => requested_mark hk⟩
    · exact ⟨rfl,rfl,rfl,rfl,rfl,fun _ => id⟩
  refine ⟨htrace ▸ h.once,fun k hnone => ?_,fun sessionId runtime hold => ?_,fun id k hold => ?_,
    hat ▸ h.worker,fun k hany => hrequested k (h.flagged k (htrace ▸ hany)),fun k => ?_⟩
  · rw [hemitted] at hnone
    split_ifs at hnone with hmarked
    rw [htrace,Unmarked,hcompletions,hactive]
    refine (h.unsent k hnone).imp_right ?_
    rintro ⟨x,hx,hterminal,hold⟩
    rcases List.mem_cons.mp (hchannel ▸ hx) with rfl | hx
    · exact absurd ⟨hterminal,(ActiveRuntime.mk.inj (Option.some.inj (hold.symm.trans hget))).2⟩ hmarked
    · refine ⟨x,hx,hterminal,?_⟩
      rw [hkeeps x.sessionId,hold]
      rintro hsession
      rw [hsession,hget] at hold
      exact hrest x hx (ActiveRuntime.mk.inj (Option.some.inj hold)).1.symm
  · rw [hactive,OrdMap.get_erase] at hold
    split_ifs at hold with hsession
    have hother : runtime.control ≠ control := by
      rintro rfl
      exact hsession (ho.apart _ _ runtime.control (ho.active _ _ hold)
        (ho.active c.sessionId ⟨c.commandId,_⟩ hget))
    rw [hemitted,if_neg fun hboth => hother hboth.2]
    exact h.running sessionId runtime hold
  · exact hmono k (h.suppressed id k (hsuppressed ▸ hold))
  · rw [htrace]
    refine (h.alone k).imp_right ?_
    rintro ⟨first,hfirst,hcancel,haccounts⟩
    refine ⟨first,hfirst,hcancel,?_⟩
    rcases haccounts with hdone | ⟨hold,hcoming⟩
    · exact .inl (hmono k hdone)
    · by_cases hsession : first.sessionId = c.sessionId
      · -- it is the command taken off, and its completion has brought the fact
        rw [hsession,hget] at hold
        obtain ⟨hid,rfl⟩ := ActiveRuntime.mk.inj (Option.some.inj hold)
        left
        rw [hemitted,if_pos]
        rcases hcoming with ⟨w,hw,rfl⟩ | ⟨x,hx,hxid,hterminal⟩
        · exact absurd hid.symm (hworkers w hw)
        · rcases List.mem_cons.mp (hchannel ▸ hx) with rfl | hx
          · exact ⟨hterminal,rfl⟩
          · exact absurd (hxid.trans hid.symm) (hrest x hx)
      · refine .inr ⟨?_,?_⟩
        · rw [hactive,hkeeps _ hsession,hold]
        · rw [hat,hcompletions]
          refine hcoming.imp_right ?_
          rintro ⟨x,hx,hxid,hterminal⟩
          rcases List.mem_cons.mp (hchannel ▸ hx) with rfl | hx
          · exact absurd (hsteady.active_unique hold hget hxid.symm) hsession
          · exact ⟨x,hx,hxid,hterminal⟩

theorem beginFinish (h : S.OneFact) (ho : S.Owned waiting) (hsteady : S.Steady hand)
    {c : RuntimeCompletion} {rest : List RuntimeCompletion} {f : Finishing}
    (hchannel : S.completions = c::rest)
    (hok : ({ S with completions := rest } : RuntimeScheduler).beginFinish c = .ok (f,S')) :
    S'.OneFact := by
  obtain ⟨control,T,htaken,-,-,rfl⟩ := beginFinish_cases hok
  have hmarked : (T.marked c control).OneFact := by
    rcases takeOff_cases htaken with ⟨hget,rfl⟩ | ⟨hget,rfl⟩
    · have htakenOff := h.takeSuppressed hsteady hchannel hget
      unfold marked
      split_ifs
      · exact htakenOff.remark (h.suppressed _ _ hget)
      · exact htakenOff
    · exact h.takeActive ho hsteady hchannel hget
  exact hmarked.frame rfl rfl rfl rfl rfl (fun _ => rfl) fun _ => id

end OneFact

/-- A turn of the drain stops, or does with the front command what a schedule does. -/
theorem drainTurn_inner {item : QueuedRuntime} {rest : List QueuedRuntime} {more : Bool}
    (hqueue : S.queued = item::rest) (hok : S.drainTurn = .ok (more,S')) :
    S' = S ∨ ({ S with queued := rest } : RuntimeScheduler).scheduleRuntimeInner item.command
      item.control = .ok S' := by
  unfold RuntimeScheduler.drainTurn at hok
  unfold RuntimeScheduler.scheduleRuntimeInner
  simp only [hqueue] at hok
  split_ifs at hok ⊢ with hcancelled hactive
  · exact .inr (congrArg Except.ok (Prod.mk.inj (Except.ok.inj hok)).2)
  · exact .inr (congrArg Except.ok (Prod.mk.inj (Except.ok.inj hok)).2)
  · cases hpermits : S.permits with
    | zero =>
      have hback : ({ S with queued := item::rest, permits := 0 } : RuntimeScheduler) = S := by
        rw [← hqueue,← hpermits]
      simp only [hpermits,hback] at hok
      exact .inl (Prod.mk.inj (Except.ok.inj hok)).2.symm
    | succ permits =>
      have hspawn : ({ S with queued := rest, permits } : RuntimeScheduler).spawnRuntime item.command
          item.control = .ok (({ S with queued := rest, permits } : RuntimeScheduler).started
            item.command item.control) := if_neg hactive
      simp only [hpermits,hspawn,bind,Except.bind] at hok
      exact .inr (hspawn.trans (congrArg Except.ok (Prod.mk.inj (Except.ok.inj hok)).2))

end RuntimeScheduler
end Scheduler
end North
