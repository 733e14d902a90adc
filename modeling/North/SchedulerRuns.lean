import North.SchedulerSteps

/-! Runs of the scheduler: calls in any order by one caller, workers in between. Commands
of a session stand in line in the order in which they were scheduled. The line is the queue,
and while a drain is at work the part it has put back comes first. -/
namespace North
namespace Scheduler

open Protocol Journal

def Trace.passedOf (sessionId : String) : Trace → Option CommandEnvelope
  | .passed command _ => if command.sessionId = sessionId then some command else none
  | _ => none

def Trace.scheduledOf (sessionId : String) : Trace → Option CommandEnvelope
  | .scheduled command _ => if command.sessionId = sessionId then some command else none
  | _ => none

/-- The commands of a session that were given to the executor, in order. -/
def passedOf (trace : List Trace) (sessionId : String) : List CommandEnvelope :=
  trace.filterMap (Trace.passedOf sessionId)

def scheduledOf (trace : List Trace) (sessionId : String) : List CommandEnvelope :=
  trace.filterMap (Trace.scheduledOf sessionId)

/-- The commands of a session that stand in a line. -/
def lineOf (line : List QueuedRuntime) (sessionId : String) : List CommandEnvelope :=
  (line.filter fun item => item.command.sessionId == sessionId).map (·.command)

/-- In every session, what has started and then what stands in line is in order. -/
def Ordered (trace : List Trace) (line : List QueuedRuntime) : Prop :=
  ∀ sessionId, (passedOf trace sessionId ++ lineOf line sessionId).Sublist (scheduledOf trace sessionId)

section

variable {trace : List Trace} {line line' : List QueuedRuntime} {command : CommandEnvelope}
  {control : ℕ}

theorem lineOf_append (line line' : List QueuedRuntime) (sessionId : String) :
    lineOf (line ++ line') sessionId = lineOf line sessionId ++ lineOf line' sessionId := by
  simp [lineOf]

theorem lineOf_eq_nil {sessionId : String} (h : ∀ item ∈ line, item.command.sessionId ≠ sessionId) :
    lineOf line sessionId = [] := by
  simpa [lineOf] using h

theorem lineOf_cons (item : QueuedRuntime) (line : List QueuedRuntime) (sessionId : String) :
    lineOf (item::line) sessionId =
      (if item.command.sessionId = sessionId then [item.command] else []) ++ lineOf line sessionId := by
  by_cases h : item.command.sessionId = sessionId <;> simp [lineOf,h]

theorem Ordered.mono (h : Ordered trace line) (hline : line'.Sublist line) : Ordered trace line' :=
  fun sessionId => (((hline.filter _).map _).append_left _).trans (h sessionId)

theorem Ordered.note (h : Ordered trace line) {entry : Trace}
    (hpassed : ∀ sessionId, entry.passedOf sessionId = none)
    (hscheduled : ∀ sessionId, entry.scheduledOf sessionId = none) : Ordered (trace ++ [entry]) line := by
  intro sessionId
  simpa [passedOf,scheduledOf,hpassed,hscheduled] using h sessionId

theorem Ordered.scheduled (h : Ordered trace line) (command : CommandEnvelope) (control : ℕ) :
    Ordered (trace ++ [.scheduled command control]) (line ++ [⟨command,control⟩]) := by
  intro sessionId
  have hpassed : passedOf (trace ++ [.scheduled command control]) sessionId = passedOf trace sessionId := by
    simp [passedOf,Trace.passedOf]
  have hscheduled : scheduledOf (trace ++ [.scheduled command control]) sessionId =
      scheduledOf trace sessionId ++ if command.sessionId = sessionId then [command] else [] := by
    by_cases hs : command.sessionId = sessionId <;> simp [scheduledOf,Trace.scheduledOf,hs]
  rw [hpassed,hscheduled,lineOf_append,lineOf_cons,← List.append_assoc]
  exact (h sessionId).append (by simp [lineOf])

theorem Ordered.passed {before after : List QueuedRuntime} {item : QueuedRuntime}
    (h : Ordered trace (before ++ item::after))
    (hfirst : ∀ x ∈ before, x.command.sessionId ≠ item.command.sessionId) :
    Ordered (trace ++ [.passed item.command item.control]) (before ++ after) := by
  intro sessionId
  have hscheduled : scheduledOf (trace ++ [.passed item.command item.control]) sessionId =
      scheduledOf trace sessionId := by
    simp [scheduledOf,Trace.scheduledOf]
  have hpassed : passedOf (trace ++ [.passed item.command item.control]) sessionId =
      passedOf trace sessionId ++ if item.command.sessionId = sessionId then [item.command] else [] := by
    by_cases hs : item.command.sessionId = sessionId <;> simp [passedOf,Trace.passedOf,hs]
  have hold := h sessionId
  rw [hscheduled,hpassed]
  rw [lineOf_append,lineOf_cons] at hold
  rw [lineOf_append]
  by_cases hs : item.command.sessionId = sessionId
  · rw [lineOf_eq_nil (hs ▸ hfirst)] at hold ⊢
    simpa [hs] using hold
  · simpa [hs] using hold

/-- A line cut in two may be put together the other way round, if no session is in both. -/
theorem Ordered.swap {before after : List QueuedRuntime} (h : Ordered trace (after ++ before))
    (hapart : ∀ x ∈ after, ∀ y ∈ before, x.command.sessionId ≠ y.command.sessionId) :
    Ordered trace (before ++ after) := by
  intro sessionId
  have hold := h sessionId
  rw [lineOf_append] at hold ⊢
  by_cases hany : ∃ x ∈ after, x.command.sessionId = sessionId
  · obtain ⟨x,hx,rfl⟩ := hany
    rw [lineOf_eq_nil fun y hy => (hapart x hx y hy).symm] at hold ⊢
    simpa using hold
  · have hnone : ∀ x ∈ after, x.command.sessionId ≠ sessionId := fun x hx hs => hany ⟨x,hx,hs⟩
    rw [lineOf_eq_nil hnone] at hold ⊢
    simpa using hold

end

namespace RuntimeScheduler

variable {S S' : RuntimeScheduler} {hand : List String} {command : CommandEnvelope} {control : ℕ}

/-- A queue is only there while a session is active. -/
def Staffed (S : RuntimeScheduler) : Prop := S.queued ≠ [] → S.active.entries ≠ []

theorem suppress_ordered {line : List QueuedRuntime} (h : Ordered S.trace line) :
    Ordered (S.suppress command control).trace line :=
  h.note (fun _ => rfl) fun _ => rfl

theorem suppressAll_ordered {line items : List QueuedRuntime} (h : Ordered S.trace line) :
    Ordered (S.suppressAll items).trace line := by
  induction items generalizing S with
  | nil => exact h
  | cons item items ih => exact ih (suppress_ordered h)

theorem suppressAll_queued (items : List QueuedRuntime) :
    (S.suppressAll items).queued = S.queued ∧ (S.suppressAll items).active = S.active := by
  induction items generalizing S with
  | nil => exact ⟨rfl,rfl⟩
  | cons item items ih => exact ih (S := S.suppress item.command item.control)

theorem active_ne_nil {sessionId : String} (h : S.isActive sessionId = true) : S.active.entries ≠ [] := by
  obtain ⟨a,ha⟩ := Option.isSome_iff_exists.mp h
  exact List.ne_nil_of_mem (OrdMap.mem_of_get ha)

/-- The command at the end of the line takes its place, if it does not start before
another one of its session. -/
theorem scheduleRuntimeInner_ordered (h : S.Steady (command.commandId::hand))
    (hline : Ordered S.trace (S.queued ++ [⟨command,control⟩])) (hstaffed : S.Staffed)
    (hfirst : S.isCancelled command control = false → S.isActive command.sessionId = false →
      0 < S.permits → ∀ item ∈ S.queued, item.command.sessionId ≠ command.sessionId)
    (hok : S.scheduleRuntimeInner command control = .ok S') :
    Ordered S'.trace S'.queued ∧ S'.Staffed := by
  unfold scheduleRuntimeInner at hok
  split_ifs at hok with hcancelled hactive
  · obtain rfl := Except.ok.inj hok
    exact ⟨suppress_ordered (hline.mono (List.sublist_append_left _ _)),hstaffed⟩
  · obtain rfl := Except.ok.inj hok
    exact ⟨hline,fun _ => active_ne_nil hactive⟩
  · cases hpermits : S.permits with
    | zero =>
      simp only [hpermits] at hok
      obtain rfl := Except.ok.inj hok
      exact ⟨hline,fun _ => h.active_of_permits hpermits⟩
    | succ permits =>
      simp only [hpermits] at hok
      have hspawn : ({ S with permits } : RuntimeScheduler).spawnRuntime command control =
          .ok (({ S with permits } : RuntimeScheduler).started command control) := if_neg hactive
      obtain rfl := Except.ok.inj (hspawn.symm.trans hok)
      have hfree := hfirst (by simpa using hcancelled) (by simpa using hactive) (by omega)
      have hnew : (({ S with permits } : RuntimeScheduler).started command control).isActive
          command.sessionId = true := by
        simp [isActive,OrdMap.contains,started,RuntimeScheduler.note,OrdMap.get_insert]
      have hpassed := @Ordered.passed S.trace S.queued [] ⟨command,control⟩ hline hfree
      rw [List.append_nil] at hpassed
      exact ⟨hpassed,fun _ => active_ne_nil hnew⟩

theorem keepPending_same (S : RuntimeScheduler) (command : CommandEnvelope) :
    (S.keepPending command).queued = S.queued ∧ (S.keepPending command).active = S.active ∧
      (S.keepPending command).trace = S.trace := by
  unfold keepPending
  split_ifs <;> exact ⟨rfl,rfl,rfl⟩

/-- A cancellation empties the queue of its session, so nothing stands before it. -/
theorem scheduleCancellation_ordered (h : S.Steady (command.commandId::hand))
    (hline : Ordered S.trace (S.queued ++ [⟨command,control⟩])) (hstaffed : S.Staffed)
    (hok : S.scheduleCancellation command control = .ok S') :
    Ordered S'.trace S'.queued ∧ S'.Staffed := by
  have hsub : (S.purged command.sessionId control).queued.Sublist S.queued := List.filter_sublist
  have hfree : ∀ item ∈ (S.purged command.sessionId control).queued,
      item.command.sessionId ≠ command.sessionId := fun item hitem => by
    simpa using (List.mem_filter.mp hitem).2
  have hstaffed' : (S.purged command.sessionId control).Staffed := by
    intro hne
    refine hstaffed fun hnil => hne ?_
    exact List.eq_nil_of_sublist_nil (hnil ▸ hsub)
  have hshort : Ordered S.trace (S.purged command.sessionId control).queued :=
    hline.mono (hsub.trans (List.sublist_append_left _ _))
  rw [scheduleCancellation_eq] at hok
  split_ifs at hok with hwork hkept
  · obtain rfl := Except.ok.inj hok
    obtain ⟨hqueued,hactive,htrace⟩ := (S.purged command.sessionId control).keepPending_same command
    obtain ⟨hqueued',hactive'⟩ := ((S.purged command.sessionId control).keepPending
      command).suppressAll_queued (S.queuedOf command.sessionId)
    constructor
    · rw [hqueued',hqueued]
      exact suppressAll_ordered (by rwa [htrace])
    · rw [Staffed,hqueued',hactive',hqueued,hactive]
      exact hstaffed'
  · obtain rfl := Except.ok.inj hok
    exact ⟨hshort,hstaffed'⟩
  · have hidle : S.isActive command.sessionId = false ∧ S.queuedOf command.sessionId = [] := by
      simpa using hwork
    have hsteady : (S.purged command.sessionId control).Steady (command.commandId::hand) := by
      have hpurged := (h.purged command.sessionId control).steady
      rwa [hidle.2] at hpurged
    exact scheduleRuntimeInner_ordered hsteady (hline.mono (hsub.append_right _)) hstaffed'
      (fun _ _ _ => hfree) hok

/-- A command of the session is queued that the new one would overtake by starting now. -/
def overtakes (S : RuntimeScheduler) (command : CommandEnvelope) : Bool :=
  !S.isActive command.sessionId && decide (0 < S.permits) &&
    S.queued.any fun item => item.command.sessionId == command.sessionId

/-- The session's control has a cancellation requested. -/
def cancelling (S : RuntimeScheduler) (sessionId : String) : Bool :=
  (S.controls.get sessionId).any S.isCancellationRequested

theorem controlFor_same (S : RuntimeScheduler) (command : CommandEnvelope) :
    (S.controlFor command).2.queued = S.queued ∧ (S.controlFor command).2.active = S.active ∧
      (S.controlFor command).2.trace = S.trace ∧ (S.controlFor command).2.permits = S.permits := by
  unfold controlFor
  cases S.controls.get command.sessionId <;> exact ⟨rfl,rfl,rfl,rfl⟩

theorem controlFor_cancelling (S : RuntimeScheduler) (command : CommandEnvelope) :
    (S.controlFor command).2.isCancellationRequested (S.controlFor command).1 =
      S.cancelling command.sessionId := by
  unfold controlFor cancelling
  cases S.controls.get command.sessionId with
  | some control => rfl
  | none => simp [isCancellationRequested]

theorem noted_ordered (command : CommandEnvelope) (hline : Ordered S.trace S.queued) (hstaffed : S.Staffed) :
    Ordered ((S.controlFor command).2.note (.scheduled command (S.controlFor command).1)).trace
      (((S.controlFor command).2.note (.scheduled command (S.controlFor command).1)).queued ++
        [⟨command,(S.controlFor command).1⟩]) ∧
      ((S.controlFor command).2.note (.scheduled command (S.controlFor command).1)).Staffed := by
  obtain ⟨hqueued,hactive,htrace,-⟩ := S.controlFor_same command
  constructor
  · show Ordered ((S.controlFor command).2.trace ++ _) ((S.controlFor command).2.queued ++ _)
    rw [hqueued,htrace]
    exact hline.scheduled command _
  · show (S.controlFor command).2.queued ≠ [] → (S.controlFor command).2.active.entries ≠ []
    rw [hqueued,hactive]
    exact hstaffed

theorem not_overtakes (hfree : S.overtakes command = false) (hactive : S.isActive command.sessionId = false)
    (hpermits : 0 < S.permits) : ∀ item ∈ S.queued, item.command.sessionId ≠ command.sessionId := by
  simpa [overtakes,hactive,hpermits] using hfree

theorem scheduleRuntime_ordered (h : S.Steady (command.commandId::hand))
    (hline : Ordered S.trace S.queued) (hstaffed : S.Staffed)
    (hfree : (S.cancelling command.sessionId && !command.command.isSessionCancel) = false →
      S.overtakes command = false)
    (hok : S.scheduleRuntime command = .ok S') : Ordered S'.trace S'.queued ∧ S'.Staffed := by
  obtain ⟨hqueued,hactive,-,hpermits⟩ := S.controlFor_same command
  obtain ⟨hnoted,hstaffed'⟩ := noted_ordered command hline hstaffed
  refine scheduleRuntimeInner_ordered ((h.controlFor command).steady.note _) hnoted hstaffed'
    (fun hcancelled hidle hpos => ?_) hok
  show ∀ item ∈ (S.controlFor command).2.queued, _
  rw [hqueued]
  refine not_overtakes (hfree ?_) ?_ (hpermits ▸ hpos)
  · rw [← controlFor_cancelling]
    exact hcancelled
  · simpa only [isActive,RuntimeScheduler.note,hactive] using hidle

theorem schedule_ordered (h : S.Steady (command.commandId::hand))
    (hline : Ordered S.trace S.queued) (hstaffed : S.Staffed)
    (hfree : command.command.isSessionCancel = false → S.cancelling command.sessionId = false →
      S.overtakes command = false)
    (hok : S.schedule command = .ok S') : Ordered S'.trace S'.queued ∧ S'.Staffed := by
  have hsteady := (h.controlFor command).steady.note (.scheduled command (S.controlFor command).1)
  obtain ⟨hnoted,hstaffed'⟩ := noted_ordered command hline hstaffed
  cases hcancel : command.command.isSessionCancel with
  | true =>
    simp only [schedule,hcancel,if_true] at hok
    exact scheduleCancellation_ordered hsteady hnoted hstaffed' hok
  | false =>
    cases hcancelling : S.cancelling command.sessionId with
    | true =>
      have hrequested : ((S.controlFor command).2.note (.scheduled command
          (S.controlFor command).1)).isCancellationRequested (S.controlFor command).1 = true :=
        (S.controlFor_cancelling command).trans hcancelling
      simp only [schedule,hcancel,hrequested,Bool.false_eq_true,if_false,if_true] at hok
      obtain rfl := Except.ok.inj hok
      exact ⟨suppress_ordered (hnoted.mono (List.sublist_append_left _ _)),hstaffed'⟩
    | false =>
      have hrequested : ((S.controlFor command).2.note (.scheduled command
          (S.controlFor command).1)).isCancellationRequested (S.controlFor command).1 = false :=
        (S.controlFor_cancelling command).trans hcancelling
      simp only [schedule,hcancel,hrequested,Bool.false_eq_true,if_false] at hok
      exact scheduleRuntime_ordered h hline hstaffed (fun _ => hfree hcancel hcancelling) hok

/-- Taking a completion off leaves the queue and the record, and the drain has all of the
queue before it. -/
theorem beginFinish_same {completion : RuntimeCompletion} {f : Finishing}
    (hok : S.beginFinish completion = .ok (f,S')) :
    f.remaining = S.queued.length ∧ S'.queued = S.queued ∧ S'.trace = S.trace := by
  simp only [beginFinish,bind,Except.bind] at hok
  cases htaken : S.takeOff completion with
  | error reason => simp [htaken] at hok
  | ok taken =>
    obtain ⟨control,T⟩ := taken
    have hT : T.queued = S.queued ∧ T.trace = S.trace := by
      unfold takeOff at htaken
      split at htaken
      · obtain rfl := (Prod.mk.inj (Except.ok.inj htaken)).2
        exact ⟨rfl,rfl⟩
      · split at htaken
        · cases htaken
        · split_ifs at htaken
          obtain rfl := (Prod.mk.inj (Except.ok.inj htaken)).2
          exact ⟨rfl,rfl⟩
    simp only [htaken] at hok
    obtain ⟨rfl,rfl⟩ := Prod.mk.inj (Except.ok.inj hok)
    split_ifs <;> exact ⟨congrArg List.length hT.1,hT.1,hT.2⟩

theorem work_ordered {line : List QueuedRuntime} (place : ℕ) (move : WorkerMove)
    (h : Ordered S.trace line) : Ordered (S.work place move).trace line := by
  rcases S.work_cases place move with hsame | ⟨w,others,-,-,hcase⟩
  · rwa [hsame]
  · rcases hcase with ⟨-,_,_,_,-,-,hwork⟩ | ⟨-,_,_,_,-,-,hwork⟩ | ⟨-,_,_,_,-,-,hwork⟩ <;> rw [hwork]
    · exact h
    · exact h
    · exact h.note (fun _ => rfl) fun _ => rfl

theorem endFinish_same (S : RuntimeScheduler) (f : Finishing) :
    (S.endFinish f).queued = S.queued ∧ (S.endFinish f).active = S.active := by
  unfold endFinish maybeCleanupControl
  split_ifs
  · split
    · exact ⟨rfl,rfl⟩
    · split_ifs <;> exact ⟨rfl,rfl⟩
  · exact ⟨rfl,rfl⟩

theorem endFinish_ordered {line : List QueuedRuntime} (f : Finishing) (h : Ordered S.trace line) :
    Ordered (S.endFinish f).trace line := by
  unfold endFinish maybeCleanupControl
  split_ifs
  · split
    · exact h
    · split_ifs
      · exact h
      · exact h.note (fun _ => rfl) fun _ => rfl
  · exact h

/-- The line while a drain has this many turns left: what it has put back comes first. -/
def line (S : RuntimeScheduler) (remaining : ℕ) : List QueuedRuntime :=
  S.queued.drop remaining ++ S.queued.take remaining

/-- A drain at work: it has not more turns than there are commands in the queue, and it
has put back only commands of active sessions. -/
structure Draining (S : RuntimeScheduler) (remaining : ℕ) : Prop where
  bounded : remaining ≤ S.queued.length
  back : ∀ item ∈ S.queued.drop remaining, S.isActive item.command.sessionId = true

/-- The drain stops here for want of a permit while a session has commands both among
those put back and among those not looked at. -/
def splits (S : RuntimeScheduler) (remaining : ℕ) : Bool :=
  match S.queued with
  | [] => false
  | item::_ => !S.isCancelled item.command item.control && !S.isActive item.command.sessionId &&
      S.permits == 0 && (S.queued.drop remaining).any fun x =>
        (S.queued.take remaining).any fun y => x.command.sessionId == y.command.sessionId

theorem drainTurn_ordered {remaining : ℕ} (hdrain : S.Draining (remaining+1))
    (hline : Ordered S.trace (S.line (remaining+1))) (hok : S.drainTurn = .ok (true,S')) :
    S'.Draining remaining ∧ Ordered S'.trace (S'.line remaining) := by
  unfold drainTurn at hok
  cases hqueue : S.queued with
  | nil => simp [hqueue] at hok
  | cons item rest =>
    have hbound : remaining ≤ rest.length := by
      have hlen := hdrain.bounded
      rw [hqueue,List.length_cons] at hlen
      omega
    have hback : ∀ x ∈ rest.drop remaining, S.isActive x.command.sessionId = true := by
      have hall := hdrain.back
      rwa [hqueue,List.drop_succ_cons] at hall
    have horder : Ordered S.trace (rest.drop remaining ++ item::rest.take remaining) := by
      have hall := hline
      rwa [line,hqueue,List.drop_succ_cons,List.take_succ_cons] at hall
    simp only [hqueue] at hok
    split_ifs at hok with hcancelled hactive
    · obtain rfl := (Prod.mk.inj (Except.ok.inj hok)).2
      refine ⟨⟨hbound,hback⟩,suppress_ordered (horder.mono ?_)⟩
      exact (List.sublist_cons_self _ _).append_left _
    · obtain rfl := (Prod.mk.inj (Except.ok.inj hok)).2
      have hdrop : (rest ++ [item]).drop remaining = rest.drop remaining ++ [item] :=
        List.drop_append_of_le_length hbound
      have htake : (rest ++ [item]).take remaining = rest.take remaining :=
        List.take_append_of_le_length hbound
      constructor
      · refine ⟨?_,fun x hx => ?_⟩
        · show remaining ≤ (rest ++ [_]).length
          simp only [List.length_append]
          omega
        · change x ∈ (rest ++ [_]).drop remaining at hx
          rw [hdrop] at hx
          rcases List.mem_append.mp hx with hx | hx
          · exact hback x hx
          · rw [List.mem_singleton.mp hx]
            exact hactive
      · show Ordered S.trace ((rest ++ [_]).drop remaining ++ (rest ++ [_]).take remaining)
        rw [hdrop,htake,List.append_assoc]
        exact horder
    · cases hpermits : S.permits with
      | zero => simp [hpermits] at hok
      | succ permits =>
        have hspawn : ({ S with queued := rest, permits } : RuntimeScheduler).spawnRuntime item.command
            item.control = .ok (({ S with queued := rest, permits } : RuntimeScheduler).started
              item.command item.control) := if_neg hactive
        simp only [hpermits,hspawn,bind,Except.bind,Except.ok.injEq,Prod.mk.injEq,true_and] at hok
        obtain rfl := hok
        refine ⟨⟨hbound,fun x hx => ?_⟩,Ordered.passed horder fun x hx hsame => ?_⟩
        · have hold := hback x hx
          simp only [isActive,OrdMap.contains,started,RuntimeScheduler.note,OrdMap.get_insert] at hold ⊢
          split_ifs
          · rfl
          · exact hold
        · -- what was put back is of active sessions, and this one is not active
          exact hactive (hsame ▸ hback x hx)

theorem drainStop_ordered {remaining : ℕ} (h : S.Steady hand)
    (hline : Ordered S.trace (S.line remaining)) (hsplit : S.splits remaining = false)
    (hok : S.drainTurn = .ok (false,S')) : S' = S ∧ Ordered S.trace S.queued ∧ S.Staffed := by
  unfold drainTurn at hok
  cases hqueue : S.queued with
  | nil =>
    simp only [hqueue,Except.ok.injEq,Prod.mk.injEq,true_and] at hok
    refine ⟨hok.symm,?_,fun hne => absurd hqueue hne⟩
    simpa [line,hqueue] using hline
  | cons item rest =>
    simp only [hqueue] at hok
    split_ifs at hok with hcancelled hactive
    · simp at hok
    · simp at hok
    · cases hpermits : S.permits with
      | zero =>
        have hback : ({ S with queued := item::rest, permits := 0 } : RuntimeScheduler) = S := by
          rw [← hqueue,← hpermits]
        have hS' : S = S' := by
          simpa only [hpermits,hback,Except.ok.injEq,Prod.mk.injEq,true_and] using hok
        have hcancelled' : S.isCancelled item.command item.control = false :=
          Bool.eq_false_iff.mpr hcancelled
        have hactive' : S.isActive item.command.sessionId = false := Bool.eq_false_iff.mpr hactive
        have hapart : ∀ x ∈ S.queued.drop remaining, ∀ y ∈ S.queued.take remaining,
            x.command.sessionId ≠ y.command.sessionId := by
          have hall := hsplit
          unfold splits at hall
          rw [hqueue] at hall ⊢
          simpa [hcancelled',hactive',hpermits] using hall
        refine ⟨hS'.symm,?_,fun _ => h.active_of_permits hpermits⟩
        have hswap := hline.swap hapart
        rwa [List.take_append_drop,hqueue] at hswap
      | succ permits =>
        have hspawn : ({ S with queued := rest, permits } : RuntimeScheduler).spawnRuntime item.command
            item.control = .ok (({ S with queued := rest, permits } : RuntimeScheduler).started
              item.command item.control) := if_neg hactive
        simp [hpermits,hspawn,bind,Except.bind] at hok

end RuntimeScheduler

/-- The scheduler with the `finish_active` call it is in, and the calls that failed. -/
structure Caller where
  scheduler : RuntimeScheduler := {}
  finishing : Option RuntimeScheduler.Finishing := none
  failures : List String := []

/-- A call of the scheduler, a turn of the drain it is in, or a step of a worker. -/
inductive SchedulerCall
  | schedule (command : CommandEnvelope)
  | scheduleRuntime (command : CommandEnvelope)
  | finish
  | turn
  | work (place : ℕ) (move : WorkerMove)
  deriving DecidableEq, Repr

namespace Caller

variable (C : Caller)

/-- A call is made when no other one is going on. -/
def call (result : Except String RuntimeScheduler) : Caller :=
  match C.finishing, result with
  | none, .ok scheduler => { C with scheduler }
  | none, .error reason => { C with failures := C.failures ++ [reason] }
  | some _, _ => C

def step : SchedulerCall → Caller
  | .schedule command => C.call (C.scheduler.schedule command)
  | .scheduleRuntime command => C.call (C.scheduler.scheduleRuntime command)
  | .finish =>
    match C.finishing, C.scheduler.completions with
    | none, completion::rest =>
      match ({ C.scheduler with completions := rest } : RuntimeScheduler).beginFinish completion with
      | .ok (finishing,scheduler) => { C with scheduler, finishing := some finishing }
      | .error reason => { C with
          scheduler := { C.scheduler with completions := rest }
          failures := C.failures ++ [reason] }
    | _, _ => C
  | .turn =>
    match C.finishing with
    | none => C
    | some finishing =>
      match finishing.remaining with
      | 0 => { C with scheduler := C.scheduler.endFinish finishing, finishing := none }
      | remaining+1 =>
        match C.scheduler.drainTurn with
        | .ok (true,scheduler) => { C with scheduler, finishing := some { finishing with remaining } }
        | .ok (false,scheduler) => { C with
            scheduler := scheduler.endFinish finishing
            finishing := none }
        | .error reason => { C with finishing := none, failures := C.failures ++ [reason] }
  | .work place move => { C with scheduler := C.scheduler.work place move }

def run (calls : List SchedulerCall) : Caller := calls.foldl step C

/-- The call is for a command the scheduler does not have, it does not start it before a
queued one of its session, and a drain does not stop between two of one session. -/
def orderly : SchedulerCall → Bool
  | .schedule command => decide (command.commandId ∉ C.scheduler.held) &&
      (command.command.isSessionCancel || C.scheduler.cancelling command.sessionId ||
        !C.scheduler.overtakes command)
  | .scheduleRuntime command => decide (command.commandId ∉ C.scheduler.held) &&
      ((C.scheduler.cancelling command.sessionId && !command.command.isSessionCancel) ||
        !C.scheduler.overtakes command)
  | .turn => C.finishing.all fun finishing =>
      finishing.remaining == 0 || !C.scheduler.splits finishing.remaining
  | _ => true

/-- All calls of the run are orderly, each in the state it is made in. -/
def orderlyRun : Caller → List SchedulerCall → Bool
  | _, [] => true
  | C, call::calls => C.orderly call && (C.step call).orderlyRun calls

/-- The line of the state: the queue, as the drain going on has turned it. -/
def line : List QueuedRuntime :=
  match C.finishing with
  | none => C.scheduler.queued
  | some finishing => C.scheduler.line finishing.remaining

/-- What every orderly run keeps. -/
structure Sound : Prop where
  steady : C.scheduler.Steady []
  failures : C.failures = []
  ordered : Ordered C.scheduler.trace C.line
  draining : ∀ finishing, C.finishing = some finishing →
    C.scheduler.Draining finishing.remaining
  staffed : C.finishing = none → C.scheduler.Staffed

end Caller

namespace Caller.Sound

variable {C : Caller}

theorem init : Sound {} where
  steady := RuntimeScheduler.Steady.init
  failures := rfl
  ordered := fun _ => List.Sublist.refl _
  draining := by simp
  staffed := fun _ h => absurd rfl h

theorem call (h : C.Sound) {result : Except String RuntimeScheduler} {scheduler : RuntimeScheduler}
    (hresult : result = .ok scheduler) (hsteady : scheduler.Steady [])
    (hline : C.finishing = none → Ordered scheduler.trace scheduler.queued ∧ scheduler.Staffed) :
    (C.call result).Sound := by
  cases hfinishing : C.finishing with
  | some finishing =>
    have hsame : C.call result = C := by simp [Caller.call,hfinishing]
    rwa [hsame]
  | none =>
    have hnew : C.call result = { C with scheduler } := by simp [Caller.call,hfinishing,hresult]
    obtain ⟨hordered,hstaffed⟩ := hline hfinishing
    rw [hnew]
    refine ⟨hsteady,h.failures,?_,fun f hf => ?_,fun _ => hstaffed⟩
    · simpa only [line,hfinishing] using hordered
    · exact absurd (hfinishing.symm.trans hf) (by simp)

/-- While no call is going on, the line is the queue. -/
theorem queued_ordered (h : C.Sound) (hfinishing : C.finishing = none) :
    Ordered C.scheduler.trace C.scheduler.queued := by
  have hline := h.ordered
  simpa only [line,hfinishing] using hline

theorem schedule (h : C.Sound) {command : CommandEnvelope}
    (hcall : C.orderly (.schedule command) = true) : (C.step (.schedule command)).Sound := by
  simp only [orderly,Bool.and_eq_true,decide_eq_true_eq,Bool.or_eq_true,Bool.not_eq_true'] at hcall
  obtain ⟨hnew,hfree⟩ := hcall
  have hhand := h.steady.take (by simpa using hnew)
  obtain ⟨S',hS',hkeeps⟩ := hhand.schedule
  have hsteady : S'.Steady [] := hkeeps.elim (·.steady) (·.2.2.steady)
  refine h.call hS' hsteady fun hfinishing => ?_
  refine RuntimeScheduler.schedule_ordered hhand (h.queued_ordered hfinishing) (h.staffed hfinishing)
    (fun hcancel hcancelling => ?_) hS'
  simpa [hcancel,hcancelling] using hfree

theorem scheduleRuntime (h : C.Sound) {command : CommandEnvelope}
    (hcall : C.orderly (.scheduleRuntime command) = true) :
    (C.step (.scheduleRuntime command)).Sound := by
  simp only [orderly,Bool.and_eq_true,decide_eq_true_eq,Bool.or_eq_true,Bool.not_eq_true'] at hcall
  obtain ⟨hnew,hfree⟩ := hcall
  have hhand := h.steady.take (by simpa using hnew)
  obtain ⟨S',hS',hkeeps⟩ := hhand.scheduleRuntime
  refine h.call hS' hkeeps.steady fun hfinishing => ?_
  refine RuntimeScheduler.scheduleRuntime_ordered hhand (h.queued_ordered hfinishing)
    (h.staffed hfinishing) (fun hgo => ?_) hS'
  rcases hfree with hfree | hfree
  · simp [hfree] at hgo
  · exact hfree

theorem finish (h : C.Sound) : (C.step .finish).Sound := by
  cases hfinishing : C.finishing with
  | some finishing =>
    have hsame : C.step .finish = C := by simp [step,hfinishing]
    rwa [hsame]
  | none =>
    cases hchannel : C.scheduler.completions with
    | nil =>
      have hsame : C.step .finish = C := by simp [step,hfinishing,hchannel]
      rwa [hsame]
    | cons completion rest =>
      obtain ⟨f,S',hS',hkeeps⟩ := h.steady.beginFinish hchannel
      have hnew : C.step .finish = { C with scheduler := S', finishing := some f } := by
        simp [step,hfinishing,hchannel,hS']
      obtain ⟨hremaining,hqueued,htrace⟩ := RuntimeScheduler.beginFinish_same hS'
      rw [hnew]
      refine ⟨hkeeps.steady.forget,h.failures,?_,fun f' hf' => ?_,by simp⟩
      · have hline := h.queued_ordered hfinishing
        simp only [line,RuntimeScheduler.line,hremaining,hqueued,htrace]
        simpa using hline
      · obtain rfl := Option.some.inj hf'
        refine ⟨by rw [hremaining,hqueued],fun item hitem => ?_⟩
        rw [hremaining,hqueued] at hitem
        simp at hitem

theorem drained (h : C.Sound) {scheduler : RuntimeScheduler} {f : RuntimeScheduler.Finishing}
    (hsteady : scheduler.Steady []) (hline : Ordered scheduler.trace scheduler.queued)
    (hstaffed : scheduler.Staffed) :
    ({ C with scheduler := scheduler.endFinish f, finishing := none } : Caller).Sound := by
  obtain ⟨hqueued,hactive⟩ := scheduler.endFinish_same f
  refine ⟨(hsteady.endFinish f).steady,h.failures,?_,by simp,fun _ => ?_⟩
  · show Ordered (scheduler.endFinish f).trace (scheduler.endFinish f).queued
    rw [hqueued]
    exact RuntimeScheduler.endFinish_ordered f hline
  · show (scheduler.endFinish f).queued ≠ [] → (scheduler.endFinish f).active.entries ≠ []
    rw [hqueued,hactive]
    exact hstaffed

theorem turn (h : C.Sound) (hcall : C.orderly .turn = true) : (C.step .turn).Sound := by
  cases hfinishing : C.finishing with
  | none =>
    have hsame : C.step .turn = C := by simp [step,hfinishing]
    rwa [hsame]
  | some f =>
    have hdrain := h.draining f hfinishing
    have hline : Ordered C.scheduler.trace (C.scheduler.line f.remaining) := by
      have hall := h.ordered
      simpa only [line,hfinishing] using hall
    cases hremaining : f.remaining with
    | zero =>
      have hnew : C.step .turn = { C with
          scheduler := C.scheduler.endFinish f
          finishing := none } := by
        simp [step,hfinishing,hremaining]
      rw [hnew]
      rw [hremaining] at hdrain hline
      refine h.drained h.steady (by simpa [RuntimeScheduler.line] using hline) fun hne => ?_
      obtain ⟨item,hitem⟩ := List.exists_mem_of_ne_nil _ hne
      exact RuntimeScheduler.active_ne_nil (hdrain.back item hitem)
    | succ remaining =>
      obtain ⟨more,S',hS',hkeeps⟩ := h.steady.drainTurn
      rw [hremaining] at hdrain hline
      cases more with
      | true =>
        have hnew : C.step .turn = { C with
            scheduler := S'
            finishing := some { f with remaining } } := by
          simp [step,hfinishing,hremaining,hS']
        obtain ⟨hdrain',hline'⟩ := RuntimeScheduler.drainTurn_ordered hdrain hline hS'
        rw [hnew]
        refine ⟨hkeeps.steady,h.failures,hline',fun f' hf' => ?_,by simp⟩
        obtain rfl := Option.some.inj hf'
        exact hdrain'
      | false =>
        have hnew : C.step .turn = { C with scheduler := S'.endFinish f, finishing := none } := by
          simp [step,hfinishing,hremaining,hS']
        have hsplit : C.scheduler.splits (remaining+1) = false := by
          simpa [orderly,hfinishing,hremaining] using hcall
        obtain ⟨rfl,hqueue,hstaffed⟩ := RuntimeScheduler.drainStop_ordered h.steady hline hsplit hS'
        rw [hnew]
        exact h.drained h.steady hqueue hstaffed

theorem work (h : C.Sound) (place : ℕ) (move : WorkerMove) : (C.step (.work place move)).Sound := by
  have hframe := C.scheduler.work_frame place move
  refine ⟨h.steady.work place move,h.failures,?_,fun f hf => ?_,fun hnone => ?_⟩
  · have hline : (C.step (.work place move)).line = C.line := by
      simp only [step,line,RuntimeScheduler.line,hframe.queued]
    rw [hline]
    exact RuntimeScheduler.work_ordered place move h.ordered
  · have hold := h.draining f hf
    refine ⟨hframe.queued ▸ hold.bounded,fun item hitem => ?_⟩
    have hactive := hold.back item (hframe.queued ▸ hitem)
    simpa only [step,RuntimeScheduler.isActive,hframe.active] using hactive
  · show (C.scheduler.work place move).queued ≠ [] → (C.scheduler.work place move).active.entries ≠ []
    rw [hframe.queued,hframe.active]
    exact h.staffed hnone

theorem step (h : C.Sound) {call : SchedulerCall} (hcall : C.orderly call = true) :
    (C.step call).Sound := by
  cases call with
  | schedule command => exact h.schedule hcall
  | scheduleRuntime command => exact h.scheduleRuntime hcall
  | finish => exact h.finish
  | turn => exact h.turn hcall
  | work place move => exact h.work place move

theorem run (h : C.Sound) {calls : List SchedulerCall} (hcalls : C.orderlyRun calls = true) :
    (C.run calls).Sound := by
  induction calls generalizing C with
  | nil => exact h
  | cons call calls ih =>
    simp only [orderlyRun,Bool.and_eq_true] at hcalls
    exact ih (h.step hcalls.1) hcalls.2

end Caller.Sound
/-- What holds at every moment of an orderly run. -/
structure Caller.Concurrent (C : Caller) : Prop where
  permits : C.scheduler.workers.countP (·.stage.holdsPermit) ≤ maxRuntimeConcurrency
  single : (C.scheduler.workers.map (·.command.sessionId)).Nodup
  active : ∀ w ∈ C.scheduler.workers,
    C.scheduler.active.get w.command.sessionId = some ⟨w.command.commandId,w.control⟩
  accepted : C.failures = []
  inOrder : ∀ sessionId, (passedOf C.scheduler.trace sessionId).Sublist
    (scheduledOf C.scheduler.trace sessionId)
  progress : C.scheduler.queued ≠ [] → C.scheduler.active.entries ≠ [] ∨ C.finishing.isSome
  awaited : ∀ sessionId runtime, C.scheduler.active.get sessionId = some runtime →
    (∃ w ∈ C.scheduler.workers, w.command.sessionId = sessionId ∧
      w.command.commandId = runtime.commandId) ∨
    ∃ c ∈ C.scheduler.completions, c.sessionId = sessionId ∧ c.commandId = runtime.commandId

/-- In every run of calls for new commands in which no command starts before a queued one
of its session and no drain stops between two commands of one session: at most four workers
hold a permit, a session has one runtime, no call is refused, commands start in the order
they were scheduled, and what is queued waits for a session whose completion is to come. -/
theorem scheduler_concurrency (calls : List SchedulerCall)
    (horderly : Caller.orderlyRun {} calls = true) : (Caller.run {} calls).Concurrent := by
  have h := Caller.Sound.init.run horderly
  generalize Caller.run {} calls = C at h
  refine ⟨?_,h.steady.sessions,h.steady.worker,h.failures,fun sessionId => ?_,fun hne => ?_,
    fun sessionId runtime => h.steady.awaited⟩
  · have hall := h.steady.permits
    omega
  · exact (List.sublist_append_left _ _).trans (h.ordered sessionId)
  · cases hfinishing : C.finishing with
    | none => exact .inl (h.staffed hfinishing hne)
    | some finishing => exact .inr rfl

def resumeCommand (sessionId commandId : String) (seq : ℕ) : CommandEnvelope :=
  ⟨commandId,sessionId,seq,"2026-01-01T00:00:00Z",schemaVersion,.sessionResume⟩

/-- Four sessions take all permits. -/
def fullHouse : List SchedulerCall :=
  [.schedule (resumeCommand "a" "a1" 1),.schedule (resumeCommand "b" "b1" 1),
   .schedule (resumeCommand "c" "c1" 1),.schedule (resumeCommand "d" "d1" 1)]

/-- A command waits for a permit and gets it when the first worker is done. -/
def waitingRun : List SchedulerCall :=
  fullHouse ++ [.schedule (resumeCommand "e" "e1" 1),.work 0 (.returns .dispatchSucceeded []),
    .work 0 .release,.work 0 .send,.finish,.turn,.turn]

theorem waitingRun_concurrent : Caller.orderlyRun {} waitingRun = true ∧
    (Caller.run {} waitingRun).Concurrent :=
  ⟨by decide +kernel,scheduler_concurrency waitingRun (by decide +kernel)⟩

/-- A permit is free again before the completion is processed: the second command of
the waiting session takes it, and the first one starts after it. -/
def jumpingRun : List SchedulerCall :=
  fullHouse ++ [.schedule (resumeCommand "e" "e1" 1),.work 0 (.returns .dispatchSucceeded []),
    .work 0 .release,.schedule (resumeCommand "e" "e2" 2),.work 0 .send,.finish,.turn,.turn,
    .work 3 (.returns .dispatchSucceeded []),.work 3 .release,.work 3 .send,.finish,.turn]

theorem jumpingRun_out_of_order :
    ¬ (passedOf (Caller.run {} jumpingRun).scheduler.trace "e").Sublist
      (scheduledOf (Caller.run {} jumpingRun).scheduler.trace "e") := by
  decide +kernel

end Scheduler
end North
