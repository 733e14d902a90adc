import North.Scheduler

/-! What the calls of the scheduler do to the commands they are given. A command in the
hand of the caller goes to one place, and what leaves a place is in the hand again; no
call makes one up. Every command that runs or was suppressed has one completion coming. -/
namespace North
namespace Scheduler

open Protocol Journal

namespace RuntimeScheduler

section

variable (S : RuntimeScheduler)

/-- The commands that get a completion: those that run and those that were suppressed. -/
def expecting : List String := S.active.values.map (·.commandId) ++ S.suppressed.keys

/-- The completions under way: a worker has it, or it is in the channel. -/
def coming : List String := S.workers.map (·.command.commandId) ++ S.completions.map (·.commandId)

/-- The commands in the places of the scheduler. -/
def held : List String :=
  S.expecting ++ S.queued.map (·.command.commandId) ++
    S.pendingCancellations.values.map (·.commandId)

/-- The scheduler is in order while the caller has the commands `hand`. -/
structure Steady (hand : List String) : Prop where
  active : S.active.Keyed
  suppressed : S.suppressed.Keyed
  pending : S.pendingCancellations.Keyed
  once : (S.held ++ hand).Nodup
  answered : S.coming.Perm S.expecting
  permits : S.permits + S.workers.countP (·.stage.holdsPermit) = maxRuntimeConcurrency
  worker : ∀ w ∈ S.workers,
    S.active.get w.command.sessionId = some ⟨w.command.commandId,w.control⟩
  completion : ∀ c ∈ S.completions, c.commandId ∈ S.suppressed.keys ∨
    ∃ a, S.active.get c.sessionId = some a ∧ a.commandId = c.commandId

/-- Commands move between the hand of the caller and the places, and none is lost. -/
structure Keeps (hand : List String) (S' : RuntimeScheduler) (hand' : List String) : Prop where
  steady : S'.Steady hand'
  flow : (S'.held ++ hand').Perm (S.held ++ hand)

end

variable {S S' S'' : RuntimeScheduler} {hand hand' hand'' : List String} {command : CommandEnvelope}
  {control : ℕ}

/-- The scheduler with a cancellation requested and the queue of its session emptied. -/
def purged (S : RuntimeScheduler) (sessionId : String) (control : ℕ) : RuntimeScheduler :=
  ((S.requestCancellation control).removeQueued sessionId).2

theorem scheduleCancellation_eq (S : RuntimeScheduler) (command : CommandEnvelope) (control : ℕ) :
    S.scheduleCancellation command control =
      if S.isActive command.sessionId || !(S.queuedOf command.sessionId).isEmpty then
        .ok (((S.purged command.sessionId control).keepPending command).suppressAll
          (S.queuedOf command.sessionId))
      else if (S.purged command.sessionId control).pendingCancellations.contains command.sessionId then
        .ok (S.purged command.sessionId control)
      else (S.purged command.sessionId control).scheduleRuntimeInner command control := rfl

theorem Keeps.trans (h : S.Keeps hand S' hand') (h' : S'.Keeps hand' S'' hand'') :
    S.Keeps hand S'' hand'' :=
  ⟨h'.steady,h'.flow.trans h.flow⟩

namespace Steady

theorem init : Steady {} [] where
  active := List.nodup_nil
  suppressed := List.nodup_nil
  pending := List.nodup_nil
  once := List.nodup_nil
  answered := List.Perm.refl _
  permits := rfl
  worker := by simp
  completion := by simp

theorem perm (h : S.Steady hand) (hp : hand'.Perm hand) : S.Steady hand' :=
  { h with once := (hp.append_left S.held).nodup_iff.mpr h.once }

theorem drop {id : String} (h : S.Steady (id::hand)) : S.Steady hand :=
  { h with once := h.once.sublist ((List.sublist_cons_self id hand).append_left S.held) }

theorem forget (h : S.Steady hand) : S.Steady [] :=
  { h with once := h.once.sublist ((List.nil_sublist hand).append_left S.held) }

theorem take {id : String} (h : S.Steady hand) (hid : id ∉ S.held ++ hand) : S.Steady (id::hand) :=
  { h with once := List.perm_middle.nodup_iff.mpr (List.nodup_cons.mpr ⟨hid,h.once⟩) }

theorem notHeld {id : String} (h : S.Steady (id::hand)) : id ∉ S.held := fun hid =>
  List.disjoint_of_nodup_append h.once hid (by simp)

theorem notSuppressed {id : String} (h : S.Steady (id::hand)) : S.suppressed.get id = none :=
  OrdMap.get_eq_none.mpr fun hid => h.notHeld (by simp [held,expecting,hid])

theorem suppress (h : S.Steady (command.commandId::hand)) (control : ℕ) :
    S.Keeps (command.commandId::hand) (S.suppress command control) hand := by
  have hnew := OrdMap.insert_perm control h.notSuppressed
  have hkeys : (S.suppressed.insert command.commandId control).keys.Perm
      (command.commandId::S.suppressed.keys) := hnew.map Prod.fst
  have hflow : ((S.suppress command control).held ++ hand).Perm
      (S.held ++ command.commandId::hand) := by
    rw [List.perm_iff_count]
    intro a
    have hcount := hkeys.count_eq a
    simp only [held,expecting,RuntimeScheduler.suppress,send,note,markTerminalFactEmitted,setControl,
      List.count_append,List.count_cons] at hcount ⊢
    omega
  refine ⟨⟨h.active,h.suppressed.insert _ _,h.pending,hflow.nodup_iff.mpr h.once,?_,h.permits,h.worker,
    fun c hc => ?_⟩,hflow⟩
  · rw [List.perm_iff_count]
    intro a
    have hcount := hkeys.count_eq a
    have hold := h.answered.count_eq a
    simp only [coming,expecting,RuntimeScheduler.suppress,send,note,markTerminalFactEmitted,setControl,
      suppressedCompletion,List.map_append,List.map_cons,List.map_nil,List.count_append,
      List.count_cons] at hcount hold ⊢
    simp only [List.count_nil] at *
    omega
  · rcases List.mem_append.mp hc with hc | hc
    · rcases h.completion c hc with hc | hc
      · exact .inl (hkeys.mem_iff.mpr (List.mem_cons_of_mem _ hc))
      · exact .inr hc
    · rw [List.mem_singleton.mp hc]
      exact .inl (hkeys.mem_iff.mpr (List.mem_cons_self ..))

theorem enqueue (h : S.Steady (command.commandId::hand)) (control : ℕ) :
    S.Keeps (command.commandId::hand) (S.enqueue command control) hand := by
  have hflow : ((S.enqueue command control).held ++ hand).Perm (S.held ++ command.commandId::hand) := by
    rw [List.perm_iff_count]
    intro a
    simp only [held,expecting,RuntimeScheduler.enqueue,List.map_append,List.map_cons,List.map_nil,
      List.count_append,List.count_cons,List.count_nil]
    omega
  exact ⟨{ h with once := hflow.nodup_iff.mpr h.once },hflow⟩

theorem started {permits : ℕ} (h : S.Steady (command.commandId::hand)) (control : ℕ)
    (hactive : S.active.get command.sessionId = none) (hpermits : S.permits = permits+1) :
    S.Keeps (command.commandId::hand) ({ S with permits }.started command control) hand := by
  have hnew := OrdMap.insert_perm (⟨command.commandId,control⟩ : ActiveRuntime) hactive
  have hids : ((S.active.insert command.sessionId ⟨command.commandId,control⟩).values.map
      (·.commandId)).Perm (command.commandId::S.active.values.map (·.commandId)) :=
    (hnew.map Prod.snd).map _
  have hflow : (({ S with permits }.started command control).held ++ hand).Perm
      (S.held ++ command.commandId::hand) := by
    rw [List.perm_iff_count]
    intro a
    have hcount := hids.count_eq a
    simp only [held,expecting,RuntimeScheduler.started,note,List.count_append,List.count_cons]
      at hcount ⊢
    omega
  have hget : ∀ session a, S.active.get session = some a →
      (S.active.insert command.sessionId ⟨command.commandId,control⟩).get session = some a := by
    intro session a ha
    have hne : session ≠ command.sessionId := by
      rintro rfl
      rw [hactive] at ha
      exact absurd ha (by simp)
    rw [OrdMap.get_insert,if_neg hne,ha]
  refine ⟨⟨h.active.insert _ _,h.suppressed,h.pending,hflow.nodup_iff.mpr h.once,?_,?_,fun w hw => ?_,
    fun c hc => ?_⟩,hflow⟩
  · rw [List.perm_iff_count]
    intro a
    have hcount := hids.count_eq a
    have hold := h.answered.count_eq a
    simp only [coming,expecting,RuntimeScheduler.started,note,List.map_append,List.map_cons,List.map_nil,
      List.count_append,List.count_cons,List.count_nil] at hcount hold ⊢
    omega
  · have hold := h.permits
    have hrunning : WorkerStage.running.holdsPermit = true := rfl
    simp only [RuntimeScheduler.started,note,List.countP_append,List.countP_singleton,hrunning,if_true]
    omega
  · rcases List.mem_append.mp hw with hw | hw
    · exact hget _ _ (h.worker w hw)
    · rw [List.mem_singleton.mp hw]
      show (S.active.insert _ _).get _ = _
      rw [OrdMap.get_insert,if_pos rfl]
  · rcases h.completion c hc with hc | ⟨a,ha,hid⟩
    · exact .inl hc
    · exact .inr ⟨a,hget _ _ ha,hid⟩

theorem keepPending (h : S.Steady (command.commandId::hand))
    (hpending : S.pendingCancellations.get command.sessionId = none) :
    S.Keeps (command.commandId::hand) (S.keepPending command) hand := by
  have hnew := OrdMap.insert_perm command hpending
  have hids : ((S.pendingCancellations.insert command.sessionId command).values.map
      (·.commandId)).Perm (command.commandId::S.pendingCancellations.values.map (·.commandId)) :=
    (hnew.map Prod.snd).map _
  have hkept : S.keepPending command = { S with
      pendingCancellations := S.pendingCancellations.insert command.sessionId command } := by
    simp [RuntimeScheduler.keepPending,OrdMap.contains,hpending]
  have hflow : ((S.keepPending command).held ++ hand).Perm (S.held ++ command.commandId::hand) := by
    rw [List.perm_iff_count]
    intro a
    have hcount := hids.count_eq a
    simp only [hkept,held,expecting,List.count_append,List.count_cons] at hcount ⊢
    omega
  refine ⟨⟨?_,?_,?_,hflow.nodup_iff.mpr h.once,?_,?_,?_,?_⟩,hflow⟩ <;> rw [hkept]
  · exact h.active
  · exact h.suppressed
  · exact h.pending.insert _ _
  · exact h.answered
  · exact h.permits
  · exact h.worker
  · exact h.completion

theorem dequeue {item : QueuedRuntime} {rest : List QueuedRuntime} (h : S.Steady hand)
    (hqueue : S.queued = item::rest) :
    S.Keeps hand { S with queued := rest } (item.command.commandId::hand) := by
  have hflow : (({ S with queued := rest } : RuntimeScheduler).held ++ item.command.commandId::hand).Perm
      (S.held ++ hand) := by
    rw [List.perm_iff_count]
    intro a
    simp only [held,expecting,hqueue,List.map_cons,List.count_append,List.count_cons]
    omega
  exact ⟨{ h with once := hflow.nodup_iff.mpr h.once },hflow⟩

theorem removeQueued (h : S.Steady hand) (sessionId : String) :
    S.Keeps hand (S.removeQueued sessionId).2
      ((S.removeQueued sessionId).1.map (·.command.commandId) ++ hand) := by
  have hsplit : ((S.queued.filter fun item => item.command.sessionId == sessionId) ++
      S.queued.filter fun item => item.command.sessionId != sessionId).Perm S.queued :=
    List.filter_append_perm _ _
  have hids := hsplit.map (·.command.commandId)
  have hflow : ((S.removeQueued sessionId).2.held ++
      ((S.removeQueued sessionId).1.map (·.command.commandId) ++ hand)).Perm (S.held ++ hand) := by
    rw [List.perm_iff_count]
    intro a
    have hcount := hids.count_eq a
    simp only [held,expecting,RuntimeScheduler.removeQueued,queuedOf,List.map_append,
      List.count_append] at hcount ⊢
    omega
  exact ⟨{ h with once := hflow.nodup_iff.mpr h.once },hflow⟩

theorem suppressAll {items : List QueuedRuntime}
    (h : S.Steady (items.map (·.command.commandId) ++ hand)) :
    S.Keeps (items.map (·.command.commandId) ++ hand) (S.suppressAll items) hand := by
  induction items generalizing S with
  | nil => exact ⟨h,List.Perm.refl _⟩
  | cons item items ih =>
    have hone := h.suppress item.control
    exact hone.trans (ih hone.steady)

theorem setControl (h : S.Steady hand) (control : ℕ) (f : RuntimeControl → RuntimeControl) :
    (S.setControl control f).Steady hand :=
  ⟨h.active,h.suppressed,h.pending,h.once,h.answered,h.permits,h.worker,h.completion⟩

theorem note (h : S.Steady hand) (entry : Trace) : (S.note entry).Steady hand :=
  ⟨h.active,h.suppressed,h.pending,h.once,h.answered,h.permits,h.worker,h.completion⟩

theorem controlFor (h : S.Steady hand) (command : CommandEnvelope) :
    S.Keeps hand (S.controlFor command).2 hand := by
  simp only [RuntimeScheduler.controlFor]
  cases S.controls.get command.sessionId with
  | some control => exact ⟨h,List.Perm.refl _⟩
  | none =>
    exact ⟨⟨h.active,h.suppressed,h.pending,h.once,h.answered,h.permits,h.worker,h.completion⟩,
      List.Perm.refl _⟩

/-- Without a free permit some session is active. -/
theorem active_of_permits (h : S.Steady hand) (hpermits : S.permits = 0) : S.active.entries ≠ [] := by
  have hcount : 0 < S.workers.countP (·.stage.holdsPermit) := by
    have hall := h.permits
    simp only [hpermits,maxRuntimeConcurrency] at hall
    omega
  obtain ⟨w,hw,-⟩ := List.countP_pos_iff.mp hcount
  exact List.ne_nil_of_mem (OrdMap.mem_of_get (h.worker w hw))

/-- No command of an active session is started, so the refusal is never reached. -/
theorem scheduleRuntimeInner (h : S.Steady (command.commandId::hand)) (control : ℕ) :
    ∃ S', S.scheduleRuntimeInner command control = .ok S' ∧
      S.Keeps (command.commandId::hand) S' hand := by
  unfold RuntimeScheduler.scheduleRuntimeInner
  split_ifs with hcancelled hactive
  · exact ⟨_,rfl,h.suppress control⟩
  · exact ⟨_,rfl,h.enqueue control⟩
  · have hnone : S.active.get command.sessionId = none := by
      simpa [isActive,OrdMap.contains] using hactive
    cases hpermits : S.permits with
    | zero => exact ⟨_,rfl,h.enqueue control⟩
    | succ permits =>
      refine ⟨_,if_neg ?_,h.started control hnone hpermits⟩
      exact hactive

theorem purged (h : S.Steady hand) (sessionId : String) (control : ℕ) :
    S.Keeps hand (S.purged sessionId control)
      ((S.queuedOf sessionId).map (·.command.commandId) ++ hand) := by
  have hrequested : (S.requestCancellation control).Steady hand := h.setControl control _
  have hremoved := hrequested.removeQueued sessionId
  exact ⟨hremoved.steady,hremoved.flow⟩

/-- A cancellation finds its place, or another one of its session is pending and it is lost. -/
theorem scheduleCancellation (h : S.Steady (command.commandId::hand)) (control : ℕ) :
    ∃ S', S.scheduleCancellation command control = .ok S' ∧
      (S.Keeps (command.commandId::hand) S' hand ∨
        (S.pendingCancellations.get command.sessionId ≠ none ∧ S.Keeps hand S' hand)) := by
  have hpurged := h.purged command.sessionId control
  have hnone : (S.purged command.sessionId control).pendingCancellations.contains command.sessionId =
      false ↔ S.pendingCancellations.get command.sessionId = none := OrdMap.contains_eq_false
  simp only [scheduleCancellation_eq]
  split_ifs with hwork hkept
  · refine ⟨_,rfl,?_⟩
    -- the purged commands are in the hand with the cancellation
    have hfirst : (command.commandId::((S.queuedOf command.sessionId).map (·.command.commandId) ++
        hand)).Perm ((S.queuedOf command.sessionId).map (·.command.commandId) ++
          command.commandId::hand) := List.perm_middle.symm
    have hhand := hpurged.steady.perm hfirst
    cases hcase : (S.purged command.sessionId control).pendingCancellations.contains
        command.sessionId with
    | true =>
      have hsame : (S.purged command.sessionId control).keepPending command =
          S.purged command.sessionId control := by simp [RuntimeScheduler.keepPending,hcase]
      rw [hsame]
      refine .inr ⟨fun hfree => by simp [hnone.mpr hfree] at hcase,?_⟩
      exact (h.drop.purged command.sessionId control).trans hhand.drop.suppressAll
    | false =>
      have hkeep := hhand.keepPending (OrdMap.contains_eq_false.mp hcase)
      have hdone := hkeep.trans hkeep.steady.suppressAll
      refine .inl (hpurged.trans ⟨hdone.steady,?_⟩)
      exact hdone.flow.trans (hfirst.append_left _)
  · have hidle : S.isActive command.sessionId = false ∧ S.queuedOf command.sessionId = [] := by
      simpa using hwork
    have hdropped := h.drop.purged command.sessionId control
    rw [hidle.2] at hdropped
    exact ⟨_,rfl,.inr ⟨fun hfree => by simp [hnone.mpr hfree] at hkept,hdropped⟩⟩
  · have hidle : S.isActive command.sessionId = false ∧ S.queuedOf command.sessionId = [] := by
      simpa using hwork
    rw [hidle.2] at hpurged
    obtain ⟨S',hS',hkeeps⟩ := hpurged.steady.scheduleRuntimeInner control
    exact ⟨S',hS',.inl (hpurged.trans hkeeps)⟩

theorem schedule (h : S.Steady (command.commandId::hand)) :
    ∃ S', S.schedule command = .ok S' ∧
      (S.Keeps (command.commandId::hand) S' hand ∨
        (command.command.isSessionCancel = true ∧
          S.pendingCancellations.get command.sessionId ≠ none ∧ S.Keeps hand S' hand)) := by
  have hcontrol := h.controlFor command
  have hpending : (S.controlFor command).2.pendingCancellations = S.pendingCancellations := by
    simp only [RuntimeScheduler.controlFor]
    cases S.controls.get command.sessionId <;> rfl
  have hnoted := hcontrol.steady.note (.scheduled command (S.controlFor command).1)
  have hflow : S.Keeps (command.commandId::hand)
      ((S.controlFor command).2.note (.scheduled command (S.controlFor command).1))
      (command.commandId::hand) := ⟨hnoted,hcontrol.flow⟩
  simp only [RuntimeScheduler.schedule]
  split_ifs with hcancel hrequested
  · obtain ⟨S',hS',hkeeps⟩ := hnoted.scheduleCancellation (S.controlFor command).1
    refine ⟨S',hS',?_⟩
    rcases hkeeps with hkeeps | ⟨hkept,hkeeps⟩
    · exact .inl (hflow.trans hkeeps)
    · have hcontrol' := h.drop.controlFor command
      have hflow' : S.Keeps hand
          ((S.controlFor command).2.note (.scheduled command (S.controlFor command).1)) hand :=
        ⟨hcontrol'.steady.note _,hcontrol'.flow⟩
      exact .inr ⟨hcancel,hpending ▸ hkept,hflow'.trans hkeeps⟩
  · have hkeeps := hnoted.suppress (S.controlFor command).1
    exact ⟨_,rfl,.inl (hflow.trans hkeeps)⟩
  · obtain ⟨S',hS',hkeeps⟩ := hnoted.scheduleRuntimeInner (S.controlFor command).1
    exact ⟨S',hS',.inl (hflow.trans hkeeps)⟩

theorem scheduleRuntime (h : S.Steady (command.commandId::hand)) :
    ∃ S', S.scheduleRuntime command = .ok S' ∧ S.Keeps (command.commandId::hand) S' hand := by
  have hcontrol := h.controlFor command
  have hnoted := hcontrol.steady.note (.scheduled command (S.controlFor command).1)
  obtain ⟨S',hS',hkeeps⟩ := hnoted.scheduleRuntimeInner (S.controlFor command).1
  have hflow : S.Keeps (command.commandId::hand)
      ((S.controlFor command).2.note (.scheduled command (S.controlFor command).1))
      (command.commandId::hand) := ⟨hnoted,hcontrol.flow⟩
  exact ⟨S',hS',hflow.trans hkeeps⟩

theorem expecting_nodup (h : S.Steady hand) : S.expecting.Nodup :=
  h.once.sublist (((List.sublist_append_left _ _).trans (List.sublist_append_left _ _)).trans
    (List.sublist_append_left _ _))

theorem coming_nodup (h : S.Steady hand) : S.coming.Nodup :=
  h.answered.nodup_iff.mpr h.expecting_nodup

theorem active_unique (h : S.Steady hand) {session session' : String} {a a' : ActiveRuntime}
    (ha : S.active.get session = some a) (ha' : S.active.get session' = some a')
    (hid : a.commandId = a'.commandId) : session = session' := by
  have hnodup : (S.active.entries.map fun e => e.2.commandId).Nodup := by
    have hall := (List.nodup_append.mp h.expecting_nodup).1
    rwa [OrdMap.values,List.map_map] at hall
  have heq := List.inj_on_of_nodup_map hnodup (OrdMap.mem_of_get ha) (OrdMap.mem_of_get ha') hid
  exact (Prod.mk.inj heq).1

theorem sessions (h : S.Steady hand) : (S.workers.map (·.command.sessionId)).Nodup := by
  have hids : (S.workers.map (·.command.commandId)).Nodup := (List.nodup_append.mp h.coming_nodup).1
  rw [List.Nodup,List.pairwise_map] at hids ⊢
  refine hids.imp_of_mem fun {w w'} hw hw' hne hsession => hne ?_
  have hactive := h.worker w hw
  rw [hsession,h.worker w' hw'] at hactive
  exact (ActiveRuntime.mk.inj (Option.some.inj hactive)).1.symm

/-- A command that is active is with a worker, or its completion is in the channel. -/
theorem awaited (h : S.Steady hand) {session : String} {a : ActiveRuntime}
    (ha : S.active.get session = some a) :
    (∃ w ∈ S.workers, w.command.sessionId = session ∧ w.command.commandId = a.commandId) ∨
      ∃ c ∈ S.completions, c.sessionId = session ∧ c.commandId = a.commandId := by
  have hexpected : a.commandId ∈ S.active.values.map (·.commandId) :=
    List.mem_map.mpr ⟨a,OrdMap.mem_values_of_get ha,rfl⟩
  have hcoming : a.commandId ∈ S.coming := h.answered.mem_iff.mpr (List.mem_append_left _ hexpected)
  rcases List.mem_append.mp hcoming with hw | hc
  · obtain ⟨w,hw,hid⟩ := List.mem_map.mp hw
    exact .inl ⟨w,hw,h.active_unique (h.worker w hw) ha hid,hid⟩
  · obtain ⟨c,hc,hid⟩ := List.mem_map.mp hc
    refine .inr ⟨c,hc,?_,hid⟩
    rcases h.completion c hc with hsuppressed | ⟨b,hb,hbid⟩
    · exact absurd (hid ▸ hsuppressed) (List.disjoint_of_nodup_append h.expecting_nodup hexpected)
    · exact h.active_unique hb ha (hbid.trans hid)

/-- The command of the front completion is with no worker and has no other completion. -/
theorem front_alone {c : RuntimeCompletion} {rest : List RuntimeCompletion} (h : S.Steady hand)
    (hchannel : S.completions = c::rest) :
    (∀ w ∈ S.workers, w.command.commandId ≠ c.commandId) ∧
      ∀ x ∈ rest, x.commandId ≠ c.commandId := by
  have hcoming := h.coming_nodup
  simp only [coming,hchannel,List.map_cons] at hcoming
  have hfirst := List.nodup_cons.mp (List.perm_middle.nodup_iff.mp hcoming)
  constructor
  · exact fun w hw hid => hfirst.1 (List.mem_append_left _ (List.mem_map.mpr ⟨w,hw,hid⟩))
  · exact fun x hx hid => hfirst.1 (List.mem_append_right _ (List.mem_map.mpr ⟨x,hx,hid⟩))

theorem takeOff {c : RuntimeCompletion} {rest : List RuntimeCompletion} (h : S.Steady hand)
    (hchannel : S.completions = c::rest) :
    ∃ control S', ({ S with completions := rest } : RuntimeScheduler).takeOff c = .ok (control,S') ∧
      S.Keeps hand S' (c.commandId::hand) := by
  obtain ⟨hworkers,hrest⟩ := h.front_alone hchannel
  have hknown : ∀ x ∈ rest, x ∈ S.completions := fun x hx => by simp [hchannel,hx]
  simp only [RuntimeScheduler.takeOff]
  cases hsuppressed : S.suppressed.get c.commandId with
  | some control =>
    have hkeys : S.suppressed.keys.Perm (c.commandId::(S.suppressed.erase c.commandId).keys) :=
      (h.suppressed.erase_perm hsuppressed).map Prod.fst
    refine ⟨control,_,rfl,?_⟩
    have hflow : (({ S with
        completions := rest
        suppressed := S.suppressed.erase c.commandId } : RuntimeScheduler).held ++
          c.commandId::hand).Perm (S.held ++ hand) := by
      rw [List.perm_iff_count]
      intro a
      have hcount := hkeys.count_eq a
      simp only [held,expecting,List.count_append,List.count_cons] at hcount ⊢
      omega
    refine ⟨⟨h.active,h.suppressed.erase _,h.pending,hflow.nodup_iff.mpr h.once,?_,h.permits,h.worker,
      fun x hx => ?_⟩,hflow⟩
    · rw [List.perm_iff_count]
      intro a
      have hcount := hkeys.count_eq a
      have hold := h.answered.count_eq a
      simp only [coming,expecting,hchannel,List.map_cons,List.count_append,List.count_cons]
        at hcount hold ⊢
      omega
    · rcases h.completion x (hknown x hx) with hx' | hx'
      · exact .inl ((List.mem_cons.mp (hkeys.mem_iff.mp hx')).resolve_left (hrest x hx))
      · exact .inr hx'
  | none =>
    obtain ⟨a,ha,hid⟩ := (h.completion c (by simp [hchannel])).resolve_left
      (OrdMap.get_eq_none.mp hsuppressed)
    have hids : (S.active.values.map (·.commandId)).Perm
        (a.commandId::(S.active.erase c.sessionId).values.map (·.commandId)) :=
      ((h.active.erase_perm ha).map Prod.snd).map _
    simp only [ha,hid,ne_eq,not_true_eq_false,if_false]
    refine ⟨_,_,rfl,?_⟩
    have hflow : (({ S with
        completions := rest
        active := S.active.erase c.sessionId } : RuntimeScheduler).held ++
          c.commandId::hand).Perm (S.held ++ hand) := by
      rw [List.perm_iff_count]
      intro x
      have hcount := hids.count_eq x
      simp only [held,expecting,hid,List.count_append,List.count_cons] at hcount ⊢
      omega
    -- no one else has this command, so no one else is in its session
    have hother : ∀ session b, S.active.get session = some b → b.commandId ≠ c.commandId →
        (S.active.erase c.sessionId).get session = some b := by
      intro session b hb hne
      rw [OrdMap.get_erase,if_neg ?_,hb]
      rintro rfl
      obtain rfl := Option.some.inj (ha.symm.trans hb)
      exact hne hid
    refine ⟨⟨h.active.erase _,h.suppressed,h.pending,hflow.nodup_iff.mpr h.once,?_,h.permits,
      fun w hw => hother _ _ (h.worker w hw) (hworkers w hw),fun x hx => ?_⟩,hflow⟩
    · rw [List.perm_iff_count]
      intro x
      have hcount := hids.count_eq x
      have hold := h.answered.count_eq x
      simp only [coming,expecting,hchannel,hid,List.map_cons,List.count_append,List.count_cons]
        at hcount hold ⊢
      omega
    · rcases h.completion x (hknown x hx) with hx' | ⟨b,hb,hbid⟩
      · exact .inl hx'
      · exact .inr ⟨b,hother _ _ hb (hbid ▸ hrest x hx),hbid⟩

theorem takePending (h : S.Steady hand) (sessionId : String) :
    S.Keeps hand { S with pendingCancellations := S.pendingCancellations.erase sessionId }
      ((S.pendingCancellations.get sessionId).toList.map (·.commandId) ++ hand) := by
  cases hpending : S.pendingCancellations.get sessionId with
  | none =>
    rw [OrdMap.erase_of_none hpending]
    exact ⟨h,List.Perm.refl _⟩
  | some command =>
    have hids : (S.pendingCancellations.values.map (·.commandId)).Perm
        (command.commandId::(S.pendingCancellations.erase sessionId).values.map (·.commandId)) :=
      ((h.pending.erase_perm hpending).map Prod.snd).map _
    have hflow : (({ S with
        pendingCancellations := S.pendingCancellations.erase sessionId } : RuntimeScheduler).held ++
          command.commandId::hand).Perm (S.held ++ hand) := by
      rw [List.perm_iff_count]
      intro a
      have hcount := hids.count_eq a
      simp only [held,expecting,List.count_append,List.count_cons] at hcount ⊢
      omega
    exact ⟨{ h with pending := h.pending.erase _, once := hflow.nodup_iff.mpr h.once },hflow⟩

/-- A completion is taken off with the cancellation that waited for it. -/
theorem beginFinish {c : RuntimeCompletion} {rest : List RuntimeCompletion} (h : S.Steady hand)
    (hchannel : S.completions = c::rest) :
    ∃ f S', ({ S with completions := rest } : RuntimeScheduler).beginFinish c = .ok (f,S') ∧
      S.Keeps hand S' (f.followup.toList.map (·.command.commandId) ++ c.commandId::hand) := by
  obtain ⟨control,T,hT,hkeeps⟩ := h.takeOff hchannel
  simp only [RuntimeScheduler.beginFinish,hT,bind,Except.bind]
  refine ⟨_,_,rfl,?_⟩
  have hmarked : S.Keeps hand (if hasTerminalEvent c.events then T.markTerminalFactEmitted control
      else T) (c.commandId::hand) := by
    split_ifs
    · exact ⟨hkeeps.steady.setControl control _,hkeeps.flow⟩
    · exact hkeeps
  generalize (if hasTerminalEvent c.events then T.markTerminalFactEmitted control else T) = U at hmarked
  have htaken := hmarked.trans (hmarked.steady.takePending c.sessionId)
  cases hpending : U.pendingCancellations.get c.sessionId with
  | none =>
    simp only [hpending] at htaken
    exact htaken
  | some command =>
    simp only [hpending] at htaken
    simp only [Option.map_some,Option.toList_some,List.map_cons,List.map_nil]
    split_ifs <;> exact htaken

theorem cleanup (h : S.Steady hand) (sessionId : String) :
    S.Keeps hand (S.maybeCleanupControl sessionId) hand := by
  have hsame : S.Keeps hand S hand := ⟨h,List.Perm.refl _⟩
  unfold maybeCleanupControl
  cases S.controls.get sessionId with
  | none => exact hsame
  | some control =>
    dsimp only
    split_ifs
    · exact hsame
    · exact ⟨⟨h.active,h.suppressed,h.pending,h.once,h.answered,h.permits,h.worker,h.completion⟩,
        List.Perm.refl _⟩

theorem endFinish (h : S.Steady hand) (f : Finishing) : S.Keeps hand (S.endFinish f) hand := by
  unfold RuntimeScheduler.endFinish
  split_ifs
  · exact h.cleanup _
  · exact ⟨h,List.Perm.refl _⟩

theorem drainTurn (h : S.Steady hand) :
    ∃ more S', S.drainTurn = .ok (more,S') ∧ S.Keeps hand S' hand := by
  unfold RuntimeScheduler.drainTurn
  cases hqueue : S.queued with
  | nil => exact ⟨_,_,rfl,h,List.Perm.refl _⟩
  | cons item rest =>
    have htaken := h.dequeue hqueue
    dsimp only
    split_ifs with hcancelled hactive
    · exact ⟨_,_,rfl,htaken.trans (htaken.steady.suppress item.control)⟩
    · exact ⟨_,_,rfl,htaken.trans (htaken.steady.enqueue item.control)⟩
    · have hnone : S.active.get item.command.sessionId = none := by
        simpa [isActive,OrdMap.contains] using hactive
      cases hpermits : S.permits with
      | zero =>
        have hback : ({ S with queued := item::rest, permits := 0 } : RuntimeScheduler) = S := by
          rw [← hqueue,← hpermits]
        refine ⟨_,_,rfl,?_⟩
        rw [hback]
        exact ⟨h,List.Perm.refl _⟩
      | succ permits =>
        have hspawn : ({ S with queued := rest, permits } : RuntimeScheduler).spawnRuntime item.command
            item.control = .ok (({ S with queued := rest, permits } : RuntimeScheduler).started
              item.command item.control) := if_neg hactive
        simp only [hspawn,bind,Except.bind]
        exact ⟨_,_,rfl,htaken.trans (htaken.steady.started item.control hnone hpermits)⟩

end Steady

theorem beginFinish_completion {c : RuntimeCompletion} {f : Finishing}
    (hok : S.beginFinish c = .ok (f,S')) : f.completion = c := by
  simp only [RuntimeScheduler.beginFinish,bind,Except.bind] at hok
  cases htaken : S.takeOff c with
  | error reason => simp [htaken] at hok
  | ok taken =>
    simp only [htaken,Except.ok.injEq,Prod.mk.injEq] at hok
    rw [← hok.1]

/-- What a step of a worker leaves alone. -/
structure WorkFrame (S S' : RuntimeScheduler) : Prop where
  active : S'.active = S.active
  controls : S'.controls = S.controls
  pending : S'.pendingCancellations = S.pendingCancellations
  suppressed : S'.suppressed = S.suppressed
  queued : S'.queued = S.queued
  cells : S'.cells = S.cells
  allocated : S'.allocated = S.allocated

theorem work_frame (S : RuntimeScheduler) (place : ℕ) (move : WorkerMove) :
    WorkFrame S (S.work place move) := by
  unfold work
  split <;> exact ⟨rfl,rfl,rfl,rfl,rfl,rfl,rfl⟩

/-- One worker among the others takes a step. -/
theorem work_cases (S : RuntimeScheduler) (place : ℕ) (move : WorkerMove) :
    S.work place move = S ∨ ∃ w others, S.workers[place]? = some w ∧ S.workers.Perm (w::others) ∧
      ((w.stage = .running ∧ ∃ outcome events workers,
          (move = .returns outcome events ∨ ∃ reason, move = .panics reason ∧
            outcome = panicOutcome reason ∧ events = panicEvents) ∧
          workers.Perm (⟨w.command,w.control,.returned outcome events⟩::others) ∧
          S.work place move = { S with workers }) ∨
        (move = .release ∧ ∃ outcome events workers, w.stage = .returned outcome events ∧
          workers.Perm (⟨w.command,w.control,.released outcome events⟩::others) ∧
          S.work place move = { S with workers, permits := S.permits+1 }) ∨
        (move = .send ∧ ∃ outcome events workers, w.stage = .released outcome events ∧
          workers.Perm others ∧ S.work place move = ({ S with workers } : RuntimeScheduler).send
            (workerCompletion w.command outcome events) w.control)) := by
  cases hplace : S.workers[place]? with
  | none => exact .inl (by simp [work,hplace])
  | some w =>
    obtain ⟨hlt,hget⟩ := List.getElem?_eq_some_iff.mp hplace
    have hothers : S.workers.Perm (w::S.workers.eraseIdx place) := by
      rw [← hget]
      exact (List.getElem_cons_eraseIdx_perm hlt).symm
    have hset := fun w' => List.set_perm_cons_eraseIdx hlt (a := w')
    obtain ⟨command,control,stage⟩ := w
    cases stage with
    | running =>
      cases move with
      | returns outcome events =>
        exact .inr ⟨_,_,rfl,hothers,.inl ⟨rfl,outcome,events,_,.inl rfl,hset _,by simp [work,hplace]⟩⟩
      | panics reason =>
        exact .inr ⟨_,_,rfl,hothers,.inl ⟨rfl,_,_,_,.inr ⟨reason,rfl,rfl,rfl⟩,hset _,
          by simp [work,hplace]⟩⟩
      | release => exact .inl (by simp [work,hplace])
      | send => exact .inl (by simp [work,hplace])
    | returned outcome events =>
      cases move with
      | release =>
        exact .inr ⟨_,_,rfl,hothers,.inr (.inl ⟨rfl,outcome,events,_,rfl,hset _,by simp [work,hplace]⟩)⟩
      | returns outcome' events' => exact .inl (by simp [work,hplace])
      | panics reason => exact .inl (by simp [work,hplace])
      | send => exact .inl (by simp [work,hplace])
    | released outcome events =>
      cases move with
      | send =>
        exact .inr ⟨_,_,rfl,hothers,.inr (.inr ⟨rfl,outcome,events,_,rfl,List.Perm.refl _,
          by simp [work,hplace]⟩)⟩
      | returns outcome' events' => exact .inl (by simp [work,hplace])
      | panics reason => exact .inl (by simp [work,hplace])
      | release => exact .inl (by simp [work,hplace])

/-- A worker that only changes its stage keeps its command announced. -/
theorem Steady.restage {w : Worker} {others workers : List Worker} {stage : WorkerStage} {permits : ℕ}
    (h : S.Steady hand) (hothers : S.workers.Perm (w::others))
    (hworkers : workers.Perm (⟨w.command,w.control,stage⟩::others))
    (hpermits : permits + (if stage.holdsPermit then 1 else 0) =
      S.permits + (if w.stage.holdsPermit then 1 else 0)) :
    ({ S with workers, permits } : RuntimeScheduler).Steady hand := by
  have hmem : ∀ x ∈ workers, ∃ y ∈ S.workers, y.command = x.command ∧ y.control = x.control := by
    intro x hx
    rcases List.mem_cons.mp (hworkers.mem_iff.mp hx) with rfl | hx
    · exact ⟨w,hothers.mem_iff.mpr (by simp),rfl,rfl⟩
    · exact ⟨x,hothers.mem_iff.mpr (by simp [hx]),rfl,rfl⟩
  refine ⟨h.active,h.suppressed,h.pending,h.once,?_,?_,fun x hx => ?_,h.completion⟩
  · have hold := hothers.map (·.command.commandId)
    have hnew := hworkers.map (·.command.commandId)
    exact ((hnew.trans hold.symm).append_right _).trans h.answered
  · have hold := h.permits
    have hcount := hothers.countP_eq (·.stage.holdsPermit)
    have hcount' := hworkers.countP_eq (·.stage.holdsPermit)
    simp only [List.countP_cons] at hcount hcount'
    show permits + workers.countP (·.stage.holdsPermit) = _
    omega
  · obtain ⟨y,hy,hcommand,hcontrol⟩ := hmem x hx
    rw [← hcommand,← hcontrol]
    exact h.worker y hy

theorem Steady.work (h : S.Steady hand) (place : ℕ) (move : WorkerMove) :
    (S.work place move).Steady hand := by
  rcases S.work_cases place move with hsame | ⟨w,others,-,hothers,hcase⟩
  · rwa [hsame]
  · rcases hcase with ⟨hstage,outcome,events,workers,-,hworkers,hwork⟩ |
      ⟨-,outcome,events,workers,hstage,hworkers,hwork⟩ | ⟨-,outcome,events,workers,hstage,hworkers,hwork⟩
    · rw [hwork]
      exact h.restage hothers hworkers (by simp [hstage,WorkerStage.holdsPermit])
    · rw [hwork]
      exact h.restage hothers hworkers (by simp [hstage,WorkerStage.holdsPermit])
    · have hmem : w ∈ S.workers := hothers.mem_iff.mpr (by simp)
      have hids : (S.workers.map (·.command.commandId)).Perm
          (w.command.commandId::workers.map (·.command.commandId)) :=
        (hothers.map _).trans ((hworkers.map _).symm.cons _)
      rw [hwork]
      refine ⟨h.active,h.suppressed,h.pending,h.once,?_,?_,fun x hx => ?_,fun c hc => ?_⟩
      · rw [List.perm_iff_count]
        intro a
        have hcount := hids.count_eq a
        have hold := h.answered.count_eq a
        simp only [coming,expecting,RuntimeScheduler.send,RuntimeScheduler.note,workerCompletion,
          List.map_append,List.map_cons,List.map_nil,List.count_append,List.count_cons,
          List.count_nil] at hcount hold ⊢
        omega
      · have hold := h.permits
        have hcount := hothers.countP_eq (·.stage.holdsPermit)
        have hcount' := hworkers.countP_eq (·.stage.holdsPermit)
        have hnone : w.stage.holdsPermit = false := by rw [hstage]; rfl
        simp only [List.countP_cons,hnone,Bool.false_eq_true,if_false] at hcount
        show S.permits + workers.countP (·.stage.holdsPermit) = _
        omega
      · exact h.worker x (hothers.mem_iff.mpr (List.mem_cons_of_mem _ (hworkers.mem_iff.mp hx)))
      · rcases List.mem_append.mp hc with hc | hc
        · exact h.completion c hc
        · rw [List.mem_singleton.mp hc]
          exact .inr ⟨_,h.worker w hmem,rfl⟩

theorem held_work (S : RuntimeScheduler) (place : ℕ) (move : WorkerMove) :
    (S.work place move).held = S.held := by
  have hframe := S.work_frame place move
  simp only [held,expecting,hframe.active,hframe.suppressed,hframe.queued,hframe.pending]

end RuntimeScheduler
end Scheduler
end North
