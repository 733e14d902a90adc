import North.StartLoop

/-! No command is lost between the journal and the scheduler: whatever the journal handed
over and has not finished is in one place of the scheduler or carried by the task. The one
call that breaks this is a second cancellation while the session has one pending. -/
namespace North
namespace StartLoop

open Protocol Journal Scheduler Prog

def Rest.carried : Rest → List String
  | .followup f => [f.command.commandId]
  | _ => []

/-- The commands the task carries from one call to the next. -/
def Phase.carried : Phase → List String
  | .idle => []
  | .draining f => f.followup.toList.map (·.command.commandId) ++ [f.completion.commandId]
  | .finishing completion followup => followup.toList.map (·.command.commandId) ++ [completion.commandId]
  | .emitting commands rest => commands.map (·.commandId) ++ rest.carried
  | .halted phase => phase.carried

/-- Where a command can be between the journal and its end. -/
inductive Place
  | active | queued | suppressed | pendingCancellation | carried
  deriving DecidableEq, Repr

namespace Loop

variable {σ : Type} {W : World σ} {P : Prop} {L : Loop σ}

def carried (L : Loop σ) : List String := L.phase.carried ++ L.pendingCommands.map (·.commandId)

/-- The process is there: `start` has neither returned nor failed. -/
def running (L : Loop σ) : Bool := match L.phase with
  | .halted _ => false
  | _ => true

/-- The command is in this place; a suppressed one has its completion in the channel. -/
def isAt (L : Loop σ) (commandId : String) : Place → Prop
  | .active => commandId ∈ L.scheduler.active.values.map (·.commandId)
  | .queued => commandId ∈ L.scheduler.queued.map (·.command.commandId)
  | .suppressed => commandId ∈ L.scheduler.suppressed.keys ∧
      commandId ∈ L.scheduler.completions.map (·.commandId)
  | .pendingCancellation => commandId ∈ L.scheduler.pendingCancellations.values.map (·.commandId)
  | .carried => commandId ∈ L.carried

/-- The next call does not schedule a cancellation for a session that has one pending. -/
def singleCancel (L : Loop σ) : Move → Bool
  | .next => match L.phase with
    | .emitting (command::_) _ => !command.command.isSessionCancel ||
        !L.scheduler.pendingCancellations.contains command.sessionId
    | _ => true
  | _ => true

/-- No call of the run does. -/
def singleCancels (W : World σ) : Loop σ → List Move → Bool
  | _, [] => true
  | L, move::moves => L.singleCancel move && singleCancels W (L.step W move) moves

/-- The commands in places and on the way are among those the journal handed over, and
where nothing is lost (`P`) they are all it has not finished. -/
structure Custody (P : Prop) (L : Loop σ) : Prop where
  steady : L.scheduler.Steady L.carried
  handed : ∀ id ∈ L.scheduler.held ++ L.carried, id ∈ L.host.handed
  open_ : P → ∀ id ∈ L.host.handed, L.host.state.Done id ∨ id ∈ L.scheduler.held ++ L.carried

structure Kept (W : World σ) (P : Prop) (L : Loop σ) : Prop where
  sound : Sound W Set.univ L.host
  custody : L.running = true → L.Custody P

theorem Custody.keeps (h : L.Custody P) {scheduler : RuntimeScheduler} {phase : Phase}
    (hkeeps : L.scheduler.Keeps L.carried scheduler ({ L with scheduler, phase } : Loop σ).carried) :
    ({ L with scheduler, phase } : Loop σ).Custody P where
  steady := hkeeps.steady
  handed := fun id hid => h.handed id (hkeeps.flow.mem_iff.mp hid)
  open_ := fun hP id hid => (h.open_ hP id hid).imp_right hkeeps.flow.mem_iff.mpr

/-- The commands of a hand-over are new to the scheduler. -/
theorem steady_handed {host host' : Host σ} {scheduler : RuntimeScheduler} {hand : List String}
    {commands : List CommandEnvelope} (hs : Sound W Set.univ host') (hhands : Hands host host' commands)
    (h : scheduler.Steady hand) (hhanded : ∀ id ∈ scheduler.held ++ hand, id ∈ host.handed) :
    scheduler.Steady (commands.map (·.commandId) ++ hand) := by
  have hnodup := hhands.handed.nodup_iff.mp hs.once
  obtain ⟨hnew,-,hapart⟩ := List.nodup_append'.mp hnodup
  refine ⟨h.active,h.suppressed,h.pending,?_,h.answered,h.permits,h.worker,h.completion⟩
  have hperm : (scheduler.held ++ (commands.map (·.commandId) ++ hand)).Perm
      (commands.map (·.commandId) ++ (scheduler.held ++ hand)) := by
    rw [← List.append_assoc,← List.append_assoc]
    exact List.perm_append_comm.append_right _
  rw [hperm.nodup_iff]
  exact List.nodup_append'.mpr ⟨hnew,h.once,fun id hid hold => hapart hid (hhanded id hold)⟩

/-- A coordinator call that returned: what it finished is over, what it handed over is
carried on. -/
theorem Custody.hands (h : L.Custody P) (hs : Sound W Set.univ L.host) {host : Host σ}
    (hs' : Sound W Set.univ host) {commands : List CommandEnvelope} (hhands : Hands L.host host commands)
    (finished kept : List String) (hcarried : L.carried.Perm (finished ++ kept))
    (hfinished : ∀ id ∈ finished, host.state.Done id) {L' : Loop σ} (hhost : L'.host = host)
    (hscheduler : L'.scheduler = L.scheduler)
    (hcarried' : L'.carried.Perm (commands.map (·.commandId) ++ kept)) : L'.Custody P := by
  have hold : L.scheduler.Steady (finished ++ kept) := h.steady.perm hcarried.symm
  have hkept : L.scheduler.Steady kept := by
    refine ⟨hold.active,hold.suppressed,hold.pending,?_,hold.answered,hold.permits,hold.worker,
      hold.completion⟩
    exact hold.once.sublist ((List.sublist_append_right _ _).append_left _)
  have hmem : ∀ id, id ∈ L.scheduler.held ++ L.carried ↔
      id ∈ finished ∨ id ∈ L.scheduler.held ++ kept := by
    intro id
    rw [List.mem_append,hcarried.mem_iff]
    simp only [List.mem_append]
    tauto
  have hmem' : ∀ id, id ∈ L'.scheduler.held ++ L'.carried ↔
      id ∈ commands.map (·.commandId) ∨ id ∈ L.scheduler.held ++ kept := by
    intro id
    rw [List.mem_append,hcarried'.mem_iff,hscheduler]
    simp only [List.mem_append]
    tauto
  have hin : ∀ id ∈ L.scheduler.held ++ kept, id ∈ L.host.handed :=
    fun id hid => h.handed id ((hmem id).mpr (.inr hid))
  refine ⟨?_,fun id hid => ?_,fun hP id hid => ?_⟩
  · rw [hscheduler]
    exact (steady_handed hs' hhands hkept hin).perm hcarried'
  · rw [hhost,hhands.handed.mem_iff]
    exact List.mem_append.mpr (((hmem' id).mp hid).imp_right (hin id))
  · rw [hhost] at hid ⊢
    rcases List.mem_append.mp (hhands.handed.mem_iff.mp hid) with hnew | hbefore
    · exact .inr ((hmem' id).mpr (.inl hnew))
    · rcases h.open_ hP id hbefore with hdone | hplace
      · exact .inl (hhands.later.done hs hs' hdone)
      · rcases (hmem id).mp hplace with hfin | hplace
        · exact .inl (hfinished id hfin)
        · exact .inr ((hmem' id).mpr (.inr hplace))

theorem Kept.halted (hs : Sound W Set.univ L.host) (hhalted : L.running = false) : Kept W P L :=
  ⟨hs,fun hrunning => absurd hrunning (by simp [hhalted])⟩

theorem kept_halt {host : Host σ} (hs : Sound W Set.univ host) :
    Kept W P ({ L with host } : Loop σ).halt := .halted hs rfl

theorem restart_kept (hs : Sound W Set.univ L.host) : Kept W P (L.restart W) := by
  rcases L.restart_cases hs with ⟨host,hs',hrestart⟩ | ⟨h₁,recovery,h₂,hopen,hrecover,hrestart⟩
  · rw [hrestart]
    exact kept_halt hs'
  · have hs₁ : Sound W Set.univ h₁ := keeps_reopen.ok hs hopen
    have hs₂ : Sound W Set.univ h₂ := keeps_recoverForScheduler.ok hs₁ hrecover
    have hhands := recoverForScheduler_hands hrecover
    rw [hrestart]
    refine ⟨hs₂,fun _ => ⟨?_,fun id hid => ?_,fun _ id hid => ?_⟩⟩
    · have hnew := steady_handed hs₂ hhands RuntimeScheduler.Steady.init (by
        simp [RuntimeScheduler.held,RuntimeScheduler.expecting,OrdMap.values,OrdMap.keys])
      rwa [List.append_nil] at hnew
    · rw [hhands.handed.mem_iff]
      exact List.mem_append.mpr (.inl hid)
    · -- what was handed over in an earlier process was resolved
      rcases List.mem_append.mp (hhands.handed.mem_iff.mp hid) with hnew | hold
      · exact .inr hnew
      · exact .inl (recoverForScheduler_done hs₁ hrecover (hs₁.started id hold))

theorem handshake_kept (h : Kept W P L) (hidle : L.phase = .idle) (snapshot : ReconcileSnapshot) :
    Kept W P (L.handshake W snapshot) := by
  rcases handshake_cases snapshot h.sound with ⟨host,hs',hhand⟩ | ⟨frames,host,hexec,hhand⟩
  · rw [hhand]
    exact kept_halt hs'
  · obtain ⟨hs',hquiet⟩ := Coordinator.reconcile_sound h.sound hexec
    have hcustody := h.custody (by simp [running,hidle])
    rw [hhand]
    refine ⟨hs',fun _ => hcustody.hands h.sound hs' (hands_of_quiet hquiet) [] L.carried
      (List.Perm.refl _) (by simp) rfl rfl ?_⟩
    simp [carried,hidle,Phase.carried,Rest.carried]

theorem takeFrame_kept (h : Kept W P L) (hidle : L.phase = .idle) (frame : ServerFrame) :
    Kept W P (L.takeFrame W frame) := by
  have hcustody := h.custody (by simp [running,hidle])
  rcases takeFrame_cases frame h.sound with ⟨host,hs',hframe⟩ | ⟨host,hsettled,hs',hframe⟩ |
    ⟨actions,host,hexec,hframe⟩
  · rw [hframe]
    exact kept_halt hs'
  · rw [hframe]
    refine ⟨hs',fun _ => hcustody.hands h.sound hs' hsettled.hands [] L.carried (List.Perm.refl _)
      (by simp) rfl rfl ?_⟩
    simp [carried,hidle,Phase.carried,Rest.carried]
  · have hs' := Coordinator.acceptServerFrame_sound (fun _ _ => Set.mem_univ _) h.sound hexec
    rw [hframe]
    refine ⟨hs',fun _ => hcustody.hands h.sound hs'
      (Coordinator.acceptServerFrame_hands h.sound hexec) [] L.carried (List.Perm.refl _) (by simp)
      rfl rfl ?_⟩
    simp [carried,hidle,Phase.carried,Rest.carried]

/-- The task finished a command in the journal and goes on with what that released. -/
theorem finishRuntime_kept (h : Kept W P L) (hrunning : L.running = true) {sessionId commandId : String}
    {outcome : DispatchOutcome} {events : List Event} {rest : Rest}
    (hcarried : L.phase.carried.Perm (commandId::rest.carried)) :
    Kept W P (L.act (Coordinator.finishRuntime W sessionId commandId outcome events) rest) := by
  rcases L.act_cases rest (fun r h' hexec => Coordinator.finishRuntime_sound h.sound hexec) h.sound with
    ⟨host,hs',hact⟩ | ⟨actions,host,hexec,hact⟩
  · rw [hact]
    exact kept_halt hs'
  · have hs' := Coordinator.finishRuntime_sound h.sound hexec
    rw [hact]
    refine ⟨hs',fun _ => (h.custody hrunning).hands h.sound hs' (Coordinator.finishRuntime_hands hexec)
      [commandId] (rest.carried ++ L.pendingCommands.map (·.commandId)) (hcarried.append_right _) ?_
      rfl rfl ?_⟩
    · intro id hid
      obtain rfl := List.mem_singleton.mp hid
      exact Coordinator.finishRuntime_done h.sound hexec
    · rw [carried,Phase.carried,List.append_assoc]

theorem takeCompletion_kept (h : Kept W P L) (hidle : L.phase = .idle) : Kept W P L.takeCompletion := by
  have hcustody := h.custody (by simp [running,hidle])
  unfold takeCompletion
  cases hchannel : L.scheduler.completions with
  | nil => exact h
  | cons completion rest =>
    obtain ⟨f,S',hS',hkeeps⟩ := hcustody.steady.beginFinish hchannel
    have hf : f.completion = completion := RuntimeScheduler.beginFinish_completion hS'
    simp only [hS']
    refine ⟨h.sound,fun _ => hcustody.keeps ?_⟩
    simpa [carried,hidle,Phase.carried,hf] using hkeeps

theorem afterDrain_kept (h : Kept W P L) {f : RuntimeScheduler.Finishing} {scheduler : RuntimeScheduler}
    (hphase : L.phase = .draining f) (hkeeps : L.scheduler.Keeps L.carried scheduler L.carried) :
    Kept W P (L.afterDrain f scheduler) := by
  have hcustody := h.custody (by simp [running,hphase])
  have hend := hkeeps.trans (hkeeps.steady.endFinish f)
  refine ⟨h.sound,fun _ => hcustody.keeps ?_⟩
  simpa [carried,hphase,Phase.carried] using hend

theorem drain_kept (h : Kept W P L) {f : RuntimeScheduler.Finishing} (hphase : L.phase = .draining f) :
    Kept W P (L.drain f) := by
  have hcustody := h.custody (by simp [running,hphase])
  unfold drain
  cases hremaining : f.remaining with
  | zero => exact afterDrain_kept h hphase ⟨hcustody.steady,List.Perm.refl _⟩
  | succ remaining =>
    obtain ⟨more,S',hS',hkeeps⟩ := hcustody.steady.drainTurn
    simp only [hS']
    cases more with
    | true =>
      refine ⟨h.sound,fun _ => hcustody.keeps ?_⟩
      simpa [carried,hphase,Phase.carried] using hkeeps
    | false => exact afterDrain_kept h hphase hkeeps

/-- A command of the actions is scheduled; only a second cancellation is lost by that. -/
theorem emit_kept (h : Kept W P L) {command : CommandEnvelope} {commands : List CommandEnvelope}
    {rest : Rest} (hphase : L.phase = .emitting (command::commands) rest)
    (hsingle : P → L.singleCancel .next = true) :
    ∃ scheduler, L.scheduler.schedule command = .ok scheduler ∧
      Kept W P { L with scheduler, phase := .emitting commands rest } := by
  have hcustody := h.custody (by simp [running,hphase])
  have hcarried : L.carried = command.commandId::({ L with phase := .emitting commands rest } : Loop σ).carried := by
    simp [carried,hphase,Phase.carried]
  have hsteady := hcustody.steady
  rw [hcarried] at hsteady
  obtain ⟨S',hS',hkeeps | ⟨hcancel,hpending,hkeeps⟩⟩ := hsteady.schedule
  · refine ⟨S',hS',h.sound,fun _ => hcustody.keeps ?_⟩
    rwa [hcarried]
  · refine ⟨S',hS',h.sound,fun _ => ⟨hkeeps.steady,fun id hid => ?_,fun hP => ?_⟩⟩
    · have hold := hkeeps.flow.mem_iff.mp hid
      refine h.custody (by simp [running,hphase]) |>.handed id ?_
      rw [hcarried]
      simp only [List.mem_append,List.mem_cons] at hold ⊢
      tauto
    · have hone := hsingle hP
      simp only [singleCancel,hphase,hcancel,OrdMap.contains] at hone
      cases hget : L.scheduler.pendingCancellations.get command.sessionId <;> simp_all

theorem next_kept (h : Kept W P L) (hsingle : P → L.singleCancel .next = true) : Kept W P (L.next W) := by
  unfold next
  cases hphase : L.phase with
  | idle => exact h
  | halted phase => exact h
  | draining f => exact drain_kept h hphase
  | finishing completion followup =>
    refine finishRuntime_kept h (by simp [running,hphase]) ?_
    cases followup <;> simp [hphase,Phase.carried,Rest.carried,afterFinish,List.Perm.swap]
  | emitting commands rest =>
    cases commands with
    | cons command commands =>
      obtain ⟨scheduler,hschedule,hkept⟩ := emit_kept h hphase hsingle
      simpa only [hschedule] using hkept
    | nil =>
      have hcustody := h.custody (by simp [running,hphase])
      cases rest with
      | done =>
        have hsame : ({ L with phase := .idle } : Loop σ).carried = L.carried := by
          simp [carried,hphase,Phase.carried,Rest.carried]
        refine ⟨h.sound,fun _ => hcustody.keeps ?_⟩
        rw [hsame]
        exact ⟨hcustody.steady,List.Perm.refl _⟩
      | followup followup =>
        cases followup with
        | finishCancellation command =>
          refine finishRuntime_kept h (by simp [running,hphase]) ?_
          simp [hphase,Phase.carried,Rest.carried,RuntimeFollowup.command]
        | rescheduleCancellation command =>
          have hcarried : L.carried =
              command.commandId::({ L with phase := .idle } : Loop σ).carried := by
            simp [carried,hphase,Phase.carried,Rest.carried,RuntimeFollowup.command]
          have hsteady := hcustody.steady
          rw [hcarried] at hsteady
          obtain ⟨S',hS',hkeeps⟩ := hsteady.scheduleRuntime
          simp only [hS']
          refine ⟨h.sound,fun _ => hcustody.keeps ?_⟩
          rw [hcarried]
          exact hkeeps
      | cleanup command =>
        refine ⟨h.sound,fun _ => hcustody.keeps ?_⟩
        have hkeeps := hcustody.steady.cleanup command.sessionId
        simpa [carried,hphase,Phase.carried,Rest.carried,RuntimeScheduler.finishFollowup] using hkeeps

theorem step_kept (h : Kept W P L) {move : Move} (hsingle : P → L.singleCancel move = true) :
    Kept W P (L.step W move) := by
  cases move with
  | restart => exact restart_kept h.sound
  | handshake snapshot =>
    simp only [step]
    split_ifs with hidle
    · exact handshake_kept h hidle snapshot
    · exact h
  | frame frame =>
    simp only [step]
    split_ifs with hidle
    · exact takeFrame_kept h hidle.1 frame
    · exact h
  | completion =>
    simp only [step]
    split_ifs with hidle
    · exact takeCompletion_kept h hidle
    · exact h
  | next => exact next_kept h hsingle
  | work place move =>
    refine ⟨h.sound,fun hrunning => ?_⟩
    have hcustody := h.custody hrunning
    refine @Custody.keeps σ P L hcustody _ L.phase ⟨hcustody.steady.work place move,?_⟩
    rw [RuntimeScheduler.held_work]
    exact List.Perm.refl _
  | stop =>
    simp only [step]
    cases hphase : L.phase <;> first | exact h | exact .halted h.sound rfl

theorem run_kept (h : Kept W P L) {moves : List Move}
    (hsingle : P → singleCancels W L moves = true) : Kept W P (L.run W moves) := by
  induction moves generalizing L with
  | nil => exact h
  | cons move moves ih =>
    simp only [singleCancels,Bool.and_eq_true] at hsingle
    exact ih (step_kept h fun hP => (hsingle hP).1) fun hP => (hsingle hP).2

/-- The commands of a place, without a look at the channel. -/
def commandsAt (L : Loop σ) : Place → List String
  | .active => L.scheduler.active.values.map (·.commandId)
  | .queued => L.scheduler.queued.map (·.command.commandId)
  | .suppressed => L.scheduler.suppressed.keys
  | .pendingCancellation => L.scheduler.pendingCancellations.values.map (·.commandId)
  | .carried => L.carried

/-- A suppressed command has its completion in the channel: no worker runs it. -/
theorem Custody.in_channel (h : L.Custody P) {id : String} (hid : id ∈ L.scheduler.suppressed.keys) :
    id ∈ L.scheduler.completions.map (·.commandId) := by
  have hcoming : id ∈ L.scheduler.coming :=
    h.steady.answered.mem_iff.mpr (List.mem_append.mpr (.inr hid))
  rcases List.mem_append.mp hcoming with hworker | hchannel
  · obtain ⟨w,hw,rfl⟩ := List.mem_map.mp hworker
    have hactive : w.command.commandId ∈ L.scheduler.active.values.map (·.commandId) :=
      List.mem_map.mpr ⟨_,OrdMap.mem_values_of_get (h.steady.worker w hw),rfl⟩
    exact absurd hid ((List.nodup_append'.mp h.steady.expecting_nodup).2.2 hactive)
  · exact hchannel

theorem Custody.isAt_iff (h : L.Custody P) {id : String} {place : Place} :
    L.isAt id place ↔ id ∈ L.commandsAt place := by
  cases place with
  | suppressed => exact ⟨And.left,fun hid => ⟨hid,h.in_channel hid⟩⟩
  | active => exact Iff.rfl
  | queued => exact Iff.rfl
  | pendingCancellation => exact Iff.rfl
  | carried => exact Iff.rfl

theorem Custody.one_place (h : L.Custody P) {id : String} (hid : id ∈ L.scheduler.held ++ L.carried) :
    ∃! place, L.isAt id place := by
  have hone := List.nodup_iff_count_le_one.mp h.steady.once id
  have hsome := List.count_pos_iff.mpr hid
  simp only [RuntimeScheduler.held,RuntimeScheduler.expecting,List.count_append] at hone hsome
  have hplace : ∃ place, L.isAt id place := by
    simp only [RuntimeScheduler.held,RuntimeScheduler.expecting,List.mem_append] at hid
    rcases hid with (((hid | hid) | hid) | hid) | hid
    · exact ⟨.active,hid⟩
    · exact ⟨.suppressed,h.isAt_iff.mpr hid⟩
    · exact ⟨.queued,hid⟩
    · exact ⟨.pendingCancellation,hid⟩
    · exact ⟨.carried,hid⟩
  obtain ⟨place,hat⟩ := hplace
  refine ⟨place,hat,fun other hother => ?_⟩
  rw [h.isAt_iff,← List.count_pos_iff] at hat hother
  cases place <;> cases other <;> first | rfl | (simp only [commandsAt] at hat hother; omega)

/-- What is known of every command the journal handed over. -/
structure Accounted (L : Loop σ) : Prop where
  somewhere : ∀ id ∈ L.host.handed, ¬ L.host.state.Done id → ∃! place, L.isAt id place
  settled : ∀ sessionId, (∀ r ∈ L.host.state.commands, r.sessionId = sessionId →
      ∀ place, ¬ L.isAt r.commandId place) →
    ∀ r ∈ L.host.state.commands, r.sessionId = sessionId → r.commandId ∈ L.host.handed →
      r.state = .terminal

theorem Kept.accounted (h : Kept W True L) (hrunning : L.running = true) : L.Accounted := by
  have hcustody := h.custody hrunning
  have hplaced : ∀ id ∈ L.host.handed, ¬ L.host.state.Done id → ∃! place, L.isAt id place :=
    fun id hid hopen => hcustody.one_place ((hcustody.open_ trivial id hid).resolve_left hopen)
  refine ⟨hplaced,fun sessionId hnone r hr hsession hid => ?_⟩
  by_contra hopen
  have hstage := CommandView.stage_of_mem h.sound.distinctIds hr
  obtain ⟨place,hat,-⟩ := hplaced r.commandId hid (by
    rw [JournalFile.Done,hstage]
    cases hstate : r.state <;> simp_all [Stage.ofState,Stage.rank])
  exact hnone r hr hsession place hat

end Loop

/-- In every run of the daemon, restarts included, in which no cancellation is scheduled
while its session has one pending: a command that was handed over and is not Terminal is in
exactly one place, and a session with nothing in any place has only Terminal ones. -/
theorem no_admitted_command_lost {σ : Type} (W : World σ) (runtime : σ) (moves : List Move)
    (hsingle : Loop.singleCancels W (Loop.fresh runtime) moves = true)
    (hrunning : ((Loop.fresh runtime).run W moves).running = true) :
    ((Loop.fresh runtime).run W moves).Accounted := by
  have hfresh : Loop.Kept W True (Loop.fresh runtime) := .halted (Sound.init runtime) rfl
  exact (Loop.run_kept hfresh fun _ => hsingle).accounted hrunning

def cancelEnvelope (seq : ℕ) (commandId : String) : CommandEnvelope :=
  ⟨commandId,"session-1",seq,"1",1,.sessionCancel "stop"⟩

/-- A frame is taken and its actions are carried out. -/
def taken (frame : ServerFrame) : List Move := [.frame frame,.next,.next]

/-- The daemon is up, a command runs and a cancellation waits for it. -/
def cancelledRun : List Move :=
  [.restart,.handshake ⟨1,[]⟩,.next] ++ taken (.command (resumeEnvelope 1 "a")) ++
    taken (.command (cancelEnvelope 2 "b"))

theorem cancelledRun_accounted : Loop.singleCancels calmWorld (Loop.fresh ()) cancelledRun = true ∧
    ((Loop.fresh ()).run calmWorld cancelledRun).host.handed = ["b","a"] ∧
    ((Loop.fresh ()).run calmWorld cancelledRun).Accounted :=
  ⟨by decide +kernel,by decide +kernel,
    no_admitted_command_lost calmWorld () cancelledRun (by decide +kernel) (by decide +kernel)⟩

/-- A second cancellation comes while one is pending; then all work of the session ends. -/
def droppedRun : List Move :=
  cancelledRun ++ taken (.command (cancelEnvelope 3 "c")) ++
    [.work 0 (.returns .dispatchSucceeded [.sessionCompleted "cancelled"]),.work 0 .release,.work 0 .send,
      .completion,.next,.next,.next,.next,.next]

/-- The second one is nowhere, and the journal waits for it for ever. -/
theorem droppedRun_loses : ((Loop.fresh ()).run calmWorld droppedRun).running = true ∧
    ¬ ((Loop.fresh ()).run calmWorld droppedRun).Accounted := by
  refine ⟨by decide +kernel,fun h => ?_⟩
  have hnone : ∀ place, ¬ ((Loop.fresh ()).run calmWorld droppedRun).isAt "c" place := by
    intro place
    cases place <;> simp only [Loop.isAt] <;> decide +kernel
  obtain ⟨place,hat,-⟩ := h.somewhere "c" (by decide +kernel) (by
    simp only [JournalFile.Done]
    decide +kernel)
  exact hnone place hat

end StartLoop
end North
