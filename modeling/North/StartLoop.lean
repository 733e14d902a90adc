import North.SchedulerSteps
import North.JournalResults

/-! The loop of `start` in `main.rs`: one task takes server frames, worker completions and
handshakes one at a time and calls the coordinator and the scheduler; workers run beside
it. A completion is handled in several calls, and workers may move between any two. -/
namespace North
namespace StartLoop

open Protocol Journal Scheduler Prog

/-- What the handling of a completion does after its commands are scheduled. -/
inductive Rest
  | done
  | followup (followup : RuntimeFollowup)
  | cleanup (command : CommandEnvelope)
  deriving DecidableEq, Repr

/-- Where the task is: waiting, inside `finish_active`, before `finish_runtime`, or at the
commands of the actions it got. A return of `start` keeps the phase it came from. -/
inductive Phase
  | idle
  | draining (finishing : RuntimeScheduler.Finishing)
  | finishing (completion : RuntimeCompletion) (followup : Option RuntimeFollowup)
  | emitting (commands : List CommandEnvelope) (rest : Rest)
  | halted (phase : Phase)
  deriving DecidableEq, Repr

structure Loop (σ : Type) where
  host : Host σ
  scheduler : RuntimeScheduler := {}
  /-- The recovered commands, until the first handshake. -/
  pendingCommands : List CommandEnvelope := []
  /-- The first handshake is over, so frames can come. -/
  connected : Bool := false
  phase : Phase := .idle

inductive Move
  | restart
  | handshake (snapshot : ReconcileSnapshot)
  | frame (frame : ServerFrame)
  | completion
  | next
  | work (place : ℕ) (move : WorkerMove)
  | stop
  deriving DecidableEq, Repr

namespace Loop

variable {σ : Type} (W : World σ) (L : Loop σ)

def halt : Loop σ := { L with phase := .halted L.phase }

/-- Go on with the actions of a coordinator call; an error ends `start`. -/
def act (m : CoordOp σ RuntimeActions) (rest : Rest) : Loop σ :=
  match m.exec L.host with
  | none => L.halt
  | some (.ok actions,host) => { L with host, phase := .emitting actions.commands rest }
  | some (.error _,host) => { L with host }.halt

/-- A new process on the same journal file. -/
def restart : Loop σ :=
  match (Journal.reopen W).exec L.host with
  | none => L.halt
  | some (.error _,host) => { L with host }.halt
  | some (.ok _,host) =>
    match (Coordinator.recoverForScheduler W).exec host with
    | none => { L with host }.halt
    | some (.error _,host) => { L with host }.halt
    | some (.ok actions,host) => { host, pendingCommands := actions.commands }

def handshake (snapshot : ReconcileSnapshot) : Loop σ :=
  match (Coordinator.reconcile W snapshot).exec L.host with
  | none => L.halt
  | some (.error _,host) => { L with host }.halt
  | some (.ok _,host) => { L with
      host
      pendingCommands := []
      connected := true
      phase := .emitting L.pendingCommands .done }

/-- A gap overflow closes the connection and keeps the loop going. -/
def takeFrame (frame : ServerFrame) : Loop σ :=
  match (Coordinator.acceptServerFrame W frame).exec L.host with
  | some (.error (.retryableGap _ _),host) => { L with host, phase := .emitting [] .done }
  | _ => L.act (Coordinator.acceptServerFrame W frame) .done

def takeCompletion : Loop σ :=
  match L.scheduler.completions with
  | [] => L
  | completion::rest =>
    match ({ L.scheduler with completions := rest } : RuntimeScheduler).beginFinish completion with
    | .ok (finishing,scheduler) => { L with scheduler, phase := .draining finishing }
    | .error _ => { L with phase := .halted (.finishing completion none) }

def afterDrain (finishing : RuntimeScheduler.Finishing) (scheduler : RuntimeScheduler) : Loop σ :=
  { L with
    scheduler := scheduler.endFinish finishing
    phase := .finishing finishing.completion finishing.followup }

def drain (finishing : RuntimeScheduler.Finishing) : Loop σ :=
  match finishing.remaining with
  | 0 => L.afterDrain finishing L.scheduler
  | remaining+1 =>
    match L.scheduler.drainTurn with
    | .ok (true,scheduler) => { L with scheduler, phase := .draining { finishing with remaining } }
    | .ok (false,scheduler) => L.afterDrain finishing scheduler
    | .error _ => L.halt

def afterFinish : Option RuntimeFollowup → Rest
  | none => .done
  | some followup => .followup followup

/-- The task goes on from its phase by one call. -/
def next : Loop σ :=
  match L.phase with
  | .idle => L
  | .halted _ => L
  | .draining finishing => L.drain finishing
  | .finishing completion followup =>
    L.act (Coordinator.finishRuntime W completion.sessionId completion.commandId completion.outcome
      completion.events) (afterFinish followup)
  | .emitting (command::commands) rest =>
    match L.scheduler.schedule command with
    | .ok scheduler => { L with scheduler, phase := .emitting commands rest }
    | .error _ => L.halt
  | .emitting [] .done => { L with phase := .idle }
  | .emitting [] (.followup (.finishCancellation command)) =>
    L.act (Coordinator.finishRuntime W command.sessionId command.commandId .dispatchSucceeded [])
      (.cleanup command)
  | .emitting [] (.followup (.rescheduleCancellation command)) =>
    match L.scheduler.scheduleRuntime command with
    | .ok scheduler => { L with scheduler, phase := .idle }
    | .error _ => L.halt
  | .emitting [] (.cleanup command) =>
    { L with scheduler := L.scheduler.finishFollowup command, phase := .idle }

def step : Move → Loop σ
  | .restart => L.restart W
  | .handshake snapshot => if L.phase = .idle then L.handshake W snapshot else L
  | .frame frame => if L.phase = .idle ∧ L.connected then L.takeFrame W frame else L
  | .completion => if L.phase = .idle then L.takeCompletion else L
  | .next => L.next W
  | .work place move => { L with scheduler := L.scheduler.work place move }
  | .stop => match L.phase with
    | .halted _ => L
    | _ => L.halt

def run (moves : List Move) : Loop σ := moves.foldl (step W) L

/-- The machine before the daemon is started for the first time. -/
def fresh (runtime : σ) : Loop σ := { host := { runtime }, phase := .halted .idle }

/-! ### How a step ends -/

section

variable {W : World σ} {L : Loop σ} {E : Set CommandEnvelope}

/-- A new process fails to come up, or has recovered and waits for its handshake. -/
theorem restart_cases (hs : Sound W E L.host) :
    (∃ host, Sound W E host ∧ L.restart W = ({ L with host } : Loop σ).halt) ∨
      ∃ h₁ recovery h₂, (Journal.reopen W).exec L.host = some (.ok (),h₁) ∧
        (Journal.recoverForScheduler W).exec h₁ = some (.ok recovery,h₂) ∧
        L.restart W = { host := h₂, pendingCommands := recovery.commands } := by
  unfold restart
  cases hopen : (Journal.reopen W).exec L.host with
  | none => exact .inl ⟨L.host,hs,rfl⟩
  | some result =>
    obtain ⟨r,h₁⟩ := result
    cases r with
    | error e => exact .inl ⟨h₁,keeps_reopen.error hs hopen,rfl⟩
    | ok u =>
      have hs₁ : Sound W E h₁ := keeps_reopen.ok hs hopen
      cases hrecover : (Coordinator.recoverForScheduler W).exec h₁ with
      | none => exact .inl ⟨h₁,hs₁,by simp [hrecover]⟩
      | some result =>
        obtain ⟨r,h₂⟩ := result
        cases r with
        | error e =>
          rcases bind_fails.mp hrecover with hfails | ⟨recovery,h₃,hjournal,hrest⟩
          · exact .inl ⟨h₂,journaled_sound keeps_recoverForScheduler hs₁ hfails,by simp [hrecover]⟩
          · simp [exec_pure] at hrest
        | ok actions =>
          obtain ⟨recovery,h₃,hjournal,hrest⟩ := bind_returns.mp hrecover
          obtain ⟨rfl,rfl⟩ : _ = actions ∧ h₃ = h₂ := by simpa [exec_pure] using hrest
          exact .inr ⟨h₁,recovery,h₃,rfl,journaled_ok.mp hjournal,by simp [hrecover]⟩

/-- A coordinator call ends the process, or its commands are scheduled next. -/
theorem act_cases {m : CoordOp σ RuntimeActions} (rest : Rest)
    (hm : ∀ r h', m.exec L.host = some (r,h') → Sound W E h') (hs : Sound W E L.host) :
    (∃ host, Sound W E host ∧ L.act m rest = ({ L with host } : Loop σ).halt) ∨
      ∃ actions host, m.exec L.host = some (.ok actions,host) ∧
        L.act m rest = { L with host, phase := .emitting actions.commands rest } := by
  unfold act
  cases hexec : m.exec L.host with
  | none => exact .inl ⟨L.host,hs,rfl⟩
  | some result =>
    obtain ⟨r,host⟩ := result
    cases r with
    | error e => exact .inl ⟨host,hm _ _ hexec,rfl⟩
    | ok actions => exact .inr ⟨actions,host,rfl,rfl⟩

theorem handshake_cases (snapshot : ReconcileSnapshot) (hs : Sound W E L.host) :
    (∃ host, Sound W E host ∧ L.handshake W snapshot = ({ L with host } : Loop σ).halt) ∨
      ∃ frames host, (Coordinator.reconcile W snapshot).exec L.host = some (.ok frames,host) ∧
        L.handshake W snapshot = { L with
          host
          pendingCommands := []
          connected := true
          phase := .emitting L.pendingCommands .done } := by
  unfold handshake
  cases hexec : (Coordinator.reconcile W snapshot).exec L.host with
  | none => exact .inl ⟨L.host,hs,rfl⟩
  | some result =>
    obtain ⟨r,host⟩ := result
    cases r with
    | error e => exact .inl ⟨host,(Coordinator.reconcile_sound hs hexec).1,rfl⟩
    | ok frames => exact .inr ⟨frames,host,rfl,rfl⟩

theorem takeFrame_cases (frame : ServerFrame) (hs : Sound W Set.univ L.host) :
    (∃ host, Sound W Set.univ host ∧ L.takeFrame W frame = ({ L with host } : Loop σ).halt) ∨
      (∃ host, Settled L.host host L.host.state ∧ Sound W Set.univ host ∧
        L.takeFrame W frame = { L with host, phase := .emitting [] .done }) ∨
      ∃ actions host, (Coordinator.acceptServerFrame W frame).exec L.host = some (.ok actions,host) ∧
        L.takeFrame W frame = { L with host, phase := .emitting actions.commands .done } := by
  have hsound : ∀ r h', (Coordinator.acceptServerFrame W frame).exec L.host = some (r,h') →
      Sound W Set.univ h' := fun r h' hexec =>
    Coordinator.acceptServerFrame_sound (fun _ _ => Set.mem_univ _) hs hexec
  by_cases hgap : ∃ sessionId limit host, (Coordinator.acceptServerFrame W frame).exec L.host =
      some (.error (.retryableGap sessionId limit),host)
  · obtain ⟨sessionId,limit,host,hexec⟩ := hgap
    refine .inr (.inl ⟨host,?_,hsound _ _ hexec,by simp [takeFrame,hexec]⟩)
    exact Coordinator.acceptServerFrame_gap hs hexec
  · have hact : L.takeFrame W frame = L.act (Coordinator.acceptServerFrame W frame) .done := by
      unfold takeFrame
      split
      · rename_i sessionId limit host hexec
        exact absurd ⟨sessionId,limit,host,hexec⟩ hgap
      · rfl
    rw [hact]
    rcases L.act_cases .done hsound hs with hhalt | htaken
    · exact .inl hhalt
    · exact .inr (.inr htaken)

end

end Loop
end StartLoop
end North
