import North.JournalState
import North.Lib.Keyed
import Mathlib.Logic.Function.Basic

/-! The runtime scheduler of `scheduler.rs`: which command of which session is given to a
worker, which one waits, and what a cancellation does to them. The workers and the channel
that brings their completions back are part of the state. Each call of the start loop runs
alone; only workers move in between, so the loop of `drain_queue` is given turn by turn. -/
namespace North
namespace Scheduler

open Protocol Journal

def maxRuntimeConcurrency : ℕ := 4

/-- The shared part of a `RuntimeControl`. -/
structure RuntimeControl where
  sessionId : String := ""
  cancellationRequested : Bool := false
  terminalFactEmitted : Bool := false
  deriving DecidableEq, Repr

structure RuntimeCompletion where
  sessionId : String
  commandId : String
  runtimeOperationId : String
  outcome : DispatchOutcome
  events : List Event
  deriving DecidableEq, Repr

inductive RuntimeFollowup
  | finishCancellation (command : CommandEnvelope)
  | rescheduleCancellation (command : CommandEnvelope)
  deriving DecidableEq, Repr

def RuntimeFollowup.command : RuntimeFollowup → CommandEnvelope
  | .finishCancellation command => command
  | .rescheduleCancellation command => command

/-- A control is shared by reference: `control` is the number of its cell. -/
structure ActiveRuntime where
  commandId : String
  control : ℕ
  deriving DecidableEq, Repr

structure QueuedRuntime where
  command : CommandEnvelope
  control : ℕ
  deriving DecidableEq, Repr

/-- A spawned task: it executes, then holds the result, then has dropped its permit. -/
inductive WorkerStage
  | running
  | returned (outcome : DispatchOutcome) (events : List Event)
  | released (outcome : DispatchOutcome) (events : List Event)
  deriving DecidableEq, Repr

structure Worker where
  command : CommandEnvelope
  control : ℕ
  stage : WorkerStage := .running
  deriving DecidableEq, Repr

def WorkerStage.holdsPermit : WorkerStage → Bool
  | .released _ _ => false
  | _ => true

/-- What happened, in order. The record is only there to be reasoned about. -/
inductive Trace
  | scheduled (command : CommandEnvelope) (control : ℕ)
  | passed (command : CommandEnvelope) (control : ℕ)
  | sent (completion : RuntimeCompletion) (control : ℕ)
  | removed (sessionId : String) (control : ℕ)
  deriving DecidableEq, Repr

structure RuntimeScheduler where
  active : OrdMap String ActiveRuntime := {}
  controls : OrdMap String ℕ := {}
  pendingCancellations : OrdMap String CommandEnvelope := {}
  suppressed : OrdMap String ℕ := {}
  queued : List QueuedRuntime := []
  permits : ℕ := maxRuntimeConcurrency
  /-- The controls made so far, by number, and the next free number. -/
  cells : ℕ → RuntimeControl := fun _ => {}
  allocated : ℕ := 0
  workers : List Worker := []
  completions : List RuntimeCompletion := []
  trace : List Trace := []

def hasTerminalEvent (events : List Event) : Bool :=
  events.any fun event => match event with
    | .sessionCompleted _ => true
    | .sessionFailed _ _ => true
    | _ => false

namespace RuntimeScheduler

variable (S : RuntimeScheduler)

def note (entry : Trace) : RuntimeScheduler := { S with trace := S.trace ++ [entry] }

def setControl (control : ℕ) (f : RuntimeControl → RuntimeControl) : RuntimeScheduler :=
  { S with cells := Function.update S.cells control (f (S.cells control)) }

def requestCancellation (control : ℕ) : RuntimeScheduler :=
  S.setControl control fun c => { c with cancellationRequested := true }

def markTerminalFactEmitted (control : ℕ) : RuntimeScheduler :=
  S.setControl control fun c => { c with terminalFactEmitted := true }

def isCancellationRequested (control : ℕ) : Bool := (S.cells control).cancellationRequested

def terminalFactEmitted (control : ℕ) : Bool := (S.cells control).terminalFactEmitted

def isActive (sessionId : String) : Bool := S.active.contains sessionId

def send (completion : RuntimeCompletion) (control : ℕ) : RuntimeScheduler :=
  { S with completions := S.completions ++ [completion] }.note (.sent completion control)

/-- The control of the command's session, made on first use. -/
def controlFor (command : CommandEnvelope) : ℕ × RuntimeScheduler :=
  match S.controls.get command.sessionId with
  | some control => (control,S)
  | none => (S.allocated,{ S with
      controls := S.controls.insert command.sessionId S.allocated
      cells := Function.update S.cells S.allocated { sessionId := command.sessionId }
      allocated := S.allocated+1 })

/-- A command that will not run completes at once; the first one of its control states
that the session is over. -/
def suppressedCompletion (command : CommandEnvelope) (control : ℕ) : RuntimeCompletion where
  sessionId := command.sessionId
  commandId := command.commandId
  runtimeOperationId := command.commandId
  outcome := .dispatchSucceeded
  events := if S.terminalFactEmitted control then []
    else [.sessionCompleted "Clarification runtime cancelled before execution"]

def suppress (command : CommandEnvelope) (control : ℕ) : RuntimeScheduler :=
  ({ S with suppressed := S.suppressed.insert command.commandId control }.markTerminalFactEmitted
    control).send (S.suppressedCompletion command control) control

def enqueue (command : CommandEnvelope) (control : ℕ) : RuntimeScheduler :=
  { S with queued := S.queued ++ [⟨command,control⟩] }

/-- The command is with a worker and its session is active. -/
def started (command : CommandEnvelope) (control : ℕ) : RuntimeScheduler :=
  { S with
    active := S.active.insert command.sessionId ⟨command.commandId,control⟩
    workers := S.workers ++ [⟨command,control,.running⟩] : RuntimeScheduler }.note
      (.passed command control)

/-- Give a command to a worker. The permit is already taken; a refusal drops it. -/
def spawnRuntime (command : CommandEnvelope) (control : ℕ) : Except String RuntimeScheduler :=
  if S.isActive command.sessionId then
    .error ("runtime session " ++ command.sessionId ++ " is already active")
  else .ok (S.started command control)

/-- Neither the scheduler nor the drain starts a command of a cancelled session. -/
def isCancelled (command : CommandEnvelope) (control : ℕ) : Bool :=
  S.isCancellationRequested control && !command.command.isSessionCancel

def scheduleRuntimeInner (command : CommandEnvelope) (control : ℕ) :
    Except String RuntimeScheduler :=
  if S.isCancelled command control then .ok (S.suppress command control)
  else if S.isActive command.sessionId then .ok (S.enqueue command control)
  else match S.permits with
    | 0 => .ok (S.enqueue command control)
    | permits+1 => { S with permits }.spawnRuntime command control

def queuedOf (sessionId : String) : List QueuedRuntime :=
  S.queued.filter fun item => item.command.sessionId == sessionId

def removeQueued (sessionId : String) : List QueuedRuntime × RuntimeScheduler :=
  (S.queuedOf sessionId,
    { S with queued := S.queued.filter fun item => item.command.sessionId != sessionId })

def suppressAll (items : List QueuedRuntime) : RuntimeScheduler :=
  items.foldl (fun S item => S.suppress item.command item.control) S

/-- Keep the cancellation for the moment the session's work is off, unless one is kept. -/
def keepPending (command : CommandEnvelope) : RuntimeScheduler :=
  if S.pendingCancellations.contains command.sessionId then S
  else { S with
    pendingCancellations := S.pendingCancellations.insert command.sessionId command }

def scheduleCancellation (command : CommandEnvelope) (control : ℕ) :
    Except String RuntimeScheduler :=
  let (queued,S) := (S.requestCancellation control).removeQueued command.sessionId
  if S.isActive command.sessionId || !queued.isEmpty then
    .ok ((S.keepPending command).suppressAll queued)
  else if S.pendingCancellations.contains command.sessionId then .ok S
  else S.scheduleRuntimeInner command control

def schedule (command : CommandEnvelope) : Except String RuntimeScheduler :=
  let (control,S) := S.controlFor command
  let S := S.note (.scheduled command control)
  if command.command.isSessionCancel then S.scheduleCancellation command control
  else if S.isCancellationRequested control then .ok (S.suppress command control)
  else S.scheduleRuntimeInner command control

def scheduleRuntime (command : CommandEnvelope) : Except String RuntimeScheduler :=
  let (control,S) := S.controlFor command
  (S.note (.scheduled command control)).scheduleRuntimeInner command control

/-- The rest of a `finish_active` call: the turns its drain has left, what it returns, and
whether it then tries to drop the control of the session. -/
structure Finishing where
  completion : RuntimeCompletion
  followup : Option RuntimeFollowup
  cleanup : Bool
  remaining : ℕ
  deriving DecidableEq, Repr

/-- Take the completed command out of its place, for its control. -/
def takeOff (completion : RuntimeCompletion) : Except String (ℕ × RuntimeScheduler) :=
  match S.suppressed.get completion.commandId with
  | some control => .ok (control,{ S with suppressed := S.suppressed.erase completion.commandId })
  | none =>
    match S.active.get completion.sessionId with
    | none => .error ("runtime completion for inactive session " ++ completion.sessionId)
    | some runtime =>
      if runtime.commandId ≠ completion.commandId then
        .error ("runtime completion command mismatch for session " ++ completion.sessionId)
      else .ok (runtime.control,{ S with active := S.active.erase completion.sessionId })

/-- `finish_active` up to its drain. -/
def beginFinish (completion : RuntimeCompletion) : Except String (Finishing × RuntimeScheduler) := do
  let (control,S) ← S.takeOff completion
  let S := if hasTerminalEvent completion.events then S.markTerminalFactEmitted control else S
  let pending := S.pendingCancellations.get completion.sessionId
  let terminal := S.terminalFactEmitted control
  let followup := pending.map fun command =>
    if terminal then RuntimeFollowup.finishCancellation command
    else .rescheduleCancellation command
  .ok (⟨completion,followup,followup.isNone && terminal,S.queued.length⟩,
    { S with pendingCancellations := S.pendingCancellations.erase completion.sessionId })

/-- One turn of `drain_queue`; the flag tells whether the loop goes on. -/
def drainTurn : Except String (Bool × RuntimeScheduler) :=
  match S.queued with
  | [] => .ok (false,S)
  | item::rest =>
    let S := { S with queued := rest }
    if S.isCancelled item.command item.control then
      .ok (true,S.suppress item.command item.control)
    else if S.isActive item.command.sessionId then
      .ok (true,S.enqueue item.command item.control)
    else match S.permits with
      | 0 => .ok (false,{ S with queued := item::rest })
      | permits+1 => do
        let S ← { S with permits }.spawnRuntime item.command item.control
        .ok (true,S)

/-- The session still has work in the scheduler. -/
def busy (sessionId : String) : Bool :=
  S.active.contains sessionId ||
    S.queued.any (fun item => item.command.sessionId == sessionId) ||
    S.suppressed.values.any (fun control => (S.cells control).sessionId == sessionId) ||
    S.pendingCancellations.contains sessionId

def maybeCleanupControl (sessionId : String) : RuntimeScheduler :=
  match S.controls.get sessionId with
  | none => S
  | some control =>
    if !S.terminalFactEmitted control || S.busy sessionId then S
    else { S with controls := S.controls.erase sessionId }.note (.removed sessionId control)

/-- `finish_active` after its drain. -/
def endFinish (finishing : Finishing) : RuntimeScheduler :=
  if finishing.cleanup then S.maybeCleanupControl finishing.completion.sessionId else S

def finishFollowup (command : CommandEnvelope) : RuntimeScheduler :=
  S.maybeCleanupControl command.sessionId

end RuntimeScheduler

/-- A step of one worker: its call returns or panics, it drops its permit, it sends. -/
inductive WorkerMove
  | returns (outcome : DispatchOutcome) (events : List Event)
  | panics (reason : String)
  | release
  | send
  deriving DecidableEq, Repr

def panicOutcome (reason : String) : DispatchOutcome :=
  .dispatchFailed ("runtime worker failed: " ++ reason)

def panicEvents : List Event := [.sessionFailed false "runtime worker failed"]

def workerCompletion (command : CommandEnvelope) (outcome : DispatchOutcome) (events : List Event) :
    RuntimeCompletion :=
  ⟨command.sessionId,command.commandId,command.commandId,outcome,events⟩

/-- The worker with this place in the list takes a step; one it cannot take is none. -/
def RuntimeScheduler.work (S : RuntimeScheduler) (place : ℕ) (move : WorkerMove) : RuntimeScheduler :=
  match S.workers[place]?, move with
  | some ⟨command,control,.running⟩, .returns outcome events =>
    { S with workers := S.workers.set place ⟨command,control,.returned outcome events⟩ }
  | some ⟨command,control,.running⟩, .panics reason =>
    { S with workers := S.workers.set place ⟨command,control,.returned (panicOutcome reason) panicEvents⟩ }
  | some ⟨command,control,.returned outcome events⟩, .release =>
    { S with
      workers := S.workers.set place ⟨command,control,.released outcome events⟩
      permits := S.permits+1 }
  | some ⟨command,control,.released outcome events⟩, .send =>
    { S with workers := S.workers.eraseIdx place }.send (workerCompletion command outcome events) control
  | _, _ => S

end Scheduler
end North
