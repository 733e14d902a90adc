import North.JournalOps

/-! The coordinator of `coordination.rs`: what a daemon does with the frames of its server,
with the results of its runtime and after a restart. Each operation returns the frames
that the daemon then puts on its connection. -/
namespace North
namespace Journal

open Machine Protocol Prog

inductive CoordinationError
  | journal (error : JournalError)
  | retryableGap (sessionId : String) (limit : ℕ)
  | terminalProtocol (code message : String)
  deriving DecidableEq, Repr

structure RuntimeActions where
  frames : List DaemonFrame := []
  commands : List CommandEnvelope := []
  deriving DecidableEq, Repr

abbrev CoordOp (σ α : Type) := Prog (Host σ) CoordinationError α

variable {σ α : Type}

/-- A journal call followed by `?`. -/
def journaled (m : Op σ α) : CoordOp σ α := do
  let result ← attempt m
  orFail (result.mapError .journal)

def commandResultToFrames (result : CommandProcessResult) : List DaemonFrame :=
  .commandAck result.acknowledgement::result.emittedEvents.map .event

def commandResultsToFrames (results : List CommandProcessResult) : List DaemonFrame :=
  results.flatMap commandResultToFrames

/-- What an acceptance sends and schedules. -/
def acceptanceActions (accepted : CommandAcceptance) : RuntimeActions :=
  ⟨commandResultToFrames accepted.result,accepted.command.toList⟩

variable (W : World σ)

namespace Coordinator

def recoverForScheduler : CoordOp σ RuntimeActions := do
  let recovery ← journaled (Journal.recoverForScheduler W)
  pure ⟨commandResultsToFrames recovery.results,recovery.commands⟩

def recover : CoordOp σ (List DaemonFrame) := do
  let results ← journaled (Journal.recover W)
  pure (commandResultsToFrames results)

def replaySessions : List SessionReconcileState → List DaemonFrame → CoordOp σ (List DaemonFrame)
  | [], replay => pure replay
  | session::sessions, replay => do
    let events ← look fun h : Host σ => replayEvents h.state session.sessionId session
    replaySessions sessions (replay ++ events.map .event)

def reconcile (snapshot : ReconcileSnapshot) : CoordOp σ (List DaemonFrame) := do
  journaled (applyReconciliationOp W snapshot)
  replaySessions snapshot.sessions []

/-- Intake of a command; a cancel may overtake the commands it is meant to interrupt. -/
def acceptCommand (command : CommandEnvelope) : Op σ RuntimeActions := do
  let accepted ← (if command.command.isSessionCancel then acceptControlCommand W command
    else Journal.acceptCommand W command)
  noteAcceptance accepted
  pure (acceptanceActions accepted)

def acceptEventAck (ack : EventAck) : CoordOp σ (List DaemonFrame) := do
  match ← attempt (acknowledgeEventOp W ack) with
  | .ok _ => do
    journaled (compactSessionOp W ack.sessionId)
    pure []
  | .error (.identityConflict reason) =>
    pure [.protocolError "event_ack_identity_conflict" reason]
  | .error error => fail (.journal error)

/-- The answer to a command, whichever way it is processed. -/
def answerCommand (conflict : String → α) (m : Op σ α) : CoordOp σ α := do
  match ← attempt m with
  | .ok actions => pure actions
  | .error (.identityConflict reason) => pure (conflict reason)
  | .error (.gapOverflow sessionId limit) => fail (.retryableGap sessionId limit)
  | .error error => fail (.journal error)

def acceptServerFrame : ServerFrame → CoordOp σ RuntimeActions
  | .command command => answerCommand
    (fun reason => ⟨[.protocolError "command_identity_conflict" reason],[]⟩) (acceptCommand W command)
  | .eventAck ack => do
    let frames ← acceptEventAck W ack
    pure ⟨frames,[]⟩
  | .protocolError code message => fail (.terminalProtocol code message)
  | .welcome => pure {}
  | .reconcile _ => pure {}

def finishRuntime (sessionId commandId : String) (outcome : DispatchOutcome)
    (runtimeEvents : List Event) : CoordOp σ RuntimeActions := do
  let emitted ← journaled (completeCommand W commandId outcome runtimeEvents)
  let accepted ← journaled (acceptNextReadyCommand W sessionId)
  match accepted with
  | none => pure ⟨emitted.map .event,[]⟩
  | some accepted => do
    journaled (noteAcceptance accepted)
    pure ⟨emitted.map .event ++ commandResultToFrames accepted.result,accepted.command.toList⟩

def processCommand (command : CommandEnvelope) : Op σ (List DaemonFrame) := do
  let result ← Journal.processCommand W command
  let ready ← processReady W command.sessionId
  pure (commandResultToFrames result ++ commandResultsToFrames ready)

def processServerFrame : ServerFrame → CoordOp σ (List DaemonFrame)
  | .command command => answerCommand
    (fun reason => [.protocolError "command_identity_conflict" reason]) (processCommand W command)
  | .eventAck ack => acceptEventAck W ack
  | .protocolError code message => fail (.terminalProtocol code message)
  | .welcome => pure []
  | .reconcile _ => pure []

def appendEvent (eventId sessionId : String) (event : Event) : CoordOp σ (List DaemonFrame) := do
  let appended ← journaled (appendEventOp W eventId sessionId event)
  pure [.event appended.envelope]

end Coordinator

/-- An operation of the daemon, with its arguments. The journal may also be called
directly, and it may be dropped and opened again. -/
inductive DaemonOp
  | recoverForScheduler
  | recover
  | reconcile (snapshot : ReconcileSnapshot)
  | acceptServerFrame (frame : ServerFrame)
  | processServerFrame (frame : ServerFrame)
  | finishRuntime (sessionId commandId : String) (outcome : DispatchOutcome) (events : List Event)
  | appendEvent (eventId sessionId : String) (event : Event)
  | appendEventEnvelope (envelope : EventEnvelope) (digest : String) (duplicate : Bool)
  | compactSession (sessionId : String)
  | reopen
  deriving DecidableEq, Repr

/-- Run an operation for the frames it sends. -/
def DaemonOp.run : DaemonOp → CoordOp σ (List DaemonFrame)
  | .recoverForScheduler => do
    let actions ← Coordinator.recoverForScheduler W
    pure actions.frames
  | .recover => Coordinator.recover W
  | .reconcile snapshot => Coordinator.reconcile W snapshot
  | .acceptServerFrame frame => do
    let actions ← Coordinator.acceptServerFrame W frame
    pure actions.frames
  | .processServerFrame frame => Coordinator.processServerFrame W frame
  | .finishRuntime sessionId commandId outcome events => do
    let actions ← Coordinator.finishRuntime W sessionId commandId outcome events
    pure actions.frames
  | .appendEvent eventId sessionId event => Coordinator.appendEvent W eventId sessionId event
  | .appendEventEnvelope envelope digest duplicate => do
    let appended ← journaled (appendEventEnvelopeOp W envelope digest duplicate)
    pure [.event appended.envelope]
  | .compactSession sessionId => do
    journaled (compactSessionOp W sessionId)
    pure []
  | .reopen => do
    journaled (Journal.reopen W)
    pure []

/-- The frame of the server that an operation takes, if it takes one. -/
def DaemonOp.takes : DaemonOp → Option ServerFrame
  | .reconcile snapshot => some (.reconcile snapshot)
  | .acceptServerFrame frame => some frame
  | .processServerFrame frame => some frame
  | _ => none

end Journal
end North
