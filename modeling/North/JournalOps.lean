import North.JournalState
import North.Lib.Prog

/-! The operations of the daemon journal as programs over a host: the state in memory,
the file it was last persisted to, the runtime behind the executor, and two records
that are only there to be reasoned about (what was handed over, which states occurred). -/
namespace North
namespace Journal

open Machine Protocol Prog

/-- How one `persist_locked` ends. A failure comes before or after the atomic rename;
the flag tells whether the file can then be read back. A crash inside an operation is
a failure followed by a reopen. -/
inductive Persist
  | done
  | lost (reason : String) (readable : Bool)
  | late (reason : String) (readable : Bool)
  deriving DecidableEq, Repr

/-- The runtime behind the journal, as far as the journal calls it. -/
structure RuntimeExecutor (σ : Type) where
  dispatchForSession : (sessionId operationId commandId : String) → Command → σ → DispatchOutcome × σ
  takeEvents : (sessionId : String) → σ → List Event × σ
  recoverForSession : (sessionId operationId commandId : String) → Command → σ → RecoveryOutcome × σ

/-- What does not change over a run. `weather` is the outcome of each persist and the
clock readings of each section, in the order the sections run. -/
structure World (σ : Type) where
  handle : Handle
  executor : RuntimeExecutor σ
  weather : ℕ → Persist × Clock

structure Host (σ : Type) where
  state : JournalFile := {}
  file : JournalFile := {}
  tick : ℕ := 0
  runtime : σ
  /-- The command ids given to execution, newest first. -/
  handed : List String := []
  /-- The values of `state`, newest first. -/
  history : List JournalFile := [{}]

abbrev Op (σ α : Type) := Prog (Host σ) JournalError α

variable {σ α : Type}

def Host.settle (h : Host σ) (state file : JournalFile) : Host σ :=
  { h with
    state := state
    file := file
    tick := h.tick+1
    history := state::h.history }

/-- `Journal::update`: run a section on the state, then persist the result. A refused
section leaves the state as it was; a failed persist takes the file back if it can. -/
def update (W : World σ) (section_ : Clock → Section α) : Op σ α := fun h =>
  match section_ (W.weather h.tick).2 h.state with
  | none => none
  | some (.error e) => some (.error e,h.settle h.state h.file)
  | some (.ok (a,s)) =>
    match (W.weather h.tick).1 with
    | .done => some (.ok a,h.settle s s)
    | .lost reason readable =>
      some (.error (.io reason),h.settle (if readable then h.file else h.state) h.file)
    | .late reason readable =>
      some (.error (.io reason),h.settle (if readable then s else h.state) s)

structure CommandProcessResult where
  acknowledgement : CommandAck
  state : CommandJournalState
  outcome : Option DispatchOutcome
  duplicate : Bool
  buffered : Bool
  emittedEvents : List EventEnvelope
  deriving DecidableEq, Repr

structure CommandAcceptance where
  result : CommandProcessResult
  command : Option CommandEnvelope
  deriving DecidableEq, Repr

structure RecoveryActions where
  results : List CommandProcessResult := []
  commands : List CommandEnvelope := []
  deriving DecidableEq, Repr

def noteHanded (commandId : String) : Op σ Unit :=
  modifyState fun h => { h with handed := commandId::h.handed }

/-- An acceptance with a command in it hands that command over. -/
def noteAcceptance (accepted : CommandAcceptance) : Op σ Unit :=
  match accepted.command with
  | some command => noteHanded command.commandId
  | none => pure ()

def callRuntime {β : Type} (f : σ → β × σ) : Op σ β := fun h =>
  some (.ok (f h.runtime).1,{ h with runtime := (f h.runtime).2 })

variable (W : World σ)

def commandRecord (commandId : String) : Op σ CommandRecord := do
  let found ← look fun h : Host σ =>
    h.state.commands.find? fun r => decide (r.commandId = commandId)
  match found with
  | some record => pure record
  | none => fail (.identityConflict "command disappeared from journal")

def acceptCommandWithControl (envelope : CommandEnvelope) (allowControlInterrupt : Bool) :
    Op σ CommandAcceptance := do
  orFail (protocolChecked envelope.validate)
  let digest := W.handle.commandDigest envelope
  let p ← update W fun now s =>
    some (prepareCommand W.handle envelope digest (messageIdOf envelope.command) now s)
  let prior ← look fun h => hasPriorDispatchStarted envelope h.state
  let controlInterrupt := allowControlInterrupt && envelope.command.isSessionCancel &&
    p.buffered && prior
  if p.record.state ≠ .received ∨ (p.buffered ∧ ¬ controlInterrupt) then
    pure ⟨⟨commandAck p.record,p.record.state,p.record.outcome,p.duplicate,p.buffered,[]⟩,none⟩
  else do
    let started ← update W fun now s => some (markDispatchStarted p.record.commandId now s)
    if started then
      pure ⟨⟨commandAck p.record,.dispatchStarted,none,p.duplicate,false,[]⟩,
        some (recordToEnvelope p.record)⟩
    else do
      let current ← commandRecord p.record.commandId
      pure ⟨⟨commandAck current,current.state,current.outcome,true,false,[]⟩,none⟩

def acceptCommand (envelope : CommandEnvelope) : Op σ CommandAcceptance :=
  acceptCommandWithControl W envelope false

def acceptControlCommand (envelope : CommandEnvelope) : Op σ CommandAcceptance :=
  acceptCommandWithControl W envelope true

/-- The received command a session waits for. -/
def nextReady (s : JournalFile) (sessionId : String) : Option CommandEnvelope :=
  (s.commands.find? fun r => r.sessionId == sessionId &&
    r.serverCommandSeq == s.expectedCommandSequence sessionId && r.state == .received).map
      recordToEnvelope

def acceptNextReadyCommand (sessionId : String) : Op σ (Option CommandAcceptance) := do
  let next ← look fun h => nextReady h.state sessionId
  match next with
  | none => pure none
  | some command => some <$> acceptCommand W command

def compactSessionOp (sessionId : String) : Op σ Unit :=
  update W fun _ s => some (.ok ((),compactSession W.handle sessionId s))

def finishCommandOp (commandId : String) (outcome : DispatchOutcome) (runtimeEvents : List Event) :
    Op σ (List EventEnvelope) :=
  update W (finishCommand W.handle commandId outcome runtimeEvents)

def completeCommand (commandId : String) (outcome : DispatchOutcome) (runtimeEvents : List Event) :
    Op σ (List EventEnvelope) := do
  let record ← commandRecord commandId
  let emittedEvents ← finishCommandOp W commandId outcome runtimeEvents
  compactSessionOp W record.sessionId
  pure emittedEvents

def processCommand (envelope : CommandEnvelope) : Op σ CommandProcessResult := do
  let accepted ← (if envelope.command.isSessionCancel then acceptControlCommand W envelope
    else acceptCommand W envelope)
  match accepted.command with
  | none => pure accepted.result
  | some command => do
    noteHanded command.commandId
    let outcome ← callRuntime
      (W.executor.dispatchForSession command.sessionId command.commandId command.commandId
        command.command)
    let runtimeEvents ← callRuntime (W.executor.takeEvents command.sessionId)
    let emittedEvents ← finishCommandOp W command.commandId outcome runtimeEvents
    compactSessionOp W command.sessionId
    pure ⟨accepted.result.acknowledgement,.terminal,some outcome,accepted.result.duplicate,false,
      emittedEvents⟩

/-- The loop of `process_ready`: each turn makes one Received record Terminal. -/
def processReadyLoop (sessionId : String) : ℕ → List CommandProcessResult →
    Op σ (List CommandProcessResult)
  | 0, _ => fun _ => none
  | fuel+1, results => do
    let next ← look fun h => nextReady h.state sessionId
    match next with
    | none => pure results
    | some command => do
      let result ← processCommand W command
      processReadyLoop sessionId fuel (results ++ [result])

def processReady (sessionId : String) : Op σ (List CommandProcessResult) := do
  let fuel ← look fun h => h.state.commands.length+1
  processReadyLoop W sessionId fuel []

def recoveredOutcome (commandId : String) : RecoveryOutcome → DispatchOutcome
  | .dispatchSucceeded => .dispatchSucceeded
  | .dispatchFailed reason => .dispatchFailed reason
  | .unknown => .unknown (unknownReason commandId)

/-- Ask the runtime what became of a started command. -/
def recoverOutcome (record : CommandRecord) : Op σ DispatchOutcome := do
  let outcome ← callRuntime (W.executor.recoverForSession record.sessionId
    record.runtimeOperationId record.commandId record.command)
  pure (recoveredOutcome record.commandId outcome)

def recoveredResult (record : CommandRecord) (outcome : DispatchOutcome)
    (emittedEvents : List EventEnvelope) : CommandProcessResult :=
  ⟨commandAck record,.terminal,some outcome,false,false,emittedEvents⟩

def resolveStarted : List CommandRecord → List CommandProcessResult →
    Op σ (List CommandProcessResult)
  | [], results => pure results
  | record::records, results => do
    let outcome ← recoverOutcome W record
    let emittedEvents ← completeCommand W record.commandId outcome []
    resolveStarted records (results ++ [recoveredResult record outcome emittedEvents])

def acceptReadySessions : List String → RecoveryActions → Op σ RecoveryActions
  | [], actions => pure actions
  | sessionId::sessionIds, actions => do
    let accepted ← acceptNextReadyCommand W sessionId
    match accepted with
    | none => acceptReadySessions sessionIds actions
    | some accepted => do
      noteAcceptance accepted
      acceptReadySessions sessionIds ⟨actions.results ++ [accepted.result],
        actions.commands ++ accepted.command.toList⟩

def recoverForScheduler : Op σ RecoveryActions := do
  let records ← look fun h : Host σ => h.state.commands.filter (·.state == .dispatchStarted)
  let results ← resolveStarted W records []
  let sessionIds ← look fun h : Host σ => h.state.sessions.keys
  acceptReadySessions W sessionIds ⟨results,[]⟩

def recoverRecords : List CommandRecord → List CommandProcessResult →
    Op σ (List CommandProcessResult)
  | [], results => pure results
  | record::records, results =>
    if record.state = .received then do
      let result ← processCommand W (recordToEnvelope record)
      recoverRecords records (results ++ [result])
    else do
      let outcome ← recoverOutcome W record
      let emittedEvents ← finishCommandOp W record.commandId outcome []
      compactSessionOp W record.sessionId
      recoverRecords records (results ++ [recoveredResult record outcome emittedEvents])

def processReadySessions : List String → List CommandProcessResult →
    Op σ (List CommandProcessResult)
  | [], results => pure results
  | sessionId::sessionIds, results => do
    let ready ← processReady W sessionId
    processReadySessions sessionIds (results ++ ready)

def recover : Op σ (List CommandProcessResult) := do
  let records ← look fun h : Host σ => h.state.commands.filter (·.state != .terminal)
  let results ← recoverRecords W records []
  -- a recovered command can release later ones of its session
  let sessionIds ← look fun h : Host σ => h.state.sessions.keys
  processReadySessions W sessionIds results

def appendEventOp (eventId sessionId : String) (event : Event) : Op σ AppendedEvent :=
  update W fun now s => some (appendEvent W.handle eventId sessionId event now s)

def appendEventEnvelopeOp (envelope : EventEnvelope) (digest : String) (duplicate : Bool) :
    Op σ AppendedEvent := do
  orFail (protocolChecked envelope.validate)
  if W.handle.eventDigest envelope ≠ digest then
    fail (.identityConflict "event payload digest does not match envelope")
  else update W fun _ s => some (appendEventEnvelope W.handle envelope duplicate s)

def acknowledgeEventOp (ack : EventAck) : Op σ Unit := do
  orFail (protocolChecked ack.validate)
  update W fun _ => acknowledgeEvent ack

def applyReconciliationOp (snapshot : ReconcileSnapshot) : Op σ Unit := do
  orFail (protocolChecked snapshot.validate)
  update W fun _ s => some (.ok ((),applyReconciliation snapshot s))

def openWithConfig (daemonId : String) (file : JournalFile) : Except JournalError JournalFile :=
  if file.formatVersion ≠ 1 then
    .error (.format ("unsupported format version " ++ toString file.formatVersion))
  else if file.commands.any (·.daemonId != daemonId) ||
      file.commandTombstones.any (·.daemonId != daemonId) ||
      file.events.any (·.daemonId != daemonId) ||
      file.eventTombstones.any (·.daemonId != daemonId) then
    .error (.format "journal belongs to another daemon identity")
  else .ok file

def reopen : Op σ Unit := do
  let opened ← look fun h : Host σ => openWithConfig W.handle.daemonId h.file
  let state ← orFail opened
  modifyState fun h => h.settle state h.file

end Journal
end North
