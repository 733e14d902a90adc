import North.Protocol
import North.Lib.Table
import North.Lib.Watermark

/-! The daemon journal file and the closures that `Journal::update` runs on it.
Each closure is one critical section of `journal.rs`: it maps the journal file to a
new one or refuses it, and the advance loops may also never end. -/
namespace North
namespace Journal

open Machine Protocol

structure JournalConfig where
  maxGapBufferEntriesPerSession : ℕ := 256
  deriving DecidableEq, Repr

inductive JournalError
  | io (reason : String)
  | format (reason : String)
  | protocol (error : FrameError)
  | identityConflict (reason : String)
  | gapOverflow (sessionId : String) (limit : ℕ)
  deriving DecidableEq, Repr

inductive CommandJournalState
  | received | dispatchStarted | terminal
  deriving DecidableEq, Repr

inductive DispatchOutcome
  | dispatchSucceeded
  | dispatchFailed (reason : String)
  | unknown (reason : String)
  deriving DecidableEq, Repr

inductive RecoveryOutcome
  | dispatchSucceeded
  | dispatchFailed (reason : String)
  | unknown
  deriving DecidableEq, Repr

structure SessionJournal where
  processedThroughSeq : ℕ := 0
  eventAckThroughSeq : ℕ := 0
  eventAckSparse : List ℕ := []
  serverCommandAckThroughSeq : ℕ := 0
  deriving DecidableEq, Repr

structure CommandRecord where
  daemonId : String
  commandId : String
  sessionId : String
  serverCommandSeq : ℕ
  sentAt : String
  payloadDigest : String
  command : Command
  messageId : Option String
  state : CommandJournalState
  outcome : Option DispatchOutcome
  runtimeOperationId : String
  reason : Option String
  updatedAt : String
  deriving DecidableEq, Repr

structure CommandTombstone where
  daemonId : String
  commandId : String
  sessionId : String
  serverCommandSeq : ℕ
  payloadDigest : String
  messageId : Option String
  outcome : DispatchOutcome
  deriving DecidableEq, Repr

structure EventRecord where
  daemonId : String
  envelope : EventEnvelope
  payloadDigest : String
  acknowledged : Bool
  acknowledgement : Option EventAckStatus
  deriving DecidableEq, Repr

structure EventTombstone where
  daemonId : String
  eventId : String
  sessionId : String
  daemonEventSeq : ℕ
  payloadDigest : String
  eventIdentityDigest : String
  acknowledgement : Option EventAckStatus
  deriving DecidableEq, Repr

structure JournalFile where
  formatVersion : ℕ := 1
  sessions : OrdMap String SessionJournal := {}
  commands : List CommandRecord := []
  commandTombstones : List CommandTombstone := []
  events : List EventRecord := []
  eventTombstones : List EventTombstone := []
  deriving DecidableEq, Repr

/-- The fixed part of a `Journal` handle. The two digests are `payload_digest` at its
two types: SHA-256 over the JSON text, from the `sha2` and `serde_json` crates. -/
structure Handle where
  daemonId : String
  config : JournalConfig := {}
  commandDigest : CommandEnvelope → String
  eventDigest : EventEnvelope → String

/-- The clock readings of one section, in the order the section takes them. -/
abbrev Clock := ℕ → String

/-- The result of a section: `none` when one of its loops never ends. -/
abbrev Section (α : Type) := JournalFile → Option (Except JournalError (α × JournalFile))

def messageIdOf : Command → Option String
  | .messageSend messageId _ => some messageId
  | _ => none

def commandAck (r : CommandRecord) : CommandAck :=
  ⟨r.commandId,r.sessionId,r.serverCommandSeq,Protocol.schemaVersion⟩

def recordToEnvelope (r : CommandRecord) : CommandEnvelope where
  commandId := r.commandId
  sessionId := r.sessionId
  serverCommandSeq := r.serverCommandSeq
  sentAt := r.sentAt
  schemaVersion := Protocol.schemaVersion
  command := r.command

/-- A tombstone read as a record: its payload is gone, so the command is a stand-in. -/
def tombstoneRecord (t : CommandTombstone) (now : Clock) : CommandRecord where
  daemonId := t.daemonId
  commandId := t.commandId
  sessionId := t.sessionId
  serverCommandSeq := t.serverCommandSeq
  sentAt := now 0
  payloadDigest := t.payloadDigest
  command := .sessionResume
  messageId := t.messageId
  state := .terminal
  outcome := some t.outcome
  runtimeOperationId := t.commandId
  reason := none
  updatedAt := now 1

def outcomeReason : DispatchOutcome → Option String
  | .dispatchSucceeded => none
  | .dispatchFailed reason => some reason
  | .unknown reason => some reason

def unknownReason (commandId : String) : String :=
  "command_id=" ++ commandId ++ " runtime_operation_id=" ++ commandId

/-- Some live record of the session is Terminal at this sequence. -/
def terminalIn (commands : List CommandRecord) (sessionId : String) (seq : ℕ) : Bool :=
  commands.any fun r =>
    r.sessionId == sessionId && r.serverCommandSeq == seq && r.state == .terminal

namespace JournalFile

variable (s : JournalFile) (sessionId : String)

def session : SessionJournal := (s.sessions.get sessionId).getD {}

def expectedCommandSequence : ℕ :=
  match s.sessions.get sessionId with
  | some session => saturatingSucc u64Max session.processedThroughSeq
  | none => 1

/-- Some live event of the session is acknowledged at this sequence. -/
def acknowledgedAt (seq : ℕ) : Bool :=
  s.events.any fun r =>
    r.envelope.sessionId == sessionId && r.envelope.daemonEventSeq == seq && r.acknowledged

def updateCommand (commandId : String) (f : CommandRecord → CommandRecord) : JournalFile :=
  { s with commands := Table.updateFirst (fun r => decide (r.commandId = commandId)) f s.commands }

def updateEvent (eventId : String) (f : EventRecord → EventRecord) : JournalFile :=
  { s with events := Table.updateFirst (fun r => decide (r.envelope.eventId = eventId)) f s.events }

def updateEventTombstone (eventId : String) (f : EventTombstone → EventTombstone) : JournalFile :=
  { s with
    eventTombstones := Table.updateFirst (fun t => decide (t.eventId = eventId)) f s.eventTombstones }

def nextEventSequence : ℕ :=
  let cursor := match s.sessions.get sessionId with
    | some session => max session.eventAckThroughSeq (session.eventAckSparse.max?.getD 0)
    | none => 0
  let live := (s.events.filter fun r => r.envelope.sessionId == sessionId).map
    (·.envelope.daemonEventSeq)
  let buried := (s.eventTombstones.filter fun r => r.sessionId == sessionId).map (·.daemonEventSeq)
  let current := (live ++ buried).max?.getD 0
  saturatingSucc u64Max (max cursor current)

end JournalFile

/-- `advance_processed`: swallow the Terminal records that follow the cursor. -/
def advanceProcessed (s : JournalFile) (sessionId : String) : Option JournalFile := do
  let cursor ← Watermark.advance u64Max (terminalIn s.commands sessionId) (s.commands.length+1)
    (s.session sessionId).processedThroughSeq
  return { s with sessions := s.sessions.modify sessionId {} fun session =>
    { session with processedThroughSeq := cursor } }

/-- The session after its event watermark was moved up: the entries passed are dropped. -/
def SessionJournal.raiseEventAck (cursor : ℕ) (session : SessionJournal) : SessionJournal :=
  if session.eventAckThroughSeq < cursor then
    { session with
      eventAckThroughSeq := cursor
      eventAckSparse := session.eventAckSparse.filter (cursor < ·) }
  else session

/-- `advance_event_ack`: only the live records are looked at. -/
def advanceEventAck (s : JournalFile) (sessionId : String) : Option JournalFile := do
  let cursor ← Watermark.advance u64Max (s.acknowledgedAt sessionId) (s.events.length+1)
    (s.session sessionId).eventAckThroughSeq
  return { s with sessions := s.sessions.modify sessionId {} (·.raiseEventAck cursor) }

/-- The identity test against one live record: a shared id, sequence or message means
the whole envelope must be the same. -/
def recordConflicts (daemonId : String) (e : CommandEnvelope) (digest : String)
    (messageId : Option String) (r : CommandRecord) : Bool :=
  let sameId := r.commandId == e.commandId
  let sameSequence := r.sessionId == e.sessionId && r.serverCommandSeq == e.serverCommandSeq
  let sameMessage := messageId.isSome && r.messageId == messageId && r.sessionId == e.sessionId
  r.daemonId == daemonId && (sameId || sameSequence || sameMessage) &&
    (r.sessionId != e.sessionId || r.serverCommandSeq != e.serverCommandSeq ||
      r.payloadDigest != digest || (sameId && r.command != e.command))

/-- The same test against a tombstone, which has no command to compare. -/
def tombstoneConflicts (daemonId : String) (e : CommandEnvelope) (digest : String)
    (messageId : Option String) (t : CommandTombstone) : Bool :=
  let sameId := t.commandId == e.commandId
  let sameSequence := t.sessionId == e.sessionId && t.serverCommandSeq == e.serverCommandSeq
  let sameMessage := messageId.isSome && t.messageId == messageId && t.sessionId == e.sessionId
  t.daemonId == daemonId && (sameId || sameSequence || sameMessage) &&
    (t.sessionId != e.sessionId || t.serverCommandSeq != e.serverCommandSeq ||
      t.payloadDigest != digest || (sameMessage && t.commandId != e.commandId))

def validateCommandIdentity (s : JournalFile) (daemonId : String) (e : CommandEnvelope)
    (digest : String) (messageId : Option String) : Except JournalError Unit :=
  if s.commands.any (recordConflicts daemonId e digest messageId) then
    .error (.identityConflict
      "command ID, sequence, or message identity was reused with different data")
  else if s.commandTombstones.any (tombstoneConflicts daemonId e digest messageId) then
    .error (.identityConflict "command tombstone identity conflict")
  else .ok ()

/-- What `prepare_command` reports: the record, whether it was known, whether it must wait. -/
structure Prepared where
  record : CommandRecord
  duplicate : Bool
  buffered : Bool
  deriving DecidableEq, Repr

def receivedRecord (J : Handle) (e : CommandEnvelope) (digest : String)
    (messageId : Option String) (now : Clock) : CommandRecord where
  daemonId := J.daemonId
  commandId := e.commandId
  sessionId := e.sessionId
  serverCommandSeq := e.serverCommandSeq
  sentAt := e.sentAt
  payloadDigest := digest
  command := e.command
  messageId := messageId
  state := .received
  outcome := none
  runtimeOperationId := e.commandId
  reason := none
  updatedAt := now 0

/-- The commands of a session that wait above the expected sequence. -/
def gapEntries (s : JournalFile) (sessionId : String) (expected : ℕ) : ℕ :=
  (s.commands.filter fun r => r.sessionId == sessionId && decide (expected < r.serverCommandSeq) &&
    r.state != .terminal).length

def prepareCommand (J : Handle) (e : CommandEnvelope) (digest : String)
    (messageId : Option String) (now : Clock) (s : JournalFile) :
    Except JournalError (Prepared × JournalFile) := do
  validateCommandIdentity s J.daemonId e digest messageId
  let expected := s.expectedCommandSequence e.sessionId
  match s.commands.find? (fun r => decide (r.commandId = e.commandId)) with
  | some existing =>
    return (⟨existing,true,decide (expected < existing.serverCommandSeq)⟩,s)
  | none =>
    match s.commandTombstones.find? (fun t => decide (t.commandId = e.commandId)) with
    | some tombstone => return (⟨tombstoneRecord tombstone now,true,false⟩,s)
    | none =>
      if expected < e.serverCommandSeq ∧
          J.config.maxGapBufferEntriesPerSession ≤ gapEntries s e.sessionId expected then
        throw (.gapOverflow e.sessionId J.config.maxGapBufferEntriesPerSession)
      else if e.serverCommandSeq < expected then
        throw (.identityConflict "command sequence is below the retained processed boundary")
      else
        let record := receivedRecord J e digest messageId now
        return (⟨record,false,decide (expected < e.serverCommandSeq)⟩,
          { s with commands := s.commands ++ [record] })

def markDispatchStarted (commandId : String) (now : Clock) (s : JournalFile) :
    Except JournalError (Bool × JournalFile) :=
  match s.commands.find? (fun r => decide (r.commandId = commandId)) with
  | none => .error (.identityConflict "command disappeared before dispatch")
  | some record =>
    if record.state ≠ .received then .ok (false,s)
    else .ok (true,s.updateCommand commandId
      fun r => { r with state := .dispatchStarted, updatedAt := now 0 })

def hasPriorDispatchStarted (e : CommandEnvelope) (s : JournalFile) : Bool :=
  s.commands.any fun r => r.sessionId == e.sessionId &&
    decide (r.serverCommandSeq < e.serverCommandSeq) && r.state == .dispatchStarted

def eventRecord (J : Handle) (envelope : EventEnvelope) : EventRecord :=
  ⟨J.daemonId,envelope,J.eventDigest envelope,false,none⟩

/-- The runtime events of a finished command, numbered from `index` on. -/
def pushRuntimeEvents (J : Handle) (commandId sessionId : String) (now : Clock) :
    ℕ → List Event → JournalFile → List EventEnvelope × JournalFile
  | _, [], s => ([],s)
  | index, event::rest, s =>
    let envelope : EventEnvelope :=
      ⟨"runtime-" ++ commandId ++ "-" ++ toString (index+1),sessionId,
        s.nextEventSequence sessionId,now (index+1),Protocol.schemaVersion,event⟩
    let (envelopes,s') := pushRuntimeEvents J commandId sessionId now (index+1) rest
      { s with events := s.events ++ [eventRecord J envelope] }
    (envelope::envelopes,s')

/-- The fact that the outcome of a command is not known, for the server to decide on. -/
def unknownEnvelope (commandId sessionId operationId reason : String) (seq : ℕ) (now : String) :
    EventEnvelope :=
  ⟨"execution-unknown-" ++ commandId,sessionId,seq,now,Protocol.schemaVersion,
    .sessionFailed false ("execution_outcome_unknown command_id=" ++ commandId ++
      " runtime_operation_id=" ++ operationId ++ " " ++ reason ++ " automatic_resubmit=false")⟩

def pushUnknownEvent (J : Handle) (commandId sessionId operationId : String)
    (outcome : DispatchOutcome) (now : String) (s : JournalFile) :
    List EventEnvelope × JournalFile :=
  match outcome with
  | .unknown reason =>
    let envelope := unknownEnvelope commandId sessionId operationId reason
      (s.nextEventSequence sessionId) now
    ([envelope],{ s with events := s.events ++ [eventRecord J envelope] })
  | _ => ([],s)

def terminate (outcome : DispatchOutcome) (now : String) (r : CommandRecord) : CommandRecord :=
  { r with
    state := .terminal
    reason := outcomeReason outcome
    outcome := some outcome
    updatedAt := now }

def finishCommand (J : Handle) (commandId : String) (outcome : DispatchOutcome)
    (runtimeEvents : List Event) (now : Clock) : Section (List EventEnvelope) := fun s =>
  match s.commands.find? (fun r => decide (r.commandId = commandId)) with
  | none => some (.error (.identityConflict "command disappeared before terminal commit"))
  | some record => do
    let s ← advanceProcessed (s.updateCommand commandId (terminate outcome (now 0)))
      record.sessionId
    let (envelopes,s) := pushRuntimeEvents J commandId record.sessionId now 0 runtimeEvents s
    let (unknown,s) := pushUnknownEvent J commandId record.sessionId record.runtimeOperationId
      outcome (now (runtimeEvents.length+1)) s
    return .ok (envelopes ++ unknown,s)

def commandTombstone (r : CommandRecord) : CommandTombstone :=
  ⟨r.daemonId,r.commandId,r.sessionId,r.serverCommandSeq,r.payloadDigest,r.messageId,
    r.outcome.getD (.unknown "terminal outcome missing")⟩

def eventIdentityDigest (J : Handle) (e : EventEnvelope) : String :=
  J.eventDigest { e with sentAt := "" }

def eventTombstone (J : Handle) (r : EventRecord) : EventTombstone :=
  ⟨r.daemonId,r.envelope.eventId,r.envelope.sessionId,r.envelope.daemonEventSeq,r.payloadDigest,
    eventIdentityDigest J r.envelope,r.acknowledgement⟩

/-- A Terminal command at or below the processed boundary can be buried. -/
def compactableCommand (sessionId : String) (processed : ℕ) (r : CommandRecord) : Bool :=
  r.sessionId == sessionId && r.state == .terminal && decide (r.serverCommandSeq ≤ processed)

def compactableEvent (sessionId : String) (through : ℕ) (sparse : List ℕ) (r : EventRecord) :
    Bool :=
  r.envelope.sessionId == sessionId && r.acknowledged &&
    (decide (r.envelope.daemonEventSeq ≤ through) || sparse.contains r.envelope.daemonEventSeq)

def compactSession (J : Handle) (sessionId : String) (s : JournalFile) : JournalFile :=
  let session := s.session sessionId
  let command := compactableCommand sessionId session.processedThroughSeq
  let event := compactableEvent sessionId session.eventAckThroughSeq session.eventAckSparse
  { s with
    commands := s.commands.filter fun r => !command r
    commandTombstones := s.commandTombstones ++ (s.commands.filter command).map commandTombstone
    events := s.events.filter fun r => !event r
    eventTombstones := s.eventTombstones ++ (s.events.filter event).map (eventTombstone J) }

def eventConflicts (daemonId : String) (e : EventEnvelope) (digest : String) (r : EventRecord) :
    Bool :=
  let sameId := r.envelope.eventId == e.eventId
  let sameSequence := r.envelope.sessionId == e.sessionId &&
    r.envelope.daemonEventSeq == e.daemonEventSeq
  r.daemonId == daemonId && (sameId || sameSequence) &&
    (r.envelope.sessionId != e.sessionId || r.envelope.daemonEventSeq != e.daemonEventSeq ||
      r.payloadDigest != digest)

def eventTombstoneConflicts (daemonId : String) (e : EventEnvelope) (digest : String)
    (t : EventTombstone) : Bool :=
  let sameId := t.eventId == e.eventId
  let sameSequence := t.sessionId == e.sessionId && t.daemonEventSeq == e.daemonEventSeq
  t.daemonId == daemonId && (sameId || sameSequence) &&
    (t.sessionId != e.sessionId || t.daemonEventSeq != e.daemonEventSeq || t.payloadDigest != digest)

def validateEventIdentity (s : JournalFile) (daemonId : String) (e : EventEnvelope)
    (digest : String) : Except JournalError Unit :=
  if s.events.any (eventConflicts daemonId e digest) then
    .error (.identityConflict "event ID or sequence was reused with different data")
  else if s.eventTombstones.any (eventTombstoneConflicts daemonId e digest) then
    .error (.identityConflict "event tombstone identity conflict")
  else .ok ()

structure AppendedEvent where
  envelope : EventEnvelope
  duplicate : Bool
  deriving DecidableEq, Repr

def pushEvent (J : Handle) (s : JournalFile) (e : EventEnvelope) : JournalFile :=
  { s with events := s.events ++ [eventRecord J e] }

def protocolChecked (r : Except FrameError Unit) : Except JournalError Unit :=
  r.mapError .protocol

def appendEvent (J : Handle) (eventId sessionId : String) (event : Event) (now : Clock)
    (s : JournalFile) : Except JournalError (AppendedEvent × JournalFile) :=
  match s.events.find? (fun r => r.daemonId == J.daemonId && r.envelope.eventId == eventId) with
  | some existing =>
    if existing.envelope.sessionId ≠ sessionId ∨ existing.envelope.event ≠ event then
      .error (.identityConflict "event ID is already bound to different event data")
    else .ok (⟨existing.envelope,true⟩,s)
  | none =>
    match s.eventTombstones.find? (fun t => t.daemonId == J.daemonId && t.eventId == eventId) with
    | some existing =>
      let candidate : EventEnvelope :=
        ⟨eventId,sessionId,existing.daemonEventSeq,"",Protocol.schemaVersion,event⟩
      if existing.sessionId ≠ sessionId then
        .error (.identityConflict "event ID tombstone belongs to another session")
      else if existing.eventIdentityDigest ≠ eventIdentityDigest J candidate then
        .error (.identityConflict "event ID tombstone payload conflict")
      else .ok (⟨{ candidate with sentAt := now 0 },true⟩,s)
    | none => do
      let envelope : EventEnvelope :=
        ⟨eventId,sessionId,s.nextEventSequence sessionId,now 0,Protocol.schemaVersion,event⟩
      protocolChecked envelope.validate
      validateEventIdentity s J.daemonId envelope (J.eventDigest envelope)
      return (⟨envelope,false⟩,pushEvent J s envelope)

def appendEventEnvelope (J : Handle) (envelope : EventEnvelope) (duplicate : Bool)
    (s : JournalFile) : Except JournalError (AppendedEvent × JournalFile) := do
  validateEventIdentity s J.daemonId envelope (J.eventDigest envelope)
  match s.events.find? (fun r => decide (r.envelope.eventId = envelope.eventId)) with
  | some existing => return (⟨existing.envelope,true⟩,s)
  | none =>
    if s.eventTombstones.any (fun t => t.eventId == envelope.eventId) then
      return (⟨envelope,true⟩,s)
    else if envelope.daemonEventSeq ≠ s.nextEventSequence envelope.sessionId then
      throw (.identityConflict ("event sequence " ++ toString envelope.daemonEventSeq ++
        " is not next allocated sequence " ++ toString (s.nextEventSequence envelope.sessionId)))
    else return (⟨envelope,duplicate⟩,pushEvent J s envelope)

/-- Take one acknowledgement of a live event into the session's cursor. -/
def noteAcknowledged (ack : EventAck) (session : SessionJournal) : SessionJournal :=
  if session.eventAckThroughSeq < ack.daemonEventSeq then
    { session with eventAckSparse := sortDedup (session.eventAckSparse ++ [ack.daemonEventSeq]) }
  else session

def acknowledge (status : EventAckStatus) (r : EventRecord) : EventRecord :=
  { r with acknowledged := true, acknowledgement := some status }

/-- A late status only fills one that a reconciliation left open. -/
def fillStatus (status : EventAckStatus) (r : EventRecord) : EventRecord :=
  { r with acknowledgement := some (r.acknowledgement.getD status) }

def fillTombstoneStatus (status : EventAckStatus) (t : EventTombstone) : EventTombstone :=
  { t with acknowledgement := some (t.acknowledgement.getD status) }

/-- Mark the live record and take its sequence into the session's cursor. -/
def markAcknowledged (s : JournalFile) (ack : EventAck) : JournalFile :=
  { s.updateEvent ack.eventId (acknowledge ack.status) with
    sessions := s.sessions.modify ack.sessionId {} (noteAcknowledged ack) }

def acknowledgeEvent (ack : EventAck) : Section Unit := fun s =>
  match s.events.find? (fun r => decide (r.envelope.eventId = ack.eventId)) with
  | none =>
    match s.eventTombstones.find? (fun t => decide (t.eventId = ack.eventId)) with
    | some t =>
      if t.sessionId ≠ ack.sessionId ∨ t.daemonEventSeq ≠ ack.daemonEventSeq ∨
          t.acknowledgement.any (· ≠ ack.status) then
        some (.error (.identityConflict "late event ACK conflicts with tombstone"))
      else some (.ok ((),s.updateEventTombstone ack.eventId (fillTombstoneStatus ack.status)))
    | none => some (.error (.identityConflict "event ACK references unknown event"))
  | some r =>
    if r.envelope.sessionId ≠ ack.sessionId ∨ r.envelope.daemonEventSeq ≠ ack.daemonEventSeq then
      some (.error (.identityConflict "event ACK identity conflicts with journal"))
    else if r.acknowledged then
      if r.acknowledgement.any (· ≠ ack.status) then
        some (.error (.identityConflict
          "event ACK status conflicts with retained terminal outcome"))
      else some (.ok ((),s.updateEvent ack.eventId (fillStatus ack.status)))
    else do
      let s ← advanceEventAck (markAcknowledged s ack) ack.sessionId
      return .ok ((),s)

def mergeSparse (existing incoming : List ℕ) : List ℕ := sortDedup (existing ++ incoming)

def mergeWatermarks (remote : SessionReconcileState) (session : SessionJournal) : SessionJournal :=
  let through := max session.eventAckThroughSeq remote.eventAckThroughSeq
  { session with
    serverCommandAckThroughSeq := max session.serverCommandAckThroughSeq remote.commandAckThroughSeq
    eventAckThroughSeq := through
    eventAckSparse := (mergeSparse session.eventAckSparse remote.eventAckSparse).filter (through < ·) }

/-- The server has handled this sequence, by watermark or by sparse entry. -/
def SessionJournal.covers (session : SessionJournal) (seq : ℕ) : Bool :=
  decide (seq ≤ session.eventAckThroughSeq) || session.eventAckSparse.contains seq

def reconcileSession (s : JournalFile) (remote : SessionReconcileState) : JournalFile :=
  let sessions := s.sessions.modify remote.sessionId {} (mergeWatermarks remote)
  let session := mergeWatermarks remote (s.session remote.sessionId)
  { s with
    sessions := sessions
    events := s.events.map fun r =>
      if r.envelope.sessionId = remote.sessionId ∧ session.covers r.envelope.daemonEventSeq then
        { r with acknowledged := true } else r }

def applyReconciliation (snapshot : ReconcileSnapshot) (s : JournalFile) : JournalFile :=
  snapshot.sessions.foldl reconcileSession s

/-- The events of a session the server has not handled, in sequence order. -/
def replayEvents (s : JournalFile) (sessionId : String) (remote : SessionReconcileState) :
    List EventEnvelope :=
  let pending := s.events.filter fun r => r.envelope.sessionId == sessionId &&
    decide (remote.eventAckThroughSeq < r.envelope.daemonEventSeq) &&
    !remote.eventAckSparse.contains r.envelope.daemonEventSeq && !r.acknowledged
  (pending.map (·.envelope)).insertionSort fun a b => a.daemonEventSeq ≤ b.daemonEventSeq

end Journal
end North
