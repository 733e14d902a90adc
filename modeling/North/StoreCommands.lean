import North.StoreState
import North.Lib.Prog

/-! The server's command outbox: acknowledgement with its contiguous watermark,
compaction to tombstones, replay of what is not acknowledged, and the insertion
of a command under an id that the caller chose. -/
namespace North
namespace Store

open Machine Protocol

structure PinnedCommand where
  commandId : String
  sessionId : String
  daemonId : String
  serverCommandSeq : ℕ
  payload : Option CommandEnvelope
  payloadDigest : String
  commandIdentityDigest : String
  compacted : Bool
  deriving DecidableEq, Repr

def commandIdentityDigestValid (d : Digests) (payload : CommandEnvelope) (stored : String) : Bool :=
  decide (d.identity payload = stored) || decide (d.payload payload = stored)

/-- The stored digests still belong to the stored payload. -/
def digestsValid (d : Digests) (r : OutboxRow) : Bool :=
  decide (d.payload r.payload = r.payloadDigest) &&
    commandIdentityDigestValid d r.payload r.commandIdentityDigest

/-- Two payloads with one identity differ in `sent_at` at most; a row from before the
identity digest is compared as a value. -/
def commandIdentityMatches (d : Digests) (existing candidate : CommandEnvelope) (stored : String) :
    Bool :=
  if d.identity candidate = stored then true
  else if d.payload existing ≠ stored then false
  else decide ({ existing with sentAt := "" } = { candidate with sentAt := "" })

/-- The rows of a session that are acknowledged and not above the watermark. -/
def compactable (sessionId : String) (watermark : ℕ) (r : OutboxRow) : Bool :=
  decide (r.sessionId = sessionId) && decide (r.serverCommandSeq ≤ watermark) && r.acknowledged

def OutboxRow.tombstone (r : OutboxRow) : CommandTombstone where
  commandId := r.commandId
  sessionId := r.sessionId
  daemonId := r.daemonId
  serverCommandSeq := r.serverCommandSeq
  payload := if r.commandIdentityDigest = r.payloadDigest then some r.payload else none
  payloadDigest := r.payloadDigest
  commandIdentityDigest := r.commandIdentityDigest

/-- `INSERT .. ON CONFLICT DO NOTHING` under the primary key and the unique index. -/
def insertTombstone (tombstones : List CommandTombstone) (t : CommandTombstone) :
    List CommandTombstone :=
  if tombstones.any fun u => decide (u.commandId = t.commandId) ||
      (decide (u.sessionId = t.sessionId) && decide (u.serverCommandSeq = t.serverCommandSeq)) then
    tombstones
  else tombstones ++ [t]

def compactServerCommandsInTransaction (db : Db) (sessionId : String) : Option (ℕ × Db) :=
  match db.session? sessionId with
  | none => none
  | some s =>
    let rows := db.outbox.filter (compactable sessionId s.commandAckThroughSeq)
    some (rows.length,{ db with
      tombstones := (rows.map OutboxRow.tombstone).foldl insertTombstone db.tombstones
      outbox := db.outbox.filter fun r => !compactable sessionId s.commandAckThroughSeq r })

def compactServerCommands (db : Db) (sessionId : String) : Except PersistenceError (ℕ × Db) :=
  orError .database (compactServerCommandsInTransaction db sessionId)

/-- The first unacknowledged command above the watermark holds it back. -/
def commandWatermark (db : Db) (sessionId : String) (current : ℕ) : ℕ :=
  let firstUnacknowledged := (((db.outboxOf sessionId).filter fun r =>
    decide (current < r.serverCommandSeq) && !r.acknowledged).map (·.serverCommandSeq)).min?
  let maximum := Db.maxSeq ((db.outboxOf sessionId).map (·.serverCommandSeq))
  max (match firstUnacknowledged with
    | some seq => seq-1
    | none => maximum) current

def setCommandAck (watermark : ℕ) (s : Session) : Session :=
  { s with commandAckThroughSeq := watermark }

def advanceCommandWatermark (db : Db) (sessionId : String) : Option (ℕ × Db) :=
  match db.session? sessionId with
  | none => none
  | some s =>
    let watermark := commandWatermark db sessionId s.commandAckThroughSeq
    some (watermark,db.updateSession sessionId (setCommandAck watermark))

/-- `UPDATE server_command_outbox SET acknowledged_at = .. WHERE command_id = ..`. -/
def markAcknowledged (db : Db) (commandId : String) : Db :=
  { db with
    outbox := Table.updateFirst (fun r => decide (r.commandId = commandId))
      (fun r => { r with acknowledged := true }) db.outbox }

def acknowledgeOutboxRow (d : Digests) (db : Db) (row : OutboxRow) (sessionId : String)
    (sequence : ℕ) : Except PersistenceError (ℕ × Db) :=
  if row.sessionId ≠ sessionId ∨ row.serverCommandSeq ≠ sequence then
    .error (.protocolIntegrity "command ACK identity conflicts with outbox")
  else if digestsValid d row = false then
    .error (.protocolIntegrity "command outbox payload digest mismatch")
  else
    orError .database (advanceCommandWatermark
      (if row.acknowledged then db else markAcknowledged db row.commandId) sessionId)

def acknowledgeTombstone (db : Db) (tombstone : CommandTombstone) (sessionId : String)
    (sequence : ℕ) : Except PersistenceError (ℕ × Db) :=
  if tombstone.sessionId ≠ sessionId ∨ tombstone.serverCommandSeq ≠ sequence then
    .error (.protocolIntegrity "command ACK identity conflicts with tombstone")
  else
    orError .database ((db.session? sessionId).map fun s => (s.commandAckThroughSeq,db))

/-- Commit a daemon command ACK and advance only the contiguous watermark. -/
def acknowledgeCommand (d : Digests) (commandId sessionId : String) (serverCommandSeq : ℕ)
    (db : Db) : Except PersistenceError (ℕ × Db) :=
  if Text.blank commandId || Text.blank sessionId || decide (serverCommandSeq = 0) then
    .error (.protocolIntegrity "invalid command ACK identity")
  else if i64Max < serverCommandSeq then .error .invalidSessionState
  else do
    let (watermark,db) ← (match db.outbox.find? fun r => decide (r.commandId = commandId) with
      | some row => acknowledgeOutboxRow d db row sessionId serverCommandSeq
      | none =>
        match db.tombstones.find? fun t => decide (t.commandId = commandId) with
        | none => .error (.protocolIntegrity "command ACK references unknown command")
        | some tombstone => acknowledgeTombstone db tombstone sessionId serverCommandSeq)
    let (_,db) ← orError .database (compactServerCommandsInTransaction db sessionId)
    .ok (watermark,db)

def OutboxRow.pinned (r : OutboxRow) : PinnedCommand where
  commandId := r.commandId
  sessionId := r.sessionId
  daemonId := r.daemonId
  serverCommandSeq := r.serverCommandSeq
  payload := some r.payload
  payloadDigest := r.payloadDigest
  commandIdentityDigest := r.commandIdentityDigest
  compacted := false

def CommandTombstone.pinned (t : CommandTombstone) : PinnedCommand where
  commandId := t.commandId
  sessionId := t.sessionId
  daemonId := t.daemonId
  serverCommandSeq := t.serverCommandSeq
  payload := t.payload
  payloadDigest := t.payloadDigest
  commandIdentityDigest := t.commandIdentityDigest
  compacted := true

def pinnedFromRow (d : Digests) (r : OutboxRow) : Except PersistenceError PinnedCommand :=
  if digestsValid d r = false then
    .error (.protocolIntegrity "command outbox payload digest mismatch")
  else .ok r.pinned

/-- `ORDER BY session_id ASC, server_command_seq ASC`. -/
def replayOrder (a b : OutboxRow) : Prop :=
  a.sessionId < b.sessionId ∨ a.sessionId = b.sessionId ∧ a.serverCommandSeq ≤ b.serverCommandSeq

instance (a b : OutboxRow) : Decidable (replayOrder a b) := by
  unfold replayOrder
  infer_instance

/-- The immutable payloads a daemon has not acknowledged, in per-session order. -/
def unacknowledgedCommands (d : Digests) (db : Db) (daemonId : String) :
    Except PersistenceError (List PinnedCommand) :=
  ((db.outbox.filter fun r => decide (r.daemonId = daemonId) && !r.acknowledged).insertionSort
    replayOrder).mapM (pinnedFromRow d)

/-- The command a retried request finds under its id. -/
def existingCommand? (db : Db) (commandId : String) : Option (PinnedCommand × Option OutboxRow) :=
  match db.outbox.find? fun r => decide (r.commandId = commandId) with
  | some r => some (r.pinned,some r)
  | none =>
    (db.tombstones.find? fun t => decide (t.commandId = commandId)).map fun t => (t.pinned,none)

structure CommandRequest where
  sessionId : String
  commandId : String
  requiredCapabilities : List String
  requirementId : Option String
  repositoryIds : Option (List String)
  command : Command
  deriving DecidableEq, Repr

def repeatedCommand (d : Digests) (request : CommandRequest) (sentAt : String)
    (existing : PinnedCommand) (row : Option OutboxRow) : Except PersistenceError PinnedCommand :=
  if existing.sessionId ≠ request.sessionId then
    .error (.protocolIntegrity "command ID is already bound to another session")
  else do
    let candidate ← orError .invalidCommandPayload (commandFrame sentAt request.sessionId
      request.commandId existing.serverCommandSeq request.command)
    let identityMatches := match existing.payload with
      | some payload => commandIdentityMatches d payload candidate existing.commandIdentityDigest
      | none => decide (d.identity candidate = existing.commandIdentityDigest)
    if identityMatches = false then
      .error (.protocolIntegrity "command ID is already bound to a different payload")
    else match row with
      | some r => pinnedFromRow d r
      | none => .ok existing

def validateActiveRepositoryIds (db : Db) (repositoryIds : List String) :
    Except PersistenceError Unit :=
  if repositoryIds.all db.activeRepository then .ok () else .error .repositoryNotFound

/-- Bind an existing session to the request: its repositories and requirement are set
once and never retargeted, and it gets a daemon if it has none. -/
def bindSession (db : Db) (now : ℕ) (request : CommandRequest) (existing : Session) :
    Except PersistenceError (String × Db) :=
  if existing.requirementId.any fun bound => request.requirementId.any (bound ≠ ·) then
    .error .sessionRequirementMismatch
  else do
    let db ← (match request.repositoryIds with
      | none => .ok db
      | some repositoryIds =>
        if existing.repositoryContextInitialized = false then do
          validateActiveRepositoryIds db repositoryIds
          .ok (db.updateSession request.sessionId fun s =>
            { s with repositoryIds := repositoryIds, repositoryContextInitialized := true })
        else if existing.repositoryIds ≠ repositoryIds then
          .error (.protocolIntegrity "session repository context cannot be retargeted")
        else .ok db)
    let db := if existing.requirementId.isNone && request.requirementId.isSome then
        db.updateSession request.sessionId fun s => { s with requirementId := request.requirementId }
      else db
    match existing.daemonId with
    | some daemonId => .ok (daemonId,db)
    | none => do
      let daemonId ← orError .noEligibleDaemon
        (chooseEligibleDaemon db now request.requiredCapabilities)
      .ok (daemonId,db.updateSession request.sessionId fun s => { s with daemonId := some daemonId })

def newSession (db : Db) (now : ℕ) (request : CommandRequest) :
    Except PersistenceError (String × Db) := do
  let repositoryIds := request.repositoryIds.getD []
  validateActiveRepositoryIds db repositoryIds
  let daemonId ← orError .noEligibleDaemon
    (chooseEligibleDaemon db now request.requiredCapabilities)
  .ok (daemonId,db.addSession {
    id := request.sessionId
    daemonId := some daemonId
    requirementId := request.requirementId
    repositoryIds := repositoryIds
    repositoryContextInitialized := request.repositoryIds.isSome })

/-- The logical message a command carries. -/
def messageIdentity (d : Digests) (payload : CommandEnvelope) : Option (String × String) :=
  match payload.command with
  | .messageSend messageId content =>
    if Text.blank messageId || Text.blank content then none else some (messageId,d.text content)
  | _ => none

def bindMessage (d : Digests) (db : Db) (request : CommandRequest) (payload : CommandEnvelope) :
    Except PersistenceError Db :=
  match messageIdentity d payload with
  | none => .ok db
  | some (messageId,contentDigest) =>
    if db.messageCommands.any fun m => decide (m.commandId = request.commandId) ||
        (decide (m.sessionId = request.sessionId) && decide (m.messageId = messageId)) then
      match db.messageCommands.find? fun m => decide (m.sessionId = request.sessionId) &&
          decide (m.messageId = messageId) with
      | none => .error .database
      | some m =>
        if m.commandId ≠ request.commandId ∨ m.contentDigest ≠ contentDigest then
          .error (.protocolIntegrity "message ID is already bound to another command")
        else .ok db
    else .ok { db with messageCommands := db.messageCommands ++
      [⟨request.sessionId,messageId,request.commandId,contentDigest⟩] }

/-- `start_session_with_command_for_requirement_and_repositories` with the payload that
`persist_and_dispatch_command` builds. -/
def startSessionWithCommand (d : Digests) (now : ℕ) (sentAt : String) (request : CommandRequest)
    (db : Db) : Except PersistenceError (PinnedCommand × Db) :=
  match existingCommand? db request.commandId with
  | some (existing,row) => do
    let pinned ← repeatedCommand d request sentAt existing row
    .ok (pinned,db)
  | none => do
    let (daemonId,db) ← (match db.session? request.sessionId with
      | some existing => bindSession db now request existing
      | none => newSession db now request)
    let sequence ← orError .database (nextCommandSequence db request.sessionId)
    let payload ← orError .invalidCommandPayload (commandFrame sentAt request.sessionId
      request.commandId sequence request.command)
    let db ← bindMessage d db request payload
    let db ← orError .database (insertCommand d db request.commandId request.sessionId daemonId
      sequence payload)
    .ok ({
      commandId := request.commandId
      sessionId := request.sessionId
      daemonId := daemonId
      serverCommandSeq := sequence
      payload := some payload
      payloadDigest := d.payload payload
      commandIdentityDigest := d.identity payload
      compacted := false },db)

end Store
end North
