import North.Domain
import North.Protocol
import North.Lib.Table
import Mathlib.Data.List.Sort

/-! The PostgreSQL tables of `north-persistence` that command delivery, event
delivery and clarification runs share. A transaction is a function from the
tables to an error or to a result with the new tables: a rollback keeps nothing.
Command payloads are the envelopes their JSON text stands for, timestamps are
microseconds, and the digests of the payloads are a parameter. -/
namespace North
namespace Store

open Machine Protocol Domain

inductive SessionState
  | idle | running | retrying | failed | completed
  deriving DecidableEq, Repr

def SessionState.terminal : SessionState → Bool
  | .failed | .completed => true
  | .idle | .running | .retrying => false

/-- The bounded classifications a failed run may show. -/
inductive FailureClass
  | runtimeFailure | executionOutcomeUnknown | retryExhausted | ownerUnavailable | cancelled
  deriving DecidableEq, Repr

/-- A row of `execution_sessions`. A clarification run is a session with a start message. -/
structure Session where
  id : String
  daemonId : Option String := none
  requirementId : Option String := none
  state : SessionState := .idle
  startMessageId : Option String := none
  startContext : Option SessionStart := none
  startCommandId : Option String := none
  cancelCommandId : Option String := none
  cancelRequested : Bool := false
  runtimeId : Option String := none
  terminalSummary : Option String := none
  failureClass : Option FailureClass := none
  attemptCount : ℕ := 0
  maxAttempts : ℕ := 3
  nextRetryAt : Option ℕ := none
  currentAttemptId : Option String := none
  commandAckThroughSeq : ℕ := 0
  eventAckThroughSeq : ℕ := 0
  eventAckSparse : List ℕ := []
  repositoryIds : List String := []
  repositoryContextInitialized : Bool := false
  deriving DecidableEq, Repr

inductive AttemptKind
  | sessionStart | sessionResume
  deriving DecidableEq, Repr

inductive AttemptOutcome
  | completed
  | failed (failureEventId : String) (failureClass : FailureClass)
  deriving DecidableEq, Repr

/-- A row of `execution_attempts`; an attempt without outcome is open. -/
structure ExecutionAttempt where
  id : String
  sessionId : String
  attemptNumber : ℕ
  commandId : String
  commandKind : AttemptKind
  outcome : Option AttemptOutcome := none
  deriving DecidableEq, Repr

structure OutboxRow where
  commandId : String
  sessionId : String
  daemonId : String
  serverCommandSeq : ℕ
  payload : CommandEnvelope
  payloadDigest : String
  commandIdentityDigest : String
  acknowledged : Bool := false
  deriving DecidableEq, Repr

structure CommandTombstone where
  commandId : String
  sessionId : String
  daemonId : String
  serverCommandSeq : ℕ
  payload : Option CommandEnvelope
  payloadDigest : String
  commandIdentityDigest : String
  deriving DecidableEq, Repr

structure MessageCommand where
  sessionId : String
  messageId : String
  commandId : String
  contentDigest : String
  deriving DecidableEq, Repr

inductive Outcome
  | accepted | rejected
  deriving DecidableEq, Repr

/-- A row of `server_event_dedupe`. -/
structure EventDedupe where
  eventId : String
  sessionId : String
  daemonEventSeq : ℕ
  payloadDigest : String
  payload : String
  legacyIdentity : Bool := false
  outcome : Outcome
  rejectionReason : Option String
  deriving DecidableEq, Repr

/-- A row of `readiness_assessments`. -/
structure AssessmentRow where
  id : String
  eventId : String
  sessionId : String
  daemonEventSeq : ℕ
  eventRequirementId : String
  requirementId : Option String
  assessment : ReadinessAssessment
  outcome : Outcome
  acceptedStateVersion : Option ℕ
  rejectionReason : Option String
  deriving DecidableEq, Repr

structure ActivityRow where
  eventId : String
  sessionId : String
  activity : String
  deriving DecidableEq, Repr

inductive MessageKind
  | requester | agent | system
  deriving DecidableEq, Repr

structure Message where
  id : String
  conversationId : String
  kind : MessageKind
  body : String
  sourceEventId : Option String := none
  deriving DecidableEq, Repr

structure Conversation where
  id : String
  requirementId : String
  deriving DecidableEq, Repr

/-- A row of `daemon_registrations`; `capabilities` is the decoded JSON list, if it decodes. -/
structure DaemonRegistration where
  daemonId : String
  revoked : Bool := false
  connected : Bool := false
  lastSeenAt : Option ℕ := none
  protocolVersion : String := "0.1"
  capabilities : Option (List String) := some []
  deriving DecidableEq, Repr

structure Repository where
  id : String
  disabled : Bool := false
  deriving DecidableEq, Repr

structure TransitionAudit where
  requirementId : String
  actorId : String
  transition : String
  fromStatus : RequirementStatus
  toStatus : RequirementStatus
  feedback : Option String := none
  assessmentId : Option String := none
  stateVersion : ℕ
  deriving DecidableEq, Repr

structure Db where
  sessions : List Session := []
  attempts : List ExecutionAttempt := []
  outbox : List OutboxRow := []
  tombstones : List CommandTombstone := []
  messageCommands : List MessageCommand := []
  dedupe : List EventDedupe := []
  assessments : List AssessmentRow := []
  activities : List ActivityRow := []
  messages : List Message := []
  conversations : List Conversation := []
  requirements : List Requirement := []
  repositories : List Repository := []
  registrations : List DaemonRegistration := []
  audit : List TransitionAudit := []
  deriving DecidableEq, Repr

/-- The digests the store computes: of a command payload, of a command without its
`sent_at`, of a text, and of a JSON text in canonical form (`none` for other texts). -/
structure Digests where
  payload : CommandEnvelope → String
  identity : CommandEnvelope → String
  text : String → String
  canonical : String → Option String

/-- The new random command id and the clock reading a command is built with. -/
structure Draw where
  commandId : String
  sentAt : String
  deriving DecidableEq, Repr

namespace Db

def session? (db : Db) (id : String) : Option Session :=
  db.sessions.find? fun s => decide (s.id = id)

/-- `UPDATE execution_sessions SET .. WHERE id = ..`. -/
def updateSession (db : Db) (id : String) (f : Session → Session) : Db :=
  { db with sessions := Table.updateFirst (fun s => decide (s.id = id)) f db.sessions }

def addSession (db : Db) (s : Session) : Db := { db with sessions := db.sessions ++ [s] }

def addCommand (db : Db) (r : OutboxRow) : Db := { db with outbox := db.outbox ++ [r] }

def addAttempt (db : Db) (a : ExecutionAttempt) : Db := { db with attempts := db.attempts ++ [a] }

def requirement? (db : Db) (id : String) : Option Requirement :=
  db.requirements.find? fun r => decide (r.id = id)

def registration? (db : Db) (id : String) : Option DaemonRegistration :=
  db.registrations.find? fun r => decide (r.daemonId = id)

def attemptsOf (db : Db) (sessionId : String) : List ExecutionAttempt :=
  db.attempts.filter fun a => decide (a.sessionId = sessionId)

def outboxOf (db : Db) (sessionId : String) : List OutboxRow :=
  db.outbox.filter fun r => decide (r.sessionId = sessionId)

def tombstonesOf (db : Db) (sessionId : String) : List CommandTombstone :=
  db.tombstones.filter fun r => decide (r.sessionId = sessionId)

def dedupeOf (db : Db) (sessionId : String) : List EventDedupe :=
  db.dedupe.filter fun r => decide (r.sessionId = sessionId)

def requesterMessage? (db : Db) (requirementId messageId : String) : Option Message :=
  db.messages.find? fun m => decide (m.id = messageId) && decide (m.kind = .requester) &&
    db.conversations.any fun c => decide (c.id = m.conversationId) &&
      decide (c.requirementId = requirementId)

def activeRepository (db : Db) (id : String) : Bool :=
  db.repositories.any fun r => decide (r.id = id) && !r.disabled

/-- The largest value of a `BIGINT` column, or zero. -/
def maxSeq (seqs : List ℕ) : ℕ := seqs.foldr max 0

def second : ℕ := 1000000

/-- Connected, not revoked, and seen during the last 45 seconds. -/
def daemonConnected (db : Db) (now : ℕ) (daemonId : Option String) : Bool :=
  match daemonId.bind db.registration? with
  | none => false
  | some r => r.connected && !r.revoked && r.lastSeenAt.any fun seen => decide (now < seen+45*second)

end Db

/-- The daemons `choose_eligible_daemon` considers, in id order. -/
def candidateDaemons (db : Db) (now : ℕ) : List DaemonRegistration :=
  (db.registrations.filter fun r => !r.revoked && r.connected &&
    (r.lastSeenAt.any fun seen => decide (now < seen+45*Db.second)) &&
    decide (r.protocolVersion = "0.1")).insertionSort fun a b => a.daemonId ≤ b.daemonId

def chooseEligibleDaemon (db : Db) (now : ℕ) (requiredCapabilities : List String) : Option String :=
  (candidateDaemons db now).findSome? fun r =>
    match r.capabilities with
    | none => none
    | some capabilities =>
      if requiredCapabilities.all capabilities.contains then some r.daemonId else none

inductive PersistenceError
  | database
  | protocolIntegrity (reason : String)
  | invalidSessionState
  | eventSequenceGap (expected received : ℕ)
  | invalidCommandPayload
  | noEligibleDaemon
  | repositoryNotFound
  | sessionRequirementMismatch
  deriving DecidableEq, Repr

inductive ClarificationError
  | database
  | requirementNotFound
  | messageNotFound
  | invalidMessage
  | stateVersionConflict
  | existingRunDifferentStart
  | runNotFound
  | runNotEligible
  | invalidContext
  | invalidSessionState
  | commandConflict
  deriving DecidableEq, Repr

inductive ClarificationEventError
  | integrity
  | gap (expected received : ℕ)
  | sequenceConflict (eventId : String)
  | notClarificationSession
  | projection
  | database
  deriving DecidableEq, Repr

inductive ReadinessError
  | database
  | invalidRevision
  | invalidEvidence
  | sequenceConflict
  | eventIdentityConflict
  | sessionRequirementMismatch
  | sequenceGap (expected received : ℕ)
  deriving DecidableEq, Repr

/-- `SELECT GREATEST(MAX outbox, MAX tombstones, command_ack_through_seq) + 1`; the sum
overflows as a `BIGINT` does. -/
def nextCommandSequence (db : Db) (sessionId : String) : Option ℕ :=
  match db.session? sessionId with
  | none => none
  | some s =>
    checkedSucc i64Max (max (max (Db.maxSeq ((db.outboxOf sessionId).map (·.serverCommandSeq)))
      (Db.maxSeq ((db.tombstonesOf sessionId).map (·.serverCommandSeq)))) s.commandAckThroughSeq)

def commandRow (d : Digests) (commandId sessionId daemonId : String) (sequence : ℕ)
    (payload : CommandEnvelope) : OutboxRow where
  commandId := commandId
  sessionId := sessionId
  daemonId := daemonId
  serverCommandSeq := sequence
  payload := payload
  payloadDigest := d.payload payload
  commandIdentityDigest := d.identity payload

/-- `INSERT INTO server_command_outbox` under its primary key and its unique index;
`none` is the unique violation. -/
def insertCommand (d : Digests) (db : Db) (commandId sessionId daemonId : String) (sequence : ℕ)
    (payload : CommandEnvelope) : Option Db :=
  if db.outbox.any fun r => decide (r.commandId = commandId) ||
      (decide (r.sessionId = sessionId) && decide (r.serverCommandSeq = sequence)) then none
  else some (db.addCommand (commandRow d commandId sessionId daemonId sequence payload))

/-- `to_json` of a command frame: the text exists when the frame is valid. -/
def commandFrame (sentAt sessionId commandId : String) (sequence : ℕ) (command : Command) :
    Option CommandEnvelope :=
  let envelope : CommandEnvelope := {
    commandId := commandId
    sessionId := sessionId
    serverCommandSeq := sequence
    sentAt := sentAt
    schemaVersion := Protocol.schemaVersion
    command := command }
  match envelope.validate with
  | .ok _ => some envelope
  | .error _ => none

/-- `option.ok_or(error)`. -/
def orError {ε α : Type} (error : ε) : Option α → Except ε α
  | none => .error error
  | some a => .ok a

@[simp] theorem orError_eq_ok {ε α : Type} {error : ε} {x : Option α} {a : α} :
    orError error x = .ok a ↔ x = some a := by
  cases x <;> simp [orError]

end Store
end North
