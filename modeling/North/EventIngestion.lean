import North.ClarificationOps

/-! The three transactions that ingest a daemon event into the server's ledger:
the plain receipt, the projection of a clarification event with its effect, and the
readiness assessment. They share `server_event_dedupe` and the event watermark of
the session, and each has its own duplicate, conflict and gap checks. -/
namespace North
namespace Store

open Machine Protocol Domain

structure EventReceipt where
  eventId : String
  sessionId : String
  daemonEventSeq : ℕ
  outcome : Outcome
  rejectionReason : Option String
  duplicate : Bool
  deriving DecidableEq, Repr

def EventDedupe.receipt (r : EventDedupe) (duplicate : Bool) : EventReceipt where
  eventId := r.eventId
  sessionId := r.sessionId
  daemonEventSeq := r.daemonEventSeq
  outcome := r.outcome
  rejectionReason := r.rejectionReason
  duplicate := duplicate

/-- The loop that skips the sparse acknowledgements; each turn uses up one of them. -/
def skipSparse (sparse : List ℕ) : ℕ → ℕ → Option ℕ
  | 0, expected => some expected
  | fuel+1, expected =>
    if sparse.contains expected then (checkedSucc i64Max expected).bind (skipSparse sparse fuel)
    else some expected

/-- The next sequence a session expects; `none` is the overflow. -/
def expectedSequence (s : Session) : Option ℕ :=
  (checkedSucc i64Max s.eventAckThroughSeq).bind
    (skipSparse s.eventAckSparse s.eventAckSparse.length)

/-- Move the watermark over the sparse entries that follow it; each turn removes one. The
copies of the loop differ in the successor they compute. -/
def closeGap (succ : ℕ → ℕ) : ℕ → ℕ → List ℕ → ℕ × List ℕ
  | 0, through, sparse => (through,sparse)
  | fuel+1, through, sparse =>
    let next := succ through
    if sparse.contains next then closeGap succ fuel next (sparse.erase next) else (through,sparse)

/-- `advance_event_watermark` as `delivery.rs` and `readiness.rs` both have it. -/
def advanceCursor (through : ℕ) (sparse : List ℕ) (sequence : ℕ) : ℕ × List ℕ :=
  let (through,sparse) := closeGap (saturatingSucc i64Max) sparse.length (max through sequence) sparse
  (through,sparse.filter fun value => decide (through < value))

/-- `advance_event_watermark` of `clarification.rs`: a sequence above the next one is kept
as a sparse entry instead of moving the watermark. Its plain `through + 1` at the top of the
range is no sparse entry either way. -/
def advanceProjectionCursor (through : ℕ) (sparse : List ℕ) (sequence : ℕ) : ℕ × List ℕ :=
  if sequence ≤ through then (through,sparse)
  else if sequence = through+1 then closeGap (· + 1) sparse.length sequence sparse
  else if sparse.contains sequence then (through,sparse)
  else (through,(sparse ++ [sequence]).insertionSort (· ≤ ·))

def setCursor (advance : ℕ → List ℕ → ℕ → ℕ × List ℕ) (sequence : ℕ) (s : Session) : Session :=
  { s with
    eventAckThroughSeq := (advance s.eventAckThroughSeq s.eventAckSparse sequence).1
    eventAckSparse := (advance s.eventAckThroughSeq s.eventAckSparse sequence).2 }

/-- `INSERT INTO server_event_dedupe` under its primary key and unique index. -/
def insertEventDedupe (db : Db) (row : EventDedupe) : Option Db :=
  if db.dedupe.any fun r => decide (r.eventId = row.eventId) ||
      (decide (r.sessionId = row.sessionId) && decide (r.daemonEventSeq = row.daemonEventSeq)) then none
  else some { db with dedupe := db.dedupe ++ [row] }

def dedupeById (db : Db) (eventId : String) : Option EventDedupe :=
  db.dedupe.find? fun r => decide (r.eventId = eventId)

def dedupeBySequence (db : Db) (sessionId : String) (sequence : ℕ) : Option EventDedupe :=
  db.dedupe.find? fun r => decide (r.sessionId = sessionId) && decide (r.daemonEventSeq = sequence)

/-! ### Plain receipts -/

structure EventReceiptRequest where
  eventId : String
  sessionId : String
  daemonEventSeq : ℕ
  payloadDigest : String
  payload : String
  outcome : Outcome
  rejectionReason : Option String
  deriving DecidableEq, Repr

def payloadDigestMatches (d : Digests) (payload expected : String) : Bool :=
  match d.canonical payload with
  | some digest => decide (digest = expected)
  | none => decide (payload = expected)

/-- The checks of a receipt request before its transaction. -/
def EventReceiptRequest.check (d : Digests) (r : EventReceiptRequest) :
    Except PersistenceError Unit :=
  if Text.blank r.eventId || Text.blank r.sessionId || Text.blank r.payloadDigest ||
      Text.blank r.payload || decide (r.daemonEventSeq = 0) then
    .error (.protocolIntegrity "invalid event identity")
  else if payloadDigestMatches d r.payload r.payloadDigest = false then
    .error (.protocolIntegrity "event payload digest mismatch")
  else if r.outcome = .accepted ∧ r.rejectionReason.isSome then
    .error (.protocolIntegrity "accepted event receipt cannot have a rejection reason")
  else if r.outcome = .rejected ∧ r.rejectionReason.all String.isEmpty then
    .error (.protocolIntegrity "rejected event receipt needs a reason")
  else if i64Max < r.daemonEventSeq then .error .invalidSessionState
  else .ok ()

def EventReceiptRequest.row (r : EventReceiptRequest) : EventDedupe where
  eventId := r.eventId
  sessionId := r.sessionId
  daemonEventSeq := r.daemonEventSeq
  payloadDigest := r.payloadDigest
  payload := r.payload
  outcome := r.outcome
  rejectionReason := r.rejectionReason

def recordEventReceiptWithPayload (d : Digests) (request : EventReceiptRequest) (db : Db) :
    Except PersistenceError (EventReceipt × Db) := do
  request.check d
  let session ← orError .invalidSessionState (db.session? request.sessionId)
  if db.assessments.any fun a => decide (a.eventId = request.eventId) then
    .error (.protocolIntegrity "event ID belongs to readiness event ledger")
  else match dedupeById db request.eventId with
  | some row =>
    if row.sessionId ≠ request.sessionId ∨ row.daemonEventSeq ≠ request.daemonEventSeq ∨
        row.payloadDigest ≠ request.payloadDigest then
      .error (.protocolIntegrity "event identity or payload conflicts with retained event")
    else .ok (row.receipt true,db)
  | none =>
    match dedupeBySequence db request.sessionId request.daemonEventSeq with
    | some row => .error (.protocolIntegrity ("event sequence " ++ toString request.daemonEventSeq ++
        " already belongs to " ++ row.eventId))
    | none => do
      let expected ← orError .invalidSessionState (expectedSequence session)
      if expected < request.daemonEventSeq then
        .error (.eventSequenceGap expected request.daemonEventSeq)
      else if request.daemonEventSeq ≤ session.eventAckThroughSeq then
        .error (.protocolIntegrity "event watermark has no retained matching identity")
      else do
        let db ← orError .database (insertEventDedupe db request.row)
        .ok (request.row.receipt false,
          db.updateSession request.sessionId (setCursor advanceCursor request.daemonEventSeq))

/-! ### Projection of clarification events -/

inductive ClarificationEvent
  | sessionStarted (runtimeId : String)
  | agentMessage (messageId content : String)
  | activity (activity : String)
  | completed (summary : String)
  | failed (recoverable : Bool) (reason : String)
  deriving DecidableEq, Repr

def ClarificationEvent.isSessionStarted : ClarificationEvent → Bool
  | .sessionStarted _ => true
  | _ => false

structure ProjectionRequest where
  eventId : String
  sessionId : String
  daemonEventSeq : ℕ
  payloadDigest : String
  payload : String
  event : ClarificationEvent
  deriving DecidableEq, Repr

def maxActivityChars : ℕ := 1000

def ProjectionRequest.check (d : Digests) (r : ProjectionRequest) :
    Except ClarificationEventError Unit :=
  if Text.blank r.eventId || Text.blank r.sessionId || decide (r.daemonEventSeq = 0) ||
      Text.blank r.payloadDigest || Text.blank r.payload then .error .integrity
  else if (match r.event with
      | .activity activity => Text.blank activity || decide (maxActivityChars < activity.length)
      | _ => false) then .error .projection
  else if d.canonical r.payload ≠ some r.payloadDigest then .error .integrity
  else if i64Max < r.daemonEventSeq then .error .integrity
  else .ok ()

def isUnknownFailure (reason : String) : Bool :=
  Text.contains (Text.toAsciiLowercase reason) "execution_outcome_unknown"

/-- Exponential delay with jitter, between five seconds and five minutes. -/
def retryDelaySeconds (attemptCount : ℕ) (jitterPercent : Fin 26) : ℕ :=
  let base := min (5*2^(min (attemptCount-1) 6)) 300
  min (base+base*jitterPercent.val/100) 300

/-- Why an event is durably rejected. -/
def projectionRejection (s : Session) (event : ClarificationEvent) : Option String :=
  if s.state.terminal then some "session_terminal"
  else if s.daemonId.isNone then some "session_unassigned"
  else if s.currentAttemptId.isNone then some "attempt_not_active"
  else if event.isSessionStarted && decide (s.state ≠ .idle) &&
      !(decide (s.state = .running) && s.runtimeId.isNone) then some "session_already_started"
  else none

/-- What a failure makes of the run: a retry after a delay, or a final class. -/
def failurePolicy (db : Db) (s : Session) (reason : String) : Except FailureClass FailureClass :=
  if s.cancelRequested then .error .cancelled
  else if isUnknownFailure reason then .error .executionOutcomeUnknown
  else if ownerValid db s.daemonId = false then .error .ownerUnavailable
  else if s.maxAttempts ≤ s.attemptCount then .error .retryExhausted
  else .ok .runtimeFailure

def openUnder (attemptId sessionId : String) (a : ExecutionAttempt) : Bool :=
  decide (a.id = attemptId) && decide (a.sessionId = sessionId) && a.outcome.isNone

def ExecutionAttempt.close (outcome : AttemptOutcome) (a : ExecutionAttempt) : ExecutionAttempt :=
  { a with outcome := some outcome }

/-- `UPDATE execution_attempts .. WHERE id AND session_id AND outcome IS NULL`; `none` when no
row is open under that id. -/
def closeAttempt (db : Db) (attemptId sessionId : String) (outcome : AttemptOutcome) : Option Db :=
  if db.attempts.any (openUnder attemptId sessionId) then
    some { db with
      attempts := Table.updateFirst (openUnder attemptId sessionId) (·.close outcome) db.attempts }
  else none

def startedSession (runtimeId : String) (s : Session) : Session :=
  { s with
    state := .running
    runtimeId := some runtimeId
    nextRetryAt := none
    failureClass := none }

def completedSession (summary : String) (s : Session) : Session :=
  { s with
    state := .completed
    terminalSummary := some summary
    currentAttemptId := none
    nextRetryAt := none
    failureClass := none }

def failedSession (state : SessionState) (retryAt : Option ℕ) (failure : FailureClass)
    (s : Session) : Session :=
  { s with
    state := state
    runtimeId := none
    currentAttemptId := none
    nextRetryAt := retryAt
    failureClass := some failure }

/-- `CHAR_LENGTH(BTRIM(body)) BETWEEN 1 AND 100000`. -/
def messageBodyValid (body : String) : Bool :=
  let trimmed := ((body.toList.dropWhile (· = ' ')).reverse.dropWhile (· = ' ')).length
  decide (1 ≤ trimmed) && decide (trimmed ≤ 100000)

def insertAgentMessage (db : Db) (conversationId eventId messageId content : String) :
    Except ClarificationEventError Db :=
  if messageBodyValid content = false then .error .projection
  else if db.messages.any fun m => decide (m.id = messageId) ||
      decide (m.sourceEventId = some eventId) then .error .integrity
  else .ok { db with messages := db.messages ++ [{
    id := messageId
    conversationId := conversationId
    kind := .agent
    body := content
    sourceEventId := some eventId }] }

def applyFailure (db : Db) (now : ℕ) (jitter : Fin 26) (s : Session) (eventId reason : String) :
    Except ClarificationEventError Db := do
  let attemptId ← orError .projection s.currentAttemptId
  let policy := failurePolicy db s reason
  let failure := match policy with
    | .ok failure | .error failure => failure
  let (state,retryAt) := match policy with
    | .ok _ => (SessionState.retrying,
        some (now+retryDelaySeconds s.attemptCount jitter*Db.second))
    | .error _ => (SessionState.failed,none)
  let closed ← orError .projection (closeAttempt db attemptId s.id (.failed eventId failure))
  -- `failure_event_id` is unique over all attempts
  if db.attempts.any fun a => match a.outcome with
      | some (.failed failureEventId _) => decide (failureEventId = eventId)
      | _ => false then .error .database
  else .ok (closed.updateSession s.id (failedSession state retryAt failure))

/-- The effect of an accepted event. -/
def applyEvent (db : Db) (now : ℕ) (jitter : Fin 26) (s : Session) (eventId : String) :
    ClarificationEvent → Except ClarificationEventError Db
  | .sessionStarted runtimeId => .ok (db.updateSession s.id (startedSession runtimeId))
  | .agentMessage messageId content => do
    let conversation ← orError .database (db.conversations.find? fun c =>
      decide (some c.requirementId = s.requirementId))
    insertAgentMessage db conversation.id eventId messageId content
  | .activity activity =>
    if db.activities.any fun a => decide (a.eventId = eventId) then .error .database
    else .ok { db with activities := db.activities ++ [⟨eventId,s.id,activity⟩] }
  | .completed summary => do
    let attemptId ← orError .projection s.currentAttemptId
    let db ← orError .projection (closeAttempt db attemptId s.id .completed)
    .ok (db.updateSession s.id (completedSession summary))
  | .failed _ reason => applyFailure db now jitter s eventId reason

def ProjectionRequest.row (r : ProjectionRequest) (rejection : Option String) : EventDedupe where
  eventId := r.eventId
  sessionId := r.sessionId
  daemonEventSeq := r.daemonEventSeq
  payloadDigest := r.payloadDigest
  payload := r.payload
  outcome := if rejection.isSome then .rejected else .accepted
  rejectionReason := rejection

def projectClarificationEvent (d : Digests) (now : ℕ) (jitter : Fin 26)
    (request : ProjectionRequest) (db : Db) :
    Except ClarificationEventError (EventReceipt × Db) := do
  request.check d
  let session ← orError .notClarificationSession (db.session? request.sessionId)
  if session.startMessageId.isNone then .error .notClarificationSession
  else match dedupeById db request.eventId with
  | some row =>
    if row.sessionId ≠ request.sessionId ∨ row.daemonEventSeq ≠ request.daemonEventSeq ∨
        row.payloadDigest ≠ request.payloadDigest then .error .integrity
    else .ok (row.receipt true,db)
  | none => do
    let expected ← orError .integrity (expectedSequence session)
    if expected < request.daemonEventSeq then .error (.gap expected request.daemonEventSeq)
    else if request.daemonEventSeq ≤ session.eventAckThroughSeq then .error .integrity
    else match dedupeBySequence db request.sessionId request.daemonEventSeq with
    | some row => .error (.sequenceConflict row.eventId)
    | none => do
      let rejection := projectionRejection session request.event
      let db ← (match rejection with
        | some _ => .ok db
        | none => applyEvent db now jitter session request.eventId request.event)
      let row := request.row rejection
      let db ← orError .database (insertEventDedupe db row)
      .ok (row.receipt false,
        db.updateSession request.sessionId (setCursor advanceProjectionCursor request.daemonEventSeq))

/-! ### Readiness assessments -/

structure AssessmentRequest where
  eventId : String
  sessionId : String
  daemonEventSeq : ℕ
  requirementId : String
  assessment : ReadinessAssessment
  eventDigest : String
  deriving DecidableEq, Repr

def AssessmentRequest.check (r : AssessmentRequest) : Except ReadinessError Unit :=
  if Text.blank r.eventId || Text.blank r.sessionId || Text.blank r.eventDigest ||
      decide (r.daemonEventSeq = 0) then .error .invalidEvidence
  else if decide (r.assessment.requirementRevision = 0) ||
      (r.assessment.repositoriesReviewed.any fun repository =>
        Text.blank repository.repositoryId || !completeCommitSha repository.commitSha) ||
      r.assessment.blockers.any Text.blank || r.assessment.assumptions.any Text.blank then
    .error .invalidEvidence
  else if i64Max < r.daemonEventSeq then .error .invalidEvidence
  else .ok ()

def sameAssessmentContent (existing incoming : ReadinessAssessment) : Bool :=
  decide (existing.requirementRevision = incoming.requirementRevision) &&
    decide (existing.verdict = incoming.verdict) &&
    decide (existing.blockers = incoming.blockers) &&
    decide (existing.assumptions = incoming.assumptions) &&
    decide (existing.repositoriesReviewed = incoming.repositoriesReviewed)

def statusName : RequirementStatus → String
  | .draft => "Draft"
  | .discussing => "Discussing"
  | .ready => "Ready"
  | .accepted => "Accepted"
  | .rejected => "Rejected"

def markReadyReason : MarkReadyError → String
  | .staleAssessment assessmentRevision currentRevision =>
    "stale_assessment:" ++ toString assessmentRevision ++ "!=" ++ toString currentRevision
  | .verdictNotReady => "verdict_not_ready"
  | .blockersPresent => "blockers_present"
  | .missingAcceptanceCriteria => "missing_acceptance_criteria"
  | .transition error =>
    "invalid_transition:" ++ statusName error.fromStatus ++ "->" ++ statusName error.toStatus

def repositoryCitationsExist (db : Db) (sessionRepositoryIds : List String)
    (repositories : List ReviewedRepository) : Bool :=
  repositories.all fun r => sessionRepositoryIds.contains r.repositoryId &&
    db.repositories.any fun known => decide (known.id = r.repositoryId)

/-- `INSERT INTO readiness_assessments` under its keys and the accepted-generation index. -/
def insertAssessment (db : Db) (row : AssessmentRow) : Except ReadinessError Db :=
  if i64Max < row.assessment.assessedAtMs then .error .invalidEvidence
  else if i64Max < row.assessment.requirementRevision then .error .invalidRevision
  else if row.acceptedStateVersion.any fun version => decide (i64Max < version) then
    .error .invalidEvidence
  else if db.assessments.any fun a => decide (a.id = row.id) || decide (a.eventId = row.eventId) ||
      (decide (a.sessionId = row.sessionId) && decide (a.daemonEventSeq = row.daemonEventSeq)) ||
      (decide (row.outcome = .accepted) && decide (a.outcome = .accepted) &&
        decide (a.requirementId = row.requirementId) &&
        decide (a.acceptedStateVersion = row.acceptedStateVersion)) then .error .database
  else .ok { db with assessments := db.assessments ++ [row] }

/-- The verdict of the domain on an assessment, with the requirement it leaves. -/
def judgeAssessment (db : Db) (session : Session) (requirement : Requirement)
    (assessment : ReadinessAssessment) : Option String × Requirement :=
  if repositoryCitationsExist db session.repositoryIds assessment.repositoriesReviewed = false then
    (some "unknown_repository",requirement)
  else match requirement.markReady assessment with
    | (.ok _,promoted) => (none,promoted)
    | (.error error,kept) => (some (markReadyReason error),kept)

def AssessmentRequest.record (r : AssessmentRequest) (assessmentId : String)
    (requirementId : Option String) (rejection : Option String)
    (acceptedStateVersion : Option ℕ) : AssessmentRow where
  id := assessmentId
  eventId := r.eventId
  sessionId := r.sessionId
  daemonEventSeq := r.daemonEventSeq
  eventRequirementId := r.requirementId
  requirementId := requirementId
  assessment := r.assessment
  outcome := if rejection.isSome then .rejected else .accepted
  acceptedStateVersion := acceptedStateVersion
  rejectionReason := rejection

/-- The dedupe row of an assessment keeps the digest in place of the payload. -/
def AssessmentRequest.row (r : AssessmentRequest) (rejection : Option String) : EventDedupe where
  eventId := r.eventId
  sessionId := r.sessionId
  daemonEventSeq := r.daemonEventSeq
  payloadDigest := r.eventDigest
  payload := r.eventDigest
  outcome := if rejection.isSome then .rejected else .accepted
  rejectionReason := rejection

def readinessError : RequirementError → ReadinessError
  | .invalidRevision => .invalidRevision
  | .conflict | .invalidStateVersion => .invalidEvidence

/-- Promote the requirement and leave the audit row that names the assessment. -/
def promote (db : Db) (requirement promoted : Requirement) (eventId assessmentId : String) :
    Except ReadinessError Db := do
  let db ← (updateRequirement db promoted requirement.stateVersion).mapError readinessError
  if i64Max < promoted.stateVersion then .error .invalidEvidence
  else .ok { db with audit := db.audit ++ [{
    requirementId := promoted.id
    actorId := eventId
    transition := "mark_ready"
    fromStatus := .discussing
    toStatus := promoted.status
    assessmentId := some assessmentId
    stateVersion := promoted.stateVersion }] }

/-- Evidence, and the promotion to Ready when every gate of the domain passes. -/
def applyAssessment (db : Db) (session : Session) (assessmentId : String) (request : AssessmentRequest) :
    Except ReadinessError (Option String × AssessmentRow × Db) :=
  match db.requirement? request.requirementId with
  | none => do
    let rejection := some "requirement_not_found"
    let row := request.record assessmentId none rejection none
    let db ← insertAssessment db row
    .ok (rejection,row,db)
  | some requirement => do
    let (rejection,judged) := judgeAssessment db session requirement request.assessment
    let row := request.record assessmentId (some request.requirementId) rejection
      (if rejection.isSome then none else some judged.stateVersion)
    let db ← insertAssessment db row
    let db ← (if rejection.isSome then .ok db
      else promote db requirement judged request.eventId assessmentId)
    .ok (rejection,row,db)

structure ReadinessAssessmentResult where
  record : AssessmentRow
  duplicate : Bool
  deriving DecidableEq, Repr

def assessmentBySequence (db : Db) (sessionId : String) (sequence : ℕ) : Option AssessmentRow :=
  db.assessments.find? fun a => decide (a.sessionId = sessionId) &&
    decide (a.daemonEventSeq = sequence)

def recordReadinessAssessmentWithEventDigest (assessmentId : String) (request : AssessmentRequest)
    (db : Db) : Except ReadinessError (ReadinessAssessmentResult × Db) := do
  request.check
  let session ← orError .sessionRequirementMismatch ((db.session? request.sessionId).filter fun s =>
    decide (s.requirementId = some request.requirementId))
  if (dedupeById db request.eventId).any fun row => decide (row.sessionId ≠ request.sessionId) ||
      decide (row.daemonEventSeq ≠ request.daemonEventSeq) ||
      (!row.legacyIdentity && decide (row.payloadDigest ≠ request.eventDigest)) then
    .error .eventIdentityConflict
  else match db.assessments.find? fun a => decide (a.eventId = request.eventId) with
  | some record =>
    if record.sessionId ≠ request.sessionId ∨ record.daemonEventSeq ≠ request.daemonEventSeq ∨
        record.eventRequirementId ≠ request.requirementId ∨
        sameAssessmentContent record.assessment request.assessment = false then
      .error .eventIdentityConflict
    else .ok (⟨record,true⟩,db)
  | none => do
    let expected ← orError .invalidEvidence (expectedSequence session)
    if expected < request.daemonEventSeq then .error (.sequenceGap expected request.daemonEventSeq)
    else if request.daemonEventSeq ≤ session.eventAckThroughSeq then .error .sequenceConflict
    else if (assessmentBySequence db request.sessionId request.daemonEventSeq).any fun a =>
        decide (a.eventId ≠ request.eventId) then .error .sequenceConflict
    else if (dedupeBySequence db request.sessionId request.daemonEventSeq).isSome then
      .error .sequenceConflict
    else do
      let (rejection,record,db) ← applyAssessment db session assessmentId request
      let db ← orError .database (insertEventDedupe db (request.row rejection))
      .ok (⟨record,false⟩,
        db.updateSession request.sessionId (setCursor advanceCursor request.daemonEventSeq))

end Store
end North
