import North.StoreState
import North.StoreCommands

/-! The transactions that create and steer clarification runs: start, message
dispatch, cancellation and the claim of due retries. Each reads and writes the
tables of `StoreState`; new ids, the clock and the jitter are arguments. -/
namespace North
namespace Store

open Machine Protocol Domain

inductive ClarificationPhase
  | awaitingAssignment | active | terminal
  deriving DecidableEq, Repr

inductive ClarificationStatus
  | starting | running | retrying | completed | failed | unavailable
  deriving DecidableEq, Repr

structure ClarificationRun where
  runId : String
  requirementId : String
  startMessageId : String
  phase : ClarificationPhase
  status : ClarificationStatus
  cancelRequested : Bool
  attemptCount : ℕ
  nextRetryAt : Option ℕ
  failureReason : Option FailureClass
  daemonId : Option String
  currentAttemptId : Option String
  startCommandId : Option String
  cancelCommandId : Option String
  deriving DecidableEq, Repr

def runPhase (state : SessionState) (assigned : Bool) : Option ClarificationPhase :=
  match state, assigned with
  | .completed, _ | .failed, _ => some .terminal
  | .idle, false => some .awaitingAssignment
  | .idle, true | .running, true | .retrying, true => some .active
  | .running, false | .retrying, false => none

def runStatus (s : Session) (connected : Bool) : ClarificationStatus :=
  match s.state with
  | .idle => if s.daemonId.isSome && connected then .starting else .unavailable
  | .running =>
    if s.runtimeId.isNone && s.currentAttemptId.isSome && connected then .starting
    else if connected then .running else .unavailable
  | .retrying => .retrying
  | .completed => .completed
  | .failed => .failed

/-- `RunRow::into_run`; a row without requirement or start message does not decode. -/
def intoRun (db : Db) (now : ℕ) (s : Session) : Except ClarificationError ClarificationRun := do
  let requirementId ← orError .database s.requirementId
  let startMessageId ← orError .database s.startMessageId
  let phase ← orError .invalidSessionState (runPhase s.state s.daemonId.isSome)
  .ok {
    runId := s.id
    requirementId := requirementId
    startMessageId := startMessageId
    phase := phase
    status := runStatus s (db.daemonConnected now s.daemonId)
    cancelRequested := s.cancelRequested
    attemptCount := s.attemptCount
    nextRetryAt := s.nextRetryAt
    failureReason := s.failureClass
    daemonId := s.daemonId
    currentAttemptId := s.currentAttemptId
    startCommandId := s.startCommandId
    cancelCommandId := s.cancelCommandId }

def runRow (db : Db) (now : ℕ) (runId : String) : Except ClarificationError ClarificationRun := do
  let s ← orError .database (db.session? runId)
  intoRun db now s

/-- The run row of a requirement, `WHERE id AND requirement_id AND start_message_id IS NOT NULL`. -/
def runOfRequirement (db : Db) (requirementId runId : String) : Option Session :=
  (db.session? runId).filter fun s =>
    decide (s.requirementId = some requirementId) && s.startMessageId.isSome

def executionAttemptId (d : Digests) (sessionId : String) (attemptNumber : ℕ) : String :=
  "attempt-" ++ d.text sessionId ++ "-" ++ toString attemptNumber

/-- `INSERT INTO execution_attempts` under its primary key and unique columns. -/
def insertExecutionAttempt (db : Db) (attempt : ExecutionAttempt) : Option Db :=
  if db.attempts.any fun a => decide (a.id = attempt.id) || decide (a.commandId = attempt.commandId) ||
      (decide (a.sessionId = attempt.sessionId) &&
        decide (a.attemptNumber = attempt.attemptNumber)) then none
  else some (db.addAttempt attempt)

inductive RequirementError
  | conflict | invalidRevision | invalidStateVersion
  deriving DecidableEq, Repr

/-- `UPDATE requirements .. WHERE id AND state_version`: the optimistic write. -/
def updateRequirement (db : Db) (r : Requirement) (expectedStateVersion : ℕ) :
    Except RequirementError Db :=
  if i64Max < r.revision then .error .invalidRevision
  else if i64Max < r.stateVersion ∨ i64Max < expectedStateVersion then .error .invalidStateVersion
  else if db.requirements.any fun q => decide (q.id = r.id) &&
      decide (q.stateVersion = expectedStateVersion) then
    .ok { db with
      requirements := Table.updateFirst (fun q => decide (q.id = r.id) &&
        decide (q.stateVersion = expectedStateVersion))
        (fun q => { r with createdBy := q.createdBy }) db.requirements }
  else .error .conflict

def requirementError : RequirementError → ClarificationError
  | .conflict => .stateVersionConflict
  | .invalidRevision | .invalidStateVersion => .invalidContext

structure ClarificationStartInput where
  requirementId : String
  startMessageId : String
  expectedStateVersion : ℕ
  context : SessionStart
  contextRequirementRevision : ℕ
  repositoryIds : List String
  requiredCapabilities : List String
  deriving DecidableEq, Repr

/-- `windows(2)` holds no equal pair. -/
def adjacentDistinct : List String → Bool
  | a::b::rest => decide (a ≠ b) && adjacentDistinct (b::rest)
  | _ => true

def validStartContext (input : ClarificationStartInput) : Bool :=
  decide (input.context.requirement.id = input.requirementId) &&
    decide (input.context.requirement.revision = input.contextRequirementRevision) &&
    (input.context.excerpt.any fun m => decide (m.messageId = input.startMessageId)) &&
    decide (input.context.repositories.map (·.repositoryId) = input.repositoryIds) &&
    adjacentDistinct input.repositoryIds &&
    !input.requiredCapabilities.isEmpty &&
    input.requiredCapabilities.all fun c => !Text.blank c

def ClarificationStartInput.valid (input : ClarificationStartInput) : Bool :=
  !(Text.blank input.requirementId || Text.blank input.startMessageId ||
    decide (input.expectedStateVersion = 0) || decide (input.contextRequirementRevision = 0) ||
    !validStartContext input)

structure ClarificationStartResult where
  run : ClarificationRun
  commandId : Option String
  reused : Bool
  deriving DecidableEq, Repr

/-- Insert the first command of a run with its attempt. -/
def insertStart (d : Digests) (db : Db) (draw : Draw) (runId daemonId : String) (sequence : ℕ)
    (payload : CommandEnvelope) : Except ClarificationError Db := do
  let db ← orError .database (insertCommand d db draw.commandId runId daemonId sequence payload)
  orError .database (insertExecutionAttempt db {
    id := executionAttemptId d runId 1
    sessionId := runId
    attemptNumber := 1
    commandId := draw.commandId
    commandKind := .sessionStart })

/-- Commit a reused run: the command id is hidden while it is retrying. -/
def reusedResult (db : Db) (now : ℕ) (runId commandId : String) :
    Except ClarificationError (ClarificationStartResult × Db) := do
  let run ← runRow db now runId
  let command := if run.status = .retrying then none
    else if commandId.isEmpty then none else some commandId
  .ok ({ run := run, commandId := command, reused := true },db)

def beginRun (attemptId : String) (s : Session) : Session :=
  { s with
    attemptCount := 1
    currentAttemptId := some attemptId }

def assignRun (daemonId commandId attemptId : String) (s : Session) : Session :=
  { beginRun attemptId s with
    daemonId := some daemonId
    startCommandId := some commandId }

/-- The open run of the requirement: assigned to a daemon now if it has none. -/
def reuseRun (d : Digests) (now : ℕ) (draw : Draw) (input : ClarificationStartInput)
    (occupant : Session) (db : Db) : Except ClarificationError (ClarificationStartResult × Db) :=
  if occupant.startMessageId ≠ some input.startMessageId then .error .existingRunDifferentStart
  else do
    let run ← intoRun db now occupant
    if run.daemonId.isNone && !run.cancelRequested then
      match chooseEligibleDaemon db now input.requiredCapabilities with
      | none => .ok ({ run := run, commandId := run.startCommandId, reused := true },db)
      | some daemonId => do
        let sequence ← orError .database (nextCommandSequence db run.runId)
        let startContext ← orError .database occupant.startContext
        let payload ← orError .invalidContext (commandFrame draw.sentAt run.runId draw.commandId
          sequence (.sessionStart startContext))
        let db ← insertStart d db draw run.runId daemonId sequence payload
        let db := db.updateSession run.runId
          (assignRun daemonId draw.commandId (executionAttemptId d run.runId 1))
        reusedResult db now run.runId draw.commandId
    else reusedResult db now run.runId (run.startCommandId.getD "")

/-- A first discussion moves a draft on, in the transaction of the new run. -/
def openDiscussion (db : Db) (requirement : Requirement) (expectedStateVersion : ℕ) :
    Except ClarificationError Db :=
  if requirement.status ≠ .draft then .ok db
  else match requirement.beginDiscussion with
    | (.error _,_) => .error .stateVersionConflict
    | (.ok _,transitioned) => do
      let db ← (updateRequirement db transitioned expectedStateVersion).mapError requirementError
      if i64Max < transitioned.stateVersion then .error .invalidSessionState
      else .ok { db with audit := db.audit ++ [{
        requirementId := requirement.id
        actorId := "clarification"
        transition := "begin_discussion"
        fromStatus := .draft
        toStatus := .discussing
        stateVersion := transitioned.stateVersion }] }

def freshRun (input : ClarificationStartInput) (runId : String) (daemonId startCommandId : Option String) :
    Session where
  id := runId
  daemonId := daemonId
  requirementId := some input.requirementId
  startMessageId := some input.startMessageId
  startContext := some input.context
  startCommandId := startCommandId
  repositoryIds := input.repositoryIds
  repositoryContextInitialized := true

def openRunOf (requirementId : String) (s : Session) : Bool :=
  decide (s.requirementId = some requirementId) && s.startMessageId.isSome && !s.state.terminal

def insertRun (db : Db) (s : Session) : Option Db :=
  if db.sessions.any fun t => decide (t.id = s.id) || s.requirementId.any fun r => openRunOf r t then none
  else some (db.addSession s)

def createRun (d : Digests) (now : ℕ) (runId : String) (draw : Draw)
    (input : ClarificationStartInput) (requirement : Requirement) (db : Db) :
    Except ClarificationError (ClarificationStartResult × Db) :=
  if db.sessions.any fun s => decide (s.requirementId = some input.requirementId) &&
      decide (s.startMessageId = some input.startMessageId) && s.state.terminal then
    .error .runNotEligible
  else if requirement.stateVersion ≠ input.expectedStateVersion then .error .stateVersionConflict
  else if requirement.revision ≠ input.contextRequirementRevision then .error .stateVersionConflict
  else do
    let db ← openDiscussion db requirement input.expectedStateVersion
    if !input.repositoryIds.all db.activeRepository then .error .invalidContext
    else match chooseEligibleDaemon db now input.requiredCapabilities with
      | none => do
        let db ← orError .database (insertRun db (freshRun input runId none none))
        let run ← runRow db now runId
        .ok ({ run := run, commandId := none, reused := false },db)
      | some daemonId => do
        let payload ← orError .invalidContext (commandFrame draw.sentAt runId draw.commandId 1
          (.sessionStart input.context))
        let db ← orError .database (insertRun db
          (freshRun input runId (some daemonId) (some draw.commandId)))
        let db ← insertStart d db draw runId daemonId 1 payload
        let db := db.updateSession runId (beginRun (executionAttemptId d runId 1))
        let run ← runRow db now runId
        .ok ({ run := run, commandId := some draw.commandId, reused := false },db)

/-- Create or reuse the one open run of a requirement. -/
def startClarification (d : Digests) (now : ℕ) (runId : String) (draw : Draw)
    (input : ClarificationStartInput) (db : Db) :
    Except ClarificationError (ClarificationStartResult × Db) :=
  if input.valid = false then .error .invalidContext
  else do
    let requirement ← orError .requirementNotFound (db.requirement? input.requirementId)
    if (db.requesterMessage? input.requirementId input.startMessageId).isNone then
      .error .messageNotFound
    -- the slot index leaves at most one open run, so the order of the query does not matter
    else match db.sessions.find? (openRunOf input.requirementId) with
      | some occupant => reuseRun d now draw input occupant db
      | none => createRun d now runId draw input requirement db

structure ClarificationCommandResult where
  run : ClarificationRun
  commandId : String
  deriving DecidableEq, Repr

def mapMessage (db : Db) (m : MessageCommand) : Option Db :=
  if db.messageCommands.any fun n => decide (n.commandId = m.commandId) ||
      (decide (n.sessionId = m.sessionId) && decide (n.messageId = m.messageId)) then none
  else some { db with messageCommands := db.messageCommands ++ [m] }

def sendMessage (d : Digests) (draw : Draw) (runId daemonId messageId : String) (body : String)
    (db : Db) : Except ClarificationError Db := do
  let sequence ← orError .database (nextCommandSequence db runId)
  let payload ← orError .invalidContext (commandFrame draw.sentAt runId draw.commandId sequence
    (.messageSend messageId body))
  let db ← orError .database (mapMessage db ⟨runId,messageId,draw.commandId,d.text body⟩)
  orError .database (insertCommand d db draw.commandId runId daemonId sequence payload)

/-- Turn one requester message into at most one `message.send` command. -/
def dispatchClarificationMessage (d : Digests) (now : ℕ) (draw : Draw)
    (requirementId runId messageId : String) (db : Db) :
    Except ClarificationError (ClarificationCommandResult × Db) := do
  let s ← orError .runNotFound (runOfRequirement db requirementId runId)
  let run ← intoRun db now s
  match run.daemonId with
  | none => .error .runNotEligible
  | some daemonId =>
    if run.phase ≠ .active ∨ run.cancelRequested = true ∨ run.currentAttemptId = none then
      .error .runNotEligible
    else if run.startMessageId = messageId then .error .invalidMessage
    else do
      let message ← orError .messageNotFound (db.requesterMessage? requirementId messageId)
      match db.messageCommands.find? fun m => decide (m.sessionId = runId) &&
          decide (m.messageId = messageId) with
      | some m =>
        if m.contentDigest ≠ d.text message.body then .error .commandConflict
        else do
          let run ← runRow db now runId
          .ok (⟨run,m.commandId⟩,db)
      | none => do
        let db ← sendMessage d draw runId daemonId messageId message.body db
        let run ← runRow db now runId
        .ok (⟨run,draw.commandId⟩,db)

/-- The cancellation mark; a run without current attempt fails on the spot. -/
def markCancelled (s : Session) : Session :=
  match s.currentAttemptId with
  | some _ => { s with cancelRequested := true }
  | none => { s with
      cancelRequested := true
      state := .failed
      nextRetryAt := none
      failureClass := some .cancelled }

def nameCancel (commandId : String) (s : Session) : Session :=
  { s with cancelCommandId := some commandId }

def sendCancel (d : Digests) (draw : Draw) (runId daemonId : String) (db : Db) :
    Except ClarificationError Db := do
  let sequence ← orError .database (nextCommandSequence db runId)
  let payload ← orError .invalidContext (commandFrame draw.sentAt runId draw.commandId sequence
    (.sessionCancel "requester_cancelled"))
  let db ← orError .database (insertCommand d db draw.commandId runId daemonId sequence payload)
  .ok (db.updateSession runId (nameCancel draw.commandId))

def cancelClarification (d : Digests) (now : ℕ) (draw : Draw) (requirementId runId : String)
    (db : Db) : Except ClarificationError (ClarificationCommandResult × Db) := do
  let s ← orError .runNotFound (runOfRequirement db requirementId runId)
  let current ← intoRun db now s
  if current.phase = .terminal then
    if current.cancelRequested = false then .error .runNotEligible
    else .ok (⟨current,""⟩,db)
  else do
    let db := db.updateSession runId markCancelled
    let current ← runRow db now runId
    if current.currentAttemptId = none then .ok (⟨current,""⟩,db)
    else match current.daemonId with
      | none => .ok (⟨current,""⟩,db)
      | some daemonId =>
        match current.cancelCommandId with
        | some commandId => do
          let run ← runRow db now runId
          .ok (⟨run,commandId⟩,db)
        | none => do
          let db ← sendCancel d draw runId daemonId db
          let run ← runRow db now runId
          .ok (⟨run,draw.commandId⟩,db)

structure RetryWork where
  requirementId : Option String
  command : Option PinnedCommand
  deriving DecidableEq, Repr

def dueRetry (now : ℕ) (s : Session) : Bool :=
  decide (s.state = .retrying) && (s.nextRetryAt.any fun due => decide (due ≤ now)) &&
    s.currentAttemptId.isNone

/-- `ORDER BY next_retry_at ASC, id ASC`. -/
def retryOrder (a b : Session) : Prop :=
  a.nextRetryAt.getD 0 < b.nextRetryAt.getD 0 ∨
    a.nextRetryAt.getD 0 = b.nextRetryAt.getD 0 ∧ a.id ≤ b.id

instance (a b : Session) : Decidable (retryOrder a b) := by
  unfold retryOrder
  infer_instance

/-- The due rows of one claim; rows that another transaction locks are skipped. -/
def dueRetries (db : Db) (now limit : ℕ) (locked : String → Bool) : List Session :=
  ((db.sessions.filter fun s => dueRetry now s && !locked s.id).insertionSort retryOrder).take limit

def ownerValid (db : Db) (daemonId : Option String) : Bool :=
  match daemonId.bind db.registration? with
  | none => false
  | some r => !r.revoked

/-- Why a due run is not resumed. -/
def retryRefusal (db : Db) (row : Session) : Option FailureClass :=
  if row.cancelRequested then some .cancelled
  else if row.maxAttempts ≤ row.attemptCount then some .retryExhausted
  else if ownerValid db row.daemonId then none
  else some .ownerUnavailable

def failRetry (failure : FailureClass) (s : Session) : Session :=
  { s with
    state := .failed
    nextRetryAt := none
    currentAttemptId := none
    failureClass := some failure }

def resumeRun (attemptNumber : ℕ) (attemptId : String) (s : Session) : Session :=
  { s with
    state := .running
    attemptCount := attemptNumber
    currentAttemptId := some attemptId
    nextRetryAt := none
    runtimeId := none
    failureClass := none }

def claimRetry (d : Digests) (draw : String → Draw) (claimed : List RetryWork × Db)
    (row : Session) : Except ClarificationError (List RetryWork × Db) :=
  let (work,db) := claimed
  match retryRefusal db row with
  | some failure =>
    .ok (work ++ [⟨row.requirementId,none⟩],db.updateSession row.id (failRetry failure))
  | none => do
    let daemonId ← orError .invalidSessionState row.daemonId
    let attemptNumber ← orError .invalidSessionState (checkedSucc i64Max row.attemptCount)
    let command := draw row.id
    let sequence ← orError .database (nextCommandSequence db row.id)
    let payload ← orError .invalidContext (commandFrame command.sentAt row.id command.commandId
      sequence .sessionResume)
    let db ← orError .database (insertCommand d db command.commandId row.id daemonId sequence payload)
    let attemptId := executionAttemptId d row.id attemptNumber
    let db ← orError .database (insertExecutionAttempt db {
      id := attemptId
      sessionId := row.id
      attemptNumber := attemptNumber
      commandId := command.commandId
      commandKind := .sessionResume })
    let pinned : PinnedCommand := {
      commandId := command.commandId
      sessionId := row.id
      daemonId := daemonId
      serverCommandSeq := sequence
      payload := some payload
      payloadDigest := d.payload payload
      commandIdentityDigest := d.identity payload
      compacted := false }
    .ok (work ++ [⟨row.requirementId,some pinned⟩],
      db.updateSession row.id (resumeRun attemptNumber attemptId))

def claimDueRetries (d : Digests) (now limit : ℕ) (locked : String → Bool) (draw : String → Draw)
    (db : Db) : Except ClarificationError (List RetryWork × Db) :=
  if limit < 1 ∨ 1000 < limit then .error .invalidContext
  else (dueRetries db now limit locked).foldlM (claimRetry d draw) ([],db)

end Store
end North
