import North.RequirementRuns
import North.EventCalls

/-! The transactions that write a requirement row, each cut at its `lock_requirement`:
what follows the lock is a function of the row read under it and of the tables at the
commit. `requirements.rs` has the transition and the edit, `readiness.rs` the promotion,
and `clarification.rs` the first discussion. -/
namespace North
namespace Store

open Machine Protocol Domain

/-- `CHAR_LENGTH(BTRIM(text)) BETWEEN 1 AND bound`. -/
def trimmedWithin (bound : ℕ) (text : String) : Bool :=
  let trimmed := ((text.toList.dropWhile (· = ' ')).reverse.dropWhile (· = ' ')).length
  decide (1 ≤ trimmed) && decide (trimmed ≤ bound)

/-- The `CHECK` constraints on the texts of a requirement row. -/
def requirementTextsValid (r : Requirement) : Bool :=
  trimmedWithin 500 r.title && trimmedWithin 10000 r.description

inductive RequirementCallError
  | database
  | notFound
  | write (error : RequirementError)
  | invalidTransition (error : InvalidTransition)
  | edit (error : EditError)
  deriving DecidableEq, Repr

def createRequirement (id title description createdBy conversationId : String) (db : Db) :
    Except RequirementCallError (Requirement × Db) :=
  let requirement := Requirement.new id title description createdBy
  if db.requirements.any fun r => decide (r.id = id) then .error .database
  else if requirementTextsValid requirement = false then .error .database
  else if db.conversations.any fun c => decide (c.id = conversationId) ||
      decide (c.requirementId = id) then .error .database
  else .ok (requirement,{ db with
    requirements := db.requirements ++ [requirement]
    conversations := db.conversations ++ [⟨conversationId,id⟩] })

/-! ### Transitions -/

inductive RequirementTransition
  | beginDiscussion | accept | reject | requestChanges | reopen
  deriving DecidableEq, Repr

namespace RequirementTransition

def asStr : RequirementTransition → String
  | beginDiscussion => "begin_discussion"
  | accept => "accept"
  | reject => "reject"
  | requestChanges => "request_changes"
  | reopen => "reopen"

def apply : RequirementTransition → Requirement → Except InvalidTransition Unit × Requirement
  | beginDiscussion, r => r.beginDiscussion
  | accept, r => r.accept
  | reject, r => r.reject
  | requestChanges, r => r.requestChanges
  | reopen, r => r.reopen

def operation : RequirementTransition → Operation
  | beginDiscussion => .beginDiscussion
  | accept => .accept
  | reject => .reject
  | requestChanges => .requestChanges
  | reopen => .reopen

/-- The transitions a reviewer decides on an assessment. -/
def review : RequirementTransition → Bool
  | accept | reject | requestChanges => true
  | beginDiscussion | reopen => false

end RequirementTransition

structure TransitionRequest where
  requirementId : String
  expectedStateVersion : ℕ
  actorId : String
  transition : RequirementTransition
  feedback : Option String := none
  assessmentId : Option String := none
  deriving DecidableEq, Repr

/-- The accepted evidence of one Ready generation. Rows of an unknown generation have no
`accepted_state_version`. -/
def AssessmentRow.backs (a : AssessmentRow) (requirementId : String) (revision stateVersion : ℕ) :
    Bool :=
  decide (a.requirementId = some requirementId) &&
    decide (a.assessment.requirementRevision = revision) &&
    decide (a.acceptedStateVersion = some stateVersion) && decide (a.outcome = .accepted)

def currentReviewAssessment (db : Db) (requirementId : String) (revision stateVersion : ℕ)
    (assessmentId : String) : Except RequirementError Unit :=
  if i64Max < revision then .error .invalidRevision
  else if i64Max < stateVersion then .error .invalidStateVersion
  else if db.assessments.any fun a => decide (a.id = assessmentId) &&
      a.backs requirementId revision stateVersion then .ok ()
  else .error .conflict

/-- A review decision names current evidence; the other transitions name none. -/
def reviewGate (db : Db) (request : TransitionRequest) (requirement : Requirement) :
    Except RequirementError Unit :=
  if request.transition.review then
    match request.assessmentId.filter fun value => !Text.blank value with
    | none => .error .conflict
    | some assessmentId => currentReviewAssessment db requirement.id requirement.revision
        requirement.stateVersion assessmentId
  else if request.assessmentId.isSome then .error .conflict
  else .ok ()

/-- `transition_requirement_with_feedback` after its lock. -/
def transitionLocked (request : TransitionRequest) (requirement : Requirement) (db : Db) :
    Except RequirementCallError (Requirement × Db) :=
  if requirement.stateVersion ≠ request.expectedStateVersion then .error (.write .conflict)
  else do
    (reviewGate db request requirement).mapError .write
    match request.transition.apply requirement with
    | (.error error,_) => .error (.invalidTransition error)
    | (.ok _,transitioned) => do
      let db ← (updateRequirement db transitioned request.expectedStateVersion).mapError .write
      if request.feedback.any fun feedback => !trimmedWithin 10000 feedback then .error .database
      else if i64Max < transitioned.stateVersion then .error (.write .invalidStateVersion)
      else .ok (transitioned,{ db with audit := db.audit ++ [{
        requirementId := transitioned.id
        actorId := request.actorId
        transition := request.transition.asStr
        fromStatus := requirement.status
        toStatus := transitioned.status
        feedback := request.feedback
        assessmentId := request.assessmentId
        stateVersion := transitioned.stateVersion }] })

def transitionRequirementWithFeedback (request : TransitionRequest) (db : Db) :
    Except RequirementCallError (Requirement × Db) := do
  let row ← orError .notFound (db.requirement? request.requirementId)
  transitionLocked request row db

/-! ### Edits -/

structure EditRequest where
  requirementId : String
  expectedStateVersion : ℕ
  actorId : String
  edit : RequirementEdit
  deriving DecidableEq, Repr

/-- `edit_requirement_with_actor` after its lock: an edit that changes nothing commits
nothing, and only the demotion of a Ready requirement is audited. -/
def editLocked (request : EditRequest) (requirement : Requirement) (db : Db) :
    Except RequirementCallError (Requirement × Db) :=
  if requirement.stateVersion ≠ request.expectedStateVersion then .error (.write .conflict)
  else match requirement.applyEdit request.edit with
    | (.error error,_) => .error (.edit error)
    | (.ok _,edited) =>
      if edited.stateVersion = request.expectedStateVersion then .ok (requirement,db)
      else do
        let db ← (updateRequirement db edited request.expectedStateVersion).mapError .write
        if requirementTextsValid edited = false then .error .database
        else if requirement.status = .ready then
          if i64Max < edited.stateVersion then .error (.write .invalidStateVersion)
          else .ok (edited,{ db with audit := db.audit ++ [{
            requirementId := edited.id
            actorId := request.actorId
            transition := "edit_demotes_ready"
            fromStatus := .ready
            toStatus := edited.status
            stateVersion := edited.stateVersion }] })
        else .ok (edited,db)

/-! ### Assessments and starts over the row read under the lock -/

/-- `applyAssessment` with the answer of `lock_requirement` in hand. -/
def applyAssessmentTo (row : Option Requirement) (db : Db) (session : Session)
    (assessmentId : String) (request : AssessmentRequest) :
    Except ReadinessError (Option String × AssessmentRow × Db) :=
  match row with
  | none => do
    let rejection := some "requirement_not_found"
    let record := request.record assessmentId none rejection none
    let db ← insertAssessment db record
    .ok (rejection,record,db)
  | some requirement => do
    let (rejection,judged) := judgeAssessment db session requirement request.assessment
    let record := request.record assessmentId (some request.requirementId) rejection
      (if rejection.isSome then none else some judged.stateVersion)
    let db ← insertAssessment db record
    let db ← (if rejection.isSome then .ok db
      else promote db requirement judged request.eventId assessmentId)
    .ok (rejection,record,db)

/-- `record_readiness_assessment_with_event_digest`; `row` is what its lock answers. -/
def assessLocked (assessmentId : String) (request : AssessmentRequest) (row : Option Requirement)
    (db : Db) : Except ReadinessError (ReadinessAssessmentResult × Db) := do
  request.check
  let session ← orError .sessionRequirementMismatch ((db.session? request.sessionId).filter fun s =>
    decide (s.requirementId = some request.requirementId))
  if (dedupeById db request.eventId).any fun row => decide (row.sessionId ≠ request.sessionId) ||
      decide (row.daemonEventSeq ≠ request.daemonEventSeq) ||
      (!row.legacyIdentity && decide (row.payloadDigest ≠ request.eventDigest)) then
    .error .eventIdentityConflict
  else match db.assessments.find? fun a => decide (a.eventId = request.eventId) with
  | some record =>
    if record.sessionId ≠ request.sessionId ∨ record.daemonEventSeq ≠ request.daemonEventSeq ∨
        record.eventRequirementId ≠ request.requirementId ∨
        sameAssessmentContent record.assessment request.assessment = false then
      .error .eventIdentityConflict
    else .ok (⟨record,true⟩,db)
  | none => do
    let expected ← orError .invalidEvidence (expectedSequence session)
    if expected < request.daemonEventSeq then .error (.sequenceGap expected request.daemonEventSeq)
    else if request.daemonEventSeq ≤ session.eventAckThroughSeq then .error .sequenceConflict
    else if (assessmentBySequence db request.sessionId request.daemonEventSeq).any fun a =>
        decide (a.eventId ≠ request.eventId) then .error .sequenceConflict
    else if (dedupeBySequence db request.sessionId request.daemonEventSeq).isSome then
      .error .sequenceConflict
    else do
      let (rejection,record,db) ← applyAssessmentTo row db session assessmentId request
      let db ← orError .database (insertEventDedupe db (request.row rejection))
      .ok (⟨record,false⟩,
        db.updateSession request.sessionId (setCursor advanceCursor request.daemonEventSeq))

/-- `start_clarification` after its lock. -/
def startLocked (d : Digests) (now : ℕ) (runId : String) (draw : Draw)
    (input : ClarificationStartInput) (requirement : Requirement) (db : Db) :
    Except ClarificationError (ClarificationStartResult × Db) :=
  if input.valid = false then .error .invalidContext
  else if (db.requesterMessage? input.requirementId input.startMessageId).isNone then
    .error .messageNotFound
  else match db.sessions.find? (openRunOf input.requirementId) with
    | some occupant => reuseRun d now draw input occupant db
    | none => createRun d now runId draw input requirement db

theorem applyAssessment_eq (db : Db) (session : Session) (assessmentId : String)
    (request : AssessmentRequest) : applyAssessment db session assessmentId request =
      applyAssessmentTo (db.requirement? request.requirementId) db session assessmentId request := by
  unfold applyAssessment applyAssessmentTo
  cases db.requirement? request.requirementId <;> rfl

/-- Without an interleaved write the transaction is the one that reads its own row. -/
theorem assessLocked_eq (assessmentId : String) (request : AssessmentRequest) (db : Db) :
    assessLocked assessmentId request (db.requirement? request.requirementId) db =
      recordReadinessAssessmentWithEventDigest assessmentId request db := by
  have happly : applyAssessment = fun db session assessmentId request =>
      applyAssessmentTo (db.requirement? request.requirementId) db session assessmentId request := by
    funext db session assessmentId request
    exact applyAssessment_eq db session assessmentId request
  unfold recordReadinessAssessmentWithEventDigest
  rewrite [happly]
  rfl

theorem startLocked_eq {d : Digests} {now : ℕ} {runId : String} {draw : Draw}
    {input : ClarificationStartInput} {requirement : Requirement} {db : Db}
    (h : db.requirement? input.requirementId = some requirement) :
    startLocked d now runId draw input requirement db =
      startClarification d now runId draw input db := by
  unfold startLocked startClarification
  rw [h]
  rfl

end Store
end North
