import North.Lib.Text
import North.Lib.Machine

/-! The requirement aggregate and the readiness assessment of `north-domain`.
An operation on `&mut self` returns its result together with the aggregate it
leaves behind, so that a refusal that had already written a field would show. -/
namespace North
namespace Domain

open Machine

inductive RequirementStatus
  | draft | discussing | ready | accepted | rejected
  deriving DecidableEq, Repr

def RequirementStatus.canTransitionTo : RequirementStatus → RequirementStatus → Bool
  | .draft, .discussing => true
  | .discussing, .ready => true
  | .ready, .discussing => true
  | .ready, .accepted => true
  | .ready, .rejected => true
  | .rejected, .discussing => true
  | _, _ => false

structure InvalidTransition where
  fromStatus : RequirementStatus
  toStatus : RequirementStatus
  deriving DecidableEq, Repr

inductive Verdict
  | ready | needsClarification
  deriving DecidableEq, Repr

structure ReviewedRepository where
  repositoryId : String
  commitSha : String
  deriving DecidableEq, Repr

/-- The agent's structured evaluation of exactly one requirement revision. -/
structure ReadinessAssessment where
  requirementRevision : ℕ
  verdict : Verdict
  blockers : List String
  assumptions : List String
  repositoriesReviewed : List ReviewedRepository
  assessedAtMs : ℕ
  deriving DecidableEq, Repr

structure Requirement where
  id : String
  title : String
  description : String
  summary : String
  acceptanceCriteria : List String
  assumptions : List String
  openQuestions : List String
  status : RequirementStatus
  revision : ℕ
  stateVersion : ℕ
  createdBy : String
  deriving DecidableEq, Repr

structure RequirementEdit where
  title : Option String := none
  description : Option String := none
  summary : Option String := none
  acceptanceCriteria : Option (List String) := none
  assumptions : Option (List String) := none
  openQuestions : Option (List String) := none
  deriving DecidableEq, Repr

inductive MarkReadyError
  | staleAssessment (assessmentRevision currentRevision : ℕ)
  | verdictNotReady
  | blockersPresent
  | missingAcceptanceCriteria
  | transition (error : InvalidTransition)
  deriving DecidableEq, Repr

inductive EditError
  | stateForbidsEdit (status : RequirementStatus)
  | versionExhausted
  deriving DecidableEq, Repr

namespace Requirement

/-- `Requirement::new`: a draft at revision one. -/
def new (id title description createdBy : String) : Requirement where
  id := id
  title := title
  description := description
  summary := ""
  acceptanceCriteria := []
  assumptions := []
  openQuestions := []
  status := .draft
  revision := 1
  stateVersion := 1
  createdBy := createdBy

def transitionFrom (self : Requirement) (expectedSource next : RequirementStatus) :
    Except InvalidTransition Unit × Requirement :=
  if self.status ≠ expectedSource ∨ self.status.canTransitionTo next = false then
    (.error ⟨self.status,next⟩,self)
  else
    match checkedSucc u64Max self.stateVersion with
    | none => (.error ⟨self.status,next⟩,self)
    | some nextStateVersion =>
      (.ok (),{ self with status := next, stateVersion := nextStateVersion })

def beginDiscussion (self : Requirement) : Except InvalidTransition Unit × Requirement :=
  self.transitionFrom .draft .discussing

def markReady (self : Requirement) (assessment : ReadinessAssessment) :
    Except MarkReadyError Unit × Requirement :=
  if self.status ≠ .discussing then (.error (.transition ⟨self.status,.ready⟩),self)
  else if assessment.requirementRevision ≠ self.revision then
    (.error (.staleAssessment assessment.requirementRevision self.revision),self)
  else if assessment.verdict ≠ .ready then (.error .verdictNotReady,self)
  else if assessment.blockers.isEmpty = false then (.error .blockersPresent,self)
  else if self.acceptanceCriteria.all Text.blank then (.error .missingAcceptanceCriteria,self)
  else
    let (result,self) := self.transitionFrom .discussing .ready
    (result.mapError .transition,self)

def accept (self : Requirement) : Except InvalidTransition Unit × Requirement :=
  self.transitionFrom .ready .accepted

def reject (self : Requirement) : Except InvalidTransition Unit × Requirement :=
  self.transitionFrom .ready .rejected

def requestChanges (self : Requirement) : Except InvalidTransition Unit × Requirement :=
  self.transitionFrom .ready .discussing

def reopen (self : Requirement) : Except InvalidTransition Unit × Requirement :=
  self.transitionFrom .rejected .discussing

/-- Apply a content edit; the returned value is the revision. -/
def applyEdit (self : Requirement) (edit : RequirementEdit) : Except EditError ℕ × Requirement :=
  if self.status = .accepted ∨ self.status = .rejected then
    (.error (.stateForbidsEdit self.status),self)
  else
    let title := edit.title.getD self.title
    let description := edit.description.getD self.description
    let summary := edit.summary.getD self.summary
    let criteria := edit.acceptanceCriteria.getD self.acceptanceCriteria
    let assumptions := edit.assumptions.getD self.assumptions
    let openQuestions := edit.openQuestions.getD self.openQuestions
    if title = self.title ∧ description = self.description ∧ summary = self.summary ∧
        criteria = self.acceptanceCriteria ∧ assumptions = self.assumptions ∧
        openQuestions = self.openQuestions then
      (.ok self.revision,self)
    else
      match checkedSucc u64Max self.revision with
      | none => (.error .versionExhausted,self)
      | some nextRevision =>
        match checkedSucc u64Max self.stateVersion with
        | none => (.error .versionExhausted,self)
        | some nextStateVersion =>
          (.ok nextRevision,{ self with
            title := title, description := description, summary := summary,
            acceptanceCriteria := criteria, assumptions := assumptions,
            openQuestions := openQuestions, revision := nextRevision,
            stateVersion := nextStateVersion,
            -- a real edit of a Ready requirement makes its assessment stale
            status := if self.status = .ready then .discussing else self.status })

end Requirement

end Domain
end North
