import North.EvidenceReview
import North.StartSizes

/-! The review on the disk is one of those that the session's model of a start knows: whatever the
inspector, Git and the calls do, there are answers of an inspector with which that model goes the
same way. -/
namespace North
namespace Inspection

open Prog FileTree
open North.Runtime (InspectionError RepositorySource EvidenceBudget RepositoryEvidence RuntimeOperationError
  Environment Moment)
open North.AssessmentHandoff (RepositoryReview)

/-- What an inspector answers about the repositories of a start. -/
structure Answers where
  requested : Option Moment
  prepare : RepositorySource → Option InspectionError
  inspect : RepositorySource → EvidenceBudget →
    Except InspectionError (RepositoryReview × Option RepositoryEvidence)

/-- There are answers about the repository with which its inspection in the session's model ends so. -/
def Answered (source : RepositorySource) (budget : EvidenceBudget)
    (result : Except RuntimeOperationError (RepositoryReview × RepositoryEvidence)) : Prop :=
  ∃ prepared inspected, ∀ (env : Environment) i, (∀ k ≤ 3, env.cancelled ⟨2,4*i+k⟩ = false) →
    env.prepare source = prepared → env.inspect source budget = inspected →
    Runtime.inspectRepository env i source budget = result

section

variable {E : Surroundings} {I : RepositoryInspector} {input : ReviewInput} {source : RepositorySource}
  {budget : EvidenceBudget}

variable {base : Environment} {sources : List RepositorySource}

/-- An inspector that nobody has asked yet. -/
def silent : Answers := ⟨none,fun _ => none,fun _ _ => .error (inspectionError .runtime "")⟩

/-- The answers about one more repository. -/
def Answers.add (answers : Answers) (source : RepositorySource) (prepared : Option InspectionError)
    (inspected : Except InspectionError (RepositoryReview × Option RepositoryEvidence)) : Answers where
  requested := answers.requested
  prepare other := if other = source then prepared else answers.prepare other
  inspect other budget := if other = source then inspected else answers.inspect other budget

section

variable {env : Environment} {i bytes files repositories : ℕ}

end

section

variable {i bytes files repositories : ℕ}

end

end

end Inspection
end North
