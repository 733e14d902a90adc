import North.Domain
import Mathlib.Data.List.Induction

/-! Whole runs of the requirement aggregate. One lemma says what an operation can
do to the aggregate; version tokens, revisions and the readiness evidence behind
a reviewable status are read off it. -/
namespace North
namespace Domain

open Machine

/-- The six content fields, the part of the aggregate that a revision numbers. -/
structure Content where
  title : String
  description : String
  summary : String
  acceptanceCriteria : List String
  assumptions : List String
  openQuestions : List String
  deriving DecidableEq, Repr

def Requirement.content (r : Requirement) : Content :=
  ⟨r.title,r.description,r.summary,r.acceptanceCriteria,r.assumptions,r.openQuestions⟩

inductive Operation
  | beginDiscussion
  | markReady (assessment : ReadinessAssessment)
  | accept
  | reject
  | requestChanges
  | reopen
  | applyEdit (edit : RequirementEdit)
  deriving DecidableEq, Repr

inductive OperationError
  | transition (error : InvalidTransition)
  | markReady (error : MarkReadyError)
  | edit (error : EditError)
  deriving DecidableEq, Repr

namespace Operation

def apply : Operation → Requirement → Except OperationError Unit × Requirement
  | .beginDiscussion, r => (r.beginDiscussion.1.mapError .transition,r.beginDiscussion.2)
  | .markReady a, r => ((r.markReady a).1.mapError .markReady,(r.markReady a).2)
  | .accept, r => (r.accept.1.mapError .transition,r.accept.2)
  | .reject, r => (r.reject.1.mapError .transition,r.reject.2)
  | .requestChanges, r => (r.requestChanges.1.mapError .transition,r.requestChanges.2)
  | .reopen, r => (r.reopen.1.mapError .transition,r.reopen.2)
  | .applyEdit e, r => (((r.applyEdit e).1.map fun _ => ()).mapError .edit,(r.applyEdit e).2)

/-- The lifecycle edges, each with the operation that may take it. -/
inductive Edge : Operation → RequirementStatus → RequirementStatus → Prop
  | begin : Edge .beginDiscussion .draft .discussing
  | ready (a) : Edge (.markReady a) .discussing .ready
  | accept : Edge .accept .ready .accepted
  | reject : Edge .reject .ready .rejected
  | changes : Edge .requestChanges .ready .discussing
  | reopen : Edge .reopen .rejected .discussing

/-- The hard gates of `mark_ready`, as they hold of an accepted assessment. -/
structure Gates (a : ReadinessAssessment) (r : Requirement) : Prop where
  revision : a.requirementRevision = r.revision
  verdict : a.verdict = .ready
  blockers : a.blockers = []
  criteria : ∃ c ∈ r.acceptanceCriteria, Text.blank c = false

/-- Everything an operation can do: nothing, take its lifecycle edge, or edit the content. -/
inductive Effect (op : Operation) (r : Requirement) :
    Except OperationError Unit → Requirement → Prop
  | refused (e) : Effect op r (.error e) r
  | noop (edit) (hop : op = .applyEdit edit) : Effect op r (.ok ()) r
  | moved (source next) (at_ : r.status = source) (edge : Edge op source next)
      (gates : ∀ a, op = .markReady a → Gates a r) :
      Effect op r (.ok ()) { r with status := next, stateVersion := r.stateVersion+1 }
  | edited (edit) (r') (hop : op = .applyEdit edit)
      (open_ : r.status = .draft ∨ r.status = .discussing ∨ r.status = .ready)
      (content : r'.content ≠ r.content) (revision : r'.revision = r.revision+1)
      (version : r'.stateVersion = r.stateVersion+1)
      (status : r'.status = if r.status = .ready then .discussing else r.status) :
      Effect op r (.ok ()) r'

end Operation

open Operation

theorem transitionFrom_cases (r : Requirement) (source next : RequirementStatus) :
    (∃ e, r.transitionFrom source next = (.error e,r)) ∨
      (r.status = source ∧ r.transitionFrom source next =
        (.ok (),{ r with status := next, stateVersion := r.stateVersion+1 })) := by
  unfold Requirement.transitionFrom
  split_ifs with h
  · exact Or.inl ⟨_,rfl⟩
  · push Not at h
    cases hc : checkedSucc u64Max r.stateVersion with
    | none => exact Or.inl ⟨_,rfl⟩
    | some v =>
      obtain ⟨_,rfl⟩ := checkedSucc_eq_some.mp hc
      exact Or.inr ⟨h.1,rfl⟩

/-- A plain lifecycle operation, one call of `transition_from`, has its edge's effect. -/
theorem transition_effect {op : Operation} {r : Requirement} {source next : RequirementStatus}
    (hop : op.apply r =
      ((r.transitionFrom source next).1.mapError .transition,(r.transitionFrom source next).2))
    (edge : Edge op source next) (hm : ∀ a, op ≠ .markReady a) :
    Effect op r (op.apply r).1 (op.apply r).2 := by
  rw [hop]
  rcases transitionFrom_cases r source next with ⟨e,h⟩ | ⟨hs,h⟩ <;> rw [h]
  · exact .refused _
  · exact .moved source next hs edge (fun a ha => absurd ha (hm a))

theorem markReady_effect (a : ReadinessAssessment) (r : Requirement) :
    Effect (.markReady a) r ((Operation.markReady a).apply r).1
      ((Operation.markReady a).apply r).2 := by
  simp only [apply,Requirement.markReady]
  split_ifs with hs hr hv hb hc
  · exact .refused _
  · exact .refused _
  · exact .refused _
  · exact .refused _
  · exact .refused _
  · push Not at hs hr hv
    have hg : Gates a r := by
      refine ⟨hr,hv,by simpa using hb,?_⟩
      simpa using hc
    rcases transitionFrom_cases r .discussing .ready with ⟨e,h⟩ | ⟨_,h⟩ <;> rw [h]
    · exact .refused _
    · refine .moved .discussing .ready hs (.ready a) ?_
      intro b hb
      cases hb
      exact hg

theorem applyEdit_effect (e : RequirementEdit) (r : Requirement) :
    Effect (.applyEdit e) r ((Operation.applyEdit e).apply r).1
      ((Operation.applyEdit e).apply r).2 := by
  simp only [apply,Requirement.applyEdit]
  split
  · exact .refused _
  rename_i hs
  split
  · exact .noop e rfl
  rename_i hu
  cases hr : checkedSucc u64Max r.revision with
  | none => exact .refused _
  | some n =>
    cases hv : checkedSucc u64Max r.stateVersion with
    | none => exact .refused _
    | some v =>
      obtain ⟨_,rfl⟩ := checkedSucc_eq_some.mp hr
      obtain ⟨_,rfl⟩ := checkedSucc_eq_some.mp hv
      refine .edited e _ rfl ?_ ?_ rfl rfl rfl
      · cases h : r.status <;> simp [h] at hs ⊢
      · simpa [Requirement.content] using hu

theorem apply_effect (op : Operation) (r : Requirement) :
    Effect op r (op.apply r).1 (op.apply r).2 := by
  cases op with
  | beginDiscussion => exact transition_effect rfl .begin (by simp)
  | markReady a => exact markReady_effect a r
  | accept => exact transition_effect rfl .accept (by simp)
  | reject => exact transition_effect rfl .reject (by simp)
  | requestChanges => exact transition_effect rfl .changes (by simp)
  | reopen => exact transition_effect rfl .reopen (by simp)
  | applyEdit e => exact applyEdit_effect e r

/-- The aggregate with its ghost history: the latest accepted assessment and the
content it was given for. -/
structure Tracked where
  requirement : Requirement
  lastReady : Option (ReadinessAssessment × Content)

def Tracked.evidence (t : Tracked) :
    Operation → Except OperationError Unit → Option (ReadinessAssessment × Content)
  | .markReady a, .ok () => some (a,t.requirement.content)
  | _, _ => t.lastReady

def Tracked.step (t : Tracked) (op : Operation) : Tracked where
  requirement := (op.apply t.requirement).2
  lastReady := t.evidence op (op.apply t.requirement).1

def Tracked.run (t : Tracked) (ops : List Operation) : Tracked := ops.foldl Tracked.step t

/-- The statuses in which a human sees, or has decided on, an assessed requirement. -/
def RequirementStatus.Reviewable (s : RequirementStatus) : Prop :=
  s = .ready ∨ s = .accepted ∨ s = .rejected

/-- A reviewable status is backed by the latest accepted assessment of exactly this content. -/
def Tracked.Backed (t : Tracked) : Prop :=
  t.requirement.status.Reviewable → ∃ a, t.lastReady = some (a,t.requirement.content) ∧
    Gates a t.requirement

theorem Operation.Gates.congr {a : ReadinessAssessment} {r r' : Requirement} (h : Gates a r)
    (hr : r'.revision = r.revision) (hc : r'.acceptanceCriteria = r.acceptanceCriteria) :
    Gates a r' :=
  ⟨h.revision.trans hr.symm,h.verdict,h.blockers,by rw [hc]; exact h.criteria⟩

theorem step_backed (t : Tracked) (op : Operation) (h : t.Backed) : (t.step op).Backed := by
  have heff := apply_effect op t.requirement
  unfold Tracked.step
  generalize (op.apply t.requirement).1 = res at heff
  generalize (op.apply t.requirement).2 = r' at heff
  intro hs
  cases heff with
  | refused e =>
    have hkept : t.evidence op (.error e) = t.lastReady := by cases op <;> rfl
    rw [hkept]
    exact h hs
  | noop edit hop =>
    subst hop
    exact h hs
  | moved source next at_ edge gates =>
    cases edge with
    | begin => rcases hs with hs | hs | hs <;> simp at hs
    | ready a => exact ⟨a,rfl,(gates a rfl).congr rfl rfl⟩
    | accept =>
      obtain ⟨a,ha,hg⟩ := h (Or.inl at_)
      exact ⟨a,ha,hg.congr rfl rfl⟩
    | reject =>
      obtain ⟨a,ha,hg⟩ := h (Or.inl at_)
      exact ⟨a,ha,hg.congr rfl rfl⟩
    | changes => rcases hs with hs | hs | hs <;> simp at hs
    | reopen => rcases hs with hs | hs | hs <;> simp at hs
  | edited edit _ hop open_ content revision version status =>
    -- an edit leaves Draft or Discussing behind, whatever it started from
    exfalso
    change RequirementStatus.Reviewable r'.status at hs
    rw [status] at hs
    rcases open_ with ho | ho | ho <;> simp [RequirementStatus.Reviewable,ho] at hs

theorem run_backed (t : Tracked) (h : t.Backed) (ops : List Operation) : (t.run ops).Backed :=
  List.foldlRecOn ops Tracked.step h (fun t ht op _ => step_backed t op ht)

theorem step_version (t : Tracked) (op : Operation) :
    (t.step op).requirement = t.requirement ∨
      (t.step op).requirement.stateVersion = t.requirement.stateVersion+1 := by
  have heff := apply_effect op t.requirement
  unfold Tracked.step
  generalize (op.apply t.requirement).1 = res at heff
  generalize (op.apply t.requirement).2 = r' at heff
  cases heff with
  | refused e => exact Or.inl rfl
  | noop edit hop => exact Or.inl rfl
  | moved source next at_ edge gates => exact Or.inr rfl
  | edited edit _ hop open_ content revision version status => exact Or.inr version

theorem run_version_le (t : Tracked) (ops : List Operation) :
    t.requirement.stateVersion ≤ (t.run ops).requirement.stateVersion :=
  List.foldlRecOn ops Tracked.step
    (motive := fun u => t.requirement.stateVersion ≤ u.requirement.stateVersion) le_rfl
    (fun u hu op _ => by
      rcases step_version u op with h | h
      · rw [h]; exact hu
      · rw [h]; omega)

/-- A run that ends with the state version it started from has changed nothing. -/
theorem run_eq_of_version (t : Tracked) (ops : List Operation)
    (h : (t.run ops).requirement.stateVersion = t.requirement.stateVersion) :
    (t.run ops).requirement = t.requirement := by
  induction ops generalizing t with
  | nil => rfl
  | cons op ops ih =>
    have hle := run_version_le (t.step op) ops
    change ((t.step op).run ops).requirement.stateVersion = _ at h
    change ((t.step op).run ops).requirement = _
    rcases step_version t op with hs | hs
    · rw [ih (t.step op) (by rw [h,hs]),hs]
    · omega

/-- One operation moves the version tokens by exactly what it changes. -/
theorem apply_tokens (op : Operation) (r : Requirement) :
    (∀ e, (op.apply r).1 = .error e → (op.apply r).2 = r) ∧
      ((op.apply r).2 ≠ r → (op.apply r).2.stateVersion = r.stateVersion+1) ∧
      ((op.apply r).2.content ≠ r.content ∧ (op.apply r).2.revision = r.revision+1 ∨
        (op.apply r).2.content = r.content ∧ (op.apply r).2.revision = r.revision) := by
  have heff := apply_effect op r
  generalize (op.apply r).1 = res at heff
  generalize (op.apply r).2 = r' at heff
  cases heff with
  | refused e => exact ⟨fun _ _ => rfl,fun h => absurd rfl h,Or.inr ⟨rfl,rfl⟩⟩
  | noop edit hop => exact ⟨fun _ _ => rfl,fun h => absurd rfl h,Or.inr ⟨rfl,rfl⟩⟩
  | moved source next at_ edge gates => exact ⟨by simp,fun _ => rfl,Or.inr ⟨rfl,rfl⟩⟩
  | edited edit _ hop open_ content revision version status =>
    exact ⟨by simp,fun _ => version,Or.inl ⟨content,revision⟩⟩

/-- The aggregate over every run from `Requirement::new`: tokens count exactly the
changes, refusals change nothing, and a reviewable status keeps its evidence. -/
theorem requirement_run (id title description createdBy : String) (ops : List Operation) :
    let t := (Tracked.mk (.new id title description createdBy) none).run ops
    (∀ op : Operation, (∀ e, (op.apply t.requirement).1 = .error e →
          (op.apply t.requirement).2 = t.requirement) ∧
        ((op.apply t.requirement).2 ≠ t.requirement →
          (op.apply t.requirement).2.stateVersion = t.requirement.stateVersion+1) ∧
        ((op.apply t.requirement).2.content ≠ t.requirement.content ∧
            (op.apply t.requirement).2.revision = t.requirement.revision+1 ∨
          (op.apply t.requirement).2.content = t.requirement.content ∧
            (op.apply t.requirement).2.revision = t.requirement.revision)) ∧
      (∀ more, (t.run more).requirement.stateVersion = t.requirement.stateVersion →
        (t.run more).requirement = t.requirement) ∧
      (t.requirement.status = .ready ∨ t.requirement.status = .accepted ∨
          t.requirement.status = .rejected →
        ∃ a, t.lastReady = some (a,t.requirement.content) ∧ a.verdict = .ready ∧
          a.blockers = [] ∧ a.requirementRevision = t.requirement.revision ∧
          ∃ c ∈ t.requirement.acceptanceCriteria, Text.blank c = false) := by
  intro t
  refine ⟨fun op => apply_tokens op _,fun more => run_eq_of_version t more,?_⟩
  intro hs
  have hnew : (Tracked.mk (.new id title description createdBy) none).Backed := by
    intro h
    rcases h with h | h | h <;> simp [Requirement.new] at h
  obtain ⟨a,ha,hg⟩ := run_backed _ hnew ops hs
  exact ⟨a,ha,hg.verdict,hg.blockers,hg.revision,hg.criteria⟩

end Domain
end North
