import North.Domain
import North.Protocol

/-! The way of one readiness assessment: the agent's text is parsed by the daemon
runtime, reported as a runtime fact, sent as a wire event, converted by the server
and offered to the requirement aggregate. -/
namespace North
namespace AssessmentHandoff

open Domain Protocol

inductive ReadinessVerdict
  | ready | needsClarification
  deriving DecidableEq, Repr

structure RepositoryReview where
  repositoryId : String
  commitSha : String
  deriving DecidableEq, Repr

/-- What the runtime keeps of a session for its assessments. -/
structure AssessmentContext where
  requirementId : String
  requirementRevision : ℕ
  repositoriesReviewed : List RepositoryReview
  deriving DecidableEq, Repr

/-- The agent's JSON object after `serde` has filled in its defaults. -/
structure PiAssessment where
  message : String
  verdict : Option String
  blockers : List String
  assumptions : List String
  deriving DecidableEq, Repr

structure ParsedAssessment where
  message : String
  verdict : ReadinessVerdict
  blockers : List String
  assumptions : List String
  deriving DecidableEq, Repr

inductive RuntimeFact
  | sessionStarted (runtimeId : String)
  | agentMessage (messageId content : String)
  | activity (activity : String)
  | assessed (requirementId : String) (requirementRevision : ℕ) (verdict : ReadinessVerdict)
      (blockers assumptions : List String) (repositoriesReviewed : List RepositoryReview)
  | completed (summary : String)
  | failed (recoverable : Bool) (reason : String)
  deriving DecidableEq, Repr

def verdict (value : Option String) : ReadinessVerdict :=
  if value.any (Text.eqIgnoreAsciiCase · "ready") then .ready else .needsClarification

/-- Parse the agent's text; `fromStr` is the JSON library's `from_str::<PiAssessment>`. -/
def parseAssessment (fromStr : String → Option PiAssessment) (text : String) : ParsedAssessment :=
  let trimmed := Text.trim text
  let fenced := (Text.stripPrefix trimmed "```json").bind (Text.stripSuffix · "```")
  let parsed := Text.trim (fenced.getD trimmed)
  match fromStr parsed with
  | some value =>
    { message := if Text.blank value.message then "Pi returned no user-facing clarification."
        else Text.trim value.message
      verdict := verdict value.verdict
      blockers := value.blockers
      assumptions := value.assumptions }
  | none =>
    { message := if trimmed.isEmpty then "Pi returned no user-facing clarification." else trimmed
      verdict := .needsClarification
      blockers := ["Pi response was not a structured readiness assessment"]
      assumptions := ["North server remains readiness authority"] }

def nonEmptyFacts (values : List String) (fallback : String) : List String :=
  let values := (values.map Text.trim).filter fun value => !value.isEmpty
  if values.isEmpty then [fallback] else values

def factsForResponse (operationId runtimeId : String) (response : ParsedAssessment)
    (context : Option AssessmentContext) (includeStarted includeCompletion : Bool) :
    List RuntimeFact :=
  (if includeStarted then [.sessionStarted runtimeId] else []) ++
    [.activity "Pi clarification response received",
      .agentMessage ("agent-response-" ++ operationId) response.message] ++
    (match context with
      | some context => [.assessed context.requirementId context.requirementRevision
          response.verdict (nonEmptyFacts response.blockers "No blockers identified")
          (nonEmptyFacts response.assumptions "North context is authoritative")
          context.repositoriesReviewed]
      | none => []) ++
    (if includeCompletion then [.completed "Pi clarification completed"] else [])

def factToEvent : RuntimeFact → Event
  | .sessionStarted runtimeId => .sessionStarted runtimeId
  | .agentMessage messageId content => .agentMessage messageId content
  | .activity activity => .agentActivity activity
  | .assessed requirementId requirementRevision verdict blockers assumptions reviewed =>
    .requirementAssessed {
      requirementId := requirementId
      requirementRevision := requirementRevision
      verdict := match verdict with
        | .ready => .ready
        | .needsClarification => .needsClarification
      blockers := blockers
      assumptions := assumptions
      repositoriesReviewed := reviewed.map fun r => ⟨r.repositoryId,r.commitSha⟩ }
  | .completed summary => .sessionCompleted summary
  | .failed recoverable reason => .sessionFailed recoverable reason

def readinessAssessmentFromWire (wire : RequirementAssessed) (assessedAtMs : ℕ) :
    Except FrameError ReadinessAssessment := do
  wire.validate
  return {
    requirementRevision := wire.requirementRevision
    verdict := match wire.verdict with
      | .ready => .ready
      | .needsClarification => .needsClarification
    blockers := wire.blockers
    assumptions := wire.assumptions
    repositoriesReviewed := wire.repositoriesReviewed.map fun r => ⟨r.repositoryId,r.commitSha⟩
    assessedAtMs := assessedAtMs }

/-- The assessment event of one response reaches the aggregate and is accepted. -/
def Accepted (events : List Event) (assessedAtMs : ℕ) (r : Requirement) : Prop :=
  ∃ wire a, Event.requirementAssessed wire ∈ events ∧
    readinessAssessmentFromWire wire assessedAtMs = .ok a ∧ (r.markReady a).1 = .ok ()

/-- Every assessment event of one response that the server can convert is refused. -/
def Refused (events : List Event) (assessedAtMs : ℕ) (r : Requirement) : Prop :=
  ∀ wire a, Event.requirementAssessed wire ∈ events →
    readinessAssessmentFromWire wire assessedAtMs = .ok a → ∃ e, (r.markReady a).1 = .error e

/-- The response asks for review: verdict Ready and nothing but blank blockers. -/
def ParsedAssessment.Unblocked (p : ParsedAssessment) : Prop :=
  p.verdict = .ready ∧ ∀ b ∈ p.blockers, Text.blank b = true

/-- The requirement is under discussion at the session's revision and could be promoted. -/
def Eligible (context : AssessmentContext) (r : Requirement) : Prop :=
  r.status = .discussing ∧ r.revision = context.requirementRevision ∧
    (∃ c ∈ r.acceptanceCriteria, Text.blank c = false) ∧ r.stateVersion < Machine.u64Max

theorem nonEmptyFacts_ne_nil (values : List String) (fallback : String) :
    nonEmptyFacts values fallback ≠ [] := by
  simp only [nonEmptyFacts]
  split_ifs with h
  · simp
  · simpa using h

theorem assessed_event {operationId runtimeId : String} {p : ParsedAssessment}
    {context : Option AssessmentContext} {started completion : Bool} {wire : RequirementAssessed}
    (h : Event.requirementAssessed wire ∈
      (factsForResponse operationId runtimeId p context started completion).map factToEvent) :
    wire.blockers = nonEmptyFacts p.blockers "No blockers identified" ∧
      (wire.verdict = .ready ↔ p.verdict = .ready) := by
  obtain ⟨fact,hfact,hevent⟩ := List.mem_map.mp h
  simp only [factsForResponse,List.mem_append] at hfact
  rcases hfact with ((hfact | hfact) | hfact) | hfact
  · split_ifs at hfact <;> simp at hfact
    subst hfact
    simp [factToEvent] at hevent
  · simp only [List.mem_cons,List.not_mem_nil,or_false] at hfact
    rcases hfact with rfl | rfl <;> simp [factToEvent] at hevent
  · cases context with
    | none => simp at hfact
    | some context =>
      simp only [List.mem_singleton] at hfact
      subst hfact
      simp only [factToEvent,Event.requirementAssessed.injEq] at hevent
      subst hevent
      refine ⟨rfl,?_⟩
      cases p.verdict <;> simp
  · split_ifs at hfact <;> simp at hfact
    subst hfact
    simp [factToEvent] at hevent

theorem fromWire_ok {wire : RequirementAssessed} {ms : ℕ} {a : ReadinessAssessment}
    (h : readinessAssessmentFromWire wire ms = .ok a) :
    a.blockers = wire.blockers ∧ (a.verdict = .ready ↔ wire.verdict = .ready) := by
  unfold readinessAssessmentFromWire at h
  cases hv : wire.validate with
  | error e => simp [hv,bind,Except.bind] at h
  | ok u =>
    simp only [hv,bind,Except.bind,pure,Except.pure,Except.ok.injEq] at h
    subst h
    refine ⟨rfl,?_⟩
    cases wire.verdict <;> simp

theorem markReady_refuses {r : Requirement} {a : ReadinessAssessment}
    (h : a.blockers ≠ [] ∨ a.verdict ≠ .ready) : ∃ e, (r.markReady a).1 = .error e := by
  unfold Requirement.markReady
  split_ifs with hs hr hv hb hc
  · exact ⟨_,rfl⟩
  · exact ⟨_,rfl⟩
  · exact ⟨_,rfl⟩
  · exact ⟨_,rfl⟩
  · exact ⟨_,rfl⟩
  · rcases h with h | h
    · simp at hb
      exact absurd hb h
    · exact absurd h hv

/-- No response at all is accepted: the normalised blocker list is never empty. -/
theorem handoff_refused (fromStr : String → Option PiAssessment) (text operationId runtimeId : String)
    (context : Option AssessmentContext) (started completion : Bool) (ms : ℕ) (r : Requirement) :
    Refused ((factsForResponse operationId runtimeId (parseAssessment fromStr text) context
      started completion).map factToEvent) ms r := by
  intro wire a hmem hok
  have hb := (assessed_event hmem).1
  apply markReady_refuses
  left
  rw [(fromWire_ok hok).1,hb]
  exact nonEmptyFacts_ne_nil _ _

/-- The handoff keeps its promise for a response and a requirement exactly when there is
nothing to promote: an unblocked Ready verdict is refused like any other. -/
theorem handoff_iff (fromStr : String → Option PiAssessment) (text operationId runtimeId : String)
    (context : AssessmentContext) (started completion : Bool) (ms : ℕ) (r : Requirement) :
    let p := parseAssessment fromStr text
    let events := (factsForResponse operationId runtimeId p (some context) started
      completion).map factToEvent
    ((p.Unblocked → Eligible context r → Accepted events ms r) ∧
      (¬ p.Unblocked → Refused events ms r)) ↔
      (p.verdict ≠ .ready ∨ (∃ b ∈ p.blockers, Text.blank b = false) ∨ ¬ Eligible context r) := by
  intro p events
  have hrefused := handoff_refused fromStr text operationId runtimeId (some context) started
    completion ms r
  have hcond : (p.verdict ≠ .ready ∨ ∃ b ∈ p.blockers, Text.blank b = false) ↔
      ¬ p.Unblocked := by
    simp only [ParsedAssessment.Unblocked,not_and_or,not_forall,exists_prop,Bool.not_eq_true]
  rw [← or_assoc,hcond]
  constructor
  · rintro ⟨haccept,_⟩
    by_contra hboth
    push Not at hboth
    obtain ⟨wire,a,hmem,hok,hmark⟩ := haccept hboth.1 hboth.2
    obtain ⟨e,he⟩ := hrefused wire a hmem hok
    rw [he] at hmark
    simp at hmark
  · intro hp
    refine ⟨fun hu he => ?_,fun _ => hrefused⟩
    rcases hp with hp | hp
    · exact absurd hu hp
    · exact absurd he hp

/-- The agent's answer of a clean review, and its decoding by the JSON library. -/
def readyText : String :=
  "\x7b\"message\":\"Clear.\",\"verdict\":\"ready\",\"blockers\":[],\"assumptions\":[]\x7d"

def readyFromStr (s : String) : Option PiAssessment :=
  if s = readyText then some ⟨"Clear.",some "ready",[],[]⟩ else none

def readyContext : AssessmentContext := ⟨"r1",2,[]⟩

def readyRequirement : Requirement :=
  { Requirement.new "r1" "Login page" "Users log in with email codes." "u1" with
    acceptanceCriteria := ["criteria"], status := .discussing, revision := 2, stateVersion := 3 }

def readyEvents : List Event :=
  (factsForResponse "c1" "pi-s1" (parseAssessment readyFromStr readyText) (some readyContext)
    true true).map factToEvent

def readyWire : RequirementAssessed where
  requirementId := "r1"
  requirementRevision := 2
  verdict := .ready
  blockers := ["No blockers identified"]
  assumptions := ["North context is authoritative"]
  repositoriesReviewed := []

def readyAssessment : ReadinessAssessment where
  requirementRevision := 2
  verdict := .ready
  blockers := ["No blockers identified"]
  assumptions := ["North context is authoritative"]
  repositoriesReviewed := []
  assessedAtMs := 0

/-- A clean Ready answer about an eligible requirement, refused for a blocker that is
only the daemon's placeholder. -/
theorem ready_handoff_refused :
    (parseAssessment readyFromStr readyText).Unblocked ∧
      Eligible readyContext readyRequirement ∧
      Event.requirementAssessed readyWire ∈ readyEvents ∧
      readinessAssessmentFromWire readyWire 0 = .ok readyAssessment ∧
      (readyRequirement.markReady readyAssessment).1 = .error .blockersPresent ∧
      ¬ Accepted readyEvents 0 readyRequirement := by
  refine ⟨⟨by decide,by decide⟩,⟨rfl,rfl,by decide,by decide⟩,by decide,by decide,by decide,?_⟩
  rintro ⟨wire,a,hmem,hok,hmark⟩
  obtain ⟨e,he⟩ := handoff_refused readyFromStr readyText "c1" "pi-s1" (some readyContext)
    true true 0 readyRequirement wire a hmem hok
  rw [he] at hmark
  simp at hmark

end AssessmentHandoff
end North
