import North.Lib.Prog
import North.AssessmentHandoff
import Mathlib.Algebra.GroupWithZero.Nat

/-! The clarification adapter of the daemon and the context that it retains of a session, in
memory and in a file. Cancellation, the file system, the inspection of checkouts and the agent's
process answer from outside. -/
namespace North
namespace Runtime

open Prog Protocol
open AssessmentHandoff (RepositoryReview PiAssessment ParsedAssessment RuntimeFact parseAssessment
  factsForResponse)

def maxSessionContextBytes : ℕ := 128*1024
def maxEvidenceCandidates : ℕ := 256
def maxEvidenceBytes : ℕ := 32*1024
def maxEvidenceFiles : ℕ := 32
def maxTotalEvidenceBytes : ℕ := 64*1024
def maxTotalEvidenceFiles : ℕ := 64

structure RequirementSnapshot where
  id : String
  revision : ℕ
  title : String
  description : String
  summary : String
  acceptanceCriteria : List String
  assumptions : List String
  openQuestions : List String
  deriving DecidableEq, Repr

inductive TurnRole
  | requester | agent | system
  deriving DecidableEq, Repr

structure ConversationTurn where
  messageId : String
  role : TurnRole
  content : String
  deriving DecidableEq, Repr

structure AuthorizedRepository where
  repositoryId : String
  name : String
  url : String
  description : String
  deriving DecidableEq, Repr

structure StartInput where
  requirement : RequirementSnapshot
  conversation : List ConversationTurn
  repositories : List AuthorizedRepository
  deriving DecidableEq, Repr

inductive RuntimeCommand
  | start (start : StartInput)
  | message (messageId content : String)
  | cancel (reason : String)
  | resume
  deriving DecidableEq, Repr

structure RuntimeInput where
  operationId : String
  sessionId : String
  command : RuntimeCommand
  deriving DecidableEq, Repr

structure SourceFileEvidence where
  path : String
  content : String
  deriving DecidableEq, Repr

structure RepositoryEvidence where
  repositoryId : String
  commitSha : String
  files : List SourceFileEvidence
  deriving DecidableEq, Repr

structure EvidenceBudget where
  maxCandidates : ℕ
  maxFiles : ℕ
  maxBytes : ℕ
  deriving DecidableEq, Repr

/-- The part of an `AssessmentContext` that is serialized. -/
structure StoredContext where
  requirementId : String
  requirementRevision : ℕ
  repositoriesReviewed : List RepositoryReview
  evidence : List RepositoryEvidence
  context : Option StartInput
  deriving DecidableEq, Repr

/-- `in_flight` is skipped by the serializer and `false` in what it reads back. -/
structure AssessmentContext extends StoredContext where
  inFlight : Bool
  deriving DecidableEq, Repr

inductive ContextFile
  | absent
  | unreadable (error : String)
  | oversized
  | corrupt (error : String)
  | stored (context : StoredContext)
  deriving DecidableEq, Repr

/-- What is retained of one session: its entry in `sessions` and its file. -/
structure Session where
  memory : Option AssessmentContext := none
  file : ContextFile := .absent
  deriving DecidableEq, Repr

inductive RuntimeOperationError
  | cancelled
  | failed (error : String)
  deriving DecidableEq, Repr

def RuntimeOperationError.text : RuntimeOperationError → String
  | .cancelled => "Pi clarification operation cancelled"
  | .failed error => error

inductive InspectionPhase
  | authorization | cache | workspace | revision | runtime | cancellation | dirtyTree | cleanup
  deriving DecidableEq, Repr

def InspectionPhase.text : InspectionPhase → String
  | .authorization => "authorization"
  | .cache => "cache"
  | .workspace => "workspace"
  | .revision => "revision"
  | .runtime => "runtime"
  | .cancellation => "cancellation"
  | .dirtyTree => "dirty-tree"
  | .cleanup => "cleanup"

structure InspectionError where
  phase : InspectionPhase
  reason : String
  contamination : Option String := none
  cleanupFailure : Option String := none
  deriving DecidableEq, Repr

def InspectionError.text (e : InspectionError) : String :=
  "repository inspection " ++ e.phase.text ++ ": " ++ e.reason ++
    (e.contamination.map ("; contamination: " ++ ·)).getD "" ++
    (e.cleanupFailure.map ("; cleanup failed: " ++ ·)).getD ""

structure RepositorySource where
  repositoryId : String
  url : String
  deriving DecidableEq, Repr

/-! ### What answers from outside -/

/-- A point of the operation at which the flag is looked at, in the order of the code. -/
structure Moment where
  phase : ℕ
  step : ℕ := 0
  deriving DecidableEq, Repr

def Moment.le (a b : Moment) : Bool := a.phase < b.phase || a.phase = b.phase && a.step ≤ b.step

inductive WriteSite
  | started | reviewed | retained
  deriving DecidableEq, Repr

inductive RemoveSite
  | afterError | completion | session
  deriving DecidableEq, Repr

/-- What one operation meets. `requested` is the first moment that sees the cancellation flag,
which is never taken back; a write or a removal says why it fails. -/
structure Environment where
  requested : Option Moment
  size : StoredContext → ℕ
  write : WriteSite → Option String
  remove : RemoveSite → Option String
  decode : String → Option PiAssessment
  prepare : RepositorySource → Option InspectionError
  inspect : RepositorySource → EvidenceBudget →
    Except InspectionError (RepositoryReview × Option RepositoryEvidence)
  agent : Except RuntimeOperationError String

/-- `control.is_cancellation_requested()`. -/
def Environment.cancelled (E : Environment) (m : Moment) : Bool := E.requested.any (·.le m)

def checkCancellation (E : Environment) (m : Moment) : Except RuntimeOperationError Unit :=
  if E.cancelled m then .error .cancelled else .ok ()

/-! ### Repositories -/

def splitOnce (cs : List Char) (sep : List Char) : Option (List Char × List Char) :=
  match cs with
  | [] => if sep.isEmpty then some ([],[]) else none
  | c::rest =>
    if sep.isPrefixOf (c::rest) then some ([],(c::rest).drop sep.length)
    else (splitOnce rest sep).map fun p => (c::p.1,p.2)

/-- No user but `git` stands before the host. -/
def gitUserOnly (authority : List Char) : Bool :=
  match splitOnce authority ['@'] with
  | none => true
  | some (user,host) => user == "git".toList && !host.contains '@'

def credentialFreeLocation (url : String) : Bool :=
  let cs := url.toList
  if cs.contains '?' || cs.contains '#' then false
  else match splitOnce cs "://".toList with
    | none => gitUserOnly cs
    | some (scheme,rest) =>
      match splitOnce rest ['/'] with
      | none => false
      | some (authority,_) =>
        if scheme == "ssh".toList then gitUserOnly authority else !authority.contains '@'

def serverRepositoryLocation (url : String) : Bool :=
  match (Text.stripPrefix url "https://").or (Text.stripPrefix url "ssh://") with
  | some rest =>
    match splitOnce rest.toList ['/'] with
    | none => false
    | some (authority,path) => !authority.isEmpty && !path.isEmpty && credentialFreeLocation url
  | none =>
    match Text.stripPrefix url "git@" with
    | none => false
    | some rest =>
      match splitOnce rest.toList [':'] with
      | none => false
      | some (host,path) =>
        !host.isEmpty && !path.isEmpty && !(host.contains '/' || host.contains '@')

def InspectionError.unauthorized (reason : String) : InspectionError := ⟨.authorization,reason,none,none⟩

def RepositorySource.validate (source : RepositorySource) : Except InspectionError Unit :=
  if Text.blank source.repositoryId then .error (.unauthorized "repository ID is empty")
  else if Text.blank source.url || source.url.toList.any Text.isWhitespace then
    .error (.unauthorized "repository URL is empty or contains whitespace")
  else if !credentialFreeLocation source.url then
    .error (.unauthorized "repository URL contains credentials or query data")
  else .ok ()

def RepositorySource.fromContext (context : RepositoryContext) : Except InspectionError RepositorySource := do
  let source : RepositorySource := ⟨context.repositoryId,context.url⟩
  source.validate
  if !serverRepositoryLocation source.url then
    throw (.unauthorized "repository context URL is outside server Git URL policy")
  return source

def inspectionFailed {α : Type} : Except InspectionError α → Except RuntimeOperationError α
  | .ok a => .ok a
  | .error e => .error (.failed e.text)

def sourceForRepository (repository : AuthorizedRepository) : Except RuntimeOperationError RepositorySource :=
  inspectionFailed (RepositorySource.fromContext
    ⟨repository.repositoryId,repository.name,repository.url,repository.description⟩)

/-- The loop of `RunAuthorization::new` over the repositories. -/
def authorizeRepositories : (seen : List String) → List RepositorySource → Except InspectionError Unit
  | _, [] => .ok ()
  | seen, repository::rest => do
    repository.validate
    if seen.contains repository.repositoryId then
      throw (.unauthorized ("repository " ++ reprStr repository.repositoryId ++
        " is authorized more than once"))
    authorizeRepositories (repository.repositoryId::seen) rest

def authorizeRun (sessionId : String) (repositories : List RepositorySource) : Except InspectionError Unit :=
  if Text.blank sessionId then .error (.unauthorized "authorization session ID is empty")
  else authorizeRepositories [] repositories

def evidenceSize (evidence : RepositoryEvidence) : ℕ × ℕ :=
  (evidence.repositoryId.utf8ByteSize + evidence.commitSha.utf8ByteSize +
    (evidence.files.map fun file => file.path.utf8ByteSize + file.content.utf8ByteSize).sum,
    evidence.files.length)

def budgetTooSmall : RuntimeOperationError :=
  .failed "clarification repository evidence budget cannot cover all authorized repositories"

def allocateRepositoryEvidenceBudget (remainingBytes remainingFiles remainingRepositories : ℕ) :
    Except RuntimeOperationError EvidenceBudget :=
  if remainingRepositories = 0 ∨ remainingBytes < remainingRepositories ∨
      remainingFiles < remainingRepositories then .error budgetTooSmall
  else
    let maxBytes := min (remainingBytes/remainingRepositories) maxEvidenceBytes
    let maxFiles := min (remainingFiles/remainingRepositories) maxEvidenceFiles
    if maxBytes = 0 ∨ maxFiles = 0 then .error budgetTooSmall
    else .ok ⟨maxEvidenceCandidates,maxFiles,maxBytes⟩

def classifyInspectionError (E : Environment) (m : Moment) (e : InspectionError) : RuntimeOperationError :=
  if E.cancelled m || e.phase = .cancellation then .cancelled else .failed e.text

/-- `inspect_repository` for the repository at a position of the start. -/
def inspectRepository (E : Environment) (i : ℕ) (source : RepositorySource) (budget : EvidenceBudget) :
    Except RuntimeOperationError (RepositoryReview × RepositoryEvidence) := do
  checkCancellation E ⟨2,4*i+1⟩
  match E.prepare source with
  | some e => throw (classifyInspectionError E ⟨2,4*i+2⟩ e)
  | none =>
    match E.inspect source budget with
    | .error e => throw (classifyInspectionError E ⟨2,4*i+3⟩ e)
    | .ok (_,none) => throw (.failed "repository source inspection produced no evidence")
    | .ok (inspection,some evidence) =>
      if evidence.repositoryId ≠ inspection.repositoryId ∨ evidence.commitSha ≠ inspection.commitSha then
        throw (.failed "repository evidence identity did not match inspected revision")
      return (inspection,evidence)

def inspectRepositories (E : Environment) : (i : ℕ) → List RepositorySource →
    (remainingBytes remainingFiles remainingRepositories : ℕ) →
    Except RuntimeOperationError (List (RepositoryReview × RepositoryEvidence))
  | _, [], _, _, _ => .ok []
  | i, source::sources, remainingBytes, remainingFiles, remainingRepositories => do
    checkCancellation E ⟨2,4*i⟩
    let budget ← allocateRepositoryEvidenceBudget remainingBytes remainingFiles remainingRepositories
    let inspected ← inspectRepository E i source budget
    let (bundleBytes,bundleFiles) := evidenceSize inspected.2
    if budget.maxBytes < bundleBytes ∨ budget.maxFiles < bundleFiles then
      throw (.failed "internal clarification repository evidence budget invariant violated")
    if remainingBytes < bundleBytes then
      throw (.failed "internal clarification repository evidence byte accounting underflow")
    if remainingFiles < bundleFiles then
      throw (.failed "internal clarification repository evidence file accounting underflow")
    let rest ← inspectRepositories E (i+1) sources (remainingBytes-bundleBytes)
      (remainingFiles-bundleFiles) (remainingRepositories-1)
    return inspected::rest

/-- The part of `start` between the two writes of the context. -/
def review (E : Environment) (input : RuntimeInput) (start : StartInput) :
    Except RuntimeOperationError (List (RepositoryReview × RepositoryEvidence)) := do
  let sources ← start.repositories.mapM sourceForRepository
  inspectionFailed (authorizeRun input.sessionId sources)
  let reviewed ← inspectRepositories E 0 sources maxTotalEvidenceBytes maxTotalEvidenceFiles sources.length
  checkCancellation E ⟨3,0⟩
  return reviewed

/-! ### The retained context -/

abbrev Operation := Prog Session RuntimeOperationError

/-- Why a context is not written. -/
def Environment.refuses (E : Environment) (site : WriteSite) (context : StoredContext) : Option String :=
  if maxSessionContextBytes < E.size context then some "Pi session context exceeded bounded size"
  else (E.write site).map ("persist Pi session context: " ++ ·)

def persistContext (E : Environment) (site : WriteSite) (context : AssessmentContext) : Operation Unit :=
  fun s => match E.refuses site context.toStoredContext with
    | some error => some (.error (.failed error),s)
    | none => some (.ok (),{ s with file := .stored context.toStoredContext })

def insertContext (context : AssessmentContext) : Operation Unit :=
  modifyState fun s => { s with memory := some context }

def loadContext : Operation (Option AssessmentContext) := fun s =>
  match s.memory, s.file with
  | some context, _ => some (.ok (some context),s)
  | none, .absent => some (.ok none,s)
  | none, .unreadable error => some (.error (.failed ("read Pi session context: " ++ error)),s)
  | none, .oversized => some (.error (.failed "Pi session context exceeded bounded size"),s)
  | none, .corrupt error => some (.error (.failed ("parse Pi session context: " ++ error)),s)
  | none, .stored stored =>
    let context : AssessmentContext := { stored with inFlight := false }
    some (.ok (some context),{ s with memory := some context })

def clearContext (E : Environment) (site : RemoveSite) : Operation Unit := fun s =>
  match E.remove site with
  | some error => some (.error (.failed ("remove Pi session context: " ++ error)),s)
  | none => some (.ok (),{ s with file := .absent })

def clearSession (E : Environment) (site : RemoveSite) : Operation Unit := do
  modifyState fun s => { s with memory := none }
  clearContext E site

def retainContextAfterError (E : Environment) : Operation Unit := do
  match ← loadContext with
  | none => pure ()
  | some context =>
    persistContext E .retained { context with inFlight := false }
    insertContext { context with inFlight := false }

/-- The error ends the session, so that nothing of it is kept. -/
def terminal (error : RuntimeOperationError) : Bool :=
  error = .cancelled || Text.contains error.text "execution_outcome_unknown"

def cleanupAfterError (E : Environment) (error : RuntimeOperationError) : Operation RuntimeOperationError := do
  let cleanup : Except RuntimeOperationError Unit ← attempt
    (if terminal error then clearSession E .afterError else retainContextAfterError E)
  match cleanup with
  | .ok () => pure error
  | .error cleanup => pure (.failed (error.text ++ "; " ++ cleanup.text))

def checkCancellationOrCleanup (E : Environment) (m : Moment) : Operation Unit := do
  if E.cancelled m then
    let error ← cleanupAfterError E .cancelled
    fail error

/-- The agent's answer; its process is not started when the flag is seen. -/
def invokePi (E : Environment) : Except RuntimeOperationError String :=
  if E.cancelled ⟨5,0⟩ then .error .cancelled else E.agent

/-- The same steps of `start` and of `message`: the last look before the agent, its answer, and
the look after it. -/
def askPi (E : Environment) : Operation String := do
  checkCancellationOrCleanup E ⟨4,0⟩
  match invokePi E with
  | .error error =>
    let error ← cleanupAfterError E error
    fail error
  | .ok response =>
    checkCancellationOrCleanup E ⟨6,0⟩
    pure response

def AssessmentContext.forFacts (c : AssessmentContext) : AssessmentHandoff.AssessmentContext :=
  ⟨c.requirementId,c.requirementRevision,c.repositoriesReviewed⟩

/-! ### Operations -/

def failIf (refused : Bool) (error : String) : Operation Unit :=
  if refused then fail (.failed error) else pure ()

def only (condition : Bool) (m : Operation Unit) : Operation Unit := if condition then m else pure ()

/-- The part of `start` that follows the agent's response. -/
def finishStart (E : Environment) (input : RuntimeInput) (assessment : AssessmentContext)
    (response : String) : Operation (List RuntimeFact) := do
  let parsed := parseAssessment E.decode response
  let completes := parsed.verdict = .ready
  only completes (clearContext E .completion)
  insertContext { assessment with inFlight := false }
  let facts := factsForResponse input.operationId ("pi-" ++ input.sessionId) parsed
    (some assessment.forFacts) true completes
  only completes (clearSession E .session)
  return facts

def startedContext (start : StartInput) (inspected : List (RepositoryReview × RepositoryEvidence)) :
    StoredContext :=
  ⟨start.requirement.id,start.requirement.revision,inspected.map (·.1),inspected.map (·.2),some start⟩

def start (E : Environment) (input : RuntimeInput) (start : StartInput) : Operation (List RuntimeFact) := do
  orFail (checkCancellation E ⟨1,0⟩)
  persistContext E .started ⟨startedContext start [],true⟩
  insertContext ⟨startedContext start [],true⟩
  let inspected ← orFail (review E input start)
  persistContext E .reviewed ⟨startedContext start inspected,true⟩
  insertContext ⟨startedContext start inspected,true⟩
  let response ← askPi E
  finishStart E input ⟨startedContext start inspected,true⟩ response

/-- The part of `message` that follows the agent's response. -/
def finishMessage (E : Environment) (input : RuntimeInput) (context : AssessmentContext)
    (response : String) : Operation (List RuntimeFact) := do
  insertContext { context with inFlight := false }
  let parsed := parseAssessment E.decode response
  let completes := parsed.verdict = .ready
  let facts := factsForResponse input.operationId ("pi-" ++ input.sessionId) parsed
    (some context.forFacts) false completes
  only completes (clearSession E .session)
  return facts

def message (E : Environment) (input : RuntimeInput) : Operation (List RuntimeFact) := do
  orFail (checkCancellation E ⟨1,0⟩)
  match ← loadContext with
  | none => fail (.failed "Pi clarification message has no active session context")
  | some context =>
    failIf (context.context = none) "Pi clarification context is unavailable"
    failIf context.inFlight "Pi clarification session is already running"
    insertContext { context with inFlight := true }
    let response ← askPi E
    finishMessage E input context response

def cancel (E : Environment) (reason : String) : Operation (List RuntimeFact) := do
  match ← loadContext with
  | none => fail (.failed "Pi clarification session cancellation was not confirmed")
  | some context =>
    failIf context.inFlight "Pi clarification cancellation could not interrupt active execution"
    clearSession E .session
    return [.completed ("Pi clarification cancelled: " ++ reason)]

/-- The arms of the match in `dispatch_with_control`. What `resume` refuses itself leaves the
function at once; the other results come back as values. -/
def perform (E : Environment) (input : RuntimeInput) :
    Operation (Except RuntimeOperationError (List RuntimeFact)) :=
  match input.command with
  | .start startInput => attempt (start E input startInput)
  | .message _ _ => attempt (message E input)
  | .cancel reason => attempt (cancel E reason)
  | .resume => do
    orFail (checkCancellation E ⟨0,0⟩)
    match ← loadContext with
    | none => fail (.failed "Pi clarification resume has no retained session context")
    | some context =>
      match context.context with
      | none => fail (.failed "Pi clarification resume has no immutable start context")
      | some startInput => attempt (start E input startInput)

def RuntimeCommand.cancels : RuntimeCommand → Bool
  | .cancel _ => true
  | _ => false

def dispatchWithControl (E : Environment) (input : RuntimeInput) : Operation (List RuntimeFact) := do
  let result ← perform E input
  orFail (if E.cancelled ⟨7,0⟩ && !input.command.cancels then .error .cancelled else result)

end Runtime
end North
