import North.ConversationPagination
import North.ReviewBinding
import North.ClarificationOps

/-! The state of the conversation workspace in the browser: what each response, each page and
each mutation result does to it. -/
namespace North
namespace Workspace

open Domain
open Pagination (ConversationHistory ConversationPage FetchPage codeUnits buildConversationHistory
  appendConversationPage repairConversationHistory)

def workspacePageLimit : ℕ := 50

inductive ReadinessOutcome
  | accepted | rejected
  deriving DecidableEq, Repr

structure ReadinessView where
  id : String
  eventId : String
  sessionId : String
  daemonEventSeq : ℕ
  requirementRevision : ℕ
  verdict : Verdict
  blockers : List String
  assumptions : List String
  repositoriesReviewed : List ReviewedRepository
  outcome : ReadinessOutcome
  rejectionReason : Option String
  assessedAtMs : ℕ
  acceptedStateVersion : Option ℕ
  createdAt : String
  current : Bool
  deriving DecidableEq, Repr

structure ClarificationRun where
  runId : String
  requirementId : String
  startMessageId : String
  phase : Store.ClarificationPhase
  status : Store.ClarificationStatus
  cancelRequested : Bool
  attemptCount : ℕ
  nextRetryAt : Option String
  failureReason : Option Store.FailureClass
  retrying : Bool
  failed : Bool
  createdAt : String
  updatedAt : String
  lastActivityAt : String
  deriving DecidableEq, Repr

inductive CurrentUserRole
  | owner | admin | requirementManager | requester
  deriving DecidableEq, Repr

structure CurrentUser where
  id : String
  email : String
  role : CurrentUserRole
  deriving DecidableEq, Repr

structure ActivityItem where
  id : ℕ
  eventId : String
  sessionId : String
  activity : String
  createdAt : String
  deriving DecidableEq, Repr

structure ActivityPage where
  activities : List ActivityItem
  nextOffset : Option ℕ
  deriving DecidableEq, Repr

structure ActivityPageSlice where
  offset : ℕ
  activities : List ActivityItem
  nextOffset : Option ℕ
  deriving DecidableEq, Repr

structure ActivityHistory where
  pages : List ActivityPageSlice
  activities : List ActivityItem
  nextOffset : Option ℕ
  priorLoadedEndOffset : ℕ
  reachedEnd : Bool
  deriving DecidableEq, Repr

inductive WorkspaceResource
  | requirement | conversation | readiness | activity | session | reviewPacket | currentUser
  deriving DecidableEq, Repr

abbrev WorkspaceResourceErrors := List (WorkspaceResource × String)

namespace WorkspaceResourceErrors

/-- `{ ...errors, [resource]: undefined }`. -/
def clear (errors : WorkspaceResourceErrors) (resource : WorkspaceResource) : WorkspaceResourceErrors :=
  errors.filter fun e => e.1 != resource

def set (errors : WorkspaceResourceErrors) (resource : WorkspaceResource) (text : String) :
    WorkspaceResourceErrors :=
  InsertionMap.set errors resource text

end WorkspaceResourceErrors

inductive ConnectionState
  | connecting | connected | reconnecting | closedOrError
  deriving DecidableEq, Repr

structure WorkspaceState where
  requirement : Option Requirement := none
  conversation : Option ConversationHistory := none
  readiness : Option ReadinessView := none
  reviewPacket : Option ReviewPacket := none
  activityHistory : Option ActivityHistory := none
  activities : List ActivityItem := []
  activityNextOffset : Option ℕ := none
  activityReachedEnd : Bool := false
  run : Option ClarificationRun := none
  currentUser : Option CurrentUser := none
  loading : Bool := true
  refreshing : Bool := false
  loadingConversationMore : Bool := false
  loadingActivityMore : Bool := false
  initialError : Option String := none
  refreshError : Option String := none
  resourceErrors : WorkspaceResourceErrors := []
  connectionState : ConnectionState := .connecting
  deriving DecidableEq, Repr

def emptyState : WorkspaceState := {}

/-- What a promise is rejected with. -/
inductive Cause
  | api (status : ℕ) (code : Option String)
  | error (message : String)
  | other
  deriving DecidableEq, Repr

def errorText (cause : Cause) (resource : String) : String :=
  match cause with
  | .api status code =>
    if code = some "invalid_server_data" then resource ++ " returned invalid server data"
    else match code with
      | some code =>
        if code ≠ "" then resource ++ " failed: " ++ code
        else resource ++ " failed (" ++ toString status ++ ")"
      | none => resource ++ " failed (" ++ toString status ++ ")"
  | .error message => message
  | .other => resource ++ " failed"

/-! ### Activity -/

def compareActivities (left right : ActivityItem) : ℤ :=
  if codeUnits left.createdAt < codeUnits right.createdAt then -1
  else if codeUnits right.createdAt < codeUnits left.createdAt then 1
  else (left.id : ℤ)-right.id

structure ActivityChain where
  pages : List ActivityPageSlice := []
  endOffset : ℕ := 0
  nextOffset : Option ℕ := none
  reachedEnd : Bool := false
  deriving DecidableEq, Repr

/-- The loop of `buildActivityHistory`. Each turn visits one more of the offsets, so it ends
within as many turns as there are entries. -/
def activityLoop (byOffset : List (ℕ × ActivityPageSlice)) :
    ℕ → (offset : ℕ) → (visited : List ℕ) → ActivityChain → ActivityChain
  | 0, _, _, chain => chain
  | fuel+1, offset, visited, chain =>
    if visited.contains offset then chain
    else match InsertionMap.get byOffset offset with
      | none => chain
      | some page =>
        let chain : ActivityChain :=
          ⟨chain.pages ++ [page],offset+page.activities.length,page.nextOffset,false⟩
        match page.nextOffset with
        | none => { chain with reachedEnd := true }
        | some next =>
          if next ≤ offset then chain else activityLoop byOffset fuel next (offset::visited) chain

def buildActivityHistory (pages : List ActivityPageSlice) : ActivityHistory :=
  let byOffset := InsertionMap.ofList (pages.map fun page => (page.offset,page))
  let chain := activityLoop byOffset (pages.length+1) 0 [] {}
  let byId := InsertionMap.ofList ((chain.pages.flatMap (·.activities)).map fun a => (a.id,a))
  ⟨chain.pages,(InsertionMap.values byId).insertionSort fun a b => compareActivities a b ≤ 0,
    chain.nextOffset,chain.endOffset,chain.reachedEnd⟩

/-- `getActivityPage` for one requirement, with the server that answers it. -/
abbrev FetchActivity := (offset limit : ℕ) → Except Cause ActivityPage

def loadActivityHistory (getActivityPage : FetchActivity) : Except Cause ActivityHistory :=
  match getActivityPage 0 workspacePageLimit with
  | .error cause => .error cause
  | .ok page => .ok (buildActivityHistory [⟨0,page.activities,page.nextOffset⟩])

/-- The loop of `repairActivityHistory`; `none` when the fuel ends before the loop does. -/
def repairActivityLoop (getActivityPage : FetchActivity) (previous : ActivityHistory) :
    ℕ → (offset : ℕ) → (requestedOffsets : List ℕ) → (pages : List ActivityPageSlice) →
      Option (Except Cause (List ActivityPageSlice))
  | 0, _, _, _ => none
  | fuel+1, offset, requestedOffsets, pages =>
    if requestedOffsets.contains offset then some (.ok pages)
    else match getActivityPage offset workspacePageLimit with
      | .error cause => some (.error cause)
      | .ok page =>
        let pages := pages ++ [⟨offset,page.activities,page.nextOffset⟩]
        let endOffset := offset+page.activities.length
        let throughPriorRange := decide (previous.priorLoadedEndOffset ≤ endOffset)
        let throughCurrentEnd := previous.reachedEnd && page.nextOffset.isNone
        if (if previous.reachedEnd then throughCurrentEnd else throughPriorRange) then some (.ok pages)
        else match page.nextOffset with
          | none => some (.ok pages)
          | some next =>
            if next ≤ offset then some (.ok pages)
            else repairActivityLoop getActivityPage previous fuel next (offset::requestedOffsets) pages

def repairActivityHistory (fuel : ℕ) (getActivityPage : FetchActivity) (previous : ActivityHistory) :
    Option (Except Cause ActivityHistory) :=
  (repairActivityLoop getActivityPage previous fuel 0 [] []).map fun
    | .error cause => .error cause
    | .ok pages => .ok (buildActivityHistory pages)

/-- `{ ...state, ...activityFromHistory(history) }`. -/
def WorkspaceState.activityFromHistory (s : WorkspaceState) (history : ActivityHistory) : WorkspaceState :=
  { s with
    activityHistory := some history
    activities := history.activities
    activityNextOffset := history.nextOffset
    activityReachedEnd := history.reachedEnd }

/-! ### `loadBundle` -/

namespace WorkspaceState

def startLoading (initial : Bool) (current : WorkspaceState) : WorkspaceState :=
  { current with
    loading := initial
    refreshing := !initial
    loadingConversationMore := false
    loadingActivityMore := false
    initialError := if initial then none else current.initialError
    refreshError := if initial then current.refreshError else none
    resourceErrors := if initial then [] else current.resourceErrors }

end WorkspaceState

/-- `conversationPromise`: the pages come from `fetch`, unless one of the reads is rejected. -/
def conversationPromise (fuel : ℕ) (previous : Option ConversationHistory)
    (fetch : Except Cause FetchPage) : Option (Except Cause ConversationHistory) :=
  match fetch with
  | .error cause => some (.error cause)
  | .ok fetch =>
    let result := match previous with
      | some previous => repairConversationHistory fuel fetch previous workspacePageLimit
      | none =>
        match fetch 0 workspacePageLimit with
        | .error e => some (.error e)
        | .ok page => buildConversationHistory [⟨0,page⟩]
    result.map fun
      | .error e => .error (.error e)
      | .ok history => .ok history

def activityPromise (fuel : ℕ) (previous : Option ActivityHistory) (getActivityPage : FetchActivity) :
    Option (Except Cause ActivityHistory) :=
  match previous with
  | some previous => repairActivityHistory fuel getActivityPage previous
  | none => some (loadActivityHistory getActivityPage)

/-- The packet is asked for once the requirement is there, and must be of its very version. -/
def reviewPacketPromise (requirement : Except Cause Requirement)
    (getReviewPacket : Except Cause ReviewPacket) : Except Cause (Option ReviewPacket) :=
  match requirement with
  | .error _ => .ok none
  | .ok requirement =>
    if requirement.status ≠ .ready then .ok none
    else match getReviewPacket with
      | .error cause => .error cause
      | .ok packet =>
        if packet.requirementRevision ≠ requirement.revision ∨
            packet.requirementStateVersion ≠ requirement.stateVersion then
          .error (.error "Review packet is not current")
        else .ok (some packet)

/-- The settled promises of one bundle. -/
structure Results where
  requirement : Except Cause Requirement
  conversation : Except Cause ConversationHistory
  readiness : Except Cause (Option ReadinessView)
  activity : Except Cause ActivityHistory
  run : Except Cause (Option ClarificationRun)
  reviewPacket : Except Cause (Option ReviewPacket)
  currentUser : Except Cause CurrentUser

/-- The text of a rejected promise. -/
def failure {α : Type} (result : Except Cause α) (resource : WorkspaceResource) (label : String) :
    WorkspaceResourceErrors :=
  match result with
  | .error cause => [(resource,errorText cause label)]
  | .ok _ => []

def Results.ready (results : Results) : Bool :=
  match results.requirement with
  | .ok requirement => requirement.status = .ready
  | .error _ => false

def Results.resourceErrors (results : Results) : WorkspaceResourceErrors :=
  failure results.requirement .requirement "Requirement" ++
    failure results.conversation .conversation "Conversation" ++
    failure results.readiness .readiness "Readiness" ++ failure results.activity .activity "Activity" ++
    failure results.run .session "Clarification run" ++
    failure results.currentUser .currentUser "Current user" ++
    if results.ready then failure results.reviewPacket .reviewPacket "Review packet" else []

/-- A fulfilled value, or the one shown before. -/
def fulfilled {α : Type} (result : Except Cause α) (before : α) : α :=
  match result with
  | .ok value => value
  | .error _ => before

namespace WorkspaceState

/-- The packet beside a requirement that was loaded. -/
def settledPacket (results : Results) (current : WorkspaceState) : Option ReviewPacket :=
  match results.requirement with
  | .error _ => current.reviewPacket
  | .ok requirement =>
    if requirement.status = .ready then
      match results.reviewPacket with
      | .ok packet => packet
      | .error _ => none
    else none

/-- The state after a bundle whose promises have all settled. -/
def settle (initial : Bool) (results : Results) (current : WorkspaceState) : WorkspaceState :=
  let next := match results.activity with
    | .ok history => current.activityFromHistory history
    | .error _ => current
  let failures := " · ".intercalate (results.resourceErrors.map (·.2))
  { next with
    requirement := fulfilled (results.requirement.map some) current.requirement
    conversation := fulfilled (results.conversation.map some) current.conversation
    readiness := fulfilled results.readiness current.readiness
    run := fulfilled results.run current.run
    currentUser := fulfilled (results.currentUser.map some) current.currentUser
    reviewPacket := settledPacket results current
    loading := false
    refreshing := false
    initialError :=
      if results.resourceErrors = [] then none
      else if initial then some failures else current.initialError
    refreshError := if !initial && results.resourceErrors ≠ [] then some failures else none
    resourceErrors := results.resourceErrors }

/-! ### Pages and mutation results -/

/-- The page behind the loaded range; `none` when the update throws. -/
def appendConversation (page : ConversationPage) (offset : ℕ) (value : WorkspaceState) :
    Option WorkspaceState :=
  let next (conversation : Option ConversationHistory) : WorkspaceState :=
    { value with
      conversation
      loadingConversationMore := false
      resourceErrors := value.resourceErrors.clear .conversation }
  match value.conversation with
  | none => some (next none)
  | some current =>
    match appendConversationPage current page (some offset) with
    | some (.ok history) => some (next (some history))
    | _ => none

def failConversation (cause : Cause) (value : WorkspaceState) : WorkspaceState :=
  { value with
    loadingConversationMore := false
    resourceErrors := value.resourceErrors.set .conversation (errorText cause "Conversation") }

def appendActivity (page : ActivityPage) (offset : ℕ) (value : WorkspaceState) : WorkspaceState :=
  let existing : ActivityPageSlice := ⟨0,value.activities,some offset⟩
  let history := match value.activityHistory with
    | some history => buildActivityHistory (history.pages ++ [⟨offset,page.activities,page.nextOffset⟩])
    | none => buildActivityHistory [existing,⟨offset,page.activities,page.nextOffset⟩]
  { value.activityFromHistory history with
    loadingActivityMore := false
    resourceErrors := value.resourceErrors.clear .activity }

def failActivity (cause : Cause) (value : WorkspaceState) : WorkspaceState :=
  { value with
    loadingActivityMore := false
    resourceErrors := value.resourceErrors.set .activity (errorText cause "Activity") }

def applyRequirement (requirementId : String) (requirement : Requirement) (current : WorkspaceState) :
    WorkspaceState :=
  if requirement.id ≠ requirementId then current
  else
    let packetIsCurrent (packet : ReviewPacket) : Bool :=
      requirement.status = .ready && packet.requirementRevision = requirement.revision &&
        packet.requirementStateVersion = requirement.stateVersion
    { current with
      requirement := some requirement
      reviewPacket := current.reviewPacket.filter packetIsCurrent
      resourceErrors :=
        let errors := current.resourceErrors.clear .requirement
        if requirement.status = .ready then errors else errors.clear .reviewPacket }

def applyRun (requirementId : String) (run : ClarificationRun) (current : WorkspaceState) :
    WorkspaceState :=
  if run.requirementId ≠ requirementId then current
  else { current with run := some run, resourceErrors := current.resourceErrors.clear .session }

end WorkspaceState

/-! ### The packet belongs to the requirement -/

namespace WorkspaceState

/-- A packet is shown only beside the Ready requirement that it was made for. -/
def PacketCurrent (s : WorkspaceState) : Prop :=
  ∀ packet, s.reviewPacket = some packet → ∃ requirement, s.requirement = some requirement ∧
    requirement.status = .ready ∧ packet.requirementRevision = requirement.revision ∧
    packet.requirementStateVersion = requirement.stateVersion

/-- The update is not about the requirement and its packet. -/
def SameReview (s s' : WorkspaceState) : Prop :=
  s'.requirement = s.requirement ∧ s'.reviewPacket = s.reviewPacket

variable {s s' : WorkspaceState}

theorem SameReview.packetCurrent (h : s.SameReview s') (hs : s.PacketCurrent) : s'.PacketCurrent := by
  intro packet hpacket
  rw [h.2] at hpacket
  rw [h.1]
  exact hs packet hpacket

theorem emptyState_packetCurrent : emptyState.PacketCurrent := fun _ h => nomatch h

theorem sameReview_startLoading (initial : Bool) (s : WorkspaceState) :
    s.SameReview (s.startLoading initial) := ⟨rfl,rfl⟩

theorem sameReview_appendConversation {page : ConversationPage} {offset : ℕ}
    (h : s.appendConversation page offset = some s') : s.SameReview s' := by
  unfold appendConversation at h
  dsimp only at h
  split at h
  · cases h
    exact ⟨rfl,rfl⟩
  · split at h
    · cases h
      exact ⟨rfl,rfl⟩
    · cases h

theorem sameReview_appendActivity (page : ActivityPage) (offset : ℕ) (s : WorkspaceState) :
    s.SameReview (s.appendActivity page offset) := ⟨rfl,rfl⟩

theorem sameReview_applyRun (requirementId : String) (run : ClarificationRun) (s : WorkspaceState) :
    s.SameReview (s.applyRun requirementId run) := by
  unfold applyRun
  split_ifs
  · exact ⟨rfl,rfl⟩
  · exact ⟨rfl,rfl⟩

theorem reviewPacketPromise_current {requirement : Requirement} {answer : Except Cause ReviewPacket}
    {packet : ReviewPacket} (h : reviewPacketPromise (.ok requirement) answer = .ok (some packet)) :
    packet.requirementRevision = requirement.revision ∧
      packet.requirementStateVersion = requirement.stateVersion := by
  simp only [reviewPacketPromise] at h
  split_ifs at h with hready
  · cases h
  · cases answer with
    | error cause => cases h
    | ok served =>
      dsimp only at h
      split_ifs at h with hcurrent
      cases h
      simpa using hcurrent

theorem settle_requirement (initial : Bool) (results : Results) (s : WorkspaceState) :
    (s.settle initial results).requirement =
      match results.requirement with
      | .ok requirement => some requirement
      | .error _ => s.requirement := by
  cases h : results.requirement <;> simp [settle,fulfilled,h,Except.map]

/-- A bundle shows a packet only with the requirement it was checked against. -/
theorem settle_packetCurrent {initial : Bool} {results : Results} {answer : Except Cause ReviewPacket}
    (hpacket : results.reviewPacket = reviewPacketPromise results.requirement answer)
    (hs : s.PacketCurrent) : (s.settle initial results).PacketCurrent := by
  intro packet hshown
  rw [settle_requirement]
  have hsettled : settledPacket results s = some packet := hshown
  cases hrequirement : results.requirement with
  | error cause =>
    rw [settledPacket,hrequirement] at hsettled
    exact hs packet hsettled
  | ok requirement =>
    rw [settledPacket,hrequirement] at hsettled
    simp only at hsettled
    split_ifs at hsettled with hready
    cases hresult : results.reviewPacket with
    | error cause => simp [hresult] at hsettled
    | ok shown =>
      simp only [hresult] at hsettled
      subst hsettled
      rw [hpacket,hrequirement] at hresult
      exact ⟨requirement,rfl,hready,reviewPacketPromise_current hresult⟩

theorem applyRequirement_requirement {requirementId : String} {requirement : Requirement}
    (hid : requirement.id = requirementId) (s : WorkspaceState) :
    (s.applyRequirement requirementId requirement).requirement = some requirement := by
  simp [applyRequirement,hid]

theorem applyRequirement_packetCurrent (requirementId : String) (requirement : Requirement)
    (hs : s.PacketCurrent) : (s.applyRequirement requirementId requirement).PacketCurrent := by
  by_cases hid : requirement.id ≠ requirementId
  · rw [applyRequirement,if_pos hid]
    exact hs
  · rw [applyRequirement,if_neg hid]
    intro packet hpacket
    obtain ⟨-,hcurrent⟩ := Option.filter_eq_some_iff.mp hpacket
    simp only [Bool.and_eq_true,decide_eq_true_eq] at hcurrent
    exact ⟨requirement,rfl,hcurrent.1.1,hcurrent.1.2,hcurrent.2⟩

end WorkspaceState

end Workspace
end North
