import North.Lib.Steps
import North.WorkspaceState

/-! The workspace of one requirement in the browser, together with the server: commits and their
notifications, the hub that broadcasts them, the event stream that is opened again after each
error, and the loads that all of these bring about. No request is rejected here. -/
namespace North
namespace WorkspaceStream

open Domain Workspace
open Pagination (Conversation ConversationHistory ConversationPage FetchPage MessageList)

inductive RequirementEventCategory
  | requirementChanged | conversationChanged | readinessChanged | activityChanged | sessionChanged
  deriving DecidableEq, Repr

structure BrowserNotification where
  category : RequirementEventCategory
  requirementId : String
  deriving DecidableEq, Repr

def browserEventCapacity : ℕ := 256

/-- What the server has for the requirement. The packet stands with the answer that refuses it
while there is none; it is derived from the requirement as it is. -/
structure ServerData where
  requirement : Requirement
  readiness : Option ReadinessView
  run : Option ClarificationRun
  reviewPacket : Except Cause ReviewPacket
  conversation : Conversation
  messages : MessageList
  packetCurrent : ∀ packet, reviewPacket = .ok packet → requirement.status = .ready ∧
    packet.requirementRevision = requirement.revision ∧
    packet.requirementStateVersion = requirement.stateVersion

namespace ServerData

def conversationPage (data : ServerData) : FetchPage :=
  Pagination.conversationPage data.conversation data.messages

end ServerData

/-! ### The hub and the stream -/

/-- A receiver of the hub with the response that it feeds: what it has not taken yet, whether it
missed some, what is on the wire, and whether the response has ended. -/
structure Subscription where
  backlog : List BrowserNotification := []
  lagged : Bool := false
  wire : List BrowserNotification := []
  ended : Bool := false
  deriving DecidableEq, Repr

namespace Subscription

/-- A full channel drops the oldest of what the receiver has not taken. -/
def publish (sub : Subscription) (n : BrowserNotification) : Subscription :=
  if sub.ended then sub
  else if sub.backlog.length < browserEventCapacity then { sub with backlog := sub.backlog ++ [n] }
  else { sub with backlog := (sub.backlog ++ [n]).tail, lagged := true }

/-- A turn of `notification_stream`; `none` while it waits. -/
def send (sub : Subscription) : Option Subscription :=
  if sub.ended then none
  else if sub.lagged then some { sub with ended := true }
  else match sub.backlog with
    | [] => none
    | n::backlog => some { sub with backlog, wire := sub.wire ++ [n] }

end Subscription

/-- The `EventSource` with the request under it. -/
inductive Stream
  | connecting
  | subscribed (sub : Subscription)
  | live (sub : Subscription)
  | closed
  deriving DecidableEq, Repr

namespace Stream

def publish (n : BrowserNotification) : Stream → Stream
  | .subscribed sub => .subscribed (sub.publish n)
  | .live sub => .live (sub.publish n)
  | stream => stream

def send : Stream → Option Stream
  | .subscribed sub => sub.send.map .subscribed
  | .live sub => sub.send.map .live
  | _ => none

end Stream

/-! ### Loads -/

inductive Read
  | requirement | readiness | run | reviewPacket
  | conversationPage (offset : ℕ)
  deriving DecidableEq, Repr

/-- A call of `loadBundle` under way, with the responses that it has. -/
structure Bundle where
  initial : Bool
  generation : ℕ
  previousConversation : Option ConversationHistory
  requirement : Option Requirement := none
  readiness : Option (Option ReadinessView) := none
  run : Option (Option ClarificationRun) := none
  reviewPacket : Option (Except Cause ReviewPacket) := none
  pages : List (ℕ × ConversationPage) := []
  deriving DecidableEq, Repr

namespace Bundle

/-- A page that has not come stands as an error that names its offset. -/
def fetchPage (b : Bundle) : FetchPage := fun offset _ =>
  match InsertionMap.get b.pages offset with
  | some page => .ok page
  | none => .error (toString offset)

/-- The conversation as far as its pages have come; the loop asks for them one by one. -/
def conversation (b : Bundle) : Option (Except Cause ConversationHistory) :=
  conversationPromise (b.pages.length+1) b.previousConversation (.ok b.fetchPage)

/-- The page at the offset is the one that the loop waits for. -/
def awaits (b : Bundle) (offset : ℕ) : Bool :=
  match b.conversation with
  | some (.error (.error text)) => text == toString offset
  | _ => false

/-- The server reads what one of the requests asks for. The packet is asked for once a Ready
requirement has come. -/
def serve (b : Bundle) (data : ServerData) : Read → Option Bundle
  | .requirement =>
    if b.requirement.isNone then some { b with requirement := some data.requirement } else none
  | .readiness => if b.readiness.isNone then some { b with readiness := some data.readiness } else none
  | .run => if b.run.isNone then some { b with run := some data.run } else none
  | .reviewPacket =>
    if b.requirement.any (fun r => r.status = .ready) ∧ b.reviewPacket.isNone then
      some { b with reviewPacket := some data.reviewPacket }
    else none
  | .conversationPage offset =>
    if b.awaits offset then
      match data.conversationPage offset workspacePageLimit with
      | .ok page => some { b with pages := b.pages ++ [(offset,page)] }
      | .error _ => none
    else none

/-- What `reviewPacketPromise` goes by; beside a requirement that is not Ready it is not read. -/
def packetAnswer (b : Bundle) (requirement : Requirement) : Option (Except Cause ReviewPacket) :=
  if requirement.status = .ready then b.reviewPacket else some (.error .other)

/-- The settled promises; `none` while one of them is pending. The activity and the user are
those of the account, and come as they are. -/
def results (b : Bundle) (activity : ActivityHistory) (currentUser : CurrentUser) : Option Results := do
  let requirement ← b.requirement
  let history ← b.conversation.bind Except.toOption
  let readiness ← b.readiness
  let run ← b.run
  let answer ← b.packetAnswer requirement
  return {
    requirement := .ok requirement
    conversation := .ok history
    readiness := .ok readiness
    activity := .ok activity
    run := .ok run
    reviewPacket := reviewPacketPromise (.ok requirement) answer
    currentUser := .ok currentUser }

end Bundle

/-- A page asked for by `loadMoreConversation`. -/
structure More where
  generation : ℕ
  offset : ℕ
  page : Option ConversationPage := none
  deriving DecidableEq, Repr

def More.serve (m : More) (data : ServerData) : Option More :=
  if m.page.isNone then
    match data.conversationPage m.offset workspacePageLimit with
    | .ok page => some { m with page := some page }
    | .error _ => none
  else none

/-! ### The browser and the server -/

/-- `unpublished` are the notifications of commits that were made and not yet announced. -/
structure World where
  requirementId : String
  named : requirementId ≠ ""
  data : ServerData
  unpublished : List BrowserNotification := []
  stream : Stream := .connecting
  opened : Bool := false
  failedBeforeOpen : Bool := false
  repairTimer : Bool := false
  state : WorkspaceState := emptyState
  rendered : WorkspaceState := emptyState
  bundleGeneration : ℕ := 1
  conversationMoreGeneration : ℕ := 1
  bundles : List Bundle := []
  conversationMores : List More := []

inductive Act
  | commit (data : ServerData) (categories : List RequirementEventCategory)
  | publish (i : ℕ)
  | publishOther (n : BrowserNotification)
  | subscribe
  | onOpen
  | send
  | dispatch
  | onError (permanent : Bool)
  | onFocus
  | timeout
  | refresh
  | read (i : ℕ) (key : Read)
  | settle (i : ℕ) (activity : ActivityHistory) (currentUser : CurrentUser)
  | loadMoreConversation
  | readMore (i : ℕ)
  | conversationPage (i : ℕ)
  | render

namespace World

/-- The part of `loadBundle` up to its first await. -/
def loadBundle (w : World) (initial : Bool) : World :=
  { w with
    bundleGeneration := w.bundleGeneration+1
    conversationMoreGeneration := w.conversationMoreGeneration+1
    state := w.state.startLoading initial
    bundles := w.bundles ++ [{
      initial
      generation := w.bundleGeneration+1
      previousConversation := if initial then none else w.rendered.conversation }] }

/-- One timer at a time. -/
def scheduleRepair (w : World) : World := { w with repairTimer := true }

/-- `onChange` is called for a notification with an id, and of this requirement if one is asked for. -/
def dispatch (w : World) (n : BrowserNotification) : World :=
  if n.requirementId = "" ∨ (w.requirementId ≠ "" ∧ n.requirementId ≠ w.requirementId) then w
  else w.scheduleRepair

def onOpen (w : World) : World :=
  let w := if w.opened || w.failedBeforeOpen then w.scheduleRepair else w
  { w with
    opened := true
    failedBeforeOpen := false
    state := { w.state with connectionState := .connected } }

def onError (w : World) (permanent : Bool) : World :=
  { w with
    failedBeforeOpen := if w.opened then w.failedBeforeOpen else true
    state := { w.state with connectionState := if permanent then .closedOrError else .reconnecting } }

def live (w : World) (b : Bundle) : Bool := b.generation = w.bundleGeneration

/-- The part of `loadBundle` after all of its promises have settled. -/
def settle (w : World) (i : ℕ) (b : Bundle) (results : Results) : World :=
  let rest := { w with bundles := w.bundles.eraseIdx i }
  if w.live b then { rest with state := w.state.settle b.initial results } else rest

def loadMoreConversation (w : World) : World :=
  match w.rendered.conversation.bind (·.nextOffset) with
  | none => w
  | some offset =>
    { w with
      conversationMoreGeneration := w.conversationMoreGeneration+1
      state := { w.state with loadingConversationMore := true }
      conversationMores := w.conversationMores ++ [⟨w.conversationMoreGeneration+1,offset,none⟩] }

def conversationPage (w : World) (i : ℕ) (m : More) (page : ConversationPage) : Option World :=
  let rest := { w with conversationMores := w.conversationMores.eraseIdx i }
  if m.generation = w.conversationMoreGeneration then
    (w.state.appendConversation page m.offset).map fun state => { rest with state }
  else some rest

def step (w : World) : Act → Option World
  | .commit data categories =>
    if data.requirement.id = w.requirementId ∧ categories ≠ [] then
      some { w with
        data
        unpublished := w.unpublished ++ categories.map fun category => ⟨category,w.requirementId⟩ }
    else none
  | .publish i => w.unpublished[i]?.map fun n =>
    { w with unpublished := w.unpublished.eraseIdx i, stream := w.stream.publish n }
  | .publishOther n =>
    if n.requirementId ≠ w.requirementId then some { w with stream := w.stream.publish n } else none
  | .subscribe => match w.stream with
    | .connecting => some { w with stream := .subscribed {} }
    | _ => none
  | .onOpen => match w.stream with
    | .subscribed sub => some { w.onOpen with stream := .live sub }
    | _ => none
  | .send => w.stream.send.map fun stream => { w with stream }
  | .dispatch => match w.stream with
    | .live sub => match sub.wire with
      | [] => none
      | n::wire => some { w.dispatch n with stream := .live { sub with wire } }
    | _ => none
  | .onError permanent => match w.stream with
    | .closed => none
    | _ => some { w.onError permanent with stream := if permanent then .closed else .connecting }
  | .onFocus => some w.scheduleRepair
  | .timeout => if w.repairTimer then some ({ w with repairTimer := false }.loadBundle false) else none
  | .refresh => some (w.loadBundle false)
  | .read i key => w.bundles[i]?.bind fun b => (b.serve w.data key).map fun b' =>
    { w with bundles := w.bundles.set i b' }
  | .settle i activity currentUser => w.bundles[i]?.bind fun b =>
    (b.results activity currentUser).map fun results => w.settle i b results
  | .loadMoreConversation => some w.loadMoreConversation
  | .readMore i => w.conversationMores[i]?.bind fun m => (m.serve w.data).map fun m' =>
    { w with conversationMores := w.conversationMores.set i m' }
  | .conversationPage i => w.conversationMores[i]?.bind fun m => m.page.bind fun page =>
    w.conversationPage i m page
  | .render => some { w with rendered := w.state }

def run (w : World) (acts : List Act) : Option World := Steps.run step w acts

/-! ### What is asked of a run -/

end World

end WorkspaceStream
end North
