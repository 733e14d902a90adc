import North.WorkspaceStream

/-! The workspace agrees with the server once all is quiet. While the stream is open and the
display is behind, something is under way that brings a load: a notification, the end of the
stream, a timer, or a load that has read nothing old. Only the first open of a stream that
never failed brings none itself. -/
namespace North
namespace WorkspaceStream

open Domain Workspace
open Pagination (ConversationHistory ConversationPage Covers)

/-! ### Loads that read the present -/

/-- What the load has read is what the server has. -/
structure Bundle.Fresh (b : Bundle) (data : ServerData) : Prop where
  requirement : ∀ r ∈ b.requirement, r = data.requirement
  readiness : ∀ r ∈ b.readiness, r = data.readiness
  run : ∀ r ∈ b.run, r = data.run
  reviewPacket : ∀ packet ∈ b.reviewPacket, packet = data.reviewPacket
  pages : ∀ o page, (o,page) ∈ b.pages → data.conversationPage o workspacePageLimit = .ok page

/-- What is displayed is what the server has, and its pages are those that the server has. -/
structure Shows (state : WorkspaceState) (data : ServerData) : Prop where
  requirement : state.requirement = some data.requirement
  readiness : state.readiness = data.readiness
  reviewPacket : state.reviewPacket = data.reviewPacket.toOption
  run : state.run = data.run
  conversation : ∃ history n, state.conversation = some history ∧
    Covers data.conversation data.messages workspacePageLimit n history

variable {data : ServerData} {b b' : Bundle}

theorem Bundle.fresh_new (initial : Bool) (generation : ℕ) (previous : Option ConversationHistory)
    (data : ServerData) : Fresh ⟨initial,generation,previous,none,none,none,none,[]⟩ data :=
  ⟨by simp,by simp,by simp,by simp,by simp⟩

/-- A response leaves a load as fresh as it is. -/
theorem Bundle.serve_keeps {key : Read} (hserve : b.serve data key = some b') :
    b'.generation = b.generation ∧ (b.Fresh data → b'.Fresh data) := by
  cases key with
  | requirement =>
    simp only [Bundle.serve,Option.ite_none_right_eq_some] at hserve
    obtain ⟨-,hserve⟩ := hserve
    cases hserve
    exact ⟨rfl,fun h => { h with requirement := fun r hr => (Option.some.inj hr).symm }⟩
  | readiness =>
    simp only [Bundle.serve,Option.ite_none_right_eq_some] at hserve
    obtain ⟨-,hserve⟩ := hserve
    cases hserve
    exact ⟨rfl,fun h => { h with readiness := fun r hr => (Option.some.inj hr).symm }⟩
  | run =>
    simp only [Bundle.serve,Option.ite_none_right_eq_some] at hserve
    obtain ⟨-,hserve⟩ := hserve
    cases hserve
    exact ⟨rfl,fun h => { h with run := fun r hr => (Option.some.inj hr).symm }⟩
  | reviewPacket =>
    simp only [Bundle.serve,Option.ite_none_right_eq_some] at hserve
    obtain ⟨-,hserve⟩ := hserve
    cases hserve
    exact ⟨rfl,fun h => { h with reviewPacket := fun r hr => (Option.some.inj hr).symm }⟩
  | conversationPage offset =>
    simp only [Bundle.serve,Option.ite_none_right_eq_some] at hserve
    obtain ⟨-,hserve⟩ := hserve
    cases hpage : data.conversationPage offset workspacePageLimit with
    | error e => simp [hpage] at hserve
    | ok page =>
      simp only [hpage] at hserve
      cases hserve
      refine ⟨rfl,fun h => { h with pages := fun o served hmem => ?_ }⟩
      rcases List.mem_append.mp hmem with hold | hnew
      · exact h.pages o served hold
      · cases List.mem_singleton.mp hnew
        exact hpage

theorem More.serve_keeps {m m' : More} (hserve : m.serve data = some m') :
    m'.generation = m.generation ∧ m'.offset = m.offset ∧
      ∀ page ∈ m'.page, data.conversationPage m.offset workspacePageLimit = .ok page := by
  simp only [More.serve,Option.ite_none_right_eq_some] at hserve
  obtain ⟨-,hserve⟩ := hserve
  cases hpage : data.conversationPage m.offset workspacePageLimit with
  | error e => simp [hpage] at hserve
  | ok page =>
    simp only [hpage] at hserve
    cases hserve
    exact ⟨rfl,rfl,fun served hserved => congrArg Except.ok (Option.some.inj hserved)⟩

/-- The pages that have come, put together, are those that the server has. -/
theorem Bundle.Fresh.conversation {history : ConversationHistory} (h : b.Fresh data)
    (hconversation : b.conversation = some (.ok history)) :
    ∃ n, Covers data.conversation data.messages workspacePageLimit n history := by
  have hpos : 0 < workspacePageLimit := by decide
  have hle : workspacePageLimit ≤ 100 := by decide
  have hfetch : ∀ o page, b.fetchPage o workspacePageLimit = .ok page →
      Pagination.conversationPage data.conversation data.messages o workspacePageLimit = .ok page := by
    intro o page hpage
    unfold Bundle.fetchPage at hpage
    cases hget : InsertionMap.get b.pages o with
    | none => simp [hget] at hpage
    | some served =>
      simp only [hget,Except.ok.injEq] at hpage
      subst hpage
      exact h.pages o served (InsertionMap.get_mem hget)
  obtain ⟨result,hresult,hok⟩ := Option.map_eq_some_iff.mp hconversation
  cases result with
  | error e => cases hok
  | ok built =>
    cases hok
    cases hprevious : b.previousConversation with
    | some previous =>
      simp only [hprevious] at hresult
      exact Pagination.repair_covers hpos hle hfetch hresult
    | none =>
      simp only [hprevious] at hresult
      cases hpage : b.fetchPage 0 workspacePageLimit with
      | error e => simp [hpage] at hresult
      | ok page =>
        simp only [hpage] at hresult
        have hserved := hfetch 0 page hpage
        rw [Pagination.conversationPage_eq hpos hle (Nat.zero_le _)] at hserved
        obtain ⟨built,hbuild,hcovers⟩ := Pagination.build_slices data.conversation
          data.messages hpos (n := 0) (.inl rfl)
        have hslices : [⟨0,page⟩] = (List.range (0+1)).map
            (Pagination.servedSlice data.conversation data.messages workspacePageLimit) := by
          rw [← Except.ok.inj hserved]
          simp [Pagination.servedSlice]
        rw [hslices,hbuild] at hresult
        cases hresult
        exact ⟨0,hcovers⟩

/-- A load that has read nothing old shows what the server has. -/
theorem Bundle.Fresh.shows {activity : ActivityHistory} {currentUser : CurrentUser} {results : Results}
    (h : b.Fresh data) (hresults : b.results activity currentUser = some results) (initial : Bool)
    (s : WorkspaceState) : Shows (s.settle initial results) data := by
  simp only [Bundle.results,Option.bind_eq_bind,Option.bind_eq_some_iff,Option.pure_def] at hresults
  obtain ⟨requirement,hrequirement,history,⟨result,hconversation,hhistory⟩,readiness,hreadiness,
    run,hrun,answer,hanswer,hresults⟩ := hresults
  cases hresults
  obtain rfl := h.requirement requirement hrequirement
  obtain rfl := h.readiness readiness hreadiness
  obtain rfl := h.run run hrun
  cases result with
  | error cause => cases hhistory
  | ok built =>
    cases hhistory
    obtain ⟨n,hcovers⟩ := h.conversation hconversation
    refine ⟨rfl,rfl,?_,rfl,history,n,rfl,hcovers⟩
    by_cases hready : data.requirement.status = .ready
    · rw [Bundle.packetAnswer,if_pos hready] at hanswer
      obtain rfl := h.reviewPacket answer hanswer
      cases hpacket : data.reviewPacket with
      | error cause =>
        simp [WorkspaceState.settle,WorkspaceState.settledPacket,hready,reviewPacketPromise,
          Except.toOption]
      | ok packet =>
        obtain ⟨-,hrevision,hversion⟩ := data.packetCurrent packet hpacket
        simp [WorkspaceState.settle,WorkspaceState.settledPacket,hready,reviewPacketPromise,hrevision,
          hversion,Except.toOption]
    · have hnone : data.reviewPacket.toOption = none := by
        cases hpacket : data.reviewPacket with
        | error cause => rfl
        | ok packet => exact absurd (data.packetCurrent packet hpacket).1 hready
      simp [WorkspaceState.settle,WorkspaceState.settledPacket,hready,hnone]

theorem Shows.same {s s' : WorkspaceState} (h : Shows s data) (hrequirement : s'.requirement = s.requirement)
    (hreadiness : s'.readiness = s.readiness) (hpacket : s'.reviewPacket = s.reviewPacket)
    (hrun : s'.run = s.run) (hconversation : s'.conversation = s.conversation) : Shows s' data :=
  ⟨hrequirement.trans h.requirement,hreadiness.trans h.readiness,hpacket.trans h.reviewPacket,
    hrun.trans h.run,hconversation ▸ h.conversation⟩

/-- A further page that the server has keeps what is displayed in agreement with it. -/
theorem Shows.appendConversation {s s' : WorkspaceState} {page : ConversationPage} {offset : ℕ}
    (h : Shows s data) (hpage : data.conversationPage offset workspacePageLimit = .ok page)
    (happend : s.appendConversation page offset = some s') : Shows s' data := by
  obtain ⟨history,n,hhistory,hcovers⟩ := h.conversation
  simp only [WorkspaceState.appendConversation,hhistory] at happend
  split at happend
  · rename_i history' hbuilt
    cases happend
    obtain ⟨m,hmore⟩ := hcovers.append (by decide) (by decide) hpage hbuilt
    exact ⟨h.requirement,h.readiness,h.reviewPacket,h.run,history',m,rfl,hmore⟩
  · cases happend

/-! ### What is under way -/

namespace World

variable {w w' : World} {sub sub' : Subscription}

/-- The newest requests have read nothing old, and end in a display that agrees with the server. -/
structure Settling (w : World) : Prop where
  bundles : ∀ b ∈ w.bundles, w.live b = true → b.Fresh w.data
  conversationMores : ∀ m ∈ w.conversationMores, m.generation = w.conversationMoreGeneration →
    ∀ page ∈ m.page, w.data.conversationPage m.offset workspacePageLimit = .ok page
  shown : (∃ b ∈ w.bundles, w.live b = true) ∨ Shows w.state w.data

/-- Why a display that is behind will not stay so while this subscription feeds the stream. -/
inductive Pending (w : World) (sub : Subscription) : Prop
  | unpublished (h : w.unpublished ≠ [])
  | backlog (n : BrowserNotification) (h : n ∈ sub.backlog) (hid : n.requirementId = w.requirementId)
  | wire (n : BrowserNotification) (h : n ∈ sub.wire) (hid : n.requirementId = w.requirementId)
  | lagged (h : sub.lagged = true)
  | ended (h : sub.ended = true)
  | repairTimer (h : w.repairTimer = true)
  | settling (h : w.Settling)

/-- The first open of a stream that has not failed comes while something is under way. -/
def Opens (w : World) : Act → Prop
  | .onOpen => w.opened = false → w.failedBeforeOpen = false →
      ∀ sub, w.stream = .subscribed sub → w.Pending sub
  | _ => True

/-- The requests have generations that were begun; what is to be announced is of this requirement. -/
structure Begun (w : World) : Prop where
  unpublished : ∀ n ∈ w.unpublished, n.requirementId = w.requirementId
  bundles : ∀ b ∈ w.bundles, b.generation ≤ w.bundleGeneration
  conversationMores : ∀ m ∈ w.conversationMores, m.generation ≤ w.conversationMoreGeneration

structure Inv (w : World) : Prop where
  begun : w.Begun
  pending : ∀ sub, w.stream = .live sub → w.Pending sub

/-! ### Subscriptions -/

theorem Pending.of_published {n : BrowserNotification} (hid : n.requirementId = w.requirementId) :
    w.Pending (sub.publish n) := by
  unfold Subscription.publish
  split_ifs with hended hroom
  · exact .ended hended
  · exact .backlog n (by simp) hid
  · exact .lagged rfl

theorem Pending.publish (h : w.Pending sub) (n : BrowserNotification) : w.Pending (sub.publish n) := by
  unfold Subscription.publish
  split_ifs with hended hroom
  · exact h
  · cases h with
    | unpublished h => exact .unpublished h
    | backlog own h hid => exact .backlog own (List.mem_append_left _ h) hid
    | wire own h hid => exact .wire own h hid
    | lagged h => exact .lagged h
    | ended h => exact .ended h
    | repairTimer h => exact .repairTimer h
    | settling h => exact .settling h
  · exact .lagged rfl

theorem Pending.send (h : w.Pending sub) (hsend : sub.send = some sub') : w.Pending sub' := by
  unfold Subscription.send at hsend
  split_ifs at hsend with hended hlagged
  · cases hsend
    exact .ended rfl
  · split at hsend
    · cases hsend
    · rename_i first rest hbacklog
      cases hsend
      cases h with
      | unpublished h => exact .unpublished h
      | backlog own h hid =>
        rw [hbacklog] at h
        rcases List.mem_cons.mp h with rfl | hrest
        · exact .wire own (by simp) hid
        · exact .backlog own hrest hid
      | wire own h hid => exact .wire own (List.mem_append_left _ h) hid
      | lagged h => exact .lagged h
      | ended h => exact .ended h
      | repairTimer h => exact .repairTimer h
      | settling h => exact .settling h

/-- The step leaves the notifications and the timer alone. -/
theorem Pending.beside (h : w.Pending sub) (hid : w'.requirementId = w.requirementId)
    (hunpublished : w'.unpublished = w.unpublished) (htimer : w'.repairTimer = w.repairTimer)
    (hsettling : w.Settling → w'.Settling) : w'.Pending sub := by
  cases h with
  | unpublished h => exact .unpublished (hunpublished ▸ h)
  | backlog own h hown => exact .backlog own h (hown.trans hid.symm)
  | wire own h hown => exact .wire own h (hown.trans hid.symm)
  | lagged h => exact .lagged h
  | ended h => exact .ended h
  | repairTimer h => exact .repairTimer (htimer.trans h)
  | settling h => exact .settling (hsettling h)

/-- A notification of this requirement sets the timer, and no other one matters. -/
theorem Pending.dispatch {n : BrowserNotification} {wire : List BrowserNotification}
    (h : w.Pending sub) (hwire : sub.wire = n::wire) : (w.dispatch n).Pending { sub with wire } := by
  by_cases hown : n.requirementId = w.requirementId
  · have hrepair : w.dispatch n = w.scheduleRepair := by
      simp [World.dispatch,hown,w.named]
    rw [hrepair]
    exact .repairTimer rfl
  · have hsame : w.dispatch n = w := by
      simp [World.dispatch,hown,w.named]
    rw [hsame]
    cases h with
    | unpublished h => exact .unpublished h
    | backlog own h hid => exact .backlog own h hid
    | wire own h hid =>
      rw [hwire] at h
      rcases List.mem_cons.mp h with rfl | hrest
      · exact absurd hid hown
      · exact .wire own hrest hid
    | lagged h => exact .lagged h
    | ended h => exact .ended h
    | repairTimer h => exact .repairTimer h
    | settling h => exact .settling h

/-! ### Requests -/

@[simp] theorem live_iff : w.live b = true ↔ b.generation = w.bundleGeneration := by simp [live]

theorem loadBundle_begun (h : w.Begun) (initial : Bool) : (w.loadBundle initial).Begun := by
  refine ⟨h.unpublished,fun b hb => ?_,fun m hm => (h.conversationMores m hm).trans (Nat.le_succ _)⟩
  rcases List.mem_append.mp hb with hb | hb
  · exact (h.bundles b hb).trans (Nat.le_succ _)
  · rw [List.mem_singleton.mp hb]
    exact le_rfl

theorem loadBundle_settling (h : w.Begun) (initial : Bool) : (w.loadBundle initial).Settling := by
  refine ⟨fun b hb hlive => ?_,fun m hm hlive => ?_,
    .inl ⟨_,List.mem_append_right _ List.mem_cons_self,by simp [live,loadBundle]⟩⟩
  · rcases List.mem_append.mp hb with hb | hb
    · have hle := h.bundles b hb
      have hnew := live_iff.mp hlive
      simp only [loadBundle] at hnew
      omega
    · rw [List.mem_singleton.mp hb]
      exact Bundle.fresh_new _ _ _ _
  · have hle := h.conversationMores m hm
    simp only [loadBundle] at hlive
    omega

/-- The step leaves the requests alone. -/
theorem Settling.beside (h : w.Settling) (hdata : w'.data = w.data) (hbundles : w'.bundles = w.bundles)
    (hgeneration : w'.bundleGeneration = w.bundleGeneration)
    (hmores : w'.conversationMores = w.conversationMores)
    (hmore : w'.conversationMoreGeneration = w.conversationMoreGeneration)
    (hshows : Shows w.state w.data → Shows w'.state w.data) : w'.Settling := by
  refine ⟨fun b hb hlive => ?_,fun m hm hlive => ?_,?_⟩
  · rw [hdata]
    exact h.bundles b (hbundles ▸ hb) (by simpa [live,hgeneration] using hlive)
  · rw [hdata]
    exact h.conversationMores m (hmores ▸ hm) (hlive.trans hmore)
  · rw [hdata]
    refine h.shown.imp ?_ hshows
    rintro ⟨b,hb,hlive⟩
    exact ⟨b,hbundles ▸ hb,by simpa [live,hgeneration] using hlive⟩

theorem Settling.read {i : ℕ} {b b' : Bundle} {key : Read} (h : w.Settling) (hb : w.bundles[i]? = some b)
    (hserve : b.serve w.data key = some b') : Settling { w with bundles := w.bundles.set i b' } := by
  obtain ⟨hgeneration,hfresh⟩ := Bundle.serve_keeps hserve
  have hlive : w.live b' = w.live b := by simp [live,hgeneration]
  have hi := (List.getElem?_eq_some_iff.mp hb).1
  refine ⟨fun x hx hx' => ?_,h.conversationMores,h.shown.imp ?_ id⟩
  · rcases List.mem_or_eq_of_mem_set hx with hx | rfl
    · exact h.bundles x hx hx'
    · exact hfresh (h.bundles b (List.mem_of_getElem? hb) (hlive ▸ hx'))
  · rintro ⟨x,hx,hx'⟩
    obtain ⟨j,hj⟩ := List.getElem?_of_mem hx
    by_cases hij : i = j
    · subst hij
      obtain rfl : b = x := Option.some.inj (hb.symm.trans hj)
      exact ⟨b',List.mem_of_getElem? (List.getElem?_set_self hi),hlive ▸ hx'⟩
    · exact ⟨x,List.mem_of_getElem? ((List.getElem?_set_ne hij).trans hj),hx'⟩

/-- The newest load ends in the display; one that was superseded leaves no trace. -/
theorem Settling.settle {i : ℕ} {b : Bundle} {activity : ActivityHistory} {currentUser : CurrentUser}
    {results : Results} (h : w.Settling) (hb : w.bundles[i]? = some b)
    (hresults : b.results activity currentUser = some results) : (w.settle i b results).Settling := by
  unfold World.settle
  dsimp only
  split_ifs with hlive
  · have hfresh := h.bundles b (List.mem_of_getElem? hb) hlive
    exact ⟨fun x hx => h.bundles x (List.mem_of_mem_eraseIdx hx),h.conversationMores,
      .inr (hfresh.shows hresults b.initial w.state)⟩
  · refine ⟨fun x hx => h.bundles x (List.mem_of_mem_eraseIdx hx),h.conversationMores,h.shown.imp ?_ id⟩
    rintro ⟨x,hx,hx'⟩
    obtain ⟨j,hj⟩ := List.getElem?_of_mem hx
    have hij : j ≠ i := by
      rintro rfl
      obtain rfl : b = x := Option.some.inj (hb.symm.trans hj)
      exact hlive hx'
    exact ⟨x,List.mem_eraseIdx_iff_getElem?.mpr ⟨j,hij,hj⟩,hx'⟩

theorem Settling.loadMoreConversation (h : w.Settling) (hb : w.Begun) : w.loadMoreConversation.Settling := by
  unfold World.loadMoreConversation
  split
  · exact h
  · refine ⟨h.bundles,fun m hm hlive => ?_,h.shown.imp id fun hs => hs.same rfl rfl rfl rfl rfl⟩
    rcases List.mem_append.mp hm with hm | hm
    · have hle := hb.conversationMores m hm
      simp only at hlive
      omega
    · rw [List.mem_singleton.mp hm]
      exact nofun

theorem Settling.readMore {i : ℕ} {m m' : More} (h : w.Settling) (hserve : m.serve w.data = some m') :
    Settling { w with conversationMores := w.conversationMores.set i m' } := by
  obtain ⟨-,hoffset,hpage⟩ := More.serve_keeps hserve
  refine ⟨h.bundles,fun x hx hlive => ?_,h.shown⟩
  rcases List.mem_or_eq_of_mem_set hx with hx | rfl
  · exact h.conversationMores x hx hlive
  · rw [hoffset]
    exact hpage

theorem Settling.conversationPage {i : ℕ} {m : More} {page : ConversationPage} (h : w.Settling)
    (hm : w.conversationMores[i]? = some m) (hpage : page ∈ m.page)
    (hstep : w.conversationPage i m page = some w') : w'.Settling := by
  unfold World.conversationPage at hstep
  dsimp only at hstep
  split_ifs at hstep with hlive
  · obtain ⟨state,happend,rfl⟩ := Option.map_eq_some_iff.mp hstep
    have hserved := h.conversationMores m (List.mem_of_getElem? hm) hlive page hpage
    exact ⟨h.bundles,fun x hx => h.conversationMores x (List.mem_of_mem_eraseIdx hx),
      h.shown.imp id fun hs => hs.appendConversation hserved happend⟩
  · cases hstep
    exact ⟨h.bundles,fun x hx => h.conversationMores x (List.mem_of_mem_eraseIdx hx),h.shown⟩

/-! ### Steps -/

theorem Begun.fewer (h : w.Begun) (hid : w'.requirementId = w.requirementId)
    (hunpublished : ∀ n ∈ w'.unpublished, n ∈ w.unpublished)
    (hbundle : w'.bundleGeneration = w.bundleGeneration)
    (hmore : w'.conversationMoreGeneration = w.conversationMoreGeneration)
    (hbundles : ∀ b ∈ w'.bundles, ∃ b₀ ∈ w.bundles, b.generation = b₀.generation)
    (hmores : ∀ m ∈ w'.conversationMores, ∃ m₀ ∈ w.conversationMores, m.generation = m₀.generation) :
    w'.Begun := by
  refine ⟨fun n hn => hid ▸ h.unpublished n (hunpublished n hn),fun b hb => ?_,fun m hm => ?_⟩
  · obtain ⟨b₀,hb₀,hgeneration⟩ := hbundles b hb
    rw [hbundle,hgeneration]
    exact h.bundles b₀ hb₀
  · obtain ⟨m₀,hm₀,hgeneration⟩ := hmores m hm
    rw [hmore,hgeneration]
    exact h.conversationMores m₀ hm₀

theorem Begun.same (h : w.Begun) (hid : w'.requirementId = w.requirementId)
    (hunpublished : w'.unpublished = w.unpublished)
    (hbundle : w'.bundleGeneration = w.bundleGeneration)
    (hmore : w'.conversationMoreGeneration = w.conversationMoreGeneration)
    (hbundles : w'.bundles = w.bundles) (hmores : w'.conversationMores = w.conversationMores) : w'.Begun :=
  h.fewer hid (fun _ hn => hunpublished ▸ hn) hbundle hmore (fun b hb => ⟨b,hbundles ▸ hb,rfl⟩)
    fun m hm => ⟨m,hmores ▸ hm,rfl⟩

theorem commit_begun {data : ServerData} {categories : List RequirementEventCategory} (h : w.Begun)
    (hstep : w.step (.commit data categories) = some w') : w'.Begun := by
  simp only [step,Option.ite_none_right_eq_some] at hstep
  obtain ⟨-,hstep⟩ := hstep
  cases hstep
  refine ⟨fun n hn => ?_,h.bundles,h.conversationMores⟩
  rcases List.mem_append.mp hn with hold | hnew
  · exact h.unpublished n hold
  · obtain ⟨category,-,rfl⟩ := List.mem_map.mp hnew
    rfl

theorem onOpen_begun (h : w.Begun) : w.onOpen.Begun := by
  unfold World.onOpen
  dsimp only
  split_ifs
  · exact h.same rfl rfl rfl rfl rfl rfl
  · exact h.same rfl rfl rfl rfl rfl rfl

theorem dispatch_begun (h : w.Begun) (n : BrowserNotification) : (w.dispatch n).Begun := by
  unfold World.dispatch
  split_ifs
  · exact h.same rfl rfl rfl rfl rfl rfl
  · exact h.same rfl rfl rfl rfl rfl rfl

theorem Begun.streams (h : w.Begun) (stream : Stream) : Begun { w with stream } :=
  h.same rfl rfl rfl rfl rfl rfl

theorem read_begun {i : ℕ} {key : Read} (h : w.Begun) (hstep : w.step (.read i key) = some w') : w'.Begun := by
  obtain ⟨b,hb,hstep⟩ := Option.bind_eq_some_iff.mp hstep
  obtain ⟨b',hserve,rfl⟩ := Option.map_eq_some_iff.mp hstep
  refine h.fewer rfl (fun _ => id) rfl rfl (fun x hx => ?_) fun m hm => ⟨m,hm,rfl⟩
  rcases List.mem_or_eq_of_mem_set hx with hx | rfl
  · exact ⟨x,hx,rfl⟩
  · exact ⟨b,List.mem_of_getElem? hb,(Bundle.serve_keeps hserve).1⟩

theorem settle_begun (h : w.Begun) (i : ℕ) (b : Bundle) (results : Results) : (w.settle i b results).Begun := by
  have hleft : ∀ x ∈ w.bundles.eraseIdx i, ∃ x₀ ∈ w.bundles, x.generation = x₀.generation :=
    fun x hx => ⟨x,List.mem_of_mem_eraseIdx hx,rfl⟩
  unfold World.settle
  dsimp only
  split_ifs
  · exact h.fewer rfl (fun _ => id) rfl rfl hleft fun m hm => ⟨m,hm,rfl⟩
  · exact h.fewer rfl (fun _ => id) rfl rfl hleft fun m hm => ⟨m,hm,rfl⟩

theorem loadMoreConversation_begun (h : w.Begun) : w.loadMoreConversation.Begun := by
  unfold World.loadMoreConversation
  split
  · exact h
  · refine ⟨h.unpublished,h.bundles,fun m hm => ?_⟩
    rcases List.mem_append.mp hm with hm | hm
    · exact (h.conversationMores m hm).trans (Nat.le_succ _)
    · rw [List.mem_singleton.mp hm]

theorem readMore_begun {i : ℕ} (h : w.Begun) (hstep : w.step (.readMore i) = some w') : w'.Begun := by
  obtain ⟨m,hm,hstep⟩ := Option.bind_eq_some_iff.mp hstep
  obtain ⟨m',hserve,rfl⟩ := Option.map_eq_some_iff.mp hstep
  refine h.fewer rfl (fun _ => id) rfl rfl (fun b hb => ⟨b,hb,rfl⟩) fun x hx => ?_
  rcases List.mem_or_eq_of_mem_set hx with hx | rfl
  · exact ⟨x,hx,rfl⟩
  · exact ⟨m,List.mem_of_getElem? hm,(More.serve_keeps hserve).1⟩

theorem conversationPage_begun {i : ℕ} {m : More} {page : ConversationPage} (h : w.Begun)
    (hstep : w.conversationPage i m page = some w') : w'.Begun := by
  have hleft : ∀ x ∈ w.conversationMores.eraseIdx i, ∃ x₀ ∈ w.conversationMores, x.generation = x₀.generation :=
    fun x hx => ⟨x,List.mem_of_mem_eraseIdx hx,rfl⟩
  unfold World.conversationPage at hstep
  dsimp only at hstep
  split_ifs at hstep
  · obtain ⟨state,-,rfl⟩ := Option.map_eq_some_iff.mp hstep
    exact h.fewer rfl (fun _ => id) rfl rfl (fun b hb => ⟨b,hb,rfl⟩) hleft
  · cases hstep
    exact h.fewer rfl (fun _ => id) rfl rfl (fun b hb => ⟨b,hb,rfl⟩) hleft

theorem step_begun {act : Act} (h : w.Begun) (hstep : w.step act = some w') : w'.Begun := by
  cases act with
  | commit data categories => exact commit_begun h hstep
  | publish i =>
    obtain ⟨n,-,rfl⟩ := Option.map_eq_some_iff.mp hstep
    exact ⟨fun x hx => h.unpublished x (List.mem_of_mem_eraseIdx hx),h.bundles,h.conversationMores⟩
  | publishOther n =>
    simp only [step,Option.ite_none_right_eq_some] at hstep
    obtain ⟨-,hstep⟩ := hstep
    cases hstep
    exact h.streams _
  | subscribe =>
    simp only [step] at hstep
    split at hstep
    · cases hstep
      exact h.streams _
    · cases hstep
  | onOpen =>
    simp only [step] at hstep
    split at hstep
    · cases hstep
      exact (onOpen_begun h).streams _
    · cases hstep
  | send =>
    obtain ⟨stream,-,rfl⟩ := Option.map_eq_some_iff.mp hstep
    exact h.streams stream
  | dispatch =>
    simp only [step] at hstep
    split at hstep
    · split at hstep
      · cases hstep
      · cases hstep
        exact (dispatch_begun h _).streams _
    · cases hstep
  | onError permanent =>
    simp only [step] at hstep
    split at hstep
    · cases hstep
    · cases hstep
      exact h.same rfl rfl rfl rfl rfl rfl
  | timeout =>
    simp only [step,Option.ite_none_right_eq_some] at hstep
    obtain ⟨-,hstep⟩ := hstep
    cases hstep
    have hcleared : Begun { w with repairTimer := false } := h.same rfl rfl rfl rfl rfl rfl
    exact loadBundle_begun hcleared false
  | refresh =>
    cases hstep
    exact loadBundle_begun h false
  | read i key => exact read_begun h hstep
  | settle i activity currentUser =>
    obtain ⟨b,-,hstep⟩ := Option.bind_eq_some_iff.mp hstep
    obtain ⟨results,-,rfl⟩ := Option.map_eq_some_iff.mp hstep
    exact settle_begun h i b results
  | loadMoreConversation =>
    cases hstep
    exact loadMoreConversation_begun h
  | readMore i => exact readMore_begun h hstep
  | conversationPage i =>
    obtain ⟨m,-,hstep⟩ := Option.bind_eq_some_iff.mp hstep
    obtain ⟨page,-,hstep⟩ := Option.bind_eq_some_iff.mp hstep
    exact conversationPage_begun h hstep
  | onFocus | render =>
    cases hstep
    exact h.same rfl rfl rfl rfl rfl rfl

theorem Settling.still (h : w.Settling) (hdata : w'.data = w.data) (hbundles : w'.bundles = w.bundles)
    (hgeneration : w'.bundleGeneration = w.bundleGeneration)
    (hmores : w'.conversationMores = w.conversationMores)
    (hmore : w'.conversationMoreGeneration = w.conversationMoreGeneration) (hstate : w'.state = w.state) :
    w'.Settling :=
  h.beside hdata hbundles hgeneration hmores hmore fun hs => hstate ▸ hs

/-- The answer to a request leaves alone what is announced and awaited beside the requests. -/
structure Answered (w w' : World) : Prop where
  requirementId : w'.requirementId = w.requirementId
  unpublished : w'.unpublished = w.unpublished
  repairTimer : w'.repairTimer = w.repairTimer
  stream : w'.stream = w.stream

theorem settle_answered (w : World) (i : ℕ) (b : Bundle) (results : Results) :
    Answered w (w.settle i b results) := by
  unfold World.settle
  dsimp only
  split_ifs <;> exact ⟨rfl,rfl,rfl,rfl⟩

theorem loadMoreConversation_answered (w : World) : Answered w w.loadMoreConversation := by
  unfold World.loadMoreConversation
  split <;> exact ⟨rfl,rfl,rfl,rfl⟩

theorem conversationPage_answered {i : ℕ} {m : More} {page : ConversationPage}
    (h : w.conversationPage i m page = some w') : Answered w w' := by
  unfold World.conversationPage at h
  dsimp only at h
  split_ifs at h
  · obtain ⟨state,-,rfl⟩ := Option.map_eq_some_iff.mp h
    exact ⟨rfl,rfl,rfl,rfl⟩
  · cases h
    exact ⟨rfl,rfl,rfl,rfl⟩

theorem Pending.answered (hframe : Answered w w') (h : w.Pending sub) (hs : w.Settling → w'.Settling) :
    w'.Pending sub :=
  h.beside hframe.requirementId hframe.unpublished hframe.repairTimer hs

theorem commit_pending {data : ServerData} {categories : List RequirementEventCategory}
    (hstep : w.step (.commit data categories) = some w') : w'.Pending sub := by
  simp only [step,Option.ite_none_right_eq_some] at hstep
  obtain ⟨⟨-,hcategories⟩,hstep⟩ := hstep
  cases hstep
  exact .unpublished (by simp [hcategories])

theorem publish_pending {i : ℕ} (h : w.Begun) (hstep : w.step (.publish i) = some w')
    (hlive : w'.stream = .live sub) : w'.Pending sub := by
  obtain ⟨n,hn,rfl⟩ := Option.map_eq_some_iff.mp hstep
  have hid := h.unpublished n (List.mem_of_getElem? hn)
  cases hstream : w.stream with
  | live before =>
    simp only [hstream,Stream.publish,Stream.live.injEq] at hlive
    subst hlive
    exact .of_published hid
  | connecting | subscribed | closed => simp [hstream,Stream.publish] at hlive

theorem publishOther_pending {n : BrowserNotification} (h : w.Inv)
    (hstep : w.step (.publishOther n) = some w') (hlive : w'.stream = .live sub) : w'.Pending sub := by
  simp only [step,Option.ite_none_right_eq_some] at hstep
  obtain ⟨-,hstep⟩ := hstep
  cases hstep
  cases hstream : w.stream with
  | live before =>
    simp only [hstream,Stream.publish,Stream.live.injEq] at hlive
    subst hlive
    refine ((h.pending before hstream).publish n).beside rfl rfl rfl fun hs => ?_
    exact hs.still rfl rfl rfl rfl rfl rfl
  | connecting | subscribed | closed => simp [hstream,Stream.publish] at hlive

theorem onOpen_pending (hok : w.Opens .onOpen) (hstep : w.step .onOpen = some w')
    (hlive : w'.stream = .live sub) : w'.Pending sub := by
  simp only [step] at hstep
  split at hstep
  · rename_i before hstream
    cases hstep
    cases hlive
    by_cases hrepair : (w.opened || w.failedBeforeOpen) = true
    · exact .repairTimer (by simp [World.onOpen,hrepair,scheduleRepair])
    · -- the open itself brings no load
      have hfirst : w.opened = false ∧ w.failedBeforeOpen = false := by simpa using hrepair
      have hpending := hok hfirst.1 hfirst.2 sub hstream
      unfold World.onOpen
      rw [if_neg hrepair]
      refine hpending.beside rfl rfl rfl fun hs => ?_
      exact hs.beside rfl rfl rfl rfl rfl fun hshows => hshows.same rfl rfl rfl rfl rfl
  · cases hstep

theorem send_pending (h : w.Inv) (hstep : w.step .send = some w') (hlive : w'.stream = .live sub) :
    w'.Pending sub := by
  obtain ⟨stream,hsend,rfl⟩ := Option.map_eq_some_iff.mp hstep
  obtain rfl : stream = .live sub := hlive
  cases hstream : w.stream with
  | live before =>
    rw [hstream] at hsend
    obtain ⟨after,hafter,heq⟩ := Option.map_eq_some_iff.mp hsend
    cases heq
    refine ((h.pending before hstream).send hafter).beside rfl rfl rfl fun hs => ?_
    exact hs.still rfl rfl rfl rfl rfl rfl
  | subscribed before =>
    rw [hstream] at hsend
    obtain ⟨after,-,heq⟩ := Option.map_eq_some_iff.mp hsend
    cases heq
  | connecting | closed =>
    rw [hstream] at hsend
    cases hsend

theorem dispatch_pending (h : w.Inv) (hstep : w.step .dispatch = some w') (hlive : w'.stream = .live sub) :
    w'.Pending sub := by
  simp only [step] at hstep
  split at hstep
  · rename_i before hstream
    split at hstep
    · cases hstep
    · rename_i n rest hwire
      cases hstep
      cases hlive
      refine ((h.pending before hstream).dispatch hwire).beside rfl rfl rfl fun hs => ?_
      exact hs.still rfl rfl rfl rfl rfl rfl
  · cases hstep

theorem onError_not_live {permanent : Bool} (hstep : w.step (.onError permanent) = some w') :
    w'.stream ≠ .live sub := by
  intro hlive
  simp only [step] at hstep
  split at hstep
  · cases hstep
  · cases hstep
    dsimp only at hlive
    split_ifs at hlive

theorem step_pending {act : Act} (h : w.Inv) (hok : w.Opens act) (hstep : w.step act = some w')
    (hlive : w'.stream = .live sub) : w'.Pending sub := by
  cases act with
  | commit data categories => exact commit_pending hstep
  | publish i => exact publish_pending h.begun hstep hlive
  | publishOther n => exact publishOther_pending h hstep hlive
  | subscribe =>
    simp only [step] at hstep
    split at hstep
    · cases hstep
      cases hlive
    · cases hstep
  | onOpen => exact onOpen_pending hok hstep hlive
  | send => exact send_pending h hstep hlive
  | dispatch => exact dispatch_pending h hstep hlive
  | onError permanent => exact absurd hlive (onError_not_live hstep)
  | onFocus =>
    cases hstep
    exact .repairTimer rfl
  | timeout =>
    simp only [step,Option.ite_none_right_eq_some] at hstep
    obtain ⟨-,hstep⟩ := hstep
    cases hstep
    have hcleared : Begun { w with repairTimer := false } := h.begun.same rfl rfl rfl rfl rfl rfl
    exact .settling (loadBundle_settling hcleared false)
  | refresh =>
    cases hstep
    exact .settling (loadBundle_settling h.begun false)
  | read i key =>
    obtain ⟨b,hb,hstep⟩ := Option.bind_eq_some_iff.mp hstep
    obtain ⟨b',hserve,rfl⟩ := Option.map_eq_some_iff.mp hstep
    exact (h.pending sub hlive).beside rfl rfl rfl fun hs => hs.read hb hserve
  | settle i activity currentUser =>
    obtain ⟨b,hb,hstep⟩ := Option.bind_eq_some_iff.mp hstep
    obtain ⟨results,hresults,rfl⟩ := Option.map_eq_some_iff.mp hstep
    have hframe := settle_answered w i b results
    exact (h.pending sub (hframe.stream ▸ hlive)).answered hframe fun hs => hs.settle hb hresults
  | loadMoreConversation =>
    cases hstep
    have hframe := loadMoreConversation_answered w
    exact (h.pending sub (hframe.stream ▸ hlive)).answered hframe fun hs => hs.loadMoreConversation h.begun
  | readMore i =>
    obtain ⟨m,hm,hstep⟩ := Option.bind_eq_some_iff.mp hstep
    obtain ⟨m',hserve,rfl⟩ := Option.map_eq_some_iff.mp hstep
    exact (h.pending sub hlive).beside rfl rfl rfl fun hs => hs.readMore hserve
  | conversationPage i =>
    obtain ⟨m,hm,hstep⟩ := Option.bind_eq_some_iff.mp hstep
    obtain ⟨page,hpage,hstep⟩ := Option.bind_eq_some_iff.mp hstep
    have hframe := conversationPage_answered hstep
    exact (h.pending sub (hframe.stream ▸ hlive)).answered hframe fun hs => hs.conversationPage hm hpage hstep
  | render =>
    cases hstep
    refine (h.pending sub hlive).beside rfl rfl rfl fun hs => ?_
    exact hs.still rfl rfl rfl rfl rfl rfl

theorem Inv.step {act : Act} (h : w.Inv) (hok : w.Opens act) (hstep : w.step act = some w') : w'.Inv :=
  ⟨step_begun h.begun hstep,fun _ hlive => step_pending h hok hstep hlive⟩

/-- The reads of the only load. -/
def reads : List Act :=
  [.read 0 .requirement,.read 0 .readiness,.read 0 .run,.read 0 (.conversationPage 0)]

def settled : Act := .settle 0 ⟨[],[],none,0,true⟩ ⟨"user-1","user@example.com",.requester⟩

end World

end WorkspaceStream
end North
