import North.Lib.Steps
import North.WorkspaceState

/-! Runs of the workspace against a server whose requirement moves on. A bundle or a page that
a later call has superseded is dropped. A mutation result is not ordered with the bundles, and
shows an older requirement when a newer one was read before it came. -/
namespace North
namespace Workspace

open Domain
open Pagination (ConversationHistory ConversationPage FetchPage)

/-- A value of the requirement that the server read, and the number of the commit it shows. -/
structure Reading where
  moment : ℕ
  requirement : Requirement
  deriving DecidableEq, Repr

/-- A call of `loadBundle` under way. -/
structure Bundle where
  initial : Bool
  lifecycle : ℕ
  generation : ℕ
  previousConversation : Option ConversationHistory
  previousActivity : Option ActivityHistory
  read : Option Reading := none
  deriving DecidableEq, Repr

/-- A page asked for by `loadMoreConversation` or `loadMoreActivity`. -/
structure More where
  lifecycle : ℕ
  generation : ℕ
  offset : ℕ
  deriving DecidableEq, Repr

/-- The workspace of one requirement, its requests under way, and the server's commits, the
oldest first. `shown` lists what was put on the display, the latest first. -/
structure World where
  requirementId : String
  commits : List Requirement
  state : WorkspaceState := emptyState
  rendered : WorkspaceState := emptyState
  lifecycleGeneration : ℕ := 0
  bundleGeneration : ℕ := 0
  conversationMoreGeneration : ℕ := 0
  activityMoreGeneration : ℕ := 0
  bundles : List Bundle := []
  conversationMores : List More := []
  activityMores : List More := []
  mutations : List (Option Reading) := []
  shown : List Reading := []
  deriving DecidableEq, Repr

/-- The outcomes of the reads of one bundle other than the requirement itself. -/
structure Answers where
  rejected : Option Cause
  conversation : Except Cause FetchPage
  readiness : Except Cause (Option ReadinessView)
  activity : FetchActivity
  run : Except Cause (Option ClarificationRun)
  reviewPacket : Except Cause ReviewPacket
  currentUser : Except Cause CurrentUser
  fuel : ℕ

inductive Act
  | commit (r : Requirement)
  | mount
  | dispose
  | render
  | loadBundle (initial : Bool)
  | readRequirement (i : ℕ)
  | settle (i : ℕ) (answers : Answers)
  | loadMoreConversation
  | conversationPage (i : ℕ) (answer : Except Cause ConversationPage)
  | loadMoreActivity
  | activityPage (i : ℕ) (answer : Except Cause ActivityPage)
  | mutate
  | readMutation (i : ℕ)
  | applyRequirement (i : ℕ)
  | applyRun (run : ClarificationRun)
  | connection (c : ConnectionState)

namespace Bundle

def requirementPromise (b : Bundle) (answers : Answers) : Option (Except Cause Requirement) :=
  match answers.rejected with
  | some cause => some (.error cause)
  | none => b.read.map fun reading => .ok reading.requirement

/-- The settled promises of the bundle; `none` while one of them is pending. -/
def results (b : Bundle) (answers : Answers) : Option Results := do
  let requirement ← b.requirementPromise answers
  let conversation ← conversationPromise answers.fuel b.previousConversation answers.conversation
  let activity ← activityPromise answers.fuel b.previousActivity answers.activity
  return {
    requirement, conversation, activity
    readiness := answers.readiness
    run := answers.run
    reviewPacket := reviewPacketPromise requirement answers.reviewPacket
    currentUser := answers.currentUser }

/-- The requirement that the bundle would display. -/
def fulfilled (b : Bundle) (answers : Answers) : Option Reading :=
  if answers.rejected = none then b.read else none

end Bundle

namespace World

def fresh (first : Requirement) : World := { requirementId := first.id, commits := [first] }

def invalidateOutstandingWork (w : World) : World :=
  { w with
    lifecycleGeneration := w.lifecycleGeneration+1
    bundleGeneration := w.bundleGeneration+1
    conversationMoreGeneration := w.conversationMoreGeneration+1
    activityMoreGeneration := w.activityMoreGeneration+1 }

/-- The part of `loadBundle` up to its first await. -/
def loadBundle (w : World) (initial : Bool) : World :=
  let previous := w.rendered
  { w with
    bundleGeneration := w.bundleGeneration+1
    conversationMoreGeneration := w.conversationMoreGeneration+1
    activityMoreGeneration := w.activityMoreGeneration+1
    state := w.state.startLoading initial
    bundles := w.bundles ++ [{
      initial
      lifecycle := w.lifecycleGeneration
      generation := w.bundleGeneration+1
      previousConversation := if initial then none else previous.conversation
      previousActivity := if initial then none else previous.activityHistory }] }

/-- What the server answers now. -/
def current? (w : World) : Option Reading :=
  w.commits.getLast?.map fun r => ⟨w.commits.length-1,r⟩

def live (w : World) (b : Bundle) : Bool :=
  b.lifecycle = w.lifecycleGeneration && b.generation = w.bundleGeneration

/-- The part of `loadBundle` after all of its promises have settled. -/
def settle (w : World) (i : ℕ) (b : Bundle) (answers : Answers) : Option World :=
  (b.results answers).map fun results =>
    let rest := { w with bundles := w.bundles.eraseIdx i }
    if w.live b then
      { rest with
        state := w.state.settle b.initial results
        shown := (b.fulfilled answers).toList ++ w.shown }
    else rest

def loadMoreConversation (w : World) : World :=
  match w.rendered.conversation.bind (·.nextOffset) with
  | none => w
  | some offset =>
    { w with
      conversationMoreGeneration := w.conversationMoreGeneration+1
      state := { w.state with loadingConversationMore := true }
      conversationMores := w.conversationMores ++
        [⟨w.lifecycleGeneration,w.conversationMoreGeneration+1,offset⟩] }

def conversationPage (w : World) (i : ℕ) (m : More) (answer : Except Cause ConversationPage) :
    Option World :=
  let rest := { w with conversationMores := w.conversationMores.eraseIdx i }
  if m.lifecycle = w.lifecycleGeneration ∧ m.generation = w.conversationMoreGeneration then
    match answer with
    | .ok page => (w.state.appendConversation page m.offset).map fun state => { rest with state }
    | .error cause => some { rest with state := w.state.failConversation cause }
  else some rest

def loadMoreActivity (w : World) : World :=
  match w.rendered.activityNextOffset with
  | none => w
  | some offset =>
    { w with
      activityMoreGeneration := w.activityMoreGeneration+1
      state := { w.state with loadingActivityMore := true }
      activityMores := w.activityMores ++ [⟨w.lifecycleGeneration,w.activityMoreGeneration+1,offset⟩] }

def activityPage (w : World) (i : ℕ) (m : More) (answer : Except Cause ActivityPage) : World :=
  let rest := { w with activityMores := w.activityMores.eraseIdx i }
  if m.lifecycle = w.lifecycleGeneration ∧ m.generation = w.activityMoreGeneration then
    match answer with
    | .ok page => { rest with state := w.state.appendActivity page m.offset }
    | .error cause => { rest with state := w.state.failActivity cause }
  else rest

def step (w : World) : Act → Option World
  | .commit r =>
    if r.id = w.requirementId ∧ ∀ last ∈ w.commits.getLast?, last.stateVersion ≤ r.stateVersion then
      some { w with commits := w.commits ++ [r] }
    else none
  | .mount =>
    let w := w.invalidateOutstandingWork
    some ({ w with state := emptyState }.loadBundle true)
  | .dispose => some w.invalidateOutstandingWork
  | .render => some { w with rendered := w.state }
  | .loadBundle initial => some (w.loadBundle initial)
  | .readRequirement i => w.bundles[i]?.bind fun b =>
    if b.read = none then some { w with bundles := w.bundles.set i { b with read := w.current? } }
    else none
  | .settle i answers => w.bundles[i]?.bind fun b => w.settle i b answers
  | .loadMoreConversation => some w.loadMoreConversation
  | .conversationPage i answer => w.conversationMores[i]?.bind fun m => w.conversationPage i m answer
  | .loadMoreActivity => some w.loadMoreActivity
  | .activityPage i answer => w.activityMores[i]?.map fun m => w.activityPage i m answer
  | .mutate => some { w with mutations := w.mutations ++ [none] }
  | .readMutation i => w.mutations[i]?.bind fun m =>
    if m = none then some { w with mutations := w.mutations.set i w.current? } else none
  | .applyRequirement i => w.mutations[i]?.bind fun m => m.map fun reading =>
    { w with
      mutations := w.mutations.eraseIdx i
      state := w.state.applyRequirement w.requirementId reading.requirement
      shown := reading :: w.shown }
  | .applyRun run => some { w with state := w.state.applyRun w.requirementId run }
  | .connection c => some { w with state := { w.state with connectionState := c } }

def run (w : World) (acts : List Act) : Option World := Steps.run step w acts

/-! ### Versions -/

/-- No commit between two moments raised the version. -/
def NoRise (commits : List Requirement) (earlier later : ℕ) : Prop :=
  ∀ i r r', earlier ≤ i → i < later → commits[i]? = some r → commits[i+1]? = some r' →
    r'.stateVersion = r.stateVersion

/-- What arrives is as recent as what is displayed, or no newer version lies between them. -/
def Fits (w : World) (reading : Reading) : Prop :=
  ∀ last ∈ w.shown.head?, NoRise w.commits reading.moment last.moment

/-- An arriving requirement that is displayed fits behind the one displayed. -/
def InOrder (w : World) : Act → Prop
  | .settle i answers => ∀ b ∈ w.bundles[i]?, w.live b = true → ∀ reading ∈ b.fulfilled answers,
      w.Fits reading
  | .applyRequirement i => ∀ reading, w.mutations[i]? = some (some reading) → w.Fits reading
  | _ => True

/-- The display never went from a version to an older one. -/
def NeverBack (w : World) : Prop :=
  w.shown.Pairwise fun later earlier => earlier.requirement.stateVersion ≤ later.requirement.stateVersion

/-- Commits of one requirement; the version never decreases. -/
structure Lineage (requirementId : String) (commits : List Requirement) : Prop where
  ids : ∀ r ∈ commits, r.id = requirementId
  versions : commits.Pairwise fun a b => a.stateVersion ≤ b.stateVersion

def Valid (commits : List Requirement) (reading : Reading) : Prop :=
  commits[reading.moment]? = some reading.requirement

variable {requirementId : String} {commits : List Requirement}

theorem Lineage.le (h : Lineage requirementId commits) {i j : ℕ} {a b : Requirement} (hij : i ≤ j)
    (ha : commits[i]? = some a) (hb : commits[j]? = some b) : a.stateVersion ≤ b.stateVersion := by
  obtain rfl | hlt := hij.eq_or_lt
  · rw [ha] at hb
    cases hb
    exact le_rfl
  · obtain ⟨hi,rfl⟩ := List.getElem?_eq_some_iff.mp ha
    obtain ⟨hj,rfl⟩ := List.getElem?_eq_some_iff.mp hb
    exact List.pairwise_iff_getElem.mp h.versions i j hi hj hlt

/-- A reading is older than another one exactly when a commit between them raised the version. -/
theorem Lineage.noRise_iff (h : Lineage requirementId commits) {arriving last : Reading}
    (ha : Valid commits arriving) (hl : Valid commits last) :
    NoRise commits arriving.moment last.moment ↔
      last.requirement.stateVersion ≤ arriving.requirement.stateVersion := by
  constructor
  · intro hrise
    obtain hback | hlt := le_or_gt last.moment arriving.moment
    · exact h.le hback hl ha
    have hlength := (List.getElem?_eq_some_iff.mp hl).1
    -- the version is the same at each moment from the arriving one up to the last one
    have hsame : ∀ j, arriving.moment ≤ j → j ≤ last.moment → ∀ r, commits[j]? = some r →
        r.stateVersion = arriving.requirement.stateVersion := by
      intro j hj
      induction j, hj using Nat.le_induction with
      | base =>
        intro _ r hr
        rw [Valid,hr] at ha
        cases ha
        rfl
      | succ j hj ih =>
        intro hle r hr
        have hprev : commits[j]? = some commits[j] := List.getElem?_eq_getElem (by omega)
        rw [hrise j _ r hj (by omega) hprev hr]
        exact ih (by omega) _ hprev
    exact (hsame last.moment hlt.le le_rfl _ hl).le
  · intro hle i r r' hi hj hr hr'
    refine le_antisymm ?_ (h.le (Nat.le_succ i) hr hr')
    calc r'.stateVersion ≤ last.requirement.stateVersion := h.le hj hr' hl
      _ ≤ arriving.requirement.stateVersion := hle
      _ ≤ r.stateVersion := h.le hi ha hr

/-! ### What a step keeps -/

/-- The readings that are under way or were displayed are values that the server had. -/
structure Reads (w : World) : Prop where
  lineage : Lineage w.requirementId w.commits
  bundles : ∀ b ∈ w.bundles, ∀ reading ∈ b.read, Valid w.commits reading
  mutations : ∀ reading, some reading ∈ w.mutations → Valid w.commits reading
  shown : ∀ reading ∈ w.shown, Valid w.commits reading

variable {w w' : World}

theorem settle_cases {i : ℕ} {b : Bundle} {answers : Answers} (h : w.settle i b answers = some w') :
    ∃ r, b.results answers = some r ∧
      ((w.live b = true ∧ w' = { w with
          bundles := w.bundles.eraseIdx i
          state := w.state.settle b.initial r
          shown := (b.fulfilled answers).toList ++ w.shown }) ∨
        w.live b = false ∧ w' = { w with bundles := w.bundles.eraseIdx i }) := by
  obtain ⟨r,hr,rfl⟩ := Option.map_eq_some_iff.mp h
  refine ⟨r,hr,?_⟩
  dsimp only
  split_ifs with hlive
  · exact .inl ⟨hlive,rfl⟩
  · exact .inr ⟨by simpa using hlive,rfl⟩

theorem results_requirement {b : Bundle} {answers : Answers} {r : Results}
    (h : b.results answers = some r) :
    r.reviewPacket = reviewPacketPromise r.requirement answers.reviewPacket ∧
      match r.requirement with
      | .ok requirement => ∃ reading, b.fulfilled answers = some reading ∧
          reading.requirement = requirement
      | .error _ => b.fulfilled answers = none := by
  simp only [Bundle.results,Option.bind_eq_bind,Option.bind_eq_some_iff,Option.pure_def] at h
  obtain ⟨requirement,hrequirement,conversation,-,activity,-,hr⟩ := h
  cases hr
  refine ⟨rfl,?_⟩
  unfold Bundle.requirementPromise at hrequirement
  cases hrejected : answers.rejected with
  | some cause =>
    simp only [hrejected] at hrequirement
    cases hrequirement
    simp [Bundle.fulfilled,hrejected]
  | none =>
    simp only [hrejected] at hrequirement
    obtain ⟨reading,hread,rfl⟩ := Option.map_eq_some_iff.mp hrequirement
    exact ⟨reading,by simp [Bundle.fulfilled,hrejected,hread],rfl⟩

theorem current?_valid {reading : Reading} (h : w.current? = some reading) : Valid w.commits reading := by
  obtain ⟨r,hr,rfl⟩ := Option.map_eq_some_iff.mp h
  rwa [Valid,← List.getLast?_eq_getElem?]

theorem Valid.append {reading : Reading} (h : Valid commits reading) (r : Requirement) :
    Valid (commits ++ [r]) reading := by
  obtain ⟨hlt,-⟩ := List.getElem?_eq_some_iff.mp h
  rw [Valid,List.getElem?_append_left hlt]
  exact h

/-- The step is about other parts of the workspace than the requirement and its packet. -/
structure Aside (w w' : World) : Prop where
  id : w'.requirementId = w.requirementId
  commits : w'.commits = w.commits
  bundles : w'.bundles = w.bundles
  mutations : w'.mutations = w.mutations
  shown : w'.shown = w.shown
  review : w.state.SameReview w'.state
  rendered : w'.rendered = w.rendered ∨ w'.rendered = w.state

/-- What a step does to the requirement, its readings and its packet. -/
inductive Turn (w : World) : Act → World → Prop
  | aside {act : Act} {w' : World} (haside : Aside w w') (hfree : w.InOrder act) : Turn w act w'
  | commit {r : Requirement} (hid : r.id = w.requirementId)
      (hversion : ∀ last ∈ w.commits.getLast?, last.stateVersion ≤ r.stateVersion) :
      Turn w (.commit r) { w with commits := w.commits ++ [r] }
  | mount : Turn w .mount ({ w.invalidateOutstandingWork with state := emptyState }.loadBundle true)
  | loadBundle {initial : Bool} : Turn w (.loadBundle initial) (w.loadBundle initial)
  | readRequirement {i : ℕ} {b : Bundle} (hb : b ∈ w.bundles) :
      Turn w (.readRequirement i) { w with bundles := w.bundles.set i { b with read := w.current? } }
  | settle {i : ℕ} {b : Bundle} {answers : Answers} {r : Results} (hb : w.bundles[i]? = some b)
      (hr : b.results answers = some r) (hlive : w.live b = true) :
      Turn w (.settle i answers) { w with
        bundles := w.bundles.eraseIdx i
        state := w.state.settle b.initial r
        shown := (b.fulfilled answers).toList ++ w.shown }
  | superseded {i : ℕ} {b : Bundle} {answers : Answers} (hb : w.bundles[i]? = some b)
      (hlive : w.live b = false) : Turn w (.settle i answers) { w with bundles := w.bundles.eraseIdx i }
  | mutate : Turn w .mutate { w with mutations := w.mutations ++ [none] }
  | readMutation {i : ℕ} : Turn w (.readMutation i) { w with mutations := w.mutations.set i w.current? }
  | applyRequirement {i : ℕ} {reading : Reading} (hm : w.mutations[i]? = some (some reading)) :
      Turn w (.applyRequirement i) { w with
        mutations := w.mutations.eraseIdx i
        state := w.state.applyRequirement w.requirementId reading.requirement
        shown := reading :: w.shown }

theorem conversationPage_aside {i : ℕ} {m : More} {answer : Except Cause ConversationPage}
    (h : w.conversationPage i m answer = some w') : Aside w w' := by
  unfold conversationPage at h
  dsimp only at h
  split_ifs at h
  · cases answer with
    | ok page =>
      obtain ⟨state,hstate,rfl⟩ := Option.map_eq_some_iff.mp h
      exact ⟨rfl,rfl,rfl,rfl,rfl,WorkspaceState.sameReview_appendConversation hstate,.inl rfl⟩
    | error cause =>
      cases h
      exact ⟨rfl,rfl,rfl,rfl,rfl,⟨rfl,rfl⟩,.inl rfl⟩
  · cases h
    exact ⟨rfl,rfl,rfl,rfl,rfl,⟨rfl,rfl⟩,.inl rfl⟩

theorem activityPage_aside (i : ℕ) (m : More) (answer : Except Cause ActivityPage) :
    Aside w (w.activityPage i m answer) := by
  unfold activityPage
  dsimp only
  split_ifs
  · cases answer with
    | ok page => exact ⟨rfl,rfl,rfl,rfl,rfl,WorkspaceState.sameReview_appendActivity _ _ _,.inl rfl⟩
    | error cause => exact ⟨rfl,rfl,rfl,rfl,rfl,⟨rfl,rfl⟩,.inl rfl⟩
  · exact ⟨rfl,rfl,rfl,rfl,rfl,⟨rfl,rfl⟩,.inl rfl⟩

theorem loadMoreConversation_aside : Aside w w.loadMoreConversation := by
  unfold loadMoreConversation
  split <;> exact ⟨rfl,rfl,rfl,rfl,rfl,⟨rfl,rfl⟩,.inl rfl⟩

theorem loadMoreActivity_aside : Aside w w.loadMoreActivity := by
  unfold loadMoreActivity
  split <;> exact ⟨rfl,rfl,rfl,rfl,rfl,⟨rfl,rfl⟩,.inl rfl⟩

theorem turn_of_step {act : Act} (h : w.step act = some w') : Turn w act w' := by
  cases act with
  | commit r =>
    simp only [step,Option.ite_none_right_eq_some] at h
    obtain ⟨⟨hid,hversion⟩,h⟩ := h
    cases h
    exact .commit hid hversion
  | mount =>
    cases h
    exact .mount
  | dispose =>
    cases h
    exact .aside ⟨rfl,rfl,rfl,rfl,rfl,⟨rfl,rfl⟩,.inl rfl⟩ trivial
  | render =>
    cases h
    exact .aside ⟨rfl,rfl,rfl,rfl,rfl,⟨rfl,rfl⟩,.inr rfl⟩ trivial
  | loadBundle initial =>
    cases h
    exact .loadBundle
  | readRequirement i =>
    obtain ⟨b,hb,h⟩ := Option.bind_eq_some_iff.mp h
    simp only [Option.ite_none_right_eq_some] at h
    obtain ⟨-,h⟩ := h
    cases h
    exact .readRequirement (List.mem_of_getElem? hb)
  | settle i answers =>
    obtain ⟨b,hb,h⟩ := Option.bind_eq_some_iff.mp h
    obtain ⟨r,hr,⟨hlive,rfl⟩ | ⟨hlive,rfl⟩⟩ := settle_cases h
    · exact .settle hb hr hlive
    · exact .superseded hb hlive
  | loadMoreConversation =>
    cases h
    exact .aside loadMoreConversation_aside trivial
  | conversationPage i answer =>
    obtain ⟨m,-,h⟩ := Option.bind_eq_some_iff.mp h
    exact .aside (conversationPage_aside h) trivial
  | loadMoreActivity =>
    cases h
    exact .aside loadMoreActivity_aside trivial
  | activityPage i answer =>
    obtain ⟨m,-,rfl⟩ := Option.map_eq_some_iff.mp h
    exact .aside (activityPage_aside i m answer) trivial
  | mutate =>
    cases h
    exact .mutate
  | readMutation i =>
    obtain ⟨m,-,h⟩ := Option.bind_eq_some_iff.mp h
    simp only [Option.ite_none_right_eq_some] at h
    obtain ⟨-,h⟩ := h
    cases h
    exact .readMutation
  | applyRequirement i =>
    obtain ⟨m,hm,h⟩ := Option.bind_eq_some_iff.mp h
    obtain ⟨reading,rfl,rfl⟩ := Option.map_eq_some_iff.mp h
    exact .applyRequirement hm
  | applyRun run =>
    cases h
    exact .aside ⟨rfl,rfl,rfl,rfl,rfl,WorkspaceState.sameReview_applyRun _ _ _,.inl rfl⟩ trivial
  | connection c =>
    cases h
    exact .aside ⟨rfl,rfl,rfl,rfl,rfl,⟨rfl,rfl⟩,.inl rfl⟩ trivial

theorem Reads.turn {act : Act} (h : Reads w) (hturn : Turn w act w') : Reads w' := by
  cases hturn with
  | aside haside =>
    obtain ⟨hid,hcommits,hbundles,hmutations,hshown,-,-⟩ := haside
    exact ⟨hid ▸ hcommits ▸ h.lineage,hcommits ▸ hbundles ▸ h.bundles,
      hcommits ▸ hmutations ▸ h.mutations,hcommits ▸ hshown ▸ h.shown⟩
  | @commit r hid hversion =>
    refine ⟨⟨?_,?_⟩,fun b hb reading hr => (h.bundles b hb reading hr).append r,
      fun reading hr => (h.mutations reading hr).append r,
      fun reading hr => (h.shown reading hr).append r⟩
    · intro x hx
      rcases List.mem_append.mp hx with hx | hx
      · exact h.lineage.ids x hx
      · rw [List.mem_singleton.mp hx]
        exact hid
    · refine List.pairwise_append.mpr ⟨h.lineage.versions,List.pairwise_singleton _ _,?_⟩
      intro a ha x hx
      rw [List.mem_singleton.mp hx]
      obtain ⟨i,hi⟩ := List.getElem?_of_mem ha
      have hne : w.commits ≠ [] := List.ne_nil_of_mem ha
      have hlast := List.getLast?_eq_some_getLast hne
      rw [List.getLast?_eq_getElem?] at hlast
      have hle : i ≤ w.commits.length-1 := by
        have := (List.getElem?_eq_some_iff.mp hi).1
        omega
      exact (h.lineage.le hle hi hlast).trans (hversion _ (List.getLast?_eq_some_getLast hne))
  | mount =>
    refine ⟨h.lineage,fun b hb => ?_,h.mutations,h.shown⟩
    rcases List.mem_append.mp hb with hb | hb
    · exact h.bundles b hb
    · rw [List.mem_singleton.mp hb]
      exact fun _ hr => nomatch hr
  | loadBundle =>
    refine ⟨h.lineage,fun b hb => ?_,h.mutations,h.shown⟩
    rcases List.mem_append.mp hb with hb | hb
    · exact h.bundles b hb
    · rw [List.mem_singleton.mp hb]
      exact fun _ hr => nomatch hr
  | readRequirement hb =>
    refine ⟨h.lineage,fun x hx => ?_,h.mutations,h.shown⟩
    rcases List.mem_or_eq_of_mem_set hx with hx | rfl
    · exact h.bundles x hx
    · exact fun reading hr => current?_valid hr
  | @settle i b answers r hb hr hlive =>
    refine ⟨h.lineage,fun x hx => h.bundles x (List.mem_of_mem_eraseIdx hx),h.mutations,?_⟩
    intro reading hreading
    rcases List.mem_append.mp hreading with hreading | hreading
    · simp only [Bundle.fulfilled] at hreading
      split_ifs at hreading
      · exact h.bundles b (List.mem_of_getElem? hb) reading (Option.mem_toList.mp hreading)
      · simp at hreading
    · exact h.shown reading hreading
  | superseded hb =>
    exact ⟨h.lineage,fun x hx => h.bundles x (List.mem_of_mem_eraseIdx hx),h.mutations,h.shown⟩
  | mutate =>
    refine ⟨h.lineage,h.bundles,fun reading hr => ?_,h.shown⟩
    rcases List.mem_append.mp hr with hr | hr
    · exact h.mutations reading hr
    · simp at hr
  | readMutation =>
    refine ⟨h.lineage,h.bundles,fun reading hr => ?_,h.shown⟩
    rcases List.mem_or_eq_of_mem_set hr with hr | hr
    · exact h.mutations reading hr
    · exact current?_valid hr.symm
  | @applyRequirement i reading hm =>
    refine ⟨h.lineage,h.bundles,fun x hx => h.mutations x (List.mem_of_mem_eraseIdx hx),?_⟩
    intro x hx
    rcases List.mem_cons.mp hx with rfl | hx
    · exact h.mutations x (List.mem_of_getElem? hm)
    · exact h.shown x hx

/-- What is displayed next is not older than all before it just when it fits behind the last. -/
theorem neverBack_push (h : Reads w) {reading : Reading} (hv : Valid w.commits reading)
    (hpush : w'.shown = reading :: w.shown) : NeverBack w' ↔ NeverBack w ∧ w.Fits reading := by
  simp only [NeverBack,Fits,hpush]
  have hvalid := h.shown
  cases hshown : w.shown with
  | nil => simp
  | cons last rest =>
    rw [hshown] at hvalid
    simp only [List.pairwise_cons (a := reading),List.head?_cons,Option.mem_some_iff,forall_eq',
      h.lineage.noRise_iff hv (hvalid last List.mem_cons_self)]
    constructor
    · rintro ⟨hle,hrest⟩
      exact ⟨hrest,hle last List.mem_cons_self⟩
    · rintro ⟨hrest,hle⟩
      refine ⟨fun x hx => ?_,hrest⟩
      rcases List.mem_cons.mp hx with rfl | hx
      · exact hle
      · exact ((List.pairwise_cons.mp hrest).1 x hx).trans hle

theorem Turn.neverBack_iff {act : Act} (h : Reads w) (hturn : Turn w act w') :
    NeverBack w' ↔ NeverBack w ∧ w.InOrder act := by
  cases hturn with
  | aside haside hfree => simp [NeverBack,haside.shown,hfree]
  | commit | mount | loadBundle | readRequirement | mutate | readMutation =>
    exact (and_iff_left trivial).symm
  | @settle i b answers r hb hr hlive =>
    have horder : w.InOrder (.settle i answers) ↔ ∀ reading ∈ b.fulfilled answers, w.Fits reading := by
      simp [InOrder,hb,hlive]
    rw [horder]
    cases hfulfilled : b.fulfilled answers with
    | none => simp [NeverBack]
    | some reading =>
      have hread : reading ∈ b.read := by
        simp only [Bundle.fulfilled] at hfulfilled
        split_ifs at hfulfilled
        exact hfulfilled
      simpa using neverBack_push h (h.bundles b (List.mem_of_getElem? hb) reading hread) rfl
  | @superseded i b answers hb hlive => simp [NeverBack,InOrder,hb,hlive]
  | @applyRequirement i reading hm =>
    have horder : w.InOrder (.applyRequirement i) ↔ w.Fits reading := by simp [InOrder,hm]
    rw [horder]
    exact neverBack_push h (h.mutations reading (List.mem_of_getElem? hm)) rfl

/-! ### What is displayed -/

/-- The requirement on the display is the last one shown, and its packet is its own. -/
structure Display (w : World) : Prop where
  shown : ∀ r, w.state.requirement = some r → ∃ reading ∈ w.shown.head?, reading.requirement = r
  packet : w.state.PacketCurrent
  rendered : w.rendered.PacketCurrent

theorem Display.turn {act : Act} (hreads : Reads w) (h : Display w) (hturn : Turn w act w') :
    Display w' := by
  cases hturn with
  | aside haside =>
    refine ⟨?_,haside.review.packetCurrent h.packet,?_⟩
    · rw [haside.shown,haside.review.1]
      exact h.shown
    · rcases haside.rendered with hsame | hstate
      · exact hsame ▸ h.rendered
      · exact hstate ▸ h.packet
  | commit => exact ⟨h.shown,h.packet,h.rendered⟩
  | mount =>
    exact ⟨nofun,(WorkspaceState.sameReview_startLoading true _).packetCurrent
      WorkspaceState.emptyState_packetCurrent,h.rendered⟩
  | loadBundle =>
    exact ⟨h.shown,(WorkspaceState.sameReview_startLoading _ _).packetCurrent h.packet,h.rendered⟩
  | readRequirement => exact ⟨h.shown,h.packet,h.rendered⟩
  | @settle i b answers r hb hr hlive =>
    obtain ⟨hpacket,hrequirement⟩ := results_requirement hr
    refine ⟨?_,WorkspaceState.settle_packetCurrent hpacket h.packet,h.rendered⟩
    intro x hx
    simp only [WorkspaceState.settle_requirement] at hx
    cases hresult : r.requirement with
    | ok requirement =>
      simp only [hresult] at hx hrequirement
      obtain ⟨reading,hfulfilled,rfl⟩ := hrequirement
      cases hx
      exact ⟨reading,by simp [hfulfilled],rfl⟩
    | error cause =>
      simp only [hresult] at hx hrequirement
      simpa [hrequirement] using h.shown x hx
  | superseded => exact ⟨h.shown,h.packet,h.rendered⟩
  | mutate => exact ⟨h.shown,h.packet,h.rendered⟩
  | readMutation => exact ⟨h.shown,h.packet,h.rendered⟩
  | @applyRequirement i reading hm =>
    refine ⟨?_,WorkspaceState.applyRequirement_packetCurrent _ _ h.packet,h.rendered⟩
    intro x hx
    have hvalid := h.shown
    have hid : reading.requirement.id = w.requirementId := by
      have hv := hreads.mutations reading (List.mem_of_getElem? hm)
      exact hreads.lineage.ids _ (List.mem_of_getElem? hv)
    simp only [WorkspaceState.applyRequirement_requirement hid] at hx
    cases hx
    exact ⟨reading,rfl,rfl⟩

/-! ### Superseded calls -/

/-- The act begins a new generation of bundles. -/
def renewsBundle : Act → Bool
  | .mount | .dispose | .loadBundle _ => true
  | _ => false

def renewsConversation (w : World) : Act → Bool
  | .loadMoreConversation => (w.rendered.conversation.bind (·.nextOffset)).isSome
  | act => renewsBundle act

def renewsActivity (w : World) : Act → Bool
  | .loadMoreActivity => w.rendered.activityNextOffset.isSome
  | act => renewsBundle act

/-- Each call under way has a generation that was begun. -/
structure Begun (w : World) : Prop where
  bundles : ∀ b ∈ w.bundles, b.generation ≤ w.bundleGeneration
  conversationMores : ∀ m ∈ w.conversationMores, m.generation ≤ w.conversationMoreGeneration
  activityMores : ∀ m ∈ w.activityMores, m.generation ≤ w.activityMoreGeneration

/-- Generations only grow, and a renewal begins a new one. -/
structure Grows (w : World) (act : Act) (w' : World) : Prop where
  bundle : w.bundleGeneration ≤ w'.bundleGeneration
  conversation : w.conversationMoreGeneration ≤ w'.conversationMoreGeneration
  activity : w.activityMoreGeneration ≤ w'.activityMoreGeneration
  bundleRenewed : renewsBundle act = true → w.bundleGeneration < w'.bundleGeneration
  conversationRenewed : w.renewsConversation act = true →
    w.conversationMoreGeneration < w'.conversationMoreGeneration
  activityRenewed : w.renewsActivity act = true → w.activityMoreGeneration < w'.activityMoreGeneration

theorem Begun.fewer (h : Begun w) (hbundle : w'.bundleGeneration = w.bundleGeneration)
    (hconversation : w'.conversationMoreGeneration = w.conversationMoreGeneration)
    (hactivity : w'.activityMoreGeneration = w.activityMoreGeneration)
    (hbundles : ∀ b ∈ w'.bundles, ∃ b₀ ∈ w.bundles, b.generation = b₀.generation)
    (hconversations : ∀ m ∈ w'.conversationMores, m ∈ w.conversationMores)
    (hactivities : ∀ m ∈ w'.activityMores, m ∈ w.activityMores) : Begun w' := by
  refine ⟨fun b hb => ?_,fun m hm => ?_,fun m hm => ?_⟩
  · obtain ⟨b₀,hb₀,hgeneration⟩ := hbundles b hb
    rw [hbundle,hgeneration]
    exact h.bundles b₀ hb₀
  · exact hconversation ▸ h.conversationMores m (hconversations m hm)
  · exact hactivity ▸ h.activityMores m (hactivities m hm)

theorem Grows.still {act : Act} (hbundle : w'.bundleGeneration = w.bundleGeneration)
    (hconversation : w'.conversationMoreGeneration = w.conversationMoreGeneration)
    (hactivity : w'.activityMoreGeneration = w.activityMoreGeneration)
    (hrenews : renewsBundle act = false) (hconversationRenews : w.renewsConversation act = false)
    (hactivityRenews : w.renewsActivity act = false) : Grows w act w' := by
  refine ⟨hbundle.ge,hconversation.ge,hactivity.ge,?_,?_,?_⟩
  · simp [hrenews]
  · simp [hconversationRenews]
  · simp [hactivityRenews]

theorem loadBundle_begun (h : Begun w) (initial : Bool) : Begun (w.loadBundle initial) := by
  refine ⟨fun b hb => ?_,fun m hm => (h.conversationMores m hm).trans (Nat.le_succ _),
    fun m hm => (h.activityMores m hm).trans (Nat.le_succ _)⟩
  rcases List.mem_append.mp hb with hb | hb
  · exact (h.bundles b hb).trans (Nat.le_succ _)
  · rw [List.mem_singleton.mp hb]
    exact le_rfl

theorem invalidate_begun (h : Begun w) : Begun w.invalidateOutstandingWork :=
  ⟨fun b hb => (h.bundles b hb).trans (Nat.le_succ _),
    fun m hm => (h.conversationMores m hm).trans (Nat.le_succ _),
    fun m hm => (h.activityMores m hm).trans (Nat.le_succ _)⟩

theorem Begun.beside {act : Act} (h : Begun w) (hbundles : w'.bundles = w.bundles)
    (hconversations : w'.conversationMores = w.conversationMores)
    (hactivities : w'.activityMores = w.activityMores)
    (hbundle : w'.bundleGeneration = w.bundleGeneration)
    (hconversation : w'.conversationMoreGeneration = w.conversationMoreGeneration)
    (hactivity : w'.activityMoreGeneration = w.activityMoreGeneration)
    (hrenews : renewsBundle act = false) (hconversationRenews : w.renewsConversation act = false)
    (hactivityRenews : w.renewsActivity act = false) : Begun w' ∧ Grows w act w' :=
  ⟨h.fewer hbundle hconversation hactivity (fun b hb => ⟨b,hbundles ▸ hb,rfl⟩)
      (fun _ hm => hconversations ▸ hm) fun _ hm => hactivities ▸ hm,
    .still hbundle hconversation hactivity hrenews hconversationRenews hactivityRenews⟩

theorem conversationPage_calls {i : ℕ} {m : More} {answer : Except Cause ConversationPage}
    (h : w.conversationPage i m answer = some w') :
    w'.bundleGeneration = w.bundleGeneration ∧
      w'.conversationMoreGeneration = w.conversationMoreGeneration ∧
      w'.activityMoreGeneration = w.activityMoreGeneration ∧ w'.bundles = w.bundles ∧
      w'.conversationMores = w.conversationMores.eraseIdx i ∧ w'.activityMores = w.activityMores := by
  unfold conversationPage at h
  dsimp only at h
  split_ifs at h
  · cases answer with
    | ok page =>
      obtain ⟨state,-,rfl⟩ := Option.map_eq_some_iff.mp h
      exact ⟨rfl,rfl,rfl,rfl,rfl,rfl⟩
    | error cause =>
      cases h
      exact ⟨rfl,rfl,rfl,rfl,rfl,rfl⟩
  · cases h
    exact ⟨rfl,rfl,rfl,rfl,rfl,rfl⟩

theorem activityPage_calls (i : ℕ) (m : More) (answer : Except Cause ActivityPage) :
    (w.activityPage i m answer).bundleGeneration = w.bundleGeneration ∧
      (w.activityPage i m answer).conversationMoreGeneration = w.conversationMoreGeneration ∧
      (w.activityPage i m answer).activityMoreGeneration = w.activityMoreGeneration ∧
      (w.activityPage i m answer).bundles = w.bundles ∧
      (w.activityPage i m answer).conversationMores = w.conversationMores ∧
      (w.activityPage i m answer).activityMores = w.activityMores.eraseIdx i := by
  unfold activityPage
  dsimp only
  split_ifs
  · cases answer <;> exact ⟨rfl,rfl,rfl,rfl,rfl,rfl⟩
  · exact ⟨rfl,rfl,rfl,rfl,rfl,rfl⟩

theorem mount_begun (hb : Begun w) (h : w.step .mount = some w') : Begun w' ∧ Grows w .mount w' := by
  cases h
  have hcleared : Begun { w.invalidateOutstandingWork with state := emptyState } :=
    ⟨(invalidate_begun hb).bundles,(invalidate_begun hb).conversationMores,(invalidate_begun hb).activityMores⟩
  refine ⟨loadBundle_begun hcleared true,?_⟩
  constructor <;> simp only [loadBundle,invalidateOutstandingWork] <;> omega

theorem dispose_begun (hb : Begun w) : Begun w.invalidateOutstandingWork ∧ Grows w .dispose w.invalidateOutstandingWork := by
  refine ⟨invalidate_begun hb,?_⟩
  constructor <;> simp only [invalidateOutstandingWork] <;> omega

theorem loadBundle_grows (hb : Begun w) (initial : Bool) :
    Begun (w.loadBundle initial) ∧ Grows w (.loadBundle initial) (w.loadBundle initial) := by
  refine ⟨loadBundle_begun hb initial,?_⟩
  constructor <;> simp only [loadBundle] <;> omega

theorem readRequirement_begun {i : ℕ} (hb : Begun w) (h : w.step (.readRequirement i) = some w') :
    Begun w' ∧ Grows w (.readRequirement i) w' := by
  obtain ⟨b,hmem,h⟩ := Option.bind_eq_some_iff.mp h
  simp only [Option.ite_none_right_eq_some] at h
  obtain ⟨-,h⟩ := h
  cases h
  refine ⟨hb.fewer rfl rfl rfl (fun x hx => ?_) (fun _ => id) fun _ => id,.still rfl rfl rfl rfl rfl rfl⟩
  rcases List.mem_or_eq_of_mem_set hx with hx | rfl
  · exact ⟨x,hx,rfl⟩
  · exact ⟨b,List.mem_of_getElem? hmem,rfl⟩

theorem settle_begun {i : ℕ} {answers : Answers} (hb : Begun w) (h : w.step (.settle i answers) = some w') :
    Begun w' ∧ Grows w (.settle i answers) w' := by
  obtain ⟨b,-,h⟩ := Option.bind_eq_some_iff.mp h
  have hleft : ∀ x ∈ w.bundles.eraseIdx i, ∃ x₀ ∈ w.bundles, x.generation = x₀.generation :=
    fun x hx => ⟨x,List.mem_of_mem_eraseIdx hx,rfl⟩
  obtain ⟨r,-,⟨-,rfl⟩ | ⟨-,rfl⟩⟩ := settle_cases h
  · exact ⟨hb.fewer rfl rfl rfl hleft (fun _ => id) fun _ => id,.still rfl rfl rfl rfl rfl rfl⟩
  · exact ⟨hb.fewer rfl rfl rfl hleft (fun _ => id) fun _ => id,.still rfl rfl rfl rfl rfl rfl⟩

theorem loadMoreConversation_begun (hb : Begun w) :
    Begun w.loadMoreConversation ∧ Grows w .loadMoreConversation w.loadMoreConversation := by
  unfold loadMoreConversation
  cases hoffset : w.rendered.conversation.bind (·.nextOffset) with
  | none => exact ⟨hb,.still rfl rfl rfl rfl (by simp [renewsConversation,hoffset]) rfl⟩
  | some offset =>
    refine ⟨⟨hb.bundles,fun m hm => ?_,hb.activityMores⟩,
      ⟨le_rfl,Nat.le_succ _,le_rfl,by simp [renewsBundle],fun _ => Nat.lt_succ_self _,
        by simp [renewsActivity,renewsBundle]⟩⟩
    rcases List.mem_append.mp hm with hm | hm
    · exact (hb.conversationMores m hm).trans (Nat.le_succ _)
    · rw [List.mem_singleton.mp hm]

theorem conversationPage_begun {i : ℕ} {answer : Except Cause ConversationPage} (hb : Begun w)
    (h : w.step (.conversationPage i answer) = some w') : Begun w' ∧ Grows w (.conversationPage i answer) w' := by
  obtain ⟨m,-,h⟩ := Option.bind_eq_some_iff.mp h
  obtain ⟨hb₁,hc₁,ha₁,hbundles,hconversations,hactivities⟩ := conversationPage_calls h
  refine ⟨hb.fewer hb₁ hc₁ ha₁ (fun x hx => ⟨x,hbundles ▸ hx,rfl⟩) (fun x hx => ?_)
    fun x hx => hactivities ▸ hx,.still hb₁ hc₁ ha₁ rfl rfl rfl⟩
  rw [hconversations] at hx
  exact List.mem_of_mem_eraseIdx hx

theorem loadMoreActivity_begun (hb : Begun w) :
    Begun w.loadMoreActivity ∧ Grows w .loadMoreActivity w.loadMoreActivity := by
  unfold loadMoreActivity
  cases hoffset : w.rendered.activityNextOffset with
  | none => exact ⟨hb,.still rfl rfl rfl rfl rfl (by simp [renewsActivity,hoffset])⟩
  | some offset =>
    refine ⟨⟨hb.bundles,hb.conversationMores,fun m hm => ?_⟩,
      ⟨le_rfl,le_rfl,Nat.le_succ _,by simp [renewsBundle],by simp [renewsConversation,renewsBundle],
        fun _ => Nat.lt_succ_self _⟩⟩
    rcases List.mem_append.mp hm with hm | hm
    · exact (hb.activityMores m hm).trans (Nat.le_succ _)
    · rw [List.mem_singleton.mp hm]

theorem activityPage_begun {i : ℕ} {answer : Except Cause ActivityPage} (hb : Begun w)
    (h : w.step (.activityPage i answer) = some w') : Begun w' ∧ Grows w (.activityPage i answer) w' := by
  obtain ⟨m,-,rfl⟩ := Option.map_eq_some_iff.mp h
  obtain ⟨hb₁,hc₁,ha₁,hbundles,hconversations,hactivities⟩ := activityPage_calls (w := w) i m answer
  refine ⟨hb.fewer hb₁ hc₁ ha₁ (fun x hx => ⟨x,hbundles ▸ hx,rfl⟩) (fun x hx => hconversations ▸ hx)
    fun x hx => ?_,.still hb₁ hc₁ ha₁ rfl rfl rfl⟩
  rw [hactivities] at hx
  exact List.mem_of_mem_eraseIdx hx

theorem step_begun {act : Act} (hb : Begun w) (h : w.step act = some w') : Begun w' ∧ Grows w act w' := by
  cases act with
  | mount => exact mount_begun hb h
  | dispose =>
    cases h
    exact dispose_begun hb
  | loadBundle initial =>
    cases h
    exact loadBundle_grows hb initial
  | readRequirement i => exact readRequirement_begun hb h
  | settle i answers => exact settle_begun hb h
  | loadMoreConversation =>
    cases h
    exact loadMoreConversation_begun hb
  | conversationPage i answer => exact conversationPage_begun hb h
  | loadMoreActivity =>
    cases h
    exact loadMoreActivity_begun hb
  | activityPage i answer => exact activityPage_begun hb h
  | commit r =>
    simp only [step,Option.ite_none_right_eq_some] at h
    obtain ⟨-,h⟩ := h
    cases h
    exact hb.beside rfl rfl rfl rfl rfl rfl rfl rfl rfl
  | readMutation i =>
    obtain ⟨m,-,h⟩ := Option.bind_eq_some_iff.mp h
    simp only [Option.ite_none_right_eq_some] at h
    obtain ⟨-,h⟩ := h
    cases h
    exact hb.beside rfl rfl rfl rfl rfl rfl rfl rfl rfl
  | applyRequirement i =>
    obtain ⟨m,-,h⟩ := Option.bind_eq_some_iff.mp h
    obtain ⟨reading,-,rfl⟩ := Option.map_eq_some_iff.mp h
    exact hb.beside rfl rfl rfl rfl rfl rfl rfl rfl rfl
  | render | mutate | applyRun run | connection c =>
    cases h
    exact hb.beside rfl rfl rfl rfl rfl rfl rfl rfl rfl

theorem run_grows {acts : List Act} (hb : Begun w) (h : w.run acts = some w') :
    w.bundleGeneration ≤ w'.bundleGeneration ∧
      w.conversationMoreGeneration ≤ w'.conversationMoreGeneration ∧
      w.activityMoreGeneration ≤ w'.activityMoreGeneration := by
  have hgrows : Begun w' ∧ w.bundleGeneration ≤ w'.bundleGeneration ∧
      w.conversationMoreGeneration ≤ w'.conversationMoreGeneration ∧
      w.activityMoreGeneration ≤ w'.activityMoreGeneration := by
    refine Steps.run_invariant (P := fun x => Begun x ∧ w.bundleGeneration ≤ x.bundleGeneration ∧
      w.conversationMoreGeneration ≤ x.conversationMoreGeneration ∧
      w.activityMoreGeneration ≤ x.activityMoreGeneration) ?_ ⟨hb,le_rfl,le_rfl,le_rfl⟩ h
    rintro x act x' ⟨hx,hbundle,hconversation,hactivity⟩ hstep
    obtain ⟨hx',hgrows⟩ := step_begun hx hstep
    exact ⟨hx',hbundle.trans hgrows.bundle,hconversation.trans hgrows.conversation,
      hactivity.trans hgrows.activity⟩
  exact hgrows.2

/-- After the act, no response to a call that was under way before it changes the display. -/
structure Dropped (act : Act) (w₁ w : World) : Prop where
  bundles : renewsBundle act = true → ∀ b₁ ∈ w₁.bundles, ∀ i b answers w', w.bundles[i]? = some b →
    b.generation = b₁.generation → w.step (.settle i answers) = some w' →
    w'.state = w.state ∧ w'.shown = w.shown
  conversations : w₁.renewsConversation act = true → ∀ m₁ ∈ w₁.conversationMores, ∀ i m answer w',
    w.conversationMores[i]? = some m → m.generation = m₁.generation →
    w.step (.conversationPage i answer) = some w' → w'.state = w.state ∧ w'.shown = w.shown
  activities : w₁.renewsActivity act = true → ∀ m₁ ∈ w₁.activityMores, ∀ i m answer w',
    w.activityMores[i]? = some m → m.generation = m₁.generation →
    w.step (.activityPage i answer) = some w' → w'.state = w.state ∧ w'.shown = w.shown

theorem dropped_of_run {act : Act} {after : List Act} {w₁ : World} (hb : Begun w₁)
    (h : w₁.run (act :: after) = some w) : Dropped act w₁ w := by
  obtain ⟨w₂,hstep,hafter⟩ := Steps.run_cons.mp h
  obtain ⟨hb₂,hgrows⟩ := step_begun hb hstep
  obtain ⟨hbundle,hconversation,hactivity⟩ := run_grows hb₂ hafter
  constructor
  · intro hrenews b₁ hb₁ i b answers w' hi hgeneration hsettle
    simp only [step,hi,Option.bind_some] at hsettle
    have hlive : w.live b = false := by
      have hle := hb.bundles b₁ hb₁
      have hlt := hgrows.bundleRenewed hrenews
      simp only [live,Bool.and_eq_false_iff,decide_eq_false_iff_not]
      omega
    obtain ⟨r,-,⟨hlive',-⟩ | ⟨-,rfl⟩⟩ := settle_cases hsettle
    · simp [hlive] at hlive'
    · exact ⟨rfl,rfl⟩
  · intro hrenews m₁ hm₁ i m answer w' hi hgeneration hpage
    simp only [step,hi,Option.bind_some,conversationPage] at hpage
    have hstale : ¬ (m.lifecycle = w.lifecycleGeneration ∧ m.generation = w.conversationMoreGeneration) := by
      have hle := hb.conversationMores m₁ hm₁
      have hlt := hgrows.conversationRenewed hrenews
      omega
    rw [if_neg hstale] at hpage
    cases hpage
    exact ⟨rfl,rfl⟩
  · intro hrenews m₁ hm₁ i m answer w' hi hgeneration hpage
    simp only [step,hi,Option.map_some,activityPage] at hpage
    have hstale : ¬ (m.lifecycle = w.lifecycleGeneration ∧ m.generation = w.activityMoreGeneration) := by
      have hle := hb.activityMores m₁ hm₁
      have hlt := hgrows.activityRenewed hrenews
      omega
    rw [if_neg hstale] at hpage
    cases hpage
    exact ⟨rfl,rfl⟩

structure Inv (w : World) : Prop where
  reads : Reads w
  display : Display w
  begun : Begun w

theorem Inv.step {act : Act} (h : Inv w) (hstep : w.step act = some w') : Inv w' :=
  have hturn := turn_of_step hstep
  ⟨h.reads.turn hturn,h.display.turn h.reads hturn,(step_begun h.begun hstep).1⟩

theorem inv_fresh (first : Requirement) : Inv (fresh first) where
  reads :=
    { lineage := ⟨by simp [fresh],List.pairwise_singleton _ _⟩
      bundles := by simp [fresh]
      mutations := by simp [fresh]
      shown := by simp [fresh] }
  display := ⟨by simp [fresh,emptyState],WorkspaceState.emptyState_packetCurrent,
    WorkspaceState.emptyState_packetCurrent⟩
  begun := ⟨by simp [fresh],by simp [fresh],by simp [fresh]⟩

theorem inv_run {first : Requirement} {acts : List Act} (h : (fresh first).run acts = some w) : Inv w :=
  Steps.run_invariant (fun _ _ _ hs hstep => hs.step hstep) (inv_fresh first) h

/-- In every run, the displayed requirement never goes back exactly when each requirement that
arrives is as recent as the displayed one, or shows the same version. A packet is always that
of the displayed requirement, and a superseded call changes nothing. -/
theorem workspace_order (first : Requirement) (acts : List Act) (w : World)
    (hrun : (fresh first).run acts = some w) :
    (w.NeverBack ↔ Steps.Along step InOrder (fresh first) acts) ∧
    (∀ r, w.state.requirement = some r → ∃ reading ∈ w.shown.head?, reading.requirement = r) ∧
    w.state.PacketCurrent ∧ w.rendered.PacketCurrent ∧
    ∀ before act after w₁, acts = before ++ act :: after → (fresh first).run before = some w₁ →
      Dropped act w₁ w := by
  have hinv := inv_run hrun
  refine ⟨?_,hinv.display.shown,hinv.display.packet,hinv.display.rendered,?_⟩
  · refine Steps.run_iff_along (I := Inv) (fun _ _ _ hs hstep => hs.step hstep)
      (fun s act s' hs hstep => (turn_of_step hstep).neverBack_iff hs.reads) (inv_fresh first) ?_ hrun
    exact List.Pairwise.nil
  · rintro before act after w₁ rfl hbefore
    obtain ⟨w₂,hw₂,hafter⟩ := Steps.run_append.mp hrun
    have hsame : w₂ = w₁ := Option.some.inj (hw₂.symm.trans hbefore)
    subst hsame
    exact dropped_of_run (inv_run hbefore).begun hafter

/-! ### A late mutation result -/

def draftAt (version : ℕ) : Requirement :=
  ⟨"r","Export","","",[],[],[],.discussing,version,version,"u"⟩

/-- Only the requirement itself is read. -/
def offline : Answers where
  rejected := none
  conversation := .error .other
  readiness := .error .other
  activity := fun _ _ => .error .other
  run := .error .other
  reviewPacket := .error .other
  currentUser := .error .other
  fuel := 0

/-- The workspace is loaded, and an edit is sent and carried out. -/
def editedRun : List Act :=
  [.mount,.readRequirement 0,.settle 0 offline,.render,.mutate,.commit (draftAt 5),.readMutation 0]

/-- The result comes before anything else is committed. -/
theorem editedRun_inOrder : ∃ w, (fresh (draftAt 4)).run (editedRun ++ [.applyRequirement 0]) = some w ∧
    Steps.Along step InOrder (fresh (draftAt 4)) (editedRun ++ [.applyRequirement 0]) ∧
    w.state.PacketCurrent := by
  have hrun : ((fresh (draftAt 4)).run (editedRun ++ [.applyRequirement 0])).map (·.shown) =
      some [⟨1,draftAt 5⟩,⟨0,draftAt 4⟩] := by decide +kernel
  obtain ⟨w,hrun,hshown⟩ := Option.map_eq_some_iff.mp hrun
  obtain ⟨horder,-,hpacket,-⟩ := workspace_order (draftAt 4) _ w hrun
  exact ⟨w,hrun,horder.mp (by simp [NeverBack,hshown,draftAt]),hpacket⟩

/-- A second change is committed and its hint brings a refresh, before the result comes. -/
theorem lateResult_goesBack : ¬ ∀ w, (fresh (draftAt 4)).run (editedRun ++ [.commit (draftAt 6),
    .loadBundle false,.readRequirement 0,.settle 0 offline,.applyRequirement 0]) = some w → w.NeverBack := by
  intro h
  have hrun : ((fresh (draftAt 4)).run (editedRun ++ [.commit (draftAt 6),.loadBundle false,
      .readRequirement 0,.settle 0 offline,.applyRequirement 0])).map (·.shown) =
      some [⟨1,draftAt 5⟩,⟨2,draftAt 6⟩,⟨0,draftAt 4⟩] := by decide +kernel
  obtain ⟨w,hw,hshown⟩ := Option.map_eq_some_iff.mp hrun
  have hback := h w hw
  rw [NeverBack,hshown] at hback
  exact absurd hback (by decide)

end World
end Workspace
end North
