import North.Lib.InsertionMap
import Mathlib.Data.List.Sort
import Mathlib.Data.List.Range
import Mathlib.Algebra.Group.Nat.Defs

/-! The loaded part of a conversation in the browser, and its repair: the pages are fetched
again from the start until they cover what was shown, and are put together anew. -/
namespace North
namespace Pagination

inductive MessageKind
  | requester | agent | system
  deriving DecidableEq, Repr

structure Conversation where
  id : String
  requirementId : String
  createdAt : String
  deriving DecidableEq, Repr

structure Message where
  id : String
  conversationId : String
  authorUserId : Option String
  kind : MessageKind
  body : String
  createdAt : String
  deriving DecidableEq, Repr

structure ConversationPage where
  conversation : Conversation
  messages : List Message
  nextOffset : Option ℕ
  deriving DecidableEq, Repr

structure ConversationPageSlice where
  offset : ℕ
  page : ConversationPage
  deriving DecidableEq, Repr

structure ConversationHistory where
  conversation : Conversation
  pages : List ConversationPageSlice
  messages : List Message
  nextOffset : Option ℕ
  priorLoadedEndOffset : ℕ
  reachedEnd : Bool
  deriving DecidableEq, Repr

/-- The UTF-16 code units of a string, which is what JavaScript compares. -/
def codeUnits (s : String) : List ℕ :=
  s.toList.flatMap fun c =>
    let n := c.toNat
    if n < 0x10000 then [n] else [0xD800+(n-0x10000)/0x400,0xDC00+(n-0x10000)%0x400]

def compareMessages (left right : Message) : ℤ :=
  if codeUnits left.createdAt < codeUnits right.createdAt then -1
  else if codeUnits right.createdAt < codeUnits left.createdAt then 1
  else if codeUnits left.id < codeUnits right.id then -1
  else if codeUnits right.id < codeUnits left.id then 1
  else 0

def mergeMessages (pages : List ConversationPageSlice) : List Message :=
  let messages := pages.flatMap (·.page.messages)
  (InsertionMap.values (InsertionMap.ofList (messages.map fun m => (m.id,m)))).insertionSort
    fun a b => compareMessages a b ≤ 0

structure Chain where
  pages : List ConversationPageSlice := []
  endOffset : ℕ := 0
  nextOffset : Option ℕ := none
  reachedEnd : Bool := false
  deriving DecidableEq, Repr

/-- The loop of `contiguousPages`; `none` when the fuel ends before the loop does. -/
def contiguousLoop (byOffset : List (ℕ × ConversationPageSlice)) :
    ℕ → (offset : ℕ) → (visited : List ℕ) → Chain → Option Chain
  | 0, _, _, _ => none
  | fuel+1, offset, visited, chain =>
    if visited.contains offset then some chain
    else match InsertionMap.get byOffset offset with
      | none => some chain
      | some slice =>
        let chain : Chain :=
          ⟨chain.pages ++ [slice],offset+slice.page.messages.length,slice.page.nextOffset,false⟩
        match slice.page.nextOffset with
        | none => some { chain with reachedEnd := true }
        | some next =>
          if next ≤ offset then some chain
          else contiguousLoop byOffset fuel next (offset::visited) chain

/-- Each turn visits one more of the offsets. -/
def contiguousPages (pages : List ConversationPageSlice) : Option Chain :=
  contiguousLoop (InsertionMap.ofList (pages.map fun slice => (slice.offset,slice))) (pages.length+1) 0 [] {}

/-- An error thrown to the caller. -/
abbrev Thrown := String

def buildConversationHistory (pages : List ConversationPageSlice) :
    Option (Except Thrown ConversationHistory) :=
  if pages.isEmpty then some (.error "Conversation history requires a page at offset 0")
  else (contiguousPages pages).map fun chain =>
    match chain.pages.head? with
    | none => .error "Cannot read properties of undefined (reading 'page')"
    | some first =>
      .ok ⟨first.page.conversation,chain.pages,mergeMessages chain.pages,chain.nextOffset,
        chain.endOffset,chain.reachedEnd⟩

/-- The offset is the next one of the history when the caller gives none. -/
def appendConversationPage (current : ConversationHistory) (page : ConversationPage) (offset : Option ℕ) :
    Option (Except Thrown ConversationHistory) :=
  match offset with
  | none => some (.ok current)
  | some offset =>
    buildConversationHistory (current.pages.filter (fun slice => slice.offset != offset) ++ [⟨offset,page⟩])

/-- `fetchPage` of the caller: a page, or a rejected promise. -/
abbrev FetchPage := (offset limit : ℕ) → Except Thrown ConversationPage

/-- The pages so far are enough for what was shown before. -/
def repaired (previous : ConversationHistory) (observedIds : List String) (endOffset : ℕ)
    (nextOffset : Option ℕ) : Bool :=
  let reobserved := previous.messages.all fun m => observedIds.contains m.id
  let rebuiltPriorRange := decide (previous.priorLoadedEndOffset ≤ endOffset)
  if previous.reachedEnd then nextOffset.isNone else rebuiltPriorRange && reobserved

/-- The loop of `repairConversationHistory`; `none` when the fuel ends before the loop does. -/
def repairLoop (fetchPage : FetchPage) (previous : ConversationHistory) (limit : ℕ) :
    ℕ → (offset : ℕ) → (requestedOffsets : List ℕ) → (refreshed : List ConversationPageSlice) →
      (observedIds : List String) → Option (Except Thrown (List ConversationPageSlice))
  | 0, _, _, _, _ => none
  | fuel+1, offset, requestedOffsets, refreshed, observedIds =>
    if requestedOffsets.contains offset then some (.ok refreshed)
    else match fetchPage offset limit with
      | .error e => some (.error e)
      | .ok page =>
        let refreshed := refreshed ++ [⟨offset,page⟩]
        let observedIds := observedIds ++ page.messages.map (·.id)
        if repaired previous observedIds (offset+page.messages.length) page.nextOffset then
          some (.ok refreshed)
        else match page.nextOffset with
          | none => some (.ok refreshed)
          | some next =>
            if next ≤ offset then some (.ok refreshed)
            else repairLoop fetchPage previous limit fuel next (offset::requestedOffsets) refreshed observedIds

def repairConversationHistory (fuel : ℕ) (fetchPage : FetchPage) (previous : ConversationHistory)
    (limit : ℕ) : Option (Except Thrown ConversationHistory) :=
  (repairLoop fetchPage previous limit fuel 0 [] [] []).bind fun
    | .error e => some (.error e)
    | .ok refreshed => buildConversationHistory refreshed

/-! ### The server -/

def i64Max : ℕ := 2^63-1

/-- The largest `next_offset` that the browser takes from a page. -/
def maxSafeInteger : ℕ := 2^53-1

/-- The messages of a conversation, as they stand in the database. -/
structure MessageList where
  messages : List Message
  ids : (messages.map (·.id)).Nodup
  ordered : messages.Pairwise fun a b => compareMessages a b < 0
  countable : messages.length ≤ maxSafeInteger

/-- `conversation_page` of the server. -/
def conversationPage (conversation : Conversation) (current : MessageList) : FetchPage := fun offset limit =>
  if limit = 0 ∨ 100 < limit ∨ i64Max < offset then .error "invalid page"
  else
    let rows := (current.messages.drop offset).take (limit+1)
    .ok ⟨conversation,rows.take limit,if limit < rows.length then some (offset+limit) else none⟩

section

variable {conversation : Conversation} {current : MessageList} {previous : ConversationHistory} {limit : ℕ}

def servedPage (conversation : Conversation) (current : MessageList) (limit offset : ℕ) : ConversationPage :=
  ⟨conversation,(current.messages.drop offset).take limit,
    if offset+limit < current.messages.length then some (offset+limit) else none⟩

/-- The slices that a repair fetches one after the other. -/
def servedSlice (conversation : Conversation) (current : MessageList) (limit i : ℕ) : ConversationPageSlice :=
  ⟨i*limit,servedPage conversation current limit (i*limit)⟩

theorem conversationPage_eq (hpos : 0 < limit) (hle : limit ≤ 100) {offset : ℕ}
    (hoffset : offset ≤ current.messages.length) :
    conversationPage conversation current offset limit = .ok (servedPage conversation current limit offset) := by
  have hcount := current.countable
  have hrange : ¬ (limit = 0 ∨ 100 < limit ∨ i64Max < offset) := by
    unfold maxSafeInteger at hcount
    unfold i64Max
    omega
  have hmore : limit < ((current.messages.drop offset).take (limit+1)).length ↔
      offset+limit < current.messages.length := by
    rw [List.length_take,List.length_drop]
    omega
  simp only [conversationPage,hrange,if_false,servedPage,hmore,List.take_take]
  rw [Nat.min_eq_left (Nat.le_succ limit)]

variable (conversation) in
theorem take_next (k : ℕ) : current.messages.take (k*limit) ++
    (servedPage conversation current limit (k*limit)).messages = current.messages.take ((k+1)*limit) := by
  rw [Nat.succ_mul,List.take_add]
  rfl

theorem flatMap_slices (k : ℕ) : ((List.range k).map (servedSlice conversation current limit)).flatMap
    (·.page.messages) = current.messages.take (k*limit) := by
  induction k with
  | zero => simp
  | succ k ih =>
    rw [List.range_succ,List.map_append,List.flatMap_append,ih,← take_next conversation k]
    simp [servedSlice]

theorem mergeMessages_slices (k : ℕ) :
    mergeMessages ((List.range k).map (servedSlice conversation current limit)) =
      current.messages.take (k*limit) := by
  have hsub : (current.messages.take (k*limit)).Sublist current.messages := List.take_sublist _ _
  have hkeys : (((current.messages.take (k*limit)).map fun m => (m.id,m)).map Prod.fst).Nodup := by
    rw [List.map_map]
    exact current.ids.sublist (hsub.map (·.id))
  have hvalues : InsertionMap.values ((current.messages.take (k*limit)).map fun m => (m.id,m)) =
      current.messages.take (k*limit) := by
    rw [InsertionMap.values,List.map_map]
    exact List.map_id _
  unfold mergeMessages
  dsimp only
  rw [flatMap_slices,InsertionMap.ofList_of_nodup hkeys,hvalues]
  exact List.Pairwise.insertionSort_eq ((current.ordered.sublist hsub).imp fun h => Int.le_of_lt h)

/-- Where the fetching ends: at the end of the list, or with all that was shown before. -/
structure Stops (current : MessageList) (previous : ConversationHistory) (limit n : ℕ) : Prop where
  reached : n = 0 ∨ n*limit < current.messages.length
  enough : current.messages.length ≤ (n+1)*limit ∨ (previous.reachedEnd = false ∧
    ∀ m ∈ previous.messages, m.id ∈ (current.messages.take ((n+1)*limit)).map (·.id))

variable (conversation current previous) in
theorem repairLoop_returns (hpos : 0 < limit) (hle : limit ≤ 100) (fuel : ℕ) :
    ∀ k requested, (k = 0 ∨ k*limit < current.messages.length) → current.messages.length < fuel+k →
      (∀ o ∈ requested, o < k*limit) →
      ∃ n, Stops current previous limit n ∧
        repairLoop (conversationPage conversation current) previous limit fuel (k*limit) requested
          ((List.range k).map (servedSlice conversation current limit))
          ((current.messages.take (k*limit)).map (·.id)) =
        some (.ok ((List.range (n+1)).map (servedSlice conversation current limit))) := by
  induction fuel with
  | zero =>
    intro k requested hk hfuel hrequested
    rcases hk with rfl | hk
    · omega
    · have hmul : k ≤ k*limit := Nat.le_mul_of_pos_right k hpos
      omega
  | succ fuel ih =>
    intro k requested hk hfuel hrequested
    have hoffset : k*limit ≤ current.messages.length := by
      rcases hk with rfl | hk
      · simp
      · exact hk.le
    have hnew : requested.contains (k*limit) = false := by
      rw [← Bool.not_eq_true,List.contains_iff_mem]
      exact fun hmem => Nat.lt_irrefl _ (hrequested _ hmem)
    have hslices : (List.range k).map (servedSlice conversation current limit) ++
        [⟨k*limit,servedPage conversation current limit (k*limit)⟩] =
        (List.range (k+1)).map (servedSlice conversation current limit) := by
      rw [List.range_succ,List.map_append]
      rfl
    have hids : (current.messages.take (k*limit)).map (·.id) ++
        (servedPage conversation current limit (k*limit)).messages.map (·.id) =
        (current.messages.take ((k+1)*limit)).map (·.id) := by
      rw [← List.map_append,take_next]
    have hsucc : (k+1)*limit = k*limit+limit := Nat.succ_mul k limit
    simp only [repairLoop,hnew,Bool.false_eq_true,if_false,conversationPage_eq hpos hle hoffset,hslices,hids]
    split_ifs with hrepaired
    · refine ⟨k,⟨hk,?_⟩,rfl⟩
      unfold repaired at hrepaired
      dsimp only at hrepaired
      split_ifs at hrepaired with hend
      · left
        by_contra hmore
        have hlt : k*limit+limit < current.messages.length := by omega
        simp [servedPage,hlt] at hrepaired
      · right
        simp only [Bool.and_eq_true,List.all_eq_true,List.contains_iff_mem] at hrepaired
        exact ⟨by simpa using hend,hrepaired.2⟩
    · by_cases hmore : k*limit+limit < current.messages.length
      · have hnext : (servedPage conversation current limit (k*limit)).nextOffset = some ((k+1)*limit) := by
          simp [servedPage,hmore,hsucc]
        have hgrow : ¬ (k+1)*limit ≤ k*limit := by omega
        simp only [hnext,hgrow,if_false]
        refine ih (k+1) (k*limit::requested) (.inr (by omega)) (by omega) fun o ho => ?_
        rcases List.mem_cons.mp ho with rfl | ho
        · omega
        · have := hrequested o ho
          omega
      · have hnext : (servedPage conversation current limit (k*limit)).nextOffset = none := by
          simp [servedPage,hmore]
        simp only [hnext]
        exact ⟨k,⟨hk,.inl (by omega)⟩,rfl⟩

/-- The history holds the pages that the list now has at the first offsets. -/
structure Covers (conversation : Conversation) (current : MessageList) (limit n : ℕ)
    (history : ConversationHistory) : Prop where
  reached : n = 0 ∨ n*limit < current.messages.length
  pages : history.pages = (List.range (n+1)).map (servedSlice conversation current limit)
  messages : history.messages = current.messages.take ((n+1)*limit)
  nextOffset : history.nextOffset =
    if (n+1)*limit < current.messages.length then some ((n+1)*limit) else none

theorem slices_nodup (hpos : 0 < limit) (k : ℕ) :
    (((List.range k).map (servedSlice conversation current limit)).map (·.offset)).Nodup := by
  rw [List.map_map]
  exact List.nodup_range.map fun a b h => Nat.eq_of_mul_eq_mul_right hpos h

theorem reached_of_le {i n : ℕ} (hn : n = 0 ∨ n*limit < current.messages.length) (hi : i ≤ n) :
    i = 0 ∨ i*limit < current.messages.length := by
  rcases hn with rfl | hn
  · exact .inl (by omega)
  · exact .inr ((Nat.mul_le_mul_right limit hi).trans_lt hn)

/-- The slices follow each other by their next offsets. The chain ends at the end of the list
or where the next slice is missing. -/
theorem contiguousLoop_slices (hpos : 0 < limit) {n : ℕ} (hn : n = 0 ∨ n*limit < current.messages.length)
    {byOffset : List (ℕ × ConversationPageSlice)}
    (hget : ∀ i ≤ n, InsertionMap.get byOffset (i*limit) = some (servedSlice conversation current limit i))
    (hend : current.messages.length ≤ (n+1)*limit ∨ InsertionMap.get byOffset ((n+1)*limit) = none)
    (fuel : ℕ) : ∀ i visited chain, i ≤ n → n+1 < fuel+i → (∀ o ∈ visited, o < i*limit) →
      chain.pages = (List.range i).map (servedSlice conversation current limit) →
      contiguousLoop byOffset fuel (i*limit) visited chain =
        some ⟨(List.range (n+1)).map (servedSlice conversation current limit),
          n*limit+(servedPage conversation current limit (n*limit)).messages.length,
          (servedPage conversation current limit (n*limit)).nextOffset,
          (servedPage conversation current limit (n*limit)).nextOffset.isNone⟩ := by
  induction fuel with
  | zero =>
    intro i visited chain hi hfuel
    omega
  | succ fuel ih =>
    intro i visited chain hi hfuel hvisited hchain
    have hnew : visited.contains (i*limit) = false := by
      rw [← Bool.not_eq_true,List.contains_iff_mem]
      exact fun hmem => Nat.lt_irrefl _ (hvisited _ hmem)
    have hpages : chain.pages ++ [servedSlice conversation current limit i] =
        (List.range (i+1)).map (servedSlice conversation current limit) := by
      rw [hchain,List.range_succ,List.map_append]
      rfl
    simp only [contiguousLoop,hnew,Bool.false_eq_true,if_false,hget i hi,hpages]
    have hsucc : (i+1)*limit = i*limit+limit := Nat.succ_mul i limit
    by_cases hlast : i = n
    · subst hlast
      cases hnext : (servedPage conversation current limit (i*limit)).nextOffset with
      | none => simp only [servedSlice,hnext]; rfl
      | some next =>
        simp only [servedPage] at hnext
        split_ifs at hnext with hmore
        obtain rfl : i*limit+limit = next := Option.some.inj hnext
        rw [← hsucc] at hmore ⊢
        have hmissing := hend.resolve_left (Nat.not_le.mpr hmore)
        have hgrow : ¬ (i+1)*limit ≤ i*limit := by omega
        obtain ⟨fuel,rfl⟩ : ∃ m, fuel = m+1 := ⟨fuel-1,by omega⟩
        have hfresh : (i*limit::visited).contains ((i+1)*limit) = false := by
          rw [← Bool.not_eq_true,List.contains_iff_mem,List.mem_cons]
          rintro (heq | hmem)
          · omega
          · have := hvisited _ hmem
            omega
        have hpage : (servedSlice conversation current limit i).page.nextOffset = some ((i+1)*limit) := by
          simp [servedSlice,servedPage,← hsucc,hmore]
        simp only [hpage,hgrow,if_false,contiguousLoop,hfresh,Bool.false_eq_true,hmissing]
        rfl
    · have hmore : i*limit+limit < current.messages.length := by
        have := reached_of_le hn (show i+1 ≤ n by omega)
        omega
      have hnext : (servedPage conversation current limit (i*limit)).nextOffset = some ((i+1)*limit) := by
        simp [servedPage,hmore,hsucc]
      have hgrow : ¬ (i+1)*limit ≤ i*limit := by omega
      simp only [servedSlice,hnext,hgrow,if_false]
      refine ih (i+1) (i*limit::visited) _ (by omega) (by omega) (fun o ho => ?_) rfl
      rcases List.mem_cons.mp ho with rfl | ho
      · omega
      · have := hvisited o ho
        omega

/-- A history is built of the slices that its pages have from the start on. -/
theorem build_covers (hpos : 0 < limit) {n : ℕ} (hn : n = 0 ∨ n*limit < current.messages.length)
    {pages : List ConversationPageSlice} (hkeys : (pages.map (·.offset)).Nodup)
    (hslices : ∀ i ≤ n, servedSlice conversation current limit i ∈ pages)
    (hend : current.messages.length ≤ (n+1)*limit ∨ (n+1)*limit ∉ pages.map (·.offset)) :
    ∃ history, buildConversationHistory pages = some (.ok history) ∧
      Covers conversation current limit n history := by
  have hoffsets : (pages.map fun slice => (slice.offset,slice)).map Prod.fst = pages.map (·.offset) := by
    rw [List.map_map]
    rfl
  have hget : ∀ i ≤ n, InsertionMap.get (pages.map fun slice => (slice.offset,slice)) (i*limit) =
      some (servedSlice conversation current limit i) := by
    intro i hi
    refine InsertionMap.get_of_nodup (hoffsets ▸ hkeys) ?_
    exact List.mem_map.mpr ⟨_,hslices i hi,rfl⟩
  have hlast : current.messages.length ≤ (n+1)*limit ∨
      InsertionMap.get (pages.map fun slice => (slice.offset,slice)) ((n+1)*limit) = none :=
    hend.imp id fun h => InsertionMap.get_none (hoffsets ▸ h)
  -- the slices are different pages, so there are as many pages
  have hlength : n+1 ≤ pages.length := by
    have hsub : ((List.range (n+1)).map (servedSlice conversation current limit)).Subperm pages := by
      refine List.subperm_of_subset (List.Nodup.of_map _ (slices_nodup hpos (n+1))) fun slice hslice => ?_
      obtain ⟨i,hi,rfl⟩ := List.mem_map.mp hslice
      exact hslices i (Nat.lt_succ_iff.mp (List.mem_range.mp hi))
    simpa using hsub.length_le
  have hempty : pages.isEmpty = false := by
    rw [List.isEmpty_eq_false_iff,← List.length_pos_iff]
    omega
  have hchain := contiguousLoop_slices hpos hn hget hlast (pages.length+1) 0 [] {} (Nat.zero_le n)
    (by omega) (by simp) rfl
  have hhead : ((List.range (n+1)).map (servedSlice conversation current limit)).head? =
      some (servedSlice conversation current limit 0) := by
    rw [List.range_succ_eq_map]
    rfl
  have hbuild : buildConversationHistory pages =
      some (.ok ⟨conversation,(List.range (n+1)).map (servedSlice conversation current limit),
        mergeMessages ((List.range (n+1)).map (servedSlice conversation current limit)),
        (servedPage conversation current limit (n*limit)).nextOffset,
        n*limit+(servedPage conversation current limit (n*limit)).messages.length,
        (servedPage conversation current limit (n*limit)).nextOffset.isNone⟩) := by
    rw [Nat.zero_mul] at hchain
    simp only [buildConversationHistory,contiguousPages,InsertionMap.ofList_of_nodup (hoffsets ▸ hkeys),
      hchain,Option.map_some,hhead,hempty,Bool.false_eq_true,if_false]
    rfl
  refine ⟨_,hbuild,hn,rfl,mergeMessages_slices (n+1),?_⟩
  rw [Nat.succ_mul]
  rfl

variable (conversation current) in
/-- The history that is built of the slices: a prefix, and the offset after it. -/
theorem build_slices (hpos : 0 < limit) {n : ℕ} (hn : n = 0 ∨ n*limit < current.messages.length) :
    ∃ history, buildConversationHistory ((List.range (n+1)).map (servedSlice conversation current limit)) =
        some (.ok history) ∧ Covers conversation current limit n history := by
  refine build_covers hpos hn (slices_nodup hpos (n+1)) (fun i hi => ?_) (.inr fun hmem => ?_)
  · exact List.mem_map.mpr ⟨i,List.mem_range.mpr (by omega),rfl⟩
  · obtain ⟨slice,hslice,hoffset⟩ := List.mem_map.mp hmem
    obtain ⟨j,hj,rfl⟩ := List.mem_map.mp hslice
    have hlt := List.mem_range.mp hj
    exact absurd (Nat.eq_of_mul_eq_mul_right hpos hoffset) (by omega)

theorem repairLoop_mono {fetch fetch' : FetchPage}
    (hfetch : ∀ o page, fetch o limit = .ok page → fetch' o limit = .ok page) {fuel fuel' : ℕ}
    (hfuel : fuel ≤ fuel') {offset : ℕ} {requested : List ℕ} {refreshed slices : List ConversationPageSlice}
    {observed : List String}
    (h : repairLoop fetch previous limit fuel offset requested refreshed observed = some (.ok slices)) :
    repairLoop fetch' previous limit fuel' offset requested refreshed observed = some (.ok slices) := by
  induction fuel generalizing fuel' offset requested refreshed observed with
  | zero => simp [repairLoop] at h
  | succ fuel ih =>
    obtain ⟨fuel',rfl⟩ : ∃ m, fuel' = m+1 := ⟨fuel'-1,by omega⟩
    simp only [repairLoop] at h ⊢
    by_cases hrequested : requested.contains offset = true
    · rw [if_pos hrequested] at h ⊢
      exact h
    rw [if_neg hrequested] at h ⊢
    cases hpage : fetch offset limit with
    | error e => simp [hpage] at h
    | ok page =>
      simp only [hpage,hfetch offset page hpage] at h ⊢
      by_cases hrepaired : repaired previous (observed ++ page.messages.map (·.id))
          (offset+page.messages.length) page.nextOffset = true
      · rw [if_pos hrepaired] at h ⊢
        exact h
      rw [if_neg hrepaired] at h ⊢
      cases hnext : page.nextOffset with
      | none =>
        simp only [hnext] at h ⊢
        exact h
      | some next =>
        simp only [hnext] at h ⊢
        by_cases hback : next ≤ offset
        · rw [if_pos hback] at h ⊢
          exact h
        · rw [if_neg hback] at h ⊢
          exact ih (by omega) h

/-- A repair whose pages are all those that the server now has holds them. -/
theorem repair_covers (hpos : 0 < limit) (hle : limit ≤ 100) {fetch : FetchPage}
    (hfetch : ∀ o page, fetch o limit = .ok page → conversationPage conversation current o limit = .ok page)
    {fuel : ℕ} {history : ConversationHistory}
    (h : repairConversationHistory fuel fetch previous limit = some (.ok history)) :
    ∃ n, Covers conversation current limit n history := by
  obtain ⟨result,hloop,hbuild⟩ := Option.bind_eq_some_iff.mp h
  cases result with
  | error e => simp at hbuild
  | ok refreshed =>
    obtain ⟨n,hstops,hreturns⟩ := repairLoop_returns conversation current previous
      hpos hle (fuel+current.messages.length+1) 0 [] (.inl rfl) (by omega) (by simp)
    have hmore := repairLoop_mono hfetch (show fuel ≤ fuel+current.messages.length+1 by omega) hloop
    rw [Nat.zero_mul] at hreturns
    obtain rfl : refreshed = (List.range (n+1)).map (servedSlice conversation current limit) := by
      simpa using hmore.symm.trans hreturns
    obtain ⟨built,hslices,hcovers⟩ := build_slices conversation current hpos hstops.reached
    obtain rfl : history = built := by simpa using hbuild.symm.trans hslices
    exact ⟨n,hcovers⟩

/-- One more page that the server now has: it takes the place of its like, or comes next, or is
out of the chain's reach. -/
theorem Covers.append (hpos : 0 < limit) (hle : limit ≤ 100) {n offset : ℕ}
    {history history' : ConversationHistory} {page : ConversationPage}
    (h : Covers conversation current limit n history)
    (hpage : conversationPage conversation current offset limit = .ok page)
    (happend : appendConversationPage history page (some offset) = some (.ok history')) :
    ∃ m, Covers conversation current limit m history' := by
  have hslot : ∀ i, (i = 0 ∨ i*limit < current.messages.length) → offset = i*limit →
      (⟨offset,page⟩ : ConversationPageSlice) = servedSlice conversation current limit i := by
    rintro i hi rfl
    have hoffset : i*limit ≤ current.messages.length := by
      rcases hi with rfl | hi
      · simp
      · exact hi.le
    rw [conversationPage_eq hpos hle hoffset] at hpage
    rw [servedSlice,Except.ok.inj hpage]
  obtain ⟨pages,hpages⟩ : ∃ pages, pages =
      history.pages.filter (fun slice => slice.offset != offset) ++ [⟨offset,page⟩] := ⟨_,rfl⟩
  have hbuilt : buildConversationHistory pages = some (.ok history') := hpages ▸ happend
  have hkept : ∀ i ≤ n, servedSlice conversation current limit i ∈
      pages := by
    intro i hi
    rw [hpages]
    by_cases hsame : offset = i*limit
    · rw [← hslot i (reached_of_le h.reached hi) hsame]
      simp
    · refine List.mem_append_left _ (List.mem_filter.mpr ⟨?_,by simpa [servedSlice] using Ne.symm hsame⟩)
      rw [h.pages]
      exact List.mem_map.mpr ⟨i,List.mem_range.mpr (by omega),rfl⟩
  have hkeys : (pages.map (·.offset)).Nodup := by
    rw [hpages,List.map_append,List.nodup_append]
    refine ⟨(h.pages ▸ slices_nodup hpos (n+1)).sublist (List.filter_sublist.map _),by simp,?_⟩
    intro o ho o' ho'
    obtain ⟨slice,hslice,rfl⟩ := List.mem_map.mp ho
    have hne := (List.mem_filter.mp hslice).2
    simp only [List.map_cons,List.map_nil,List.mem_singleton] at ho'
    subst ho'
    simpa using hne
  have hbeyond : ∀ m, n < m → offset ≠ m*limit → m*limit ∉ pages.map (·.offset) := by
    intro m hm hne hmem
    rw [hpages] at hmem
    obtain ⟨slice,hslice,hoffset⟩ := List.mem_map.mp hmem
    rcases List.mem_append.mp hslice with hold | hnew
    · have hpast := List.mem_of_mem_filter hold
      rw [h.pages] at hpast
      obtain ⟨j,hj,rfl⟩ := List.mem_map.mp hpast
      have hlt := List.mem_range.mp hj
      exact absurd (Nat.eq_of_mul_eq_mul_right hpos hoffset) (by omega)
    · rw [List.mem_singleton.mp hnew] at hoffset
      exact hne hoffset
  by_cases hnext : offset = (n+1)*limit ∧ (n+1)*limit < current.messages.length
  · obtain ⟨hoffset,hlt⟩ := hnext
    have hend : offset ≠ (n+1+1)*limit := by
      rw [hoffset]
      exact fun heq => absurd (Nat.eq_of_mul_eq_mul_right hpos heq) (by omega)
    obtain ⟨built,hbuild,hcovers⟩ := build_covers hpos (.inr hlt) hkeys
      (fun i hi => by
        rcases Nat.le_succ_iff.mp hi with hi | rfl
        · exact hkept i hi
        · rw [← hslot (n+1) (.inr hlt) hoffset,hpages]
          simp)
      (.inr (hbeyond (n+1+1) (by omega) hend))
    obtain rfl : history' = built := by simpa using hbuilt.symm.trans hbuild
    exact ⟨n+1,hcovers⟩
  · have hend : current.messages.length ≤ (n+1)*limit ∨ (n+1)*limit ∉ pages.map (·.offset) := by
      by_cases hoffset : offset = (n+1)*limit
      · exact .inl (Nat.not_lt.mp fun hlt => hnext ⟨hoffset,hlt⟩)
      · exact .inr (hbeyond (n+1) (by omega) hoffset)
    obtain ⟨built,hbuild,hcovers⟩ := build_covers hpos h.reached hkeys hkept hend
    obtain rfl : history' = built := by simpa using hbuilt.symm.trans hbuild
    exact ⟨n,hcovers⟩

/-! ### What was loaded before -/

/-- The slice was served from an earlier state of the list. -/
def Served (current : MessageList) (slice : ConversationPageSlice) : Prop :=
  ∃ (conversation : Conversation) (earlier : MessageList) (limit : ℕ),
    (∀ m ∈ earlier.messages, m ∈ current.messages) ∧
      conversationPage conversation earlier slice.offset limit = .ok slice.page

/-- The histories that can be on the screen when the list has become the current one. -/
inductive Loaded (current : MessageList) : ConversationHistory → Prop
  | build {pages : List ConversationPageSlice} {history : ConversationHistory}
      (hserved : ∀ slice ∈ pages, Served current slice)
      (hbuild : buildConversationHistory pages = some (.ok history)) : Loaded current history
  | append {history history' : ConversationHistory} {page : ConversationPage} {offset : Option ℕ}
      (hloaded : Loaded current history)
      (hserved : ∀ o, offset = some o → Served current ⟨o,page⟩)
      (happend : appendConversationPage history page offset = some (.ok history')) : Loaded current history'

theorem Served.subset {slice : ConversationPageSlice} (h : Served current slice) :
    ∀ m ∈ slice.page.messages, m ∈ current.messages := by
  obtain ⟨conversation,earlier,limit,hearlier,hpage⟩ := h
  unfold conversationPage at hpage
  split_ifs at hpage
  rw [← Except.ok.inj hpage]
  intro m hm
  exact hearlier m (List.mem_of_mem_drop (List.mem_of_mem_take (List.mem_of_mem_take hm)))

theorem contiguousLoop_subset {byOffset : List (ℕ × ConversationPageSlice)} {fuel offset : ℕ}
    {visited : List ℕ} {chain result : Chain} (h : contiguousLoop byOffset fuel offset visited chain = some result) :
    ∀ slice ∈ result.pages, slice ∈ chain.pages ∨ ∃ o, (o,slice) ∈ byOffset := by
  induction fuel generalizing offset visited chain with
  | zero => simp [contiguousLoop] at h
  | succ fuel ih =>
    simp only [contiguousLoop] at h
    split_ifs at h with hvisited
    · obtain rfl := Option.some.inj h
      exact fun slice hslice => .inl hslice
    · split at h
      · obtain rfl := Option.some.inj h
        exact fun slice hslice => .inl hslice
      · rename_i found hget
        have hadd : ∀ slice ∈ chain.pages ++ [found], slice ∈ chain.pages ∨ ∃ o, (o,slice) ∈ byOffset := by
          intro slice hslice
          rcases List.mem_append.mp hslice with hold | hnew
          · exact .inl hold
          · rw [List.mem_singleton.mp hnew]
            exact .inr ⟨offset,InsertionMap.get_mem hget⟩
        split at h
        · obtain rfl := Option.some.inj h
          exact hadd
        · split_ifs at h
          · obtain rfl := Option.some.inj h
            exact hadd
          · intro slice hslice
            rcases ih h slice hslice with hpages | hby
            · exact hadd slice hpages
            · exact .inr hby

theorem mem_mergeMessages {pages : List ConversationPageSlice} {m : Message} (h : m ∈ mergeMessages pages) :
    ∃ slice ∈ pages, m ∈ slice.page.messages := by
  unfold mergeMessages at h
  dsimp only at h
  rw [List.mem_insertionSort] at h
  obtain ⟨entry,hentry,rfl⟩ := List.mem_map.mp h
  obtain ⟨x,hx,rfl⟩ := List.mem_map.mp (InsertionMap.mem_ofList hentry)
  exact List.mem_flatMap.mp hx

theorem build_subset {pages : List ConversationPageSlice} {history : ConversationHistory}
    (h : buildConversationHistory pages = some (.ok history)) :
    (∀ slice ∈ history.pages, slice ∈ pages) ∧
      ∀ m ∈ history.messages, ∃ slice ∈ pages, m ∈ slice.page.messages := by
  unfold buildConversationHistory at h
  split_ifs at h
  · simp at h
  · obtain ⟨chain,hchain,hhistory⟩ := Option.map_eq_some_iff.mp h
    have hpages : ∀ slice ∈ chain.pages, slice ∈ pages := by
      intro slice hslice
      rcases contiguousLoop_subset hchain slice hslice with hnil | ⟨o,ho⟩
      · simp at hnil
      · obtain ⟨x,hx,heq⟩ := List.mem_map.mp (InsertionMap.mem_ofList ho)
        rw [← (Prod.mk.inj heq).2]
        exact hx
    cases hfirst : chain.pages.head? with
    | none => simp [hfirst] at hhistory
    | some first =>
      obtain rfl : _ = history := by simpa [hfirst] using hhistory
      refine ⟨hpages,fun m hm => ?_⟩
      obtain ⟨slice,hslice,hmem⟩ := mem_mergeMessages hm
      exact ⟨slice,hpages slice hslice,hmem⟩

theorem Loaded.subset (h : Loaded current previous) : (∀ slice ∈ previous.pages, Served current slice) ∧
    ∀ m ∈ previous.messages, m ∈ current.messages := by
  have hbuilt : ∀ {pages : List ConversationPageSlice} {history : ConversationHistory},
      (∀ slice ∈ pages, Served current slice) → buildConversationHistory pages = some (.ok history) →
      (∀ slice ∈ history.pages, Served current slice) ∧ ∀ m ∈ history.messages, m ∈ current.messages := by
    intro pages history hserved hbuild
    obtain ⟨hpages,hmessages⟩ := build_subset hbuild
    refine ⟨fun slice hslice => hserved slice (hpages slice hslice),fun m hm => ?_⟩
    obtain ⟨slice,hslice,hmem⟩ := hmessages m hm
    exact (hserved slice hslice).subset m hmem
  induction h with
  | build hserved hbuild => exact hbuilt hserved hbuild
  | @append history history' page offset hloaded hserved happend ih =>
    cases offset with
    | none =>
      obtain rfl : history = history' := by simpa [appendConversationPage] using happend
      exact ih
    | some o =>
      refine hbuilt (fun slice hslice => ?_) happend
      rcases List.mem_append.mp hslice with hold | hnew
      · exact ih.1 slice (List.mem_of_mem_filter hold)
      · rw [List.mem_singleton.mp hnew]
        exact hserved o rfl

/-- A repair against a list that has grown in any places ends. It gives a prefix of that
list with all that was shown before, the whole of it when the end had been reached, and
goes on exactly after it. -/
theorem repair_returns_prefix (conversation : Conversation) (current : MessageList)
    (previous : ConversationHistory) (hprevious : Loaded current previous) (limit : ℕ) (hpos : 0 < limit)
    (hle : limit ≤ 100) (fuel : ℕ) (hfuel : current.messages.length < fuel) :
    ∃ n history, repairConversationHistory fuel (conversationPage conversation current) previous limit =
        some (.ok history) ∧ n ≤ current.messages.length ∧
      history.messages = current.messages.take n ∧ (history.messages.map (·.id)).Nodup ∧
      (∀ m ∈ previous.messages, m ∈ history.messages) ∧
      (previous.reachedEnd = true → history.messages = current.messages) ∧
      history.nextOffset = if n < current.messages.length then some n else none := by
  obtain ⟨n,hstops,hloop⟩ := repairLoop_returns conversation current previous hpos hle
    fuel 0 [] (.inl rfl) (by simpa using hfuel) (by simp)
  obtain ⟨history,hbuild,-,-,hmessages,hnext⟩ := build_slices conversation current hpos hstops.reached
  have hrepair : repairConversationHistory fuel (conversationPage conversation current) previous limit =
      some (.ok history) := by
    rw [Nat.zero_mul] at hloop
    simp only [repairConversationHistory]
    rw [show repairLoop (conversationPage conversation current) previous limit fuel 0 [] [] [] = _ from hloop]
    exact hbuild
  have hprefix : current.messages.take ((n+1)*limit) =
      current.messages.take (min ((n+1)*limit) current.messages.length) :=
    List.take_eq_take_min
  refine ⟨min ((n+1)*limit) current.messages.length,history,hrepair,Nat.min_le_right _ _,
    hmessages.trans hprefix,?_,fun m hm => ?_,fun hend => ?_,?_⟩
  · rw [hmessages]
    exact current.ids.sublist ((List.take_sublist _ _).map _)
  · have hmem := hprevious.subset.2 m hm
    rw [hmessages]
    rcases hstops.enough with hall | ⟨-,hobserved⟩
    · rwa [List.take_of_length_le hall]
    · -- an id names one message of the list
      obtain ⟨x,hx,hid⟩ := List.mem_map.mp (hobserved m hm)
      rwa [← List.inj_on_of_nodup_map current.ids (List.mem_of_mem_take hx) hmem hid]
  · rcases hstops.enough with hall | ⟨hopen,-⟩
    · rw [hmessages,List.take_of_length_le hall]
    · simp [hend] at hopen
  · rw [hnext]
    by_cases hmore : (n+1)*limit < current.messages.length
    · rw [Nat.min_eq_left hmore.le]
    · rw [Nat.min_eq_right (Nat.not_lt.mp hmore),if_neg hmore,if_neg (Nat.lt_irrefl _)]

end

/-- The message of an id that was written at this second. -/
def messageAt (id : String) : Message := ⟨id,"conversation-1",none,.agent,"hello",id⟩

def conversationOne : Conversation := ⟨"conversation-1","requirement-1","0"⟩

/-- The list when two of its messages were loaded, and when more had come in between. -/
def earlierList : MessageList :=
  ⟨["b","d","e"].map messageAt,by decide,by decide,by decide⟩

def laterList : MessageList :=
  ⟨["a","b","c","d","e","f"].map messageAt,by decide,by decide,by decide⟩

theorem laterList_repaired : ∃ previous n history,
    previous.messages = ["b","d"].map messageAt ∧
    repairConversationHistory 7 (conversationPage conversationOne laterList) previous 2 =
      some (.ok history) ∧ n ≤ laterList.messages.length ∧
    history.messages = laterList.messages.take n ∧ (history.messages.map (·.id)).Nodup ∧
    (∀ m ∈ previous.messages, m ∈ history.messages) ∧
    (previous.reachedEnd = true → history.messages = laterList.messages) ∧
    history.nextOffset = if n < laterList.messages.length then some n else none := by
  let slice : ConversationPageSlice := ⟨0,⟨conversationOne,["b","d"].map messageAt,some 2⟩⟩
  let previous : ConversationHistory :=
    ⟨conversationOne,[slice],["b","d"].map messageAt,some 2,2,false⟩
  have hserved : ∀ x ∈ [slice], Served laterList x := by
    intro x hx
    rw [List.mem_singleton.mp hx]
    exact ⟨conversationOne,earlierList,2,by decide,rfl⟩
  have hprevious : Loaded laterList previous := .build hserved rfl
  obtain ⟨n,history,hrest⟩ := repair_returns_prefix conversationOne laterList previous hprevious 2
    (by decide) (by decide) 7 (by decide)
  exact ⟨previous,n,history,rfl,hrest⟩

end Pagination
end North
