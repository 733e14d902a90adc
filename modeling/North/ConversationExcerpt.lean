import North.Lib.Suffix
import North.Lib.Text
import North.Lib.Machine
import Mathlib.Data.List.Nodup
import Mathlib.Algebra.GroupWithZero.Nat
import Mathlib.Algebra.BigOperators.Group.List.Basic

/-! The conversation excerpt of a `session.start`: the start message is pinned, and of the
others the oldest are dropped until the rest fits the bounds. -/
namespace North
namespace Context

open Machine

def maxContextMessages : ℕ := 50

def maxContextBytes : ℕ := 32*1024

inductive ConversationRole
  | requester | agent | system
  deriving DecidableEq, Repr

structure ConversationMessageSnapshot where
  messageId : String
  role : ConversationRole
  content : String
  deriving DecidableEq, Repr

inductive ContextSelectionError
  | startMessageNotFound | invalidBounds
  deriving DecidableEq, Repr

def ConversationMessageSnapshot.size (m : ConversationMessageSnapshot) : ℕ := m.content.utf8ByteSize

def contentBytes (messages : List ConversationMessageSnapshot) : ℕ := (messages.map (·.size)).sum

/-- A slice of messages: what is in memory together has a length that a `usize` holds. -/
structure MessageSlice where
  messages : List ConversationMessageSnapshot
  inMemory : contentBytes messages ≤ u64Max

structure Selection where
  selected : List Bool
  selectedCount : ℕ
  bytes : ℕ
  oldest : ℕ
  deriving DecidableEq, Repr

/-- The inner loop: step over the pinned message and over what is dropped already. -/
def nextOldest (len startIndex : ℕ) (selected : List Bool) (oldest : ℕ) : ℕ :=
  if oldest < len ∧ (oldest = startIndex ∨ selected.getD oldest false = false) then
    nextOldest len startIndex selected (oldest+1)
  else oldest
termination_by len - oldest

theorem le_nextOldest (len startIndex : ℕ) (selected : List Bool) (oldest : ℕ) :
    oldest ≤ nextOldest len startIndex selected oldest := by
  induction oldest using nextOldest.induct len startIndex selected with
  | case1 oldest h ih =>
    rw [nextOldest,if_pos h]
    omega
  | case2 oldest h =>
    rw [nextOldest,if_neg h]

/-- The outer loop: while a bound is exceeded, drop the oldest message that may go. -/
def selectLoop (messages : List ConversationMessageSnapshot) (startIndex : ℕ) (s : Selection) :
    Selection :=
  if maxContextMessages < s.selectedCount ∨ maxContextBytes < s.bytes then
    let oldest := nextOldest messages.length startIndex s.selected s.oldest
    if h : oldest < messages.length then
      selectLoop messages startIndex {
        selected := s.selected.set oldest false
        selectedCount := s.selectedCount-1
        bytes := s.bytes - messages[oldest].size
        oldest := oldest+1 }
    else s
  else s
termination_by messages.length - s.oldest
decreasing_by
  have hle := le_nextOldest messages.length startIndex s.selected s.oldest
  omega

def picked (messages : List ConversationMessageSnapshot) (selected : List Bool) :
    List ConversationMessageSnapshot :=
  (messages.zipIdx.filter fun entry => selected.getD entry.2 false).map (·.1)

/-- `usize::saturating_add` over the lengths of the contents. -/
def saturatingBytes (messages : List ConversationMessageSnapshot) : ℕ :=
  messages.foldl (fun total m => min (total+m.size) u64Max) 0

def selectConversationExcerpt (slice : MessageSlice) (startMessageId : String) :
    Except ContextSelectionError (List ConversationMessageSnapshot) :=
  if Text.blank startMessageId then .error .startMessageNotFound
  else match slice.messages.findIdx? (fun m => decide (m.messageId = startMessageId)) with
    | none => .error .startMessageNotFound
    | some startIndex =>
      let selection := selectLoop slice.messages startIndex {
        selected := List.replicate slice.messages.length true
        selectedCount := slice.messages.length
        bytes := saturatingBytes slice.messages
        oldest := 0 }
      .ok (picked slice.messages selection.selected)

/-! ### What the loop keeps -/

def others (startMessageId : String) (messages : List ConversationMessageSnapshot) :
    List ConversationMessageSnapshot :=
  messages.filter fun m => decide (m.messageId ≠ startMessageId)

/-- The start message and these others stay within both bounds. -/
def Fits (start : ConversationMessageSnapshot) (rest : List ConversationMessageSnapshot) : Prop :=
  rest.length+1 ≤ maxContextMessages ∧ contentBytes rest + start.size ≤ maxContextBytes

instance (start : ConversationMessageSnapshot) (rest : List ConversationMessageSnapshot) :
    Decidable (Fits start rest) :=
  inferInstanceAs (Decidable (_ ∧ _))

/-- The flags when everything before `oldest` but the pinned message is dropped. -/
def flags (len startIndex oldest : ℕ) : List Bool :=
  (List.range len).map fun i => decide (i = startIndex) || decide (oldest ≤ i)

theorem flags_getD {len startIndex oldest i : ℕ} (h : i < len) :
    (flags len startIndex oldest).getD i false = (decide (i = startIndex) || decide (oldest ≤ i)) := by
  simp [flags,List.getD,h]

theorem flags_set {len startIndex oldest : ℕ} (h : oldest ≠ startIndex) :
    (flags len startIndex oldest).set oldest false = flags len startIndex (oldest+1) := by
  refine List.ext_getElem (by simp [flags]) fun i hi hi' => ?_
  rw [List.getElem_set]
  split_ifs with heq
  · simp [flags,← heq,h]
  · simp only [flags,List.getElem_map,List.getElem_range]
    congr 1
    exact decide_eq_decide.mpr (by omega)

theorem flags_skip (len startIndex : ℕ) :
    flags len startIndex startIndex = flags len startIndex (startIndex+1) := by
  refine List.map_congr_left fun i _ => ?_
  rw [Bool.eq_iff_iff]
  simp only [Bool.or_eq_true,decide_eq_true_eq]
  omega

theorem flags_all (len startIndex : ℕ) : flags len startIndex 0 = List.replicate len true := by
  simp [flags,List.map_const']

theorem nextOldest_flags {len startIndex oldest : ℕ} (h : startIndex < len) :
    nextOldest len startIndex (flags len startIndex oldest) oldest =
      if oldest = startIndex then oldest+1 else oldest := by
  have hstop : ∀ o, o ≠ startIndex → oldest ≤ o →
      nextOldest len startIndex (flags len startIndex oldest) o = o := by
    intro o hne hle
    rw [nextOldest,if_neg]
    rintro ⟨hlt,heq | hflag⟩
    · exact hne heq
    · rw [flags_getD hlt] at hflag
      simp [hle] at hflag
  split_ifs with heq
  · rw [nextOldest,if_pos ⟨heq ▸ h,.inl heq⟩]
    exact hstop _ (by omega) (by omega)
  · exact hstop _ heq le_rfl

section

variable (before after : List ConversationMessageSnapshot) (start : ConversationMessageSnapshot)

/-- What is left of the others when the loop has come to `oldest`. -/
def restFrom (oldest : ℕ) : List ConversationMessageSnapshot :=
  (before ++ after).drop (if before.length < oldest then oldest-1 else oldest)

theorem picked_zipIdx (xs : List ConversationMessageSnapshot) (offset oldest : ℕ) :
    ((xs.zipIdx offset).filter fun entry => decide (oldest ≤ entry.2)).map (·.1) =
      xs.drop (oldest-offset) := by
  induction xs generalizing offset with
  | nil => simp
  | cons x xs ih =>
    rw [List.zipIdx_cons]
    by_cases h : oldest ≤ offset
    · rw [List.filter_cons_of_pos (by simpa using h),List.map_cons,ih]
      rw [Nat.sub_eq_zero_of_le h,Nat.sub_eq_zero_of_le (by omega)]
      rfl
    · rw [List.filter_cons_of_neg (by simpa using h),ih]
      obtain ⟨k,hk⟩ : ∃ k, oldest - offset = k+1 := ⟨oldest-offset-1,by omega⟩
      rw [hk,List.drop_succ_cons,show oldest - (offset+1) = k by omega]

theorem picked_flags (oldest : ℕ) :
    picked (before ++ start::after) (flags (before ++ start::after).length before.length oldest) =
      before.drop oldest ++ start::after.drop (oldest-(before.length+1)) := by
  have hflag : ∀ entry ∈ (before ++ start::after).zipIdx,
      (flags (before ++ start::after).length before.length oldest).getD entry.2 false =
        (decide (entry.2 = before.length) || decide (oldest ≤ entry.2)) := by
    rintro ⟨m,i⟩ hmem
    have hlt := (List.mem_zipIdx hmem).2.1
    exact flags_getD (by omega)
  unfold picked
  rw [List.filter_congr hflag,List.zipIdx_append,List.zipIdx_cons,List.filter_append,List.map_append]
  have hbefore : ∀ entry ∈ before.zipIdx, (decide (entry.2 = before.length) || decide (oldest ≤ entry.2)) =
      decide (oldest ≤ entry.2) := by
    rintro ⟨m,i⟩ hmem
    have hlt := (List.mem_zipIdx hmem).2.1
    have hne : i ≠ before.length := by omega
    simp [hne]
  have hafter : ∀ entry ∈ after.zipIdx (0+before.length+1),
      (decide (entry.2 = before.length) || decide (oldest ≤ entry.2)) = decide (oldest ≤ entry.2) := by
    rintro ⟨m,i⟩ hmem
    have hle := (List.mem_zipIdx hmem).1
    have hne : i ≠ before.length := by omega
    simp [hne]
  rw [List.filter_congr hbefore,List.filter_cons_of_pos (by simp),List.filter_congr hafter,List.map_cons,
    picked_zipIdx,picked_zipIdx]
  simp

theorem restFrom_eq (oldest : ℕ) :
    restFrom before after oldest = before.drop oldest ++ after.drop (oldest-(before.length+1)) := by
  unfold restFrom
  rw [List.drop_append]
  split_ifs with h
  · have hnil : before.drop (oldest-1) = [] := List.drop_eq_nil_of_le (by omega)
    have hnil' : before.drop oldest = [] := List.drop_eq_nil_of_le (by omega)
    rw [hnil,hnil']
    congr 2
    omega
  · congr 2
    omega

/-- The locals of the loop say what is still kept. -/
structure Selecting (s : Selection) : Prop where
  selected : s.selected = flags (before ++ start::after).length before.length s.oldest
  count : s.selectedCount = (restFrom before after s.oldest).length+1
  bytes : s.bytes = contentBytes (restFrom before after s.oldest) + start.size

variable {before after start}

theorem restFrom_skip : restFrom before after before.length = restFrom before after (before.length+1) := by
  simp [restFrom]

theorem restFrom_cons {oldest : ℕ} {messages : List ConversationMessageSnapshot}
    (hmessages : messages = before ++ start::after) (h : oldest < messages.length)
    (hne : oldest ≠ before.length) :
    restFrom before after oldest = messages[oldest]::restFrom before after (oldest+1) := by
  subst hmessages
  rw [restFrom_eq,restFrom_eq]
  by_cases hlt : oldest < before.length
  · rw [List.getElem_append_left hlt,List.drop_eq_getElem_cons hlt,List.cons_append,
      show oldest - (before.length+1) = 0 by omega,show oldest+1 - (before.length+1) = 0 by omega]
  · obtain ⟨k,rfl⟩ : ∃ k, oldest = before.length+1+k := ⟨oldest-before.length-1,by omega⟩
    have hk : k < after.length := by
      simp only [List.length_append,List.length_cons] at h
      omega
    have hnil : before.drop (before.length+1+k) = [] := List.drop_eq_nil_of_le (by omega)
    have hnil' : before.drop (before.length+1+k+1) = [] := List.drop_eq_nil_of_le (by omega)
    rw [hnil,hnil',List.nil_append,List.nil_append,
      show before.length+1+k - (before.length+1) = k by omega,
      show before.length+1+k+1 - (before.length+1) = k+1 by omega,List.drop_eq_getElem_cons hk]
    congr 1
    rw [List.getElem_append_right (by omega)]
    simp only [show before.length+1+k - before.length = k+1 by omega,List.getElem_cons_succ]

theorem Selecting.next {s : Selection} (h : Selecting before after start s) {oldest : ℕ}
    (holdest : oldest = nextOldest (before ++ start::after).length before.length s.selected s.oldest) :
    oldest ≠ before.length ∧
      s.selected = flags (before ++ start::after).length before.length oldest ∧
      restFrom before after s.oldest = restFrom before after oldest := by
  rw [h.selected,nextOldest_flags (by simp)] at holdest
  split_ifs at holdest with heq
  · rw [holdest,h.selected,heq]
    exact ⟨by omega,flags_skip _ _,restFrom_skip⟩
  · exact ⟨holdest ▸ heq,holdest ▸ h.selected,by rw [holdest]⟩

theorem not_fits_of_over {s : Selection} (h : Selecting before after start s)
    (hover : maxContextMessages < s.selectedCount ∨ maxContextBytes < s.bytes) :
    ¬ Fits start (restFrom before after s.oldest) := by
  rintro ⟨hcount,hbytes⟩
  rw [h.count,h.bytes] at hover
  omega

/-- The loop ends with the longest rest that fits beside the start message. -/
theorem selectLoop_selects {messages : List ConversationMessageSnapshot}
    (hmessages : messages = before ++ start::after) (s : Selection) (h : Selecting before after start s) :
    ∃ oldest, (selectLoop messages before.length s).selected = flags messages.length before.length oldest ∧
      restFrom before after oldest =
        Suffix.longest (fun rest => decide (Fits start rest)) (restFrom before after s.oldest) := by
  induction s using selectLoop.induct messages before.length with
  | case1 s hover oldest hlt ih =>
    obtain ⟨hne,hselected,hrest⟩ := h.next (hmessages ▸ rfl : oldest = _)
    have hcons := restFrom_cons hmessages hlt hne
    have hcount := h.count
    have hbytes := h.bytes
    rw [hrest,hcons] at hcount hbytes
    have hstep : Selecting before after start {
        selected := s.selected.set oldest false
        selectedCount := s.selectedCount-1
        bytes := s.bytes - messages[oldest].size
        oldest := oldest+1 } := by
      refine ⟨by rw [hselected,flags_set hne],?_,?_⟩
      · simp only [hcount,List.length_cons]
        omega
      · simp only [hbytes,contentBytes,List.map_cons,List.sum_cons]
        omega
    obtain ⟨final,hfinal,hlongest⟩ := ih hstep
    refine ⟨final,?_,?_⟩
    · rw [selectLoop,if_pos hover]
      simp only [dif_pos hlt,oldest] at hfinal ⊢
      exact hfinal
    · -- the dropped message heads a rest that does not fit
      have hover' : ¬ Fits start (messages[oldest]::restFrom before after (oldest+1)) := by
        rw [← hcons,← hrest]
        exact not_fits_of_over h hover
      rw [hlongest,hrest,hcons,Suffix.longest_cons_of_fails (decide_eq_false hover')]
  | case2 s hover oldest hlt =>
    obtain ⟨-,hselected,hrest⟩ := h.next (hmessages ▸ rfl : oldest = _)
    refine ⟨oldest,?_,?_⟩
    · rw [selectLoop,if_pos hover]
      simp only [dif_neg hlt,oldest]
      rw [hmessages]
      exact hmessages ▸ hselected
    · have hnil : restFrom before after oldest = [] := by
        rw [restFrom_eq]
        subst hmessages
        rw [List.length_append,List.length_cons] at hlt
        simp only [List.append_eq_nil_iff,List.drop_eq_nil_iff]
        omega
      rw [hrest,hnil]
      rfl
  | case3 s hfits =>
    refine ⟨s.oldest,?_,?_⟩
    · rw [selectLoop,if_neg hfits,h.selected,hmessages]
    · rw [Suffix.longest_of_meets]
      refine decide_eq_true ⟨?_,?_⟩
      · rw [← h.count]
        omega
      · rw [← h.bytes]
        omega

end

/-! ### The excerpt -/

theorem saturatingBytes_eq (slice : MessageSlice) :
    saturatingBytes slice.messages = contentBytes slice.messages := by
  have hfold : ∀ (xs : List ConversationMessageSnapshot) (total : ℕ),
      total + contentBytes xs ≤ u64Max →
      xs.foldl (fun total m => min (total+m.size) u64Max) total = total + contentBytes xs := by
    intro xs
    induction xs with
    | nil => intro total _; rfl
    | cons x xs ih =>
      intro total h
      simp only [contentBytes,List.map_cons,List.sum_cons] at h ih ⊢
      rw [List.foldl_cons,Nat.min_eq_left (by omega),ih _ (by omega),Nat.add_assoc]
  have h := hfold slice.messages 0 (by simpa using slice.inMemory)
  simpa [saturatingBytes] using h

theorem Fits.nil {start : ConversationMessageSnapshot} {rest : List ConversationMessageSnapshot}
    (h : Fits start rest) : Fits start [] := by
  obtain ⟨hcount,hbytes⟩ := h
  constructor
  · simp only [List.length_nil]
    omega
  · simp only [contentBytes,List.map_nil,List.sum_nil]
    omega

/-- Of a conversation, `rest` is the longest end that stays within the bounds beside the start. -/
structure LongestFitting (start : ConversationMessageSnapshot)
    (all rest : List ConversationMessageSnapshot) : Prop where
  suffix : rest <:+ all
  fits : Fits start rest ∨ rest = []
  longest : ∀ more, more <:+ all → Fits start more → more <:+ rest
  alone : ¬ Fits start [] → rest = []

theorem longestFitting_longest (start : ConversationMessageSnapshot)
    (all : List ConversationMessageSnapshot) :
    LongestFitting start all (Suffix.longest (fun rest => decide (Fits start rest)) all) := by
  have hmeets := Suffix.longest_meets (p := fun rest => decide (Fits start rest)) all
  rw [decide_eq_true_iff] at hmeets
  exact ⟨Suffix.longest_suffix all,hmeets,
    fun more hmore hfits => Suffix.suffix_longest hmore (decide_eq_true hfits),
    fun halone => hmeets.resolve_left fun hfits => halone hfits.nil⟩

theorem others_split {before after : List ConversationMessageSnapshot} {start : ConversationMessageSnapshot}
    (hdistinct : ((before ++ start::after).map (·.messageId)).Nodup) (oldest : ℕ) :
    others start.messageId (before.drop oldest ++ start::after.drop (oldest-(before.length+1))) =
      restFrom before after oldest := by
  rw [List.map_append,List.map_cons] at hdistinct
  obtain ⟨-,htail,hdisjoint⟩ := List.nodup_append.mp hdistinct
  have hafter := (List.nodup_cons.mp htail).1
  have hkeep : ∀ m ∈ restFrom before after oldest, m.messageId ≠ start.messageId := by
    intro m hm heq
    rcases List.mem_append.mp (List.mem_of_mem_drop hm) with hm | hm
    · exact hdisjoint _ (List.mem_map_of_mem hm) _ (by simp) heq
    · exact hafter (heq ▸ List.mem_map_of_mem hm)
  rw [restFrom_eq] at hkeep ⊢
  unfold others
  rw [List.filter_append,List.filter_cons_of_neg (by simp),← List.filter_append]
  exact List.filter_eq_self.mpr fun m hm => decide_eq_true (hkeep m hm)

theorem select_error_iff (slice : MessageSlice) (startMessageId : String) :
    (∃ e, selectConversationExcerpt slice startMessageId = .error e) ↔
      Text.blank startMessageId = true ∨ ∀ m ∈ slice.messages, m.messageId ≠ startMessageId := by
  unfold selectConversationExcerpt
  by_cases hblank : Text.blank startMessageId = true
  · simp [hblank]
  rw [if_neg hblank]
  cases hfind : slice.messages.findIdx? (fun m => decide (m.messageId = startMessageId)) with
  | none =>
    have habsent := List.findIdx?_eq_none_iff.mp hfind
    simp only [decide_eq_false_iff_not] at habsent
    exact ⟨fun _ => .inr habsent,fun _ => ⟨_,rfl⟩⟩
  | some startIndex =>
    obtain ⟨hlt,hstart,-⟩ := List.findIdx?_eq_some_iff_getElem.mp hfind
    have hpresent : ¬ ∀ m ∈ slice.messages, m.messageId ≠ startMessageId :=
      fun habsent => habsent _ (List.getElem_mem hlt) (of_decide_eq_true hstart)
    simp [hblank,hpresent]

/-- The excerpt around the start message: what is left of the others is the longest end that fits. -/
theorem select_split {slice : MessageSlice} {startMessageId : String}
    {excerpt : List ConversationMessageSnapshot}
    (h : selectConversationExcerpt slice startMessageId = .ok excerpt) :
    ∃ before start after oldest, slice.messages = before ++ start::after ∧ start.messageId = startMessageId ∧
      excerpt = before.drop oldest ++ start::after.drop (oldest-(before.length+1)) ∧
      restFrom before after oldest = Suffix.longest (fun rest => decide (Fits start rest)) (before ++ after) := by
  unfold selectConversationExcerpt at h
  by_cases hblank : Text.blank startMessageId = true
  · simp [hblank] at h
  rw [if_neg hblank] at h
  cases hfind : slice.messages.findIdx? (fun m => decide (m.messageId = startMessageId)) with
  | none => simp [hfind] at h
  | some startIndex =>
    obtain ⟨hlt,hstart,-⟩ := List.findIdx?_eq_some_iff_getElem.mp hfind
    have hid := of_decide_eq_true hstart
    -- the conversation around the start message
    obtain ⟨before,after,hsplit,hlen⟩ : ∃ before after,
        slice.messages = before ++ slice.messages[startIndex]::after ∧ before.length = startIndex :=
      ⟨slice.messages.take startIndex,slice.messages.drop (startIndex+1),by simp,by simp; omega⟩
    generalize slice.messages[startIndex] = start at hsplit hid
    subst hlen
    have hrest : restFrom before after 0 = before ++ after := by simp [restFrom]
    have hbegin : Selecting before after start {
        selected := List.replicate slice.messages.length true
        selectedCount := slice.messages.length
        bytes := saturatingBytes slice.messages
        oldest := 0 } := by
      refine ⟨by rw [flags_all,hsplit],?_,?_⟩
      · rw [hrest,hsplit]
        simp only [List.length_append,List.length_cons]
        omega
      · rw [saturatingBytes_eq,hrest,hsplit]
        simp only [contentBytes,List.map_append,List.map_cons,List.sum_append,List.sum_cons]
        omega
    obtain ⟨oldest,hflags,hlongest⟩ := selectLoop_selects hsplit _ hbegin
    simp only [hfind,Except.ok.injEq] at h
    rw [hflags,hsplit,picked_flags] at h
    exact ⟨before,start,after,oldest,hsplit,hid,h.symm,hrest ▸ hlongest⟩

/-- The excerpt of a conversation with distinct ids: the selection fails exactly on a blank
or unknown start message, and else keeps, in order, the start message and of the others the
longest end that fits with it. -/
theorem conversation_excerpt (slice : MessageSlice) (startMessageId : String)
    (hdistinct : (slice.messages.map (·.messageId)).Nodup) :
    ((∃ e, selectConversationExcerpt slice startMessageId = .error e) ↔
      Text.blank startMessageId = true ∨ ∀ m ∈ slice.messages, m.messageId ≠ startMessageId) ∧
    ∀ excerpt, selectConversationExcerpt slice startMessageId = .ok excerpt →
      excerpt.Sublist slice.messages ∧ ∃ start ∈ excerpt, start.messageId = startMessageId ∧
        LongestFitting start (others startMessageId slice.messages) (others startMessageId excerpt) := by
  refine ⟨select_error_iff slice startMessageId,fun excerpt hexcerpt => ?_⟩
  obtain ⟨before,start,after,oldest,hsplit,rfl,rfl,hlongest⟩ := select_split hexcerpt
  rw [hsplit] at hdistinct ⊢
  refine ⟨(List.drop_sublist _ _).append ((List.drop_sublist _ _).cons_cons start),start,by simp,rfl,?_⟩
  have hall := others_split hdistinct 0
  have hrest : restFrom before after 0 = before ++ after := by simp [restFrom]
  simp only [List.drop_zero,Nat.zero_sub,hrest] at hall
  rw [others_split hdistinct,hall,hlongest]
  exact longestFitting_longest start _

/-- A conversation with more messages than an excerpt may hold. -/
def longConversation : MessageSlice where
  messages := (List.range 60).map fun i => ⟨toString i,.requester,"Yes"⟩
  inMemory := by decide +kernel

/-- The first message is the start; of the others the last 49 are kept. -/
theorem longConversation_excerpt : ∃ excerpt, selectConversationExcerpt longConversation "0" = .ok excerpt ∧
    excerpt.Sublist longConversation.messages ∧ (others "0" excerpt).length = 49 ∧
    ∃ start ∈ excerpt, start.messageId = "0" ∧
      LongestFitting start (others "0" longConversation.messages) (others "0" excerpt) := by
  obtain ⟨hfails,hkept⟩ := conversation_excerpt longConversation "0" (by decide +kernel)
  cases hselect : selectConversationExcerpt longConversation "0" with
  | error e =>
    have hknown : ¬ (Text.blank "0" = true ∨ ∀ m ∈ longConversation.messages, m.messageId ≠ "0") := by
      decide +kernel
    exact absurd (hfails.mp ⟨e,hselect⟩) hknown
  | ok excerpt =>
    obtain ⟨hsub,start,hstart,hid,hlongest⟩ := hkept excerpt hselect
    refine ⟨excerpt,rfl,hsub,?_,start,hstart,hid,hlongest⟩
    have hsize : ∀ m ∈ longConversation.messages, m.size = 3 := by decide +kernel
    have hfits : Fits start ((others "0" longConversation.messages).drop 10) := by
      rw [Fits,hsize start (hsub.subset hstart)]
      decide +kernel
    have hlast : ((others "0" longConversation.messages).drop 10).length = 49 := by decide +kernel
    have hkeeps := (hlongest.longest _ (List.drop_suffix _ _) hfits).length_le
    rcases hlongest.fits with hwithin | hnone
    · have hbound := hwithin.1
      simp only [maxContextMessages] at hbound
      omega
    · rw [hnone,List.length_nil] at hkeeps
      omega

end Context
end North
