import Mathlib.Data.List.Basic
import Mathlib.Data.List.Infix
import Mathlib.Tactic.Common

/-! Text functions of a UTF-8 string library, over Unicode scalar values.
Trimming follows the Unicode `White_Space` property, case folding is ASCII only. -/
namespace North
namespace Text

/-- The twenty-five code points with the `White_Space` property. -/
def isWhitespace (c : Char) : Bool :=
  let n := c.toNat
  (9 ≤ n && n ≤ 13) || n == 32 || n == 0x85 || n == 0xA0 || n == 0x1680 ||
    (0x2000 ≤ n && n ≤ 0x200A) || n == 0x2028 || n == 0x2029 || n == 0x202F ||
    n == 0x205F || n == 0x3000

def trimStart (cs : List Char) : List Char := cs.dropWhile isWhitespace

def trimChars (cs : List Char) : List Char := (trimStart (trimStart cs).reverse).reverse

def trim (s : String) : String := String.ofList (trimChars s.toList)

/-- The recurring test `value.trim().is_empty()`. -/
def blank (s : String) : Bool := (trim s).isEmpty

def asciiLower (c : Char) : Char :=
  if 'A' ≤ c && c ≤ 'Z' then Char.ofNat (c.toNat+32) else c

def toAsciiLowercase (s : String) : String := String.ofList (s.toList.map asciiLower)

def eqIgnoreAsciiCase (s t : String) : Bool := toAsciiLowercase s == toAsciiLowercase t

/-- Substring search, `haystack.contains(needle)`. -/
def contains (haystack needle : String) : Bool :=
  haystack.toList.tails.any (needle.toList.isPrefixOf ·)

def stripPrefix (s pre : String) : Option String :=
  if pre.toList.isPrefixOf s.toList then some (String.ofList (s.toList.drop pre.toList.length)) else none

def stripSuffix (s suf : String) : Option String :=
  if suf.toList.isSuffixOf s.toList then
    some (String.ofList (s.toList.take (s.toList.length - suf.toList.length))) else none

def asBytes (s : String) : List UInt8 := s.toUTF8.data.toList

theorem asBytes_injective : Function.Injective asBytes := by
  intro s t h
  have harray : s.toUTF8 = t.toUTF8 := ByteArray.ext (Array.toList_inj.mp h)
  exact String.toByteArray_inj.mp harray

theorem length_asBytes (s : String) : (asBytes s).length = s.utf8ByteSize := by
  rw [asBytes,Array.length_toList,ByteArray.size_data,String.toUTF8_eq_toByteArray,String.size_toByteArray]

theorem asBytes_eq_nil {s : String} : asBytes s = [] ↔ s = "" :=
  ⟨fun h => asBytes_injective h,fun h => h ▸ rfl⟩

theorem asBytes_ofList {cs : List Char} (h : ∀ c ∈ cs, c.toNat < 128) :
    asBytes (String.ofList cs) = cs.map fun c => UInt8.ofNat c.toNat := by
  have hchar : ∀ c ∈ cs, String.utf8EncodeChar c = [UInt8.ofNat c.toNat] := by
    intro c hc
    have hlow : c.val.toNat ≤ 0x7f := by
      have := h c hc
      simp only [Char.toNat] at this
      omega
    simp only [String.utf8EncodeChar,hlow,if_true]
    rfl
  rw [asBytes,String.toUTF8_eq_toByteArray,String.toByteArray_ofList,List.utf8Encode,
    List.toList_data_toByteArray,List.flatMap_congr hchar,← List.map_eq_flatMap]

/-- Where a separator stands for the first time is told by the text. -/
theorem append_separator {sep : Char} {xs ys rest rest' : List Char} (hx : sep ∉ xs) (hy : sep ∉ ys) :
    xs ++ sep::rest = ys ++ sep::rest' ↔ xs = ys ∧ rest = rest' := by
  induction xs generalizing ys with
  | nil =>
    cases ys with
    | nil => simp
    | cons y ys =>
      have hne : sep ≠ y := fun h => hy (h ▸ List.mem_cons_self)
      simp [hne]
  | cons x xs ih =>
    cases ys with
    | nil =>
      have hne : x ≠ sep := fun h => hx (h ▸ List.mem_cons_self)
      simp [hne]
    | cons y ys =>
      have hrest := ih (fun h => hx (List.mem_cons_of_mem x h)) fun h => hy (List.mem_cons_of_mem y h)
      simp [hrest,and_assoc]

theorem stripPrefix_eq_some {s pre rest : String} :
    stripPrefix s pre = some rest ↔ s.toList = pre.toList ++ rest.toList := by
  rw [stripPrefix]
  constructor
  · intro h
    split_ifs at h with hpre
    obtain ⟨more,hmore⟩ := List.isPrefixOf_iff_prefix.mp hpre
    rw [← Option.some.inj h,← hmore]
    simp
  · intro h
    rw [h,if_pos (by simp)]
    simp

theorem stripPrefix_append {s pre : String} {rest : List Char} (h : s.toList = pre.toList ++ rest) :
    stripPrefix s pre = some (String.ofList rest) := by
  rw [stripPrefix_eq_some,String.toList_ofList,h]

theorem stripPrefix_eq_none {s pre : String} :
    stripPrefix s pre = none ↔ ¬∃ rest, s.toList = pre.toList ++ rest := by
  rw [Option.eq_none_iff_forall_ne_some]
  simp only [ne_eq,stripPrefix_eq_some,not_exists]
  refine ⟨fun h rest => ?_,fun h rest => h rest.toList⟩
  simpa using h (String.ofList rest)

theorem trimStart_subset (cs : List Char) : trimStart cs ⊆ cs := (List.dropWhile_suffix _).subset

theorem mem_trimStart {cs : List Char} {c : Char} (hc : c ∈ cs) (hw : isWhitespace c = false) :
    c ∈ trimStart cs := by
  induction cs with
  | nil => simp at hc
  | cons d ds ih =>
    simp only [trimStart,List.dropWhile_cons]
    split_ifs with hd
    · have hne : c ≠ d := by rintro rfl; simp [hw] at hd
      exact ih (by simpa [hne] using hc)
    · exact hc

theorem trimChars_subset (cs : List Char) : trimChars cs ⊆ cs := by
  intro c hc
  have h := trimStart_subset _ (List.mem_reverse.mp hc)
  exact trimStart_subset cs (List.mem_reverse.mp h)

theorem mem_trimChars {cs : List Char} {c : Char} (hc : c ∈ cs) (hw : isWhitespace c = false) :
    c ∈ trimChars cs := by
  have h := mem_trimStart hc hw
  exact List.mem_reverse.mpr (mem_trimStart (List.mem_reverse.mpr h) hw)

theorem trimStart_of_blank {cs : List Char} (h : ∀ c ∈ cs, isWhitespace c = true) :
    trimStart cs = [] := by
  induction cs with
  | nil => rfl
  | cons d ds ih =>
    rw [trimStart,List.dropWhile_cons_of_pos (h d (by simp))]
    exact ih (fun c hc => h c (by simp [hc]))

theorem trimChars_eq_nil (cs : List Char) :
    trimChars cs = [] ↔ ∀ c ∈ cs, isWhitespace c = true := by
  constructor
  · intro h c hc
    by_contra hw
    have hm := mem_trimChars hc (by simpa using hw)
    simp [h] at hm
  · intro h
    rw [trimChars,trimStart_of_blank h]
    rfl

theorem blank_iff (s : String) : blank s = true ↔ ∀ c ∈ s.toList, isWhitespace c = true := by
  rw [← trimChars_eq_nil]
  simp [blank,trim]

/-- Trimming does not change whether a text is blank: its ends are not white space. -/
@[simp] theorem blank_trim (s : String) : blank (trim s) = blank s := by
  apply Bool.eq_iff_iff.mpr
  rw [blank_iff,blank_iff,trim,String.toList_ofList]
  constructor
  · intro h c hc
    by_contra hw
    exact hw (h c (mem_trimChars hc (by simpa using hw)))
  · intro h c hc
    exact h c (trimChars_subset _ hc)

theorem trim_of_solid {s : String} (h : ∀ c ∈ s.toList, isWhitespace c = false) : trim s = s := by
  have hstart : ∀ cs : List Char, (∀ c ∈ cs, isWhitespace c = false) → trimStart cs = cs := by
    intro cs hcs
    cases cs with
    | nil => rfl
    | cons c cs => exact List.dropWhile_cons_of_neg (by simp [hcs c (by simp)])
  rw [trim,trimChars,hstart _ h,hstart _ (fun c hc => h c (List.mem_reverse.mp hc)),List.reverse_reverse,
    String.ofList_toList]

end Text
end North
