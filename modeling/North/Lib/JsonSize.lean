import North.Lib.Json

/-! The bytes of a compact text in UTF-8: of a value, from its texts, its numbers and the number
of its items. -/
namespace North
namespace Json

def bytes (cs : List Char) : ℕ := (cs.map Char.utf8Size).sum

@[simp] theorem bytes_nil : bytes [] = 0 := rfl

@[simp] theorem bytes_cons (c : Char) (cs : List Char) : bytes (c::cs) = c.utf8Size + bytes cs := by
  simp [bytes]

@[simp] theorem bytes_append (cs ds : List Char) : bytes (cs ++ ds) = bytes cs + bytes ds := by
  simp [bytes]

theorem utf8ByteSize_ofList (cs : List Char) : (String.ofList cs).utf8ByteSize = bytes cs := by
  induction cs with
  | nil => rfl
  | cons c cs ih => rw [String.ofList_cons,String.utf8ByteSize_append,String.utf8ByteSize_singleton,ih,bytes_cons]

theorem utf8ByteSize_eq (s : String) : s.utf8ByteSize = bytes s.toList := by
  rw [← utf8ByteSize_ofList,String.ofList_toList]

def size (v : Json) : ℕ := bytes v.chars

theorem utf8ByteSize_compact (v : Json) : (compact v).utf8ByteSize = v.size := utf8ByteSize_ofList _

def charSize (c : Char) : ℕ :=
  if (shortEscape c).isSome then 2 else if c.toNat < 0x20 then 6 else c.utf8Size

/-- The bytes of a string with its quotes. -/
def textSize (s : String) : ℕ := 2 + (s.toList.map charSize).sum

def digitCount (n : ℕ) : ℕ := (numChars n).length

/-- The bytes of a list or a record, with its brackets and commas, from those of its items. -/
def seqSize (sizes : List ℕ) : ℕ := 1 + max 1 (sizes.map (· + 1)).sum

theorem utf8Size_hexDigit {n : ℕ} (h : n < 16) : (hexDigit n).utf8Size = 1 := by
  interval_cases n <;> decide

theorem bytes_escape (c : Char) : bytes (escape c) = charSize c := by
  unfold escape charSize
  cases hshort : shortEscape c with
  | some e =>
    have he : e.utf8Size = 1 := by
      unfold shortEscape at hshort
      split_ifs at hshort <;> obtain rfl := Option.some.inj hshort <;> decide
    have hback : backslash.utf8Size = 1 := by decide
    simp only [bytes_cons,bytes_nil,he,hback,Option.isSome_some,if_true]
  | none =>
    simp only [Option.isSome_none,Bool.false_eq_true,if_false]
    split_ifs with hcontrol
    · have hslash : backslash.utf8Size = 1 ∧ ('u').utf8Size = 1 ∧ ('0').utf8Size = 1 := by decide
      simp only [bytes_cons,bytes_nil,hslash,utf8Size_hexDigit (show c.toNat/16 < 16 by omega),
        utf8Size_hexDigit (show c.toNat%16 < 16 by omega)]
    · simp

theorem bytes_strChars (s : String) : bytes (strChars s) = textSize s := by
  have hquote : quote.utf8Size = 1 := by decide
  have hescaped : ∀ cs : List Char, bytes (cs.flatMap escape) = (cs.map charSize).sum := by
    intro cs
    induction cs with
    | nil => rfl
    | cons c cs ih => simp [List.flatMap_cons,bytes_escape,ih]
  simp only [strChars,bytes_cons,bytes_append,bytes_nil,hquote,hescaped,textSize]
  omega

theorem bytes_numChars (n : ℕ) : bytes (numChars n) = digitCount n := by
  have hdigit : ∀ d, d < 10 → (Char.ofNat (48+d)).utf8Size = 1 := by
    intro d hd
    interval_cases d <;> decide
  unfold digitCount numChars
  split_ifs with hzero
  · rfl
  · have hall : ∀ ds : List ℕ, (∀ d ∈ ds, d < 10) →
        bytes (ds.map fun d => Char.ofNat (48+d)) = (ds.map fun d => Char.ofNat (48+d)).length := by
      intro ds hds
      induction ds with
      | nil => rfl
      | cons d ds ih =>
        have hd := hdigit d (hds d (by simp))
        have hrest := ih fun e he => hds e (by simp [he])
        simp only [List.map_cons,bytes_cons,hd,hrest,List.length_cons]
        omega
    exact hall _ fun d hd => Nat.digits_lt_base (by omega) (List.mem_reverse.mp hd)

@[simp] theorem size_str (s : String) : (str s).size = textSize s := by
  rw [size,chars,bytes_strChars]

@[simp] theorem size_num (n : ℕ) : (num n).size = digitCount n := by
  rw [size,chars,bytes_numChars]

@[simp] theorem size_null : null.size = 4 := by decide

theorem bytes_itemsTail (items : List Json) : bytes (itemsTail items) = 1 + (items.map fun v => v.size + 1).sum := by
  induction items with
  | nil => decide
  | cons item items ih =>
    have hcomma : (',').utf8Size = 1 := by decide
    simp only [itemsTail,bytes_cons,bytes_append,hcomma,ih,List.map_cons,List.sum_cons,size]
    omega

theorem bytes_fieldsTail (fields : List (String × Json)) :
    bytes (fieldsTail fields) = 1 + (fields.map fun e => textSize e.1 + 1 + e.2.size + 1).sum := by
  induction fields with
  | nil => decide
  | cons e fields ih =>
    obtain ⟨key,value⟩ := e
    have hmarks : (',').utf8Size = 1 ∧ (':').utf8Size = 1 := by decide
    simp only [fieldsTail,bytes_cons,bytes_append,bytes_strChars,hmarks,ih,List.map_cons,List.sum_cons,size]
    omega

@[simp] theorem size_arr (items : List Json) : (arr items).size = seqSize (items.map size) := by
  cases items with
  | nil => decide
  | cons item items =>
    have hbracket : ('[').utf8Size = 1 := by decide
    simp only [size,chars,seqSize,bytes_cons,bytes_append,hbracket,bytes_itemsTail,List.map_cons,
      List.sum_cons,List.map_map,Function.comp_def]
    omega

@[simp] theorem size_obj (fields : List (String × Json)) :
    (obj fields).size = seqSize (fields.map fun e => textSize e.1 + 1 + e.2.size) := by
  cases fields with
  | nil => decide
  | cons e fields =>
    obtain ⟨key,value⟩ := e
    have hmarks : openBrace.utf8Size = 1 ∧ (':').utf8Size = 1 := by decide
    simp only [size,chars,seqSize,bytes_cons,bytes_append,bytes_strChars,hmarks,bytes_fieldsTail,
      List.map_cons,List.sum_cons,List.map_map,Function.comp_def]
    omega

@[simp] theorem size_strings (values : List String) : (strings values).size = seqSize (values.map textSize) := by
  simp [strings,Function.comp_def]

theorem sum_le_seqSize (sizes : List ℕ) : sizes.sum ≤ seqSize sizes := by
  have hsum : sizes.sum ≤ (sizes.map (· + 1)).sum := by
    induction sizes with
    | nil => simp
    | cons n sizes ih =>
      simp only [List.map_cons,List.sum_cons]
      omega
  unfold seqSize
  omega

/-- Escaping never shortens a text. -/
theorem utf8ByteSize_le_textSize (s : String) : s.utf8ByteSize + 2 ≤ textSize s := by
  rw [utf8ByteSize_eq,textSize]
  have hchar : ∀ c : Char, c.utf8Size ≤ charSize c := by
    intro c
    unfold charSize
    cases hshort : shortEscape c with
    | some e =>
      have hunescape := (shortEscape_some hshort).2
      simp only [Option.isSome_some,if_true]
      unfold unescape at hunescape
      split_ifs at hunescape <;> obtain rfl := Option.some.inj hunescape <;> decide
    | none =>
      simp only [Option.isSome_none,Bool.false_eq_true,if_false]
      split_ifs
      · exact le_trans c.utf8Size_le_four (by omega)
      · exact le_rfl
  have hall : ∀ cs : List Char, bytes cs ≤ (cs.map charSize).sum := by
    intro cs
    induction cs with
    | nil => simp
    | cons c cs ih =>
      have hc := hchar c
      simp only [bytes_cons,List.map_cons,List.sum_cons]
      omega
  have h := hall s.toList
  omega

end Json
end North
