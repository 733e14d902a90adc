import Mathlib.Data.Nat.Digits.Defs
import Mathlib.Tactic.Common
import Mathlib.Tactic.IntervalCases

/-! JSON values of texts, naturals, lists and records, their compact text, and a reader that
gives each value back from its text. -/
namespace North

inductive Json
  | null
  | bool (b : Bool)
  | num (n : ℕ)
  | str (s : String)
  | arr (items : List Json)
  | obj (fields : List (String × Json))
  deriving Repr

namespace Json

def quote : Char := Char.ofNat 0x22

def backslash : Char := Char.ofNat 0x5C

def openBrace : Char := Char.ofNat 0x7B

def closeBrace : Char := Char.ofNat 0x7D

/-! ### Access -/

def get (v : Json) (key : String) : Option Json :=
  match v with
  | .obj fields => (fields.find? fun e => decide (e.1 = key)).map Prod.snd
  | _ => none

def asStr : Json → Option String
  | .str s => some s
  | _ => none

/-- A number that fits an unsigned type with the given largest value. -/
def asNum (bound : ℕ) : Json → Option ℕ
  | .num n => if n ≤ bound then some n else none
  | _ => none

def asArray : Json → Option (List Json)
  | .arr items => some items
  | _ => none

def strings (values : List String) : Json := .arr (values.map .str)

def asStrings (v : Json) : Option (List String) := v.asArray.bind fun items => items.mapM asStr

/-- The field of a record, read as its type wants it. -/
def field {α : Type} (v : Json) (key : String) (read : Json → Option α) : Option α := (v.get key).bind read

theorem mapM_map {α β : Type} (f : α → β) (g : β → Option α) (xs : List α)
    (h : ∀ x ∈ xs, g (f x) = some x) : (xs.map f).mapM g = some xs := by
  induction xs with
  | nil => rfl
  | cons x xs ih =>
    have hx := h x (by simp)
    have hxs := ih fun y hy => h y (by simp [hy])
    simp [List.mapM_cons,hx,hxs]

@[simp] theorem asStrings_strings (values : List String) : (strings values).asStrings = some values :=
  mapM_map Json.str asStr values fun _ _ => rfl

/-- No number is above `bound`, and the brackets nest no deeper than `depth`. -/
def Within (bound : ℕ) : (depth : ℕ) → Json → Prop
  | _, .null | _, .bool _ | _, .str _ => True
  | _, .num n => n ≤ bound
  | 0, .arr _ | 0, .obj _ => False
  | depth+1, .arr items => ∀ v ∈ items, Within bound depth v
  | depth+1, .obj fields => ∀ e ∈ fields, Within bound depth e.2

theorem within_strings (bound depth : ℕ) (values : List String) : (strings values).Within bound (depth+1) := by
  intro v hv
  obtain ⟨s,-,rfl⟩ := List.mem_map.mp hv
  cases depth <;> exact trivial

/-! ### The text -/

def hexDigit (n : ℕ) : Char := if n < 10 then Char.ofNat (48+n) else Char.ofNat (87+n)

/-- The escapes of one letter. -/
def shortEscape (c : Char) : Option Char :=
  if c = quote then some quote
  else if c = backslash then some backslash
  else if c.toNat = 8 then some 'b'
  else if c.toNat = 9 then some 't'
  else if c.toNat = 10 then some 'n'
  else if c.toNat = 12 then some 'f'
  else if c.toNat = 13 then some 'r'
  else none

def escape (c : Char) : List Char :=
  match shortEscape c with
  | some e => [backslash,e]
  | none =>
    if c.toNat < 0x20 then [backslash,'u','0','0',hexDigit (c.toNat/16),hexDigit (c.toNat%16)] else [c]

def strChars (s : String) : List Char := quote :: (s.toList.flatMap escape ++ [quote])

def numChars (n : ℕ) : List Char :=
  if n = 0 then ['0'] else (Nat.digits 10 n).reverse.map fun d => Char.ofNat (48+d)

mutual

def chars : Json → List Char
  | .null => ['n','u','l','l']
  | .bool true => ['t','r','u','e']
  | .bool false => ['f','a','l','s','e']
  | .num n => numChars n
  | .str s => strChars s
  | .arr [] => ['[',']']
  | .arr (item::items) => '[' :: (item.chars ++ itemsTail items)
  | .obj [] => [openBrace,closeBrace]
  | .obj ((key,value)::fields) => openBrace :: (strChars key ++ ':' :: (value.chars ++ fieldsTail fields))

def itemsTail : List Json → List Char
  | [] => [']']
  | item::items => ',' :: (item.chars ++ itemsTail items)

def fieldsTail : List (String × Json) → List Char
  | [] => [closeBrace]
  | (key,value)::fields => ',' :: (strChars key ++ ':' :: (value.chars ++ fieldsTail fields))

end

/-- The text without white space. -/
def compact (v : Json) : String := String.ofList v.chars

/-! ### The reader -/

def unescape (e : Char) : Option Char :=
  if e = quote then some quote
  else if e = backslash then some backslash
  else if e = 'b' then some (Char.ofNat 8)
  else if e = 't' then some (Char.ofNat 9)
  else if e = 'n' then some (Char.ofNat 10)
  else if e = 'f' then some (Char.ofNat 12)
  else if e = 'r' then some (Char.ofNat 13)
  else none

def hexValue (c : Char) : ℕ := if c.toNat < 58 then c.toNat-48 else c.toNat-87

def readHex : List Char → Option (Char × List Char)
  | h₃::h₂::h₁::h₀::rest =>
    some (Char.ofNat (((hexValue h₃*16+hexValue h₂)*16+hexValue h₁)*16+hexValue h₀),rest)
  | _ => none

def readEscape : List Char → Option (Char × List Char)
  | [] => none
  | e::rest => if e = 'u' then readHex rest else (unescape e).map fun c => (c,rest)

def readChar : List Char → Option (Char × List Char)
  | [] => none
  | c::rest => if c = backslash then readEscape rest else some (c,rest)

/-- A string behind its opening quote. -/
def parseChars : ℕ → List Char → Option (List Char × List Char)
  | 0, _ => none
  | fuel+1, cs =>
    if cs.head? = some quote then some ([],cs.tail)
    else (readChar cs).bind fun p => (parseChars fuel p.2).map fun q => (p.1::q.1,q.2)

def parseString (fuel : ℕ) (cs : List Char) : Option (String × List Char) :=
  if cs.head? = some quote then (parseChars fuel cs.tail).map fun p => (String.ofList p.1,p.2)
  else none

def parseKey (fuel : ℕ) (cs : List Char) : Option (String × List Char) :=
  (parseString fuel cs).bind fun p => if p.2.head? = some ':' then some (p.1,p.2.tail) else none

def parseDigits (acc : ℕ) : List Char → ℕ × List Char
  | [] => (acc,[])
  | c::cs => if c.isDigit then parseDigits (acc*10+(c.toNat-48)) cs else (acc,c::cs)

def parseWord (word : List Char) (v : Json) (cs : List Char) : Option (Json × List Char) :=
  if word.isPrefixOf cs then some (v,cs.drop word.length) else none

mutual

def parseValue : ℕ → List Char → Option (Json × List Char)
  | 0, _ => none
  | _, [] => none
  | fuel+1, c::rest =>
    if c = quote then (parseChars fuel rest).map fun p => (.str (String.ofList p.1),p.2)
    else if c.isDigit then some (.num (parseDigits 0 (c::rest)).1,(parseDigits 0 (c::rest)).2)
    else if c = '[' then
      if rest.head? = some ']' then some (.arr [],rest.tail)
      else (parseValue fuel rest).bind fun p => (parseItems fuel p.2).map fun q => (.arr (p.1::q.1),q.2)
    else if c = openBrace then
      if rest.head? = some closeBrace then some (.obj [],rest.tail)
      else (parseKey fuel rest).bind fun k => (parseValue fuel k.2).bind fun p =>
        (parseFields fuel p.2).map fun q => (.obj ((k.1,p.1)::q.1),q.2)
    else if c = 'n' then parseWord ['u','l','l'] .null rest
    else if c = 't' then parseWord ['r','u','e'] (.bool true) rest
    else if c = 'f' then parseWord ['a','l','s','e'] (.bool false) rest
    else none

/-- The items behind the first one. -/
def parseItems : ℕ → List Char → Option (List Json × List Char)
  | 0, _ => none
  | _, [] => none
  | fuel+1, c::rest =>
    if c = ']' then some ([],rest)
    else if c = ',' then
      (parseValue fuel rest).bind fun p => (parseItems fuel p.2).map fun q => (p.1::q.1,q.2)
    else none

/-- The fields behind the first one. -/
def parseFields : ℕ → List Char → Option (List (String × Json) × List Char)
  | 0, _ => none
  | _, [] => none
  | fuel+1, c::rest =>
    if c = closeBrace then some ([],rest)
    else if c = ',' then
      (parseKey fuel rest).bind fun k => (parseValue fuel k.2).bind fun p =>
        (parseFields fuel p.2).map fun q => ((k.1,p.1)::q.1,q.2)
    else none

end

/-- The whole text is one value. -/
def parse (text : String) : Option Json :=
  match parseValue text.toList.length text.toList with
  | some (v,[]) => some v
  | _ => none

/-! ### A value is read back from its text -/

theorem ofNat_of_toNat {c : Char} {n : ℕ} (h : c.toNat = n) : Char.ofNat n = c := by
  rw [← h,Char.ofNat_toNat]

theorem shortEscape_some {c e : Char} (h : shortEscape c = some e) : e ≠ 'u' ∧ unescape e = some c := by
  unfold shortEscape at h
  split_ifs at h with hquote hback h8 h9 h10 h12 h13 <;> obtain rfl := Option.some.inj h
  · exact ⟨by decide,by rw [hquote]; rfl⟩
  · exact ⟨by decide,by rw [hback]; rfl⟩
  · exact ⟨by decide,by rw [← ofNat_of_toNat h8]; rfl⟩
  · exact ⟨by decide,by rw [← ofNat_of_toNat h9]; rfl⟩
  · exact ⟨by decide,by rw [← ofNat_of_toNat h10]; rfl⟩
  · exact ⟨by decide,by rw [← ofNat_of_toNat h12]; rfl⟩
  · exact ⟨by decide,by rw [← ofNat_of_toNat h13]; rfl⟩

theorem shortEscape_none {c : Char} (h : shortEscape c = none) : c ≠ quote ∧ c ≠ backslash := by
  constructor
  · rintro rfl
    exact absurd h (by decide)
  · rintro rfl
    exact absurd h (by decide)

theorem hexValue_hexDigit {n : ℕ} (h : n < 16) : hexValue (hexDigit n) = n := by
  interval_cases n <;> rfl

theorem head_escape (c : Char) (cs : List Char) : (escape c ++ cs).head? ≠ some quote := by
  have hback : backslash ≠ quote := by decide
  unfold escape
  cases hshort : shortEscape c with
  | some e => simpa using hback
  | none =>
    obtain ⟨hquote,-⟩ := shortEscape_none hshort
    split_ifs <;> simp [hback,hquote]

theorem readChar_escape (c : Char) (cs : List Char) : readChar (escape c ++ cs) = some (c,cs) := by
  unfold escape
  cases hshort : shortEscape c with
  | some e =>
    obtain ⟨hne,hunescape⟩ := shortEscape_some hshort
    simp [readChar,readEscape,hne,hunescape]
  | none =>
    obtain ⟨-,hback⟩ := shortEscape_none hshort
    split_ifs with hcontrol
    · have hzero : hexValue '0' = 0 := by decide
      have hcode : ((hexValue '0'*16+hexValue '0')*16+hexValue (hexDigit (c.toNat/16)))*16+
          hexValue (hexDigit (c.toNat%16)) = c.toNat := by
        rw [hexValue_hexDigit (by omega),hexValue_hexDigit (by omega),hzero]
        omega
      simp only [List.cons_append,readChar,readEscape,if_pos,readHex,hcode,Char.ofNat_toNat,List.nil_append]
    · simp [readChar,hback]

theorem parseChars_flatMap (cs rest : List Char) (fuel : ℕ) (hfuel : cs.length < fuel) :
    parseChars fuel (cs.flatMap escape ++ quote::rest) = some (cs,rest) := by
  induction cs generalizing fuel with
  | nil =>
    obtain ⟨k,rfl⟩ : ∃ k, fuel = k+1 := ⟨fuel-1,by simp at hfuel; omega⟩
    simp [parseChars]
  | cons c cs ih =>
    rw [List.length_cons] at hfuel
    obtain ⟨k,rfl⟩ : ∃ k, fuel = k+1 := ⟨fuel-1,by omega⟩
    rw [List.flatMap_cons,List.append_assoc,parseChars,if_neg (head_escape c _),readChar_escape,
      Option.bind_some,ih k (by omega)]
    rfl

theorem length_flatMap_escape (cs : List Char) : cs.length ≤ (cs.flatMap escape).length := by
  have hescape : ∀ c, 1 ≤ (escape c).length := by
    intro c
    unfold escape
    cases shortEscape c with
    | some e => simp
    | none => split_ifs <;> simp
  induction cs with
  | nil => simp
  | cons c cs ih =>
    have hc := hescape c
    simp only [List.flatMap_cons,List.length_append,List.length_cons]
    omega

theorem length_strChars (s : String) : s.toList.length + 2 ≤ (strChars s).length := by
  have h := length_flatMap_escape s.toList
  simp only [strChars,List.length_cons,List.length_append,List.length_nil]
  omega

theorem parseKey_strChars (key : String) (rest : List Char) (fuel : ℕ)
    (hfuel : (strChars key).length ≤ fuel) : parseKey fuel (strChars key ++ ':'::rest) = some (key,rest) := by
  have hlen := length_strChars key
  have hchars := parseChars_flatMap key.toList (':'::rest) fuel (by omega)
  simp [strChars,parseKey,parseString,hchars]

theorem isDigit_digit {d : ℕ} (h : d < 10) :
    (Char.ofNat (48+d)).isDigit = true ∧ (Char.ofNat (48+d)).toNat-48 = d := by
  interval_cases d <;> decide

/-- Nothing that continues a number stands in front. -/
def NoDigit (rest : List Char) : Prop := ∀ c ∈ rest.head?, c.isDigit = false

theorem parseDigits_map (ds : List ℕ) (acc : ℕ) (rest : List Char) (hds : ∀ d ∈ ds, d < 10)
    (hrest : NoDigit rest) :
    parseDigits acc (ds.map (fun d => Char.ofNat (48+d)) ++ rest) =
      (ds.foldl (fun n d => n*10+d) acc,rest) := by
  induction ds generalizing acc with
  | nil =>
    cases rest with
    | nil => rfl
    | cons c cs =>
      have hc : c.isDigit = false := hrest c rfl
      simp [parseDigits,hc]
  | cons d ds ih =>
    obtain ⟨hdigit,hvalue⟩ := isDigit_digit (hds d (by simp))
    rw [List.map_cons,List.cons_append,parseDigits,if_pos hdigit,hvalue,
      ih _ fun d hd => hds d (by simp [hd])]
    rfl

theorem foldl_digits (n : ℕ) : (Nat.digits 10 n).reverse.foldl (fun n d => n*10+d) 0 = n := by
  rw [List.foldl_reverse]
  calc (Nat.digits 10 n).foldr (fun d n => n*10+d) 0
      = Nat.ofDigits 10 (Nat.digits 10 n) := by
        rw [Nat.ofDigits_eq_foldr]
        congr 1
        funext d n
        simp only [Nat.cast_id]
        ring
    _ = n := Nat.ofDigits_digits 10 n

theorem parseDigits_numChars (n : ℕ) {rest : List Char} (hrest : NoDigit rest) :
    parseDigits 0 (numChars n ++ rest) = (n,rest) := by
  unfold numChars
  split_ifs with hzero
  · have h := parseDigits_map [0] 0 rest (by simp) hrest
    rw [hzero]
    exact h
  · rw [parseDigits_map _ _ _ (fun d hd => Nat.digits_lt_base (by omega) (List.mem_reverse.mp hd)) hrest,
      foldl_digits]

theorem numChars_cons (n : ℕ) : ∃ c cs, numChars n = c::cs ∧ c.isDigit = true := by
  unfold numChars
  split_ifs with hzero
  · exact ⟨'0',[],rfl,by decide⟩
  · cases hdigits : (Nat.digits 10 n).reverse with
    | nil => exact absurd (Nat.digits_eq_nil_iff_eq_zero.mp (List.reverse_eq_nil_iff.mp hdigits)) hzero
    | cons d ds =>
      have hmem : d ∈ Nat.digits 10 n := List.mem_reverse.mp (hdigits ▸ List.mem_cons_self)
      exact ⟨_,_,rfl,(isDigit_digit (Nat.digits_lt_base (by omega) hmem)).1⟩

theorem noDigit_itemsTail (items : List Json) (rest : List Char) : NoDigit (itemsTail items ++ rest) := by
  cases items <;> rintro c hc <;> obtain rfl : _ = c := Option.some.inj hc <;> decide

theorem noDigit_fieldsTail (fields : List (String × Json)) (rest : List Char) :
    NoDigit (fieldsTail fields ++ rest) := by
  cases fields <;> rintro c hc <;> obtain rfl : _ = c := Option.some.inj hc <;> decide

theorem chars_length_pos (v : Json) : 0 < v.chars.length := by
  match v with
  | .null | .bool true | .bool false => decide
  | .num n =>
    obtain ⟨c,cs,h,-⟩ := numChars_cons n
    simp [chars,h]
  | .str s => simp [chars,strChars]
  | .arr [] | .arr (_::_) | .obj [] | .obj (_::_) => simp [chars]

theorem head_chars (v : Json) (rest : List Char) : (v.chars ++ rest).head? ≠ some ']' := by
  match v with
  | .null | .bool true | .bool false => simp [chars]
  | .num n =>
    obtain ⟨c,cs,h,hdigit⟩ := numChars_cons n
    simp only [chars,h,List.cons_append,List.head?_cons]
    rintro heq
    rw [Option.some.inj heq] at hdigit
    exact absurd hdigit (by decide)
  | .str s =>
    have hquote : quote ≠ ']' := by decide
    simp [chars,strChars,hquote]
  | .arr [] | .arr (_::_) => simp [chars]
  | .obj [] | .obj (_::_) =>
    have hbrace : openBrace ≠ ']' := by decide
    simp [chars,hbrace]

mutual

/-- With as much fuel as the text has letters the reader finds the value that was printed. -/
theorem parseValue_chars (v : Json) (fuel : ℕ) (rest : List Char) (hfuel : v.chars.length ≤ fuel)
    (hrest : NoDigit rest) : parseValue fuel (v.chars ++ rest) = some (v,rest) := by
  obtain ⟨fuel,rfl⟩ : ∃ k, fuel = k+1 := by
    have hpos := chars_length_pos v
    exact ⟨fuel-1,by omega⟩
  match v with
  | .null => rfl
  | .bool true => rfl
  | .bool false => rfl
  | .num n =>
    obtain ⟨c,cs,h,hdigit⟩ := numChars_cons n
    have hparse := parseDigits_numChars n hrest
    have hquote : c ≠ quote := by rintro rfl; exact absurd hdigit (by decide)
    rw [h,List.cons_append] at hparse
    rw [chars,h,List.cons_append,parseValue,if_neg hquote,if_pos hdigit,hparse]
  | .str s =>
    have hlen := length_strChars s
    rw [chars] at hfuel
    have hparse := parseChars_flatMap s.toList rest fuel (by omega)
    simp [chars,strChars,parseValue,hparse]
  | .arr [] => rfl
  | .arr (item::items) =>
    simp only [chars,List.length_cons,List.length_append] at hfuel
    have hitem := parseValue_chars item fuel (itemsTail items ++ rest) (by omega) (noDigit_itemsTail _ _)
    have hitems := parseItems_tail items fuel rest (by omega)
    have hbracket : '[' ≠ quote ∧ ('[').isDigit = false := by decide
    have hhead := head_chars item (itemsTail items ++ rest)
    rw [chars,List.cons_append,List.append_assoc,parseValue,if_neg hbracket.1,
      if_neg (by simp [hbracket.2]),if_pos rfl,if_neg hhead,hitem,Option.bind_some,hitems]
    rfl
  | .obj [] => rfl
  | .obj ((key,value)::fields) =>
    simp only [chars,List.length_cons,List.length_append] at hfuel
    have hkey := parseKey_strChars key (value.chars ++ (fieldsTail fields ++ rest)) fuel (by omega)
    have hvalue := parseValue_chars value fuel (fieldsTail fields ++ rest) (by omega) (noDigit_fieldsTail _ _)
    have hfields := parseFields_tail fields fuel rest (by omega)
    have hbrace : openBrace ≠ quote ∧ openBrace.isDigit = false ∧ openBrace ≠ '[' ∧ quote ≠ closeBrace := by
      decide
    have hhead : (strChars key ++ ':'::(value.chars ++ (fieldsTail fields ++ rest))).head? ≠ some closeBrace := by
      simpa [strChars] using hbrace.2.2.2
    rw [chars,List.cons_append,List.append_assoc,List.cons_append,List.append_assoc,parseValue,
      if_neg hbrace.1,if_neg (by simp [hbrace.2.1]),if_neg hbrace.2.2.1,if_pos rfl,if_neg hhead,hkey,
      Option.bind_some,hvalue,Option.bind_some,hfields]
    rfl

theorem parseItems_tail (items : List Json) (fuel : ℕ) (rest : List Char)
    (hfuel : (itemsTail items).length ≤ fuel) :
    parseItems fuel (itemsTail items ++ rest) = some (items,rest) := by
  match items with
  | [] =>
    obtain ⟨fuel,rfl⟩ : ∃ k, fuel = k+1 := ⟨fuel-1,by simp [itemsTail] at hfuel; omega⟩
    rfl
  | item::items =>
    simp only [itemsTail,List.length_cons,List.length_append] at hfuel
    obtain ⟨fuel,rfl⟩ : ∃ k, fuel = k+1 := ⟨fuel-1,by omega⟩
    have hitem := parseValue_chars item fuel (itemsTail items ++ rest) (by omega) (noDigit_itemsTail _ _)
    have hitems := parseItems_tail items fuel rest (by omega)
    rw [itemsTail,List.cons_append,List.append_assoc,parseItems,if_neg (by decide),if_pos rfl,hitem,
      Option.bind_some,hitems]
    rfl

theorem parseFields_tail (fields : List (String × Json)) (fuel : ℕ) (rest : List Char)
    (hfuel : (fieldsTail fields).length ≤ fuel) :
    parseFields fuel (fieldsTail fields ++ rest) = some (fields,rest) := by
  match fields with
  | [] =>
    obtain ⟨fuel,rfl⟩ : ∃ k, fuel = k+1 := ⟨fuel-1,by simp [fieldsTail] at hfuel; omega⟩
    rfl
  | (key,value)::fields =>
    simp only [fieldsTail,List.length_cons,List.length_append] at hfuel
    obtain ⟨fuel,rfl⟩ : ∃ k, fuel = k+1 := ⟨fuel-1,by omega⟩
    have hkey := parseKey_strChars key (value.chars ++ (fieldsTail fields ++ rest)) fuel (by omega)
    have hvalue := parseValue_chars value fuel (fieldsTail fields ++ rest) (by omega) (noDigit_fieldsTail _ _)
    have hfields := parseFields_tail fields fuel rest (by omega)
    rw [fieldsTail,List.cons_append,List.append_assoc,List.cons_append,List.append_assoc,parseFields,
      if_neg (by decide),if_pos rfl,hkey,Option.bind_some,hvalue,Option.bind_some,hfields]
    rfl

end

theorem parse_compact (v : Json) : parse (compact v) = some v := by
  have h := parseValue_chars v v.chars.length [] le_rfl (by rintro c hc; exact absurd hc (by simp))
  rw [List.append_nil] at h
  simp [parse,compact,h]

/-- A text format that reads back what it wrote, up to its largest number and its deepest nesting. -/
structure Codec (bound depth : ℕ) where
  write : Json → String
  read : String → Option Json
  read_write (v : Json) (h : v.Within bound depth) : read (write v) = some v

def Codec.compact (bound depth : ℕ) : Codec bound depth := ⟨Json.compact,parse,fun v _ => parse_compact v⟩

end Json
end North
