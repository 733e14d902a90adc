import Mathlib.Data.Nat.Digits.Lemmas
import Mathlib.Tactic.Common
import Mathlib.Tactic.IntervalCases

/-! Numbers as texts of digits in a radix up to sixteen, and a reader with a largest number of
digits that gives each number back from its text. -/
namespace North
namespace Digits

/-- The value of a digit of any radix up to sixteen; other characters have none below it. -/
def digitValue (c : Char) : ℕ :=
  if 48 ≤ c.toNat ∧ c.toNat ≤ 57 then c.toNat-48
  else if 97 ≤ c.toNat ∧ c.toNat ≤ 102 then c.toNat-87
  else if 65 ≤ c.toNat ∧ c.toNat ≤ 70 then c.toNat-55
  else 16

def isDigit (radix : ℕ) (c : Char) : Bool := decide (digitValue c < radix)

def digitChar (d : ℕ) : Char := if d < 10 then Char.ofNat (48+d) else Char.ofNat (87+d)

/-- The number without leading zeros, in lower case. -/
def text (radix n : ℕ) : List Char :=
  if n = 0 then ['0'] else (Nat.digits radix n).reverse.map digitChar

def value (radix : ℕ) (digits : List Char) : ℕ := digits.foldl (fun n c => n*radix+digitValue c) 0

/-- The digits in front, if they are neither too many nor too much, and what is left. -/
def read (radix maxDigits bound : ℕ) (allowZeroPrefix : Bool) (cs : List Char) : Option (ℕ × List Char) :=
  let digits := cs.takeWhile (isDigit radix)
  if 1 ≤ digits.length ∧ digits.length ≤ maxDigits ∧
      (allowZeroPrefix = true ∨ digits.head? ≠ some '0' ∨ digits.length = 1) ∧
      value radix digits < bound then
    some (value radix digits,cs.dropWhile (isDigit radix))
  else none

def dropPlus : List Char → List Char
  | [] => []
  | c::rest => if c = '+' then rest else c::rest

/-- The whole text is a number below the bound; a plus sign may stand before it. -/
def parse (radix bound : ℕ) (cs : List Char) : Option ℕ :=
  let digits := dropPlus cs
  if digits ≠ [] ∧ digits.all (isDigit radix) = true ∧ value radix digits < bound then
    some (value radix digits)
  else none

/-- Nothing that continues a number stands in front. -/
def NoDigit (radix : ℕ) (rest : List Char) : Prop := ∀ c ∈ rest.head?, isDigit radix c = false

/-- The digits of sixteen are ASCII digits and the letters up to `f` in either case. -/
theorem isDigit_sixteen {c : Char} (h : isDigit 16 c = true) :
    (48 ≤ c.toNat ∧ c.toNat ≤ 57) ∨ (97 ≤ c.toNat ∧ c.toNat ≤ 102) ∨
      (65 ≤ c.toNat ∧ c.toNat ≤ 70) := by
  rw [isDigit,decide_eq_true_eq,digitValue] at h
  split_ifs at h with hdigit hlower hupper
  · exact .inl hdigit
  · exact .inr (.inl hlower)
  · exact .inr (.inr hupper)
  · omega

theorem digitValue_digitChar {d : ℕ} (h : d < 16) : digitValue (digitChar d) = d := by
  interval_cases d <;> decide

theorem digitChar_eq_zero {d : ℕ} (h : d < 16) : digitChar d = '0' ↔ d = 0 := by
  interval_cases d <;> decide

section Text

variable {radix : ℕ}

theorem mem_text (hlow : 2 ≤ radix) (hhigh : radix ≤ 16) {n : ℕ} {c : Char} (hc : c ∈ text radix n) :
    isDigit radix c = true := by
  unfold text at hc
  split_ifs at hc with hzero
  · obtain rfl := List.mem_singleton.mp hc
    exact decide_eq_true (show 0 < radix by omega)
  · obtain ⟨d,hd,rfl⟩ := List.mem_map.mp hc
    have hlt : d < radix := Nat.digits_lt_base (by omega) (List.mem_reverse.mp hd)
    rw [isDigit,digitValue_digitChar (hlt.trans_le hhigh)]
    exact decide_eq_true hlt

theorem value_map_digitChar {ds : List ℕ} (h : ∀ d ∈ ds, d < 16) :
    value radix (ds.map digitChar) = ds.foldl (fun n d => n*radix+d) 0 := by
  have hgeneral : ∀ acc, (ds.map digitChar).foldl (fun n c => n*radix+digitValue c) acc =
      ds.foldl (fun n d => n*radix+d) acc := by
    induction ds with
    | nil => exact fun _ => rfl
    | cons d ds ih =>
      intro acc
      rw [List.map_cons,List.foldl_cons,List.foldl_cons,digitValue_digitChar (h d List.mem_cons_self)]
      exact ih (fun x hx => h x (List.mem_cons_of_mem d hx)) _
  exact hgeneral 0

theorem value_text (hlow : 2 ≤ radix) (hhigh : radix ≤ 16) (n : ℕ) : value radix (text radix n) = n := by
  unfold text
  split_ifs with hzero
  · simp [value,digitValue,hzero]
  · have hdigits : ∀ d ∈ (Nat.digits radix n).reverse, d < 16 := fun d hd =>
      (Nat.digits_lt_base (by omega) (List.mem_reverse.mp hd)).trans_le hhigh
    rw [value_map_digitChar hdigits,List.foldl_reverse]
    calc (Nat.digits radix n).foldr (fun d n => n*radix+d) 0
        = Nat.ofDigits radix (Nat.digits radix n) := by
          rw [Nat.ofDigits_eq_foldr]
          congr 1
          funext d n
          simp only [Nat.cast_id]
          ring
      _ = n := Nat.ofDigits_digits radix n

theorem text_injective (hlow : 2 ≤ radix) (hhigh : radix ≤ 16) : Function.Injective (text radix) :=
  Function.LeftInverse.injective (value_text hlow hhigh)

theorem one_le_length_text (radix n : ℕ) : 1 ≤ (text radix n).length := by
  unfold text
  split_ifs with hzero
  · exact Nat.le_refl 1
  · rw [List.length_map,List.length_reverse]
    exact List.length_pos_of_ne_nil (Nat.digits_ne_nil_iff_ne_zero.mpr hzero)

theorem length_text_le (hlow : 2 ≤ radix) {n k : ℕ} (hk : 1 ≤ k) (hn : n < radix^k) :
    (text radix n).length ≤ k := by
  unfold text
  split_ifs with hzero
  · exact hk
  · rw [List.length_map,List.length_reverse]
    exact (Nat.digits_length_le_iff (by omega) n).mpr hn

theorem head_text (hlow : 2 ≤ radix) (hhigh : radix ≤ 16) (n : ℕ) :
    (text radix n).head? ≠ some '0' ∨ (text radix n).length = 1 := by
  unfold text
  split_ifs with hzero
  · exact .inr rfl
  · left
    intro hhead
    rw [List.head?_map,List.head?_reverse,Option.map_eq_some_iff] at hhead
    obtain ⟨d,hlast,hd⟩ := hhead
    have hne : Nat.digits radix n ≠ [] := Nat.digits_ne_nil_iff_ne_zero.mpr hzero
    obtain rfl : (Nat.digits radix n).getLast hne = d := by
      rwa [List.getLast?_eq_some_getLast hne,Option.some.injEq] at hlast
    have hlt : (Nat.digits radix n).getLast hne < radix :=
      Nat.digits_lt_base (by omega) (List.getLast_mem hne)
    exact Nat.getLast_digit_ne_zero radix hzero ((digitChar_eq_zero (hlt.trans_le hhigh)).mp hd)

theorem read_text (hlow : 2 ≤ radix) (hhigh : radix ≤ 16) {maxDigits bound n : ℕ}
    (allowZeroPrefix : Bool) (hmax : 1 ≤ maxDigits) (hn : n < bound) (hlen : n < radix^maxDigits)
    {rest : List Char} (hrest : NoDigit radix rest) :
    read radix maxDigits bound allowZeroPrefix (text radix n ++ rest) = some (n,rest) := by
  have hdigits : ∀ c ∈ text radix n, isDigit radix c = true := fun c => mem_text hlow hhigh
  have hstop : rest.takeWhile (isDigit radix) = [] ∧ rest.dropWhile (isDigit radix) = rest := by
    cases rest with
    | nil => exact ⟨rfl,rfl⟩
    | cons c cs =>
      have hc : isDigit radix c = false := hrest c rfl
      simp [hc]
  have htake : (text radix n ++ rest).takeWhile (isDigit radix) = text radix n := by
    rw [List.takeWhile_append_of_pos hdigits,hstop.1,List.append_nil]
  have hdrop : (text radix n ++ rest).dropWhile (isDigit radix) = rest := by
    rw [List.dropWhile_append_of_pos hdigits,hstop.2]
  have hread : 1 ≤ (text radix n).length ∧ (text radix n).length ≤ maxDigits ∧
      (allowZeroPrefix = true ∨ (text radix n).head? ≠ some '0' ∨ (text radix n).length = 1) ∧
      value radix (text radix n) < bound := by
    refine ⟨one_le_length_text radix n,length_text_le hlow hmax hlen,.inr (head_text hlow hhigh n),?_⟩
    rwa [value_text hlow hhigh]
  rw [read,htake,if_pos hread,hdrop,value_text hlow hhigh]

theorem parse_text (hlow : 2 ≤ radix) (hhigh : radix ≤ 16) {bound n : ℕ} (hn : n < bound) :
    parse radix bound (text radix n) = some n := by
  have hdigits : ∀ c ∈ text radix n, isDigit radix c = true := fun c => mem_text hlow hhigh
  have hparse : text radix n ≠ [] ∧ (text radix n).all (isDigit radix) = true ∧
      value radix (text radix n) < bound := by
    refine ⟨fun hnil => ?_,List.all_eq_true.mpr hdigits,by rwa [value_text hlow hhigh]⟩
    have hlen := one_le_length_text radix n
    rw [hnil] at hlen
    cases hlen
  have hplus : dropPlus (text radix n) = text radix n := by
    cases htext : text radix n with
    | nil => rfl
    | cons c rest =>
      refine if_neg fun hc => ?_
      have hdigit := hdigits c (htext ▸ List.mem_cons_self)
      have hvalue : digitValue '+' = 16 := by decide
      rw [isDigit,decide_eq_true_eq,hc,hvalue] at hdigit
      omega
  rw [parse,hplus,if_pos hparse,value_text hlow hhigh]

end Text

theorem read_some {radix maxDigits bound n : ℕ} {allowZeroPrefix : Bool} {cs rest : List Char}
    (h : read radix maxDigits bound allowZeroPrefix cs = some (n,rest)) :
    rest = cs.dropWhile (isDigit radix) ∧ n < bound := by
  simp only [read] at h
  split_ifs at h with hread
  obtain ⟨rfl,rfl⟩ : value radix (cs.takeWhile (isDigit radix)) = n ∧
      cs.dropWhile (isDigit radix) = rest := by simpa using h
  exact ⟨rfl,hread.2.2.2⟩

theorem parse_lt {radix bound n : ℕ} {cs : List Char} (h : parse radix bound cs = some n) : n < bound := by
  simp only [parse] at h
  split_ifs at h with hparse
  cases h
  exact hparse.2.2

end Digits
end North
