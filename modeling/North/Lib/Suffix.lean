import Mathlib.Data.List.Infix
import Mathlib.Tactic.Common

/-! The longest suffix of a list that meets a condition, found by dropping elements from
the front. -/
namespace North
namespace Suffix

variable {α : Type} {p : List α → Bool}

/-- Drop elements from the front until the rest meets the condition or nothing is left. -/
def longest (p : List α → Bool) : List α → List α
  | [] => []
  | x::xs => if p (x::xs) then x::xs else longest p xs

theorem longest_suffix (xs : List α) : longest p xs <:+ xs := by
  induction xs with
  | nil => exact List.suffix_refl _
  | cons x xs ih =>
    unfold longest
    split_ifs
    · exact List.suffix_refl _
    · exact ih.trans (List.suffix_cons x xs)

theorem longest_meets (xs : List α) : p (longest p xs) = true ∨ longest p xs = [] := by
  induction xs with
  | nil => exact .inr rfl
  | cons x xs ih =>
    unfold longest
    split_ifs with hp
    · exact .inl hp
    · exact ih

/-- Every suffix that meets the condition is part of the longest one. -/
theorem suffix_longest {xs ys : List α} (h : ys <:+ xs) (hp : p ys = true) : ys <:+ longest p xs := by
  induction xs with
  | nil => exact h
  | cons x xs ih =>
    unfold longest
    split_ifs with hx
    · exact h
    · rcases List.suffix_cons_iff.mp h with rfl | hrest
      · exact absurd hp hx
      · exact ih hrest

theorem longest_of_meets {xs : List α} (h : p xs = true) : longest p xs = xs := by
  cases xs with
  | nil => rfl
  | cons x xs => rw [longest,if_pos h]

theorem longest_cons_of_fails {x : α} {xs : List α} (h : p (x::xs) = false) :
    longest p (x::xs) = longest p xs := by
  rw [longest,if_neg (by simp [h])]

end Suffix
end North
