import Mathlib.Order.Basic
import Mathlib.Algebra.Group.Nat.Defs
import Mathlib.Tactic.Common

/-! Bounded machine integers over the naturals: the largest values of the
fixed-width types, and the checked and saturating successor on them. -/
namespace North
namespace Machine

def u64Max : ℕ := 2^64-1

def u32Max : ℕ := 2^32-1

def i64Max : ℕ := 2^63-1

/-- `value.checked_add(1)` below a largest value. -/
def checkedSucc (bound n : ℕ) : Option ℕ := if n < bound then some (n+1) else none

/-- `value.saturating_add(1)` below a largest value. -/
def saturatingSucc (bound n : ℕ) : ℕ := min (n+1) bound

@[simp] theorem checkedSucc_eq_some {bound n m : ℕ} :
    checkedSucc bound n = some m ↔ n < bound ∧ m = n+1 := by
  unfold checkedSucc
  split_ifs with h <;> simp [h,eq_comm]

theorem saturatingSucc_of_lt {bound n : ℕ} (h : n < bound) : saturatingSucc bound n = n+1 := by
  simp only [saturatingSucc]
  omega

end Machine
end North
