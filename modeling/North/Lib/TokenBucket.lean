import Mathlib.Algebra.Order.Field.Basic
import Mathlib.Tactic.GCongr
import Mathlib.Tactic.Ring

/-! Token buckets: what is refilled up to a capacity, and how often a bucket gives within any
window of time. -/
namespace North
namespace TokenBucket

section Levels

variable {K : Type} [Field K] [LinearOrder K]

/-- The level after as much was added. -/
def refilled (capacity level added : K) : K := min (level+added) capacity

theorem refilled_le (capacity level added : K) : refilled capacity level added ≤ capacity := min_le_right _ _

theorem refilled_le_add (capacity level added : K) : refilled capacity level added ≤ level+added := min_le_left _ _

@[simp] theorem refilled_zero {capacity level : K} (h : level ≤ capacity) : refilled capacity level 0 = level := by
  rw [refilled,add_zero,min_eq_left h]

variable [IsStrictOrderedRing K]

theorem refilled_nonneg {capacity level added : K} (hcapacity : 0 ≤ capacity) (hlevel : 0 ≤ level)
    (hadded : 0 ≤ added) : 0 ≤ refilled capacity level added :=
  le_min (add_nonneg hlevel hadded) hcapacity

@[simp] theorem refilled_full {capacity added : K} (h : 0 ≤ added) : refilled capacity capacity added = capacity :=
  min_eq_right (le_add_of_nonneg_right h)

theorem refilled_refilled {capacity level a b : K} (hb : 0 ≤ b) :
    refilled capacity (refilled capacity level a) b = refilled capacity level (a+b) := by
  rw [refilled,refilled,refilled,← min_add_add_right,min_assoc,min_eq_right (le_add_of_nonneg_right hb),add_assoc]

end Levels

section Windows

variable {K : Type} [Field K] [LinearOrder K]

/-- A bucket seen at times: it gives or not, is never below nothing or above its capacity, and never
filled faster than the rate. -/
inductive Metered (capacity rate : K) : (time level : K) → List (K × Bool) → Prop
  | nil {time level : K} (hlevel : 0 ≤ level) : Metered capacity rate time level []
  | cons {time level time' level' : K} {gives : Bool} {events : List (K × Bool)} (hlevel : 0 ≤ level)
    (htime : time ≤ time') (hcapacity : level'+(if gives then 1 else 0) ≤ capacity)
    (hrate : level'+(if gives then 1 else 0) ≤ level+rate*(time'-time))
    (h : Metered capacity rate time' level' events) : Metered capacity rate time level ((time',gives)::events)

/-- How often it gives within a window. -/
def given (start stop : K) (events : List (K × Bool)) : ℕ :=
  events.countP fun e => decide (start ≤ e.1 ∧ e.1 ≤ stop) && e.2

variable {capacity rate time level start stop : K} {events : List (K × Bool)}

omit [Field K] in
theorem given_cons (start stop time : K) (gives : Bool) (events : List (K × Bool)) :
    given start stop ((time,gives)::events) =
      given start stop events+if start ≤ time ∧ time ≤ stop ∧ gives = true then 1 else 0 := by
  simp [given,List.countP_cons,and_assoc]

theorem Metered.later (h : Metered capacity rate time level events) : ∀ e ∈ events, time ≤ e.1 := by
  induction h with
  | nil => exact nofun
  | cons hlevel htime hcapacity hrate h ih =>
    intro e he
    cases he with
    | head => exact htime
    | tail _ he => exact htime.trans (ih e he)

theorem Metered.given_over (h : Metered capacity rate time level events) (hover : stop < time) :
    given start stop events = 0 := by
  refine List.countP_eq_zero.mpr fun e he => ?_
  have hlate := not_le.mpr (hover.trans_le (h.later e he))
  simp [hlate]

variable [IsStrictOrderedRing K]

theorem counted_le (p q : Prop) [Decidable p] [Decidable q] (gives : Bool) :
    ((if p ∧ q ∧ gives = true then 1 else 0 : ℕ) : K) ≤ if gives = true then 1 else 0 := by
  cases gives <;> split_ifs <;> simp_all

/-- Up to a time it gives no more than its level and what is added until then. -/
theorem Metered.given_le (h : Metered capacity rate time level events) (start : K) (hrate : 0 ≤ rate)
    (hstop : time ≤ stop) :
    (given start stop events : K) ≤ level+rate*(stop-time) := by
  induction h with
  | @nil time level hlevel =>
    have hadded : 0 ≤ rate*(stop-time) := mul_nonneg hrate (sub_nonneg.mpr hstop)
    simpa [given] using add_nonneg hlevel hadded
  | @cons time level time' level' gives events hlevel htime hcapacity hlevels h ih =>
    have hadded : 0 ≤ rate*(stop-time) := mul_nonneg hrate (sub_nonneg.mpr hstop)
    rw [given_cons]
    by_cases hlate : stop < time'
    · have hnone : ¬(start ≤ time' ∧ time' ≤ stop ∧ gives = true) := fun h => absurd h.2.1 (not_le.mpr hlate)
      rw [h.given_over hlate,if_neg hnone]
      simpa using add_nonneg hlevel hadded
    · have hrest := ih (not_lt.mp hlate)
      have htaken := counted_le (K := K) (start ≤ time') (time' ≤ stop) gives
      rw [Nat.cast_add]
      calc _ ≤ level'+rate*(stop-time')+(if gives = true then 1 else 0) := add_le_add hrest htaken
        _ = level'+(if gives = true then 1 else 0)+rate*(stop-time') := add_right_comm _ _ _
        _ ≤ level+rate*(time'-time)+rate*(stop-time') := by gcongr
        _ = level+rate*(stop-time) := by ring

/-- Within any window it gives no more than its capacity and what is added in it. -/
theorem Metered.window_le (h : Metered capacity rate time level events) (hcapacity : 0 ≤ capacity) (hrate : 0 ≤ rate)
    (hwindow : start ≤ stop) : (given start stop events : K) ≤ capacity+rate*(stop-start) := by
  have hadded : 0 ≤ rate*(stop-start) := mul_nonneg hrate (sub_nonneg.mpr hwindow)
  induction h with
  | nil => simpa [given] using add_nonneg hcapacity hadded
  | @cons time level time' level' gives events hlevel htime hfull hlevels h ih =>
    rw [given_cons]
    by_cases hearly : time' < start
    · have hnone : ¬(start ≤ time' ∧ time' ≤ stop ∧ gives = true) := fun h => absurd h.1 (not_le.mpr hearly)
      rwa [if_neg hnone,Nat.add_zero]
    · by_cases hlate : stop < time'
      · have hnone : ¬(start ≤ time' ∧ time' ≤ stop ∧ gives = true) := fun h => absurd h.2.1 (not_le.mpr hlate)
        rw [h.given_over hlate,if_neg hnone]
        simpa using add_nonneg hcapacity hadded
      · have hrest := h.given_le start hrate (not_lt.mp hlate)
        have htaken := counted_le (K := K) (start ≤ time') (time' ≤ stop) gives
        have hmono : rate*(stop-time') ≤ rate*(stop-start) :=
          mul_le_mul_of_nonneg_left (sub_le_sub_left (not_lt.mp hearly) stop) hrate
        rw [Nat.cast_add]
        calc _ ≤ level'+rate*(stop-time')+(if gives = true then 1 else 0) := add_le_add hrest htaken
          _ = level'+(if gives = true then 1 else 0)+rate*(stop-time') := add_right_comm _ _ _
          _ ≤ capacity+rate*(stop-start) := add_le_add hfull hmono

end Windows

end TokenBucket
end North
