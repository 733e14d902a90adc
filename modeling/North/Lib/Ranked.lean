import Mathlib.Data.List.Sort
import Mathlib.Data.List.Nodup
import Mathlib.Data.Prod.Lex
import Mathlib.Tactic.Common

/-! Rows put in the order of a key that no two of them share: what a selection, an arrival at
the end and the deletion of the first rows do to the order. -/
namespace North
namespace Ranked

variable {α κ : Type} [LinearOrder κ] {key : α → κ}

/-- The rows in ascending order of their keys. -/
def ranked (key : α → κ) (rows : List α) : List α := rows.insertionSort fun a b => key a ≤ key b

theorem ranked_perm (rows : List α) : (ranked key rows).Perm rows := List.perm_insertionSort _ rows

@[simp] theorem mem_ranked {rows : List α} {r : α} : r ∈ ranked key rows ↔ r ∈ rows :=
  (ranked_perm rows).mem_iff

@[simp] theorem length_ranked (rows : List α) : (ranked key rows).length = rows.length :=
  (ranked_perm rows).length_eq

theorem ranked_ascending (rows : List α) : (ranked key rows).Pairwise fun a b => key a ≤ key b := by
  have htotal : Std.Total fun a b : α => key a ≤ key b := ⟨fun a b => le_total (key a) (key b)⟩
  have htrans : IsTrans α fun a b : α => key a ≤ key b := ⟨fun _ _ _ => le_trans⟩
  exact List.pairwise_insertionSort _ rows

theorem keys_nodup_ranked {rows : List α} (h : (rows.map key).Nodup) :
    ((ranked key rows).map key).Nodup :=
  ((ranked_perm rows).map key).nodup_iff.mpr h

/-- With distinct keys the order is strict. -/
theorem ranked_strict {rows : List α} (h : (rows.map key).Nodup) :
    (ranked key rows).Pairwise fun a b => key a < key b := by
  have hne : (ranked key rows).Pairwise fun a b => key a ≠ key b :=
    List.pairwise_map.mp (keys_nodup_ranked h)
  exact ((ranked_ascending rows).and hne).imp fun ⟨hle,hab⟩ => lt_of_le_of_ne hle hab

theorem eq_ranked {rows xs : List α} (hperm : xs.Perm rows)
    (hxs : xs.Pairwise fun a b => key a < key b) : xs = ranked key rows := by
  have hkeys : (rows.map key).Nodup := by
    refine (hperm.map key).nodup_iff.mp (List.pairwise_map.mpr ?_)
    exact hxs.imp fun h => ne_of_lt h
  refine (hperm.trans (ranked_perm rows).symm).eq_of_pairwise ?_ hxs (ranked_strict hkeys)
  intro a b _ _ hab hba
  exact absurd hba (lt_asymm hab)

/-- A selection of the rows keeps their order. -/
theorem ranked_filter {rows : List α} (h : (rows.map key).Nodup) (p : α → Bool) :
    ranked key (rows.filter p) = (ranked key rows).filter p :=
  (eq_ranked ((ranked_perm rows).filter p) ((ranked_strict h).filter p)).symm

theorem ranked_append {rows : List α} {r : α} (h : (rows.map key).Nodup)
    (hr : ∀ x ∈ rows, key x < key r) : ranked key (rows ++ [r]) = ranked key rows ++ [r] := by
  refine (eq_ranked ((ranked_perm rows).append_right [r]) ?_).symm
  refine List.pairwise_append.mpr ⟨ranked_strict h,List.pairwise_singleton _ r,?_⟩
  intro x hx y hy
  rw [List.mem_singleton.mp hy]
  exact hr x (mem_ranked.mp hx)

end Ranked

namespace Ranked

variable {α ι : Type} [DecidableEq ι]

/-- Taking the first elements out of a list by their identities leaves the others. -/
theorem filter_not_mem_take {ident : α → ι} {xs : List α} (h : (xs.map ident).Nodup) (n : ℕ) :
    (xs.filter fun x => decide (ident x ∉ (xs.take n).map ident)) = xs.drop n := by
  have hdisjoint : ∀ x ∈ xs.drop n, ident x ∉ (xs.take n).map ident := by
    have happ : ((xs.take n).map ident ++ (xs.drop n).map ident).Nodup := by
      rwa [← List.map_append,List.take_append_drop]
    intro x hx hmem
    exact (List.nodup_append.mp happ).2.2 _ hmem _ (List.mem_map_of_mem hx) rfl
  have hnone : (xs.take n).filter (fun x => decide (ident x ∉ (xs.take n).map ident)) = [] := by
    rw [List.filter_eq_nil_iff]
    intro x hx
    simpa using List.mem_map_of_mem (f := ident) hx
  have hall : (xs.drop n).filter (fun x => decide (ident x ∉ (xs.take n).map ident)) = xs.drop n := by
    rw [List.filter_eq_self]
    intro x hx
    simpa using hdisjoint x hx
  rw [← List.nil_append (xs.drop n),← hnone]
  conv_rhs => rw [← hall]
  rw [← List.filter_append,List.take_append_drop]

end Ranked
end North
