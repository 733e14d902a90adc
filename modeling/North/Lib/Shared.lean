import Mathlib.Data.Finset.Card
import Mathlib.Data.Finset.Insert
import Mathlib.Data.List.Count
import Mathlib.Tactic.Common

/-! Values shared by counted owners. Every value has a number and a count; every owner names the
value it shares, and the last owner of a value lets it go. -/
namespace North
namespace Shared

/-- The count of a value; it has none before it is made. -/
def count (counts : List ℕ) (v : ℕ) : ℕ := counts[v]?.getD 0

/-- The counts are right. -/
def Counts (counts owners : List ℕ) : Prop := ∀ v, count counts v = owners.count v

/-- The values that have an owner. -/
def alive (owners : List ℕ) : Finset ℕ := owners.toFinset

@[simp] theorem mem_alive {owners : List ℕ} {v : ℕ} : v ∈ alive owners ↔ v ∈ owners := List.mem_toFinset

theorem count_append_one (counts : List ℕ) (v : ℕ) :
    count (counts ++ [1]) v = count counts v + if counts.length = v then 1 else 0 := by
  unfold count
  rcases Nat.lt_trichotomy v counts.length with hlt | rfl | hgt
  · simp [List.getElem?_append_left hlt,(Nat.ne_of_lt hlt).symm]
  · simp
  · have hnone : (counts ++ [1])[v]? = none := List.getElem?_eq_none (by
      rw [List.length_append]
      exact hgt)
    simp [hnone,List.getElem?_eq_none hgt.le,Nat.ne_of_lt hgt]

theorem count_modify (counts : List ℕ) {f : ℕ → ℕ} {v : ℕ} (hv : v < counts.length) (x : ℕ) :
    count (counts.modify v f) x = if v = x then f (count counts x) else count counts x := by
  unfold count
  rw [List.getElem?_modify]
  split_ifs with hx
  · subst hx
    simp [hv]
  · simp

theorem Counts.fresh {counts owners : List ℕ} (h : Counts counts owners) : counts.length ∉ owners := by
  have hzero : count counts counts.length = 0 := by simp [count]
  rw [h counts.length] at hzero
  exact List.count_eq_zero.mp hzero

theorem Counts.lt_length {counts owners : List ℕ} (h : Counts counts owners) {v : ℕ} (hv : v ∈ owners) :
    v < counts.length := by
  by_contra hge
  have hzero : count counts v = 0 := by
    simp [count,List.getElem?_eq_none (Nat.le_of_not_lt hge)]
  rw [h v] at hzero
  exact List.count_eq_zero.mp hzero hv

/-- A new value with its first owner. -/
theorem Counts.make {counts owners : List ℕ} (h : Counts counts owners) :
    Counts (counts ++ [1]) (owners ++ [counts.length]) := by
  intro v
  rw [count_append_one,h v,List.count_append,List.count_singleton]
  simp [beq_iff_eq]

theorem alive_make {counts owners : List ℕ} (h : Counts counts owners) :
    (alive (owners ++ [counts.length])).card = (alive owners).card+1 := by
  have hinsert : alive (owners ++ [counts.length]) = insert counts.length (alive owners) := by
    ext v
    simp [or_comm]
  rw [hinsert,Finset.card_insert_of_notMem (by simpa using h.fresh)]

theorem Counts.share {counts owners : List ℕ} (h : Counts counts owners) {v : ℕ} (hv : v ∈ owners) :
    Counts (counts.modify v (· + 1)) (owners ++ [v]) := by
  intro x
  rw [count_modify counts (h.lt_length hv),h x,List.count_append,List.count_singleton]
  by_cases hx : v = x
  · simp [hx]
  · simp [hx]

theorem alive_share {owners : List ℕ} {v : ℕ} (hv : v ∈ owners) : alive (owners ++ [v]) = alive owners := by
  ext x
  simp only [mem_alive,List.mem_append,List.mem_singleton]
  exact ⟨fun hx => hx.elim id fun heq => heq ▸ hv,.inl⟩

section Drop

variable {counts owners : List ℕ} {i v : ℕ}

theorem owners_perm (hi : owners[i]? = some v) : owners.Perm (v::owners.eraseIdx i) := by
  obtain ⟨hlt,rfl⟩ := List.getElem?_eq_some_iff.mp hi
  exact (List.getElem_cons_eraseIdx_perm hlt).symm

theorem Counts.drop (h : Counts counts owners) (hi : owners[i]? = some v) :
    Counts (counts.modify v (· - 1)) (owners.eraseIdx i) := by
  intro x
  have hcount : owners.count x = (owners.eraseIdx i).count x + if v = x then 1 else 0 := by
    rw [(owners_perm hi).count_eq,List.count_cons]
    simp
  rw [count_modify counts (h.lt_length (List.mem_of_getElem? hi)),h x,hcount]
  split_ifs <;> simp

/-- The count is one just when it is the last. -/
theorem Counts.last_iff (h : Counts counts owners) (hi : owners[i]? = some v) :
    counts[v]? = some 1 ↔ v ∉ owners.eraseIdx i := by
  have hcount : count counts v = (owners.eraseIdx i).count v+1 := by
    rw [h v,(owners_perm hi).count_eq,List.count_cons_self]
  have hlt := h.lt_length (List.mem_of_getElem? hi)
  rw [count,List.getElem?_eq_getElem hlt,Option.getD_some] at hcount
  rw [List.getElem?_eq_getElem hlt,Option.some.injEq,hcount,← List.count_eq_zero]
  omega

theorem alive_drop (h : Counts counts owners) (hi : owners[i]? = some v) :
    (alive owners).card = (alive (owners.eraseIdx i)).card + if counts[v]? = some 1 then 1 else 0 := by
  have hinsert : alive owners = insert v (alive (owners.eraseIdx i)) := by
    ext x
    simp [(owners_perm hi).mem_iff]
  by_cases hlast : v ∈ owners.eraseIdx i
  · rw [hinsert,Finset.insert_eq_of_mem (by simpa using hlast),if_neg (by rw [h.last_iff hi]; simpa using hlast)]
    rfl
  · rw [hinsert,Finset.card_insert_of_notMem (by simpa using hlast),if_pos ((h.last_iff hi).mpr hlast)]

end Drop
end Shared
end North
