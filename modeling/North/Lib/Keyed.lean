import North.Lib.Table
import Mathlib.Data.List.Perm.Basic

/-! Insertion and removal in an ordered map, and what its entries are as a multiset.
A map is `Keyed` when no key stands in it twice; every operation keeps it so. -/
namespace North
namespace OrdMap

variable {κ ν : Type} [DecidableEq κ] [LT κ] [DecidableLT κ]

def insert (m : OrdMap κ ν) (k : κ) (v : ν) : OrdMap κ ν := m.modify k v fun _ => v

omit [LT κ] [DecidableLT κ] in
def erase (m : OrdMap κ ν) (k : κ) : OrdMap κ ν := ⟨m.entries.filter fun e => decide (e.1 ≠ k)⟩

omit [LT κ] [DecidableLT κ] in
def contains (m : OrdMap κ ν) (k : κ) : Bool := (m.get k).isSome

omit [DecidableEq κ] [LT κ] [DecidableLT κ] in
def values (m : OrdMap κ ν) : List ν := m.entries.map Prod.snd

omit [DecidableEq κ] [LT κ] [DecidableLT κ] in
def Keyed (m : OrdMap κ ν) : Prop := m.keys.Nodup

variable {m : OrdMap κ ν} {k k' : κ} {v : ν}

theorem get_insert (m : OrdMap κ ν) (k k' : κ) (v : ν) :
    (m.insert k v).get k' = if k' = k then some v else m.get k' :=
  get_modify m k k' v fun _ => v

omit [LT κ] [DecidableLT κ] in
theorem get_erase (m : OrdMap κ ν) (k k' : κ) :
    (m.erase k).get k' = if k' = k then none else m.get k' := by
  obtain ⟨es⟩ := m
  simp only [get,erase]
  induction es with
  | nil => simp [find]
  | cons e es ih =>
    by_cases he : e.1 = k
    · rw [List.filter_cons_of_neg (by simp [he]),ih,find_cons]
      by_cases hk : k' = k
      · simp [hk]
      · have hne : e.1 ≠ k' := fun h => hk (h.symm.trans he)
        simp [hk,hne]
    · rw [List.filter_cons_of_pos (by simp [he]),find_cons,find_cons,ih]
      by_cases hk : k' = k
      · have hne : e.1 ≠ k' := fun h => he (h.trans hk)
        simp [hk,he]
      · simp [hk]

omit [LT κ] [DecidableLT κ] in
theorem mem_of_get (h : m.get k = some v) : (k,v) ∈ m.entries := by
  obtain ⟨e,he,rfl⟩ := Option.map_eq_some_iff.mp h
  obtain ⟨hmem,rfl⟩ := Table.find?_key he
  exact hmem

omit [LT κ] [DecidableLT κ] in
theorem get_of_mem (hm : m.Keyed) (h : (k,v) ∈ m.entries) : m.get k = some v := by
  have hfind := Table.find?_key_of_mem hm h
  simp only [get,find,hfind,Option.map_some]

omit [LT κ] [DecidableLT κ] in
theorem mem_values_of_get (h : m.get k = some v) : v ∈ m.values :=
  List.mem_map.mpr ⟨(k,v),mem_of_get h,rfl⟩

omit [LT κ] [DecidableLT κ] in
theorem get_eq_none : m.get k = none ↔ k ∉ m.keys := by
  simp only [get,find,Option.map_eq_none_iff,List.find?_eq_none,decide_eq_true_eq,keys,List.mem_map,
    not_exists,not_and]

omit [LT κ] [DecidableLT κ] in
theorem contains_eq_false : m.contains k = false ↔ m.get k = none := by
  simp [contains]

omit [DecidableEq κ] in
theorem insertNew_perm (k : κ) (v : ν) (es : List (κ × ν)) :
    (insertNew k v es).Perm ((k,v)::es) := by
  induction es with
  | nil => exact List.Perm.refl _
  | cons e es ih =>
    simp only [insertNew]
    split
    · exact List.Perm.refl _
    · exact (ih.cons e).trans (List.Perm.swap _ _ _)

theorem insert_perm (v : ν) (h : m.get k = none) : (m.insert k v).entries.Perm ((k,v)::m.entries) := by
  have hm : m.insert k v = ⟨insertNew k v m.entries⟩ := by simp [insert,modify,h]
  rw [hm]
  exact insertNew_perm k v m.entries

theorem Keyed.insert (hm : m.Keyed) (k : κ) (v : ν) : (m.insert k v).Keyed := by
  cases hget : m.get k with
  | none =>
    have hperm : (m.insert k v).keys.Perm (k::m.keys) := (insert_perm v hget).map Prod.fst
    exact hperm.nodup_iff.mpr (List.nodup_cons.mpr ⟨get_eq_none.mp hget,hm⟩)
  | some w =>
    have hkeys : (m.insert k v).keys = m.keys := by
      simp only [keys,OrdMap.insert,modify,hget,Option.isSome_some,if_true,List.map_map]
      refine List.map_congr_left fun e _ => ?_
      by_cases he : e.1 = k <;> simp [he]
    rw [Keyed,hkeys]
    exact hm

omit [LT κ] [DecidableLT κ] in
theorem Keyed.erase (hm : m.Keyed) (k : κ) : (m.erase k).Keyed :=
  hm.sublist (List.filter_sublist.map Prod.fst)

omit [LT κ] [DecidableLT κ] in
/-- Taking a key out takes one entry away. -/
theorem Keyed.erase_perm (hm : m.Keyed) (h : m.get k = some v) :
    m.entries.Perm ((k,v)::(m.erase k).entries) := by
  obtain ⟨es⟩ := m
  have hmem := mem_of_get h
  simp only [Keyed,keys] at hm
  simp only [OrdMap.erase]
  induction es with
  | nil => simp at hmem
  | cons e es ih =>
    simp only [List.map_cons,List.nodup_cons] at hm
    rcases List.mem_cons.mp hmem with rfl | hmem
    · have hrest : es.filter (fun e => decide (e.1 ≠ k)) = es :=
        List.filter_eq_self.mpr fun e he => by
          simpa using fun hek : e.1 = k => hm.1 (List.mem_map.mpr ⟨e,he,hek⟩)
      rw [List.filter_cons_of_neg (by simp),hrest]
    · have hne : e.1 ≠ k := fun hek => hm.1 (List.mem_map.mpr ⟨(k,v),hmem,hek.symm⟩)
      have hrest := ih hm.2 (get_of_mem hm.2 hmem) hmem
      simp only [hne,ne_eq,not_false_eq_true,decide_true,List.filter_cons_of_pos]
      exact (hrest.cons e).trans (List.Perm.swap _ _ _)

omit [LT κ] [DecidableLT κ] in
theorem erase_of_none (h : m.get k = none) : m.erase k = m := by
  obtain ⟨es⟩ := m
  have hrest : es.filter (fun e => decide (e.1 ≠ k)) = es :=
    List.filter_eq_self.mpr fun e he => by
      simpa using fun hek : e.1 = k => get_eq_none.mp h (List.mem_map.mpr ⟨e,he,hek⟩)
  simp only [erase,hrest]

end OrdMap
end North
