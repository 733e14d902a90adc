import Mathlib.Data.List.Nodup
import Mathlib.Tactic.Common

/-! Maps that keep the order in which their keys were first set, as lists of entries. -/
namespace North
namespace InsertionMap

variable {κ ν : Type} [DecidableEq κ]

/-- A known key keeps its place and takes the new value. -/
def set (entries : List (κ × ν)) (k : κ) (v : ν) : List (κ × ν) :=
  if entries.any fun e => decide (e.1 = k) then entries.map fun e => if e.1 = k then (k,v) else e
  else entries ++ [(k,v)]

def get (entries : List (κ × ν)) (k : κ) : Option ν :=
  (entries.find? fun e => decide (e.1 = k)).map Prod.snd

def ofList (xs : List (κ × ν)) : List (κ × ν) := xs.foldl (fun m e => set m e.1 e.2) []

def values (entries : List (κ × ν)) : List ν := entries.map Prod.snd

theorem mem_set {entries : List (κ × ν)} {k : κ} {v : ν} {e : κ × ν} (h : e ∈ set entries k v) :
    e ∈ entries ∨ e = (k,v) := by
  unfold set at h
  split_ifs at h
  · obtain ⟨x,hx,rfl⟩ := List.mem_map.mp h
    split_ifs
    · exact .inr rfl
    · exact .inl hx
  · rcases List.mem_append.mp h with h | h
    · exact .inl h
    · exact .inr (List.mem_singleton.mp h)

theorem mem_foldl_set {xs entries : List (κ × ν)} {e : κ × ν}
    (h : e ∈ xs.foldl (fun m e => set m e.1 e.2) entries) : e ∈ entries ∨ e ∈ xs := by
  induction xs generalizing entries with
  | nil => exact .inl h
  | cons x xs ih =>
    rcases ih h with hset | hxs
    · rcases mem_set hset with hold | rfl
      · exact .inl hold
      · exact .inr List.mem_cons_self
    · exact .inr (List.mem_cons_of_mem x hxs)

theorem mem_ofList {xs : List (κ × ν)} {e : κ × ν} (h : e ∈ ofList xs) : e ∈ xs :=
  (mem_foldl_set h).resolve_left (by simp)

theorem set_new {entries : List (κ × ν)} {k : κ} (hk : k ∉ entries.map Prod.fst) (v : ν) :
    set entries k v = entries ++ [(k,v)] := by
  have hnone : (entries.any fun e => decide (e.1 = k)) = false := by
    rw [List.any_eq_false]
    intro e he hid
    exact hk (List.mem_map.mpr ⟨e,he,by simpa using hid⟩)
  simp [set,hnone]

theorem foldl_set_of_nodup {xs entries : List (κ × ν)} (h : ((entries ++ xs).map Prod.fst).Nodup) :
    xs.foldl (fun m e => set m e.1 e.2) entries = entries ++ xs := by
  induction xs generalizing entries with
  | nil => simp
  | cons x xs ih =>
    have hnew : x.1 ∉ entries.map Prod.fst := by
      rw [List.map_append,List.map_cons] at h
      intro hmem
      exact (List.nodup_append.mp h).2.2 _ hmem _ List.mem_cons_self rfl
    rw [List.foldl_cons,set_new hnew,ih (by simpa using h),List.append_assoc]
    rfl

theorem ofList_of_nodup {xs : List (κ × ν)} (h : (xs.map Prod.fst).Nodup) : ofList xs = xs :=
  foldl_set_of_nodup (by simpa using h)

theorem get_of_nodup {entries : List (κ × ν)} (h : (entries.map Prod.fst).Nodup) {k : κ} {v : ν}
    (hmem : (k,v) ∈ entries) : get entries k = some v := by
  unfold get
  cases hfind : entries.find? fun e => decide (e.1 = k) with
  | none =>
    have hnot := List.find?_eq_none.mp hfind (k,v) hmem
    simp at hnot
  | some e =>
    have hid : e.1 = k := by simpa using List.find?_some hfind
    have hsame := List.inj_on_of_nodup_map h (List.mem_of_find?_eq_some hfind) hmem hid
    rw [hsame]
    rfl

theorem get_none {entries : List (κ × ν)} {k : κ} (h : k ∉ entries.map Prod.fst) : get entries k = none := by
  unfold get
  rw [Option.map_eq_none_iff,List.find?_eq_none]
  intro e he hid
  exact h (List.mem_map.mpr ⟨e,he,by simpa using hid⟩)

theorem get_mem {entries : List (κ × ν)} {k : κ} {v : ν} (h : get entries k = some v) : (k,v) ∈ entries := by
  obtain ⟨e,hfind,rfl⟩ := Option.map_eq_some_iff.mp h
  have hid : e.1 = k := by simpa using List.find?_some hfind
  rw [← hid]
  exact List.mem_of_find?_eq_some hfind

end InsertionMap
end North
