import Mathlib.Data.List.Basic
import Mathlib.Data.List.Nodup
import Mathlib.Tactic.Common

/-! Keyed rows as lists: the update of the first match (`iter_mut().find`), and an
ordered map with the `entry(key).or_default()` update. -/
namespace North
namespace Table

variable {α β : Type}

def updateFirst (p : α → Bool) (f : α → α) : List α → List α
  | [] => []
  | x::xs => if p x then f x::xs else x::updateFirst p f xs

theorem map_updateFirst (p : α → Bool) (f : α → α) (g : α → β) (hg : ∀ x, g (f x) = g x)
    (xs : List α) : (updateFirst p f xs).map g = xs.map g := by
  induction xs with
  | nil => rfl
  | cons x xs ih =>
    simp only [updateFirst]
    split_ifs <;> simp [hg,ih]

theorem mem_updateFirst {p : α → Bool} {f : α → α} {xs : List α} {x : α}
    (h : x ∈ updateFirst p f xs) : x ∈ xs ∨ ∃ y, xs.find? p = some y ∧ x = f y := by
  induction xs with
  | nil => simp [updateFirst] at h
  | cons y ys ih =>
    simp only [updateFirst] at h
    by_cases hp : p y = true
    · rcases List.mem_cons.mp (by simpa [hp] using h) with rfl | hx
      · exact .inr ⟨y,by simp [hp],rfl⟩
      · exact .inl (List.mem_cons_of_mem y hx)
    · rcases List.mem_cons.mp (by simpa [hp] using h) with rfl | hx
      · exact .inl (by simp)
      · rcases ih hx with hx | ⟨z,hz,rfl⟩
        · exact .inl (List.mem_cons_of_mem y hx)
        · exact .inr ⟨z,by simpa [hp] using hz,rfl⟩

theorem forall_updateFirst {p : α → Bool} {f : α → α} {P : α → Prop} (hf : ∀ x, P x → P (f x))
    {xs : List α} (h : ∀ x ∈ xs, P x) : ∀ x ∈ updateFirst p f xs, P x := by
  intro x hx
  rcases mem_updateFirst hx with hx | ⟨y,hy,rfl⟩
  · exact h x hx
  · exact hf y (h y (List.mem_of_find?_eq_some hy))

theorem exists_updateFirst {p : α → Bool} {f : α → α} {P : α → Prop} (hf : ∀ x, P x → P (f x))
    {xs : List α} (h : ∃ x ∈ xs, P x) : ∃ x ∈ updateFirst p f xs, P x := by
  induction xs with
  | nil => simp at h
  | cons y ys ih =>
    obtain ⟨x,hx,hP⟩ := h
    simp only [updateFirst]
    by_cases hp : p y = true <;> rcases List.mem_cons.mp hx with rfl | hx
    · exact ⟨f x,by simp [hp],hf x hP⟩
    · exact ⟨x,by simp [hp,hx],hP⟩
    · exact ⟨x,by simp [hp],hP⟩
    · obtain ⟨z,hz,hPz⟩ := ih ⟨x,hx,hP⟩
      exact ⟨z,by simp [hp,hz],hPz⟩

/-- Rows from before and after the update belong together, each with itself or with its update. -/
theorem related_updateFirst {p : α → Bool} {f : α → α} {R : α → α → Prop} (hR : ∀ x, R x x) {xs : List α}
    (hf : ∀ x ∈ xs, p x = true → R x (f x)) :
    (∀ y ∈ updateFirst p f xs, ∃ x ∈ xs, R x y) ∧ ∀ x ∈ xs, ∃ y ∈ updateFirst p f xs, R x y := by
  induction xs with
  | nil => simp [updateFirst]
  | cons z zs ih =>
    have ⟨hback,hforth⟩ := ih fun x hx => hf x (List.mem_cons_of_mem z hx)
    simp only [updateFirst]
    split_ifs with hp
    · have hz := hf z List.mem_cons_self hp
      constructor
      · intro y hy
        rcases List.mem_cons.mp hy with rfl | hy
        · exact ⟨z,List.mem_cons_self,hz⟩
        · exact ⟨y,List.mem_cons_of_mem z hy,hR y⟩
      · intro x hx
        rcases List.mem_cons.mp hx with rfl | hx
        · exact ⟨f x,List.mem_cons_self,hz⟩
        · exact ⟨x,List.mem_cons_of_mem _ hx,hR x⟩
    · constructor
      · intro y hy
        rcases List.mem_cons.mp hy with rfl | hy
        · exact ⟨y,List.mem_cons_self,hR y⟩
        · obtain ⟨x,hx,hxy⟩ := hback y hy
          exact ⟨x,List.mem_cons_of_mem z hx,hxy⟩
      · intro x hx
        rcases List.mem_cons.mp hx with rfl | hx
        · exact ⟨x,List.mem_cons_self,hR x⟩
        · obtain ⟨y,hy,hxy⟩ := hforth x hx
          exact ⟨y,List.mem_cons_of_mem z hy,hxy⟩

theorem updated_mem {p : α → Bool} {f : α → α} {xs : List α} {x : α} (h : xs.find? p = some x) :
    f x ∈ updateFirst p f xs := by
  induction xs with
  | nil => simp at h
  | cons y ys ih =>
    simp only [updateFirst]
    by_cases hp : p y = true
    · obtain rfl : y = x := by simpa [hp] using h
      simp [hp]
    · have hrest := ih (by simpa [hp] using h)
      simp [hp,hrest]

theorem any_updateFirst {p q : α → Bool} {f : α → α} (hq : ∀ x, q x = true → q (f x) = true)
    {xs : List α} {x : α} (h : xs.find? p = some x) :
    (updateFirst p f xs).any q = (xs.any q || q (f x)) := by
  rw [Bool.eq_iff_iff,Bool.or_eq_true,List.any_eq_true,List.any_eq_true]
  constructor
  · rintro ⟨y,hy,hqy⟩
    rcases mem_updateFirst hy with hy | ⟨z,hz,rfl⟩
    · exact .inl ⟨y,hy,hqy⟩
    · rw [Option.some.inj (h.symm.trans hz)]
      exact .inr hqy
  · rintro (hold | hnew)
    · exact exists_updateFirst hq hold
    · exact ⟨f x,updated_mem h,hnew⟩

/-- With at most one match the update is a plain map over the rows. -/
theorem updateFirst_eq_map {κ : Type} [DecidableEq κ] (key : α → κ) (k : κ) (f : α → α)
    (xs : List α) (h : (xs.map key).Nodup) :
    updateFirst (fun x => decide (key x = k)) f xs =
      xs.map fun x => if key x = k then f x else x := by
  induction xs with
  | nil => rfl
  | cons x xs ih =>
    simp only [List.map_cons,List.nodup_cons] at h
    by_cases hx : key x = k
    · have hrest : xs.map (fun y => if key y = k then f y else y) = xs := by
        conv_rhs => rw [← List.map_id xs]
        apply List.map_congr_left
        intro y hy
        have hne : key y ≠ k := by
          intro hyk
          exact h.1 (List.mem_map.mpr ⟨y,hy,hyk.trans hx.symm⟩)
        simp [hne]
      simp [updateFirst,hx,hrest]
    · simp [updateFirst,hx,ih h.2]

theorem find?_key {κ : Type} [DecidableEq κ] {key : α → κ} {k : κ} {xs : List α} {x : α}
    (h : xs.find? (fun y => decide (key y = k)) = some x) : x ∈ xs ∧ key x = k :=
  ⟨List.mem_of_find?_eq_some h,by simpa using List.find?_some h⟩

theorem find?_key_none {κ : Type} [DecidableEq κ] {key : α → κ} {k : κ} {xs : List α} :
    xs.find? (fun y => decide (key y = k)) = none ↔ ∀ x ∈ xs, key x ≠ k := by
  simp

theorem find?_key_of_mem {κ : Type} [DecidableEq κ] {key : α → κ} {xs : List α} {x : α}
    (h : (xs.map key).Nodup) (hx : x ∈ xs) :
    xs.find? (fun y => decide (key y = key x)) = some x := by
  cases hf : xs.find? (fun y => decide (key y = key x)) with
  | none => exact absurd rfl (find?_key_none.mp hf x hx)
  | some y =>
    obtain ⟨hy,hk⟩ := find?_key hf
    rw [List.inj_on_of_nodup_map h hy hx hk]

theorem find?_updateFirst {κ : Type} [DecidableEq κ] (key : α → κ) (k k' : κ) (f : α → α)
    (hf : ∀ x, key (f x) = key x) (xs : List α) :
    (updateFirst (fun x => decide (key x = k)) f xs).find? (fun x => decide (key x = k')) =
      if k' = k then (xs.find? fun x => decide (key x = k)).map f
      else xs.find? fun x => decide (key x = k') := by
  induction xs with
  | nil => simp [updateFirst]
  | cons x xs ih =>
    simp only [updateFirst]
    by_cases hx : key x = k <;> by_cases hk : k' = k
    · simp [hx,hf,hk]
    · have hne : k ≠ k' := fun h => hk h.symm
      simp [hx,hf,hk,hne]
    · simp only [hk,if_true] at ih ⊢
      simp [hx,ih]
    · simp only [hk,if_false] at ih ⊢
      by_cases hx' : key x = k' <;> simp [hx,hk,hx',ih]

theorem updateFirst_append_of_none {p : α → Bool} {f : α → α} {xs ys : List α}
    (h : ∀ x ∈ xs, p x = false) : updateFirst p f (xs ++ ys) = xs ++ updateFirst p f ys := by
  induction xs with
  | nil => rfl
  | cons x xs ih =>
    have hx : p x = false := h x (by simp)
    simp [updateFirst,hx,ih fun y hy => h y (by simp [hy])]

theorem filter_updateFirst {p q : α → Bool} {f : α → α}
    (h : ∀ x, p x = true → q x = true ∧ q (f x) = true) (xs : List α) :
    (updateFirst p f xs).filter q = updateFirst p f (xs.filter q) := by
  induction xs with
  | nil => rfl
  | cons x xs ih =>
    by_cases hp : p x = true
    · simp [updateFirst,hp,h x hp]
    · by_cases hq : q x = true <;> simp [updateFirst,hp,hq,ih]

theorem filter_updateFirst_of_out {p q : α → Bool} {f : α → α}
    (h : ∀ x, p x = true → q x = false ∧ q (f x) = false) (xs : List α) :
    (updateFirst p f xs).filter q = xs.filter q := by
  induction xs with
  | nil => rfl
  | cons x xs ih =>
    by_cases hp : p x = true
    · simp [updateFirst,hp,h x hp]
    · by_cases hq : q x = true <;> simp [updateFirst,hp,hq,ih]

/-- An update that takes its row out of a selection removes the first match from it. -/
theorem filter_updateFirst_drop {p q : α → Bool} {f : α → α}
    (h : ∀ x, p x = true → q x = true ∧ q (f x) = false) (xs : List α) :
    (updateFirst p f xs).filter q = (xs.filter q).eraseP p := by
  induction xs with
  | nil => rfl
  | cons x xs ih =>
    by_cases hp : p x = true
    · simp [updateFirst,hp,h x hp]
    · by_cases hq : q x = true <;> simp [updateFirst,hp,hq,ih]

end Table

/-- A map kept in key order. -/
structure OrdMap (κ ν : Type) where
  entries : List (κ × ν) := []
  deriving DecidableEq, Repr

namespace OrdMap

variable {κ ν : Type} [DecidableEq κ] [LT κ] [DecidableLT κ]

def find (es : List (κ × ν)) (k : κ) : Option ν :=
  (es.find? fun e => decide (e.1 = k)).map Prod.snd

def insertNew (k : κ) (v : ν) : List (κ × ν) → List (κ × ν)
  | [] => [(k,v)]
  | e::es => if k < e.1 then (k,v)::e::es else e::insertNew k v es

def get (m : OrdMap κ ν) (k : κ) : Option ν := find m.entries k

/-- `entry(k).or_insert(default)` followed by an update of the entry. -/
def modify (m : OrdMap κ ν) (k : κ) (default : ν) (f : ν → ν) : OrdMap κ ν :=
  if (m.get k).isSome then ⟨m.entries.map fun e => if e.1 = k then (e.1,f e.2) else e⟩
  else ⟨insertNew k (f default) m.entries⟩

def keys (m : OrdMap κ ν) : List κ := m.entries.map Prod.fst

omit [LT κ] [DecidableLT κ] in
theorem find_cons (e : κ × ν) (es : List (κ × ν)) (k : κ) :
    find (e::es) k = if e.1 = k then some e.2 else find es k := by
  by_cases h : e.1 = k <;> simp [find,h]

theorem find_insertNew (es : List (κ × ν)) (k k' : κ) (v : ν) (h : find es k = none) :
    find (insertNew k v es) k' = if k' = k then some v else find es k' := by
  induction es with
  | nil => simp only [insertNew,find_cons,eq_comm]
  | cons e es ih =>
    rw [find_cons] at h
    split_ifs at h with he
    simp only [insertNew]
    split
    · simp only [find_cons,eq_comm]
    · rw [find_cons,find_cons,ih h]
      by_cases hk : k' = k
      · subst hk
        simp [he]
      · simp [hk]

omit [LT κ] [DecidableLT κ] in
theorem find_map_entry (es : List (κ × ν)) (k k' : κ) (f : ν → ν) :
    find (es.map fun e => if e.1 = k then (e.1,f e.2) else e) k' =
      if k' = k then (find es k').map f else find es k' := by
  induction es with
  | nil => simp [find]
  | cons e es ih =>
    rw [List.map_cons,find_cons,find_cons,ih]
    by_cases he : e.1 = k <;> by_cases he' : e.1 = k' <;> by_cases hk : k' = k <;>
      simp_all

theorem get_modify (m : OrdMap κ ν) (k k' : κ) (d : ν) (f : ν → ν) :
    (m.modify k d f).get k' = if k' = k then some (f ((m.get k).getD d)) else m.get k' := by
  unfold modify
  split
  · rename_i h
    obtain ⟨v,hv⟩ := Option.isSome_iff_exists.mp h
    simp only [get,find_map_entry]
    by_cases hk : k' = k
    · subst hk
      simp only [get] at hv
      simp [hv]
    · simp [hk]
  · rename_i h
    have hn : find m.entries k = none := by simpa [get] using h
    simp [get,find_insertNew _ _ _ _ hn,hn]

@[simp] theorem get_modify_self (m : OrdMap κ ν) (k : κ) (d : ν) (f : ν → ν) :
    (m.modify k d f).get k = some (f ((m.get k).getD d)) := by
  simp [get_modify]

theorem get_modify_ne (m : OrdMap κ ν) {k k' : κ} (d : ν) (f : ν → ν) (h : k' ≠ k) :
    (m.modify k d f).get k' = m.get k' := by
  simp [get_modify,h]

theorem mem_insertNew {k : κ} {v : ν} {es : List (κ × ν)} {e : κ × ν} :
    e ∈ insertNew k v es ↔ e = (k,v) ∨ e ∈ es := by
  induction es with
  | nil => simp [insertNew]
  | cons x es ih =>
    simp only [insertNew]
    split_ifs
    · simp
    · rw [List.mem_cons,ih,List.mem_cons]
      tauto

omit [LT κ] [DecidableLT κ] in
theorem get_none_iff {m : OrdMap κ ν} {k : κ} : m.get k = none ↔ ∀ e ∈ m.entries, e.1 ≠ k := by
  simp [get,find]

theorem mem_modify {m : OrdMap κ ν} {k : κ} {d : ν} {f : ν → ν} {e : κ × ν}
    (h : e ∈ (m.modify k d f).entries) : (e ∈ m.entries ∧ e.1 ≠ k) ∨ e.1 = k ∧ ∃ v, e.2 = f v := by
  unfold modify at h
  split_ifs at h with hk
  · obtain ⟨x,hx,rfl⟩ := List.mem_map.mp h
    by_cases hxk : x.1 = k
    · exact .inr (by simp [hxk])
    · exact .inl (by simpa [hxk] using hx)
  · rcases mem_insertNew.mp h with rfl | he
    · exact .inr ⟨rfl,d,rfl⟩
    · exact .inl ⟨he,get_none_iff.mp (by simpa using hk) e he⟩

/-- An update that changes no value under its key, which is there, changes nothing. -/
theorem modify_eq_self {m : OrdMap κ ν} {k : κ} {d : ν} {f : ν → ν} (hk : (m.get k).isSome = true)
    (hf : ∀ e ∈ m.entries, e.1 = k → f e.2 = e.2) : m.modify k d f = m := by
  have hmap : m.entries.map (fun e => if e.1 = k then (e.1,f e.2) else e) = m.entries := by
    conv_rhs => rw [← List.map_id m.entries]
    apply List.map_congr_left
    intro e he
    by_cases hek : e.1 = k
    · rw [if_pos hek,hf e he hek]
      rfl
    · rw [if_neg hek]
      rfl
  rw [modify,if_pos hk,hmap]

end OrdMap
end North
