import North.Lib.Json
import North.Lib.Prog

/-! Typed values in JSON: what a format of values has to give, formats of lists and of tagged
values, and a codec that checks what it writes and what it has read. -/
namespace North
namespace Json

variable {α β : Type} {bound depth : ℕ}

theorem Within.succ {v : Json} (h : v.Within bound depth) : v.Within bound (depth+1) := by
  induction depth generalizing v with
  | zero => cases v <;> simp_all [Within]
  | succ depth ih =>
    cases v with
    | arr items => exact fun v hv => ih (h v hv)
    | obj fields => exact fun e he => ih (h e he)
    | num n => exact h
    | null | bool _ | str _ => exact trivial

theorem Within.deeper {v : Json} {depth' : ℕ} (h : v.Within bound depth) (hd : depth ≤ depth') :
    v.Within bound depth' := by
  induction hd with
  | refl => exact h
  | step _ ih => exact ih.succ

/-- The values in range are written within the bounds of the text and read back, and what is read is
in range. -/
structure Faithful (bound depth : ℕ) (InRange : α → Prop) (write : α → Json) (read : Json → Option α) : Prop where
  within (a : α) (h : InRange a) : (write a).Within bound depth
  read_write (a : α) (h : InRange a) : read (write a) = some a
  in_range (v : Json) (a : α) (h : read v = some a) : InRange a

namespace Faithful

variable {InRange : α → Prop} {write : α → Json} {read : Json → Option α}

theorem deeper (h : Faithful bound depth InRange write read) {depth' : ℕ} (hd : depth ≤ depth') :
    Faithful bound depth' InRange write read :=
  ⟨fun a ha => (h.within a ha).deeper hd,h.read_write,h.in_range⟩

theorem text (h : Faithful bound depth InRange write read) (c : Codec bound depth) {a : α} (ha : InRange a) :
    (c.read (c.write (write a))).bind read = some a := by
  rw [c.read_write _ (h.within a ha),Option.bind_some,h.read_write a ha]

end Faithful

/-! ### Lists -/

theorem mem_mapM {read : Json → Option α} {items : List Json} {xs : List α} (h : items.mapM read = some xs) :
    ∀ x ∈ xs, ∃ v, read v = some x := by
  induction items generalizing xs with
  | nil =>
    obtain rfl : [] = xs := by simpa using h
    exact nofun
  | cons item items ih =>
    simp only [List.mapM_cons,Option.bind_eq_bind,Option.bind_eq_some_iff] at h
    obtain ⟨x,hx,rest,hrest,hxs⟩ := h
    cases hxs
    intro y hy
    cases hy with
    | head => exact ⟨item,hx⟩
    | tail _ hy => exact ih hrest y hy

theorem Faithful.list {InRange : α → Prop} {write : α → Json} {read : Json → Option α}
    (h : Faithful bound depth InRange write read) :
    Faithful bound (depth+1) (fun xs => ∀ x ∈ xs, InRange x) (fun xs => .arr (xs.map write))
      (fun v => v.asArray.bind fun items => items.mapM read) where
  within xs hxs v hv := by
    obtain ⟨x,hx,rfl⟩ := List.mem_map.mp hv
    exact h.within x (hxs x hx)
  read_write xs hxs := mapM_map write read xs fun x hx => h.read_write x (hxs x hx)
  in_range v xs hread x hx := by
    obtain ⟨items,-,hitems⟩ := Option.bind_eq_some_iff.mp hread
    obtain ⟨v,hv⟩ := mem_mapM hitems x hx
    exact h.in_range v x hv

/-! ### Fields -/

/-- A field that may be left out or null. -/
def optField (v : Json) (key : String) (read : Json → Option α) : Option (Option α) :=
  match v.get key with
  | none | some .null => some none
  | some w => (read w).map some

def ofOption (write : α → Json) : Option α → Json
  | none => .null
  | some a => write a

def asBool : Json → Option Bool
  | .bool b => some b
  | _ => none

theorem asNum_le {v : Json} {n : ℕ} (h : v.asNum bound = some n) : n ≤ bound := by
  cases v with
  | num m =>
    rw [asNum] at h
    split_ifs at h with hm
    cases h
    exact hm
  | null | bool _ | str _ | arr _ | obj _ => cases h

theorem field_num_le {v : Json} {key : String} {n : ℕ} (h : v.field key (asNum bound) = some n) : n ≤ bound := by
  obtain ⟨w,-,hw⟩ := Option.bind_eq_some_iff.mp h
  exact asNum_le hw

theorem field_some {v : Json} {key : String} {read : Json → Option α} {a : α} (h : v.field key read = some a) :
    ∃ w, read w = some a := by
  obtain ⟨w,-,hw⟩ := Option.bind_eq_some_iff.mp h
  exact ⟨w,hw⟩

/-! ### Tagged values -/

/-- A value beside the name of its kind. -/
def tagged (tag content name : String) (value : Json) : Json := .obj [(tag,.str name),(content,value)]

@[simp] theorem tagged_tag (tag content name : String) (value : Json) :
    (tagged tag content name value).field tag asStr = some name := by
  simp [tagged,field,get,asStr]

theorem tagged_content {tag content : String} (h : tag ≠ content) (name : String) (value : Json) :
    (tagged tag content name value).get content = some value := by
  simp [tagged,get,h]

theorem tagged_within {tag content name : String} {value : Json} (h : value.Within bound depth) :
    (tagged tag content name value).Within bound (depth+1) := by
  intro e he
  simp only [List.mem_cons,List.not_mem_nil,or_false] at he
  rcases he with rfl | rfl
  · cases depth <;> exact trivial
  · exact h

end Json

/-! ### Checks on both sides -/

namespace Checked

variable {ε α : Type} (validate : α → Except ε Unit)

/-- A value is checked before it is written. -/
def encode (write : α → String) (a : α) : Except ε String := do
  validate a
  return write a

/-- What was read is checked. -/
def decode (read : String → Except ε α) (text : String) : Except ε α := do
  let a ← read text
  validate a
  return a

variable {validate}

theorem encode_eq_ok {write : α → String} {a : α} {text : String} :
    encode validate write a = .ok text ↔ validate a = .ok () ∧ write a = text := by
  simp only [encode,bind_eq_ok,pure,Except.pure,Except.ok.injEq]
  constructor
  · rintro ⟨_,hvalid,htext⟩
    exact ⟨hvalid,htext⟩
  · rintro ⟨hvalid,htext⟩
    exact ⟨(),hvalid,htext⟩

theorem encode_ok_iff {write : α → String} {a : α} :
    (∃ text, encode validate write a = .ok text) ↔ validate a = .ok () := by
  simp only [encode_eq_ok,exists_and_left,exists_eq',and_true]

theorem decode_eq_ok {read : String → Except ε α} {text : String} {a : α} :
    decode validate read text = .ok a ↔ read text = .ok a ∧ validate a = .ok () := by
  simp only [decode,bind_eq_ok,pure,Except.pure,Except.ok.injEq]
  constructor
  · rintro ⟨b,hread,_,hvalid,rfl⟩
    exact ⟨hread,hvalid⟩
  · rintro ⟨hread,hvalid⟩
    exact ⟨a,hread,(),hvalid,rfl⟩

theorem decode_encode {write : α → String} {read : String → Except ε α} {a : α} {text : String}
    (hread : read (write a) = .ok a) (h : encode validate write a = .ok text) :
    decode validate read text = .ok a := by
  obtain ⟨hvalid,rfl⟩ := encode_eq_ok.mp h
  exact decode_eq_ok.mpr ⟨hread,hvalid⟩

end Checked

end North
