import North.Lib.Json

/-! JSON values over any numbers, with objects as sorted lists of fields: their equality up to that
of the numbers, and what a value keeps when it is read. -/
namespace North

inductive JsonValue (ν : Type)
  | null
  | bool (b : Bool)
  | number (n : ν)
  | string (s : String)
  | array (items : List (JsonValue ν))
  | object (fields : List (String × JsonValue ν))
  deriving Repr

namespace JsonValue

variable {ν : Type}

def get (v : JsonValue ν) (key : String) : Option (JsonValue ν) :=
  match v with
  | .object fields => (fields.find? fun e => decide (e.1 = key)).map Prod.snd
  | _ => none

/-- The value with one of its fields changed, if it has that. -/
def update (v : JsonValue ν) (key : String) (f : JsonValue ν → JsonValue ν) : JsonValue ν :=
  match v with
  | .object fields => .object (fields.map fun e => if e.1 = key then (e.1,f e.2) else e)
  | v => v

def remove (v : JsonValue ν) (key : String) : JsonValue ν :=
  match v with
  | .object fields => .object (fields.filter fun e => decide (e.1 ≠ key))
  | v => v

mutual

def eq (numberEq : ν → ν → Bool) : JsonValue ν → JsonValue ν → Bool
  | .null, .null => true
  | .bool b, .bool c => b == c
  | .number m, .number n => numberEq m n
  | .string s, .string t => s == t
  | .array items, .array items' => itemsEq numberEq items items'
  | .object fields, .object fields' => fieldsEq numberEq fields fields'
  | _, _ => false

def itemsEq (numberEq : ν → ν → Bool) : List (JsonValue ν) → List (JsonValue ν) → Bool
  | [], [] => true
  | v::items, w::items' => v.eq numberEq w && itemsEq numberEq items items'
  | _, _ => false

def fieldsEq (numberEq : ν → ν → Bool) : List (String × JsonValue ν) → List (String × JsonValue ν) → Bool
  | [], [] => true
  | (key,v)::fields, (key',w)::fields' => key == key' && v.eq numberEq w && fieldsEq numberEq fields fields'
  | _, _ => false

end

/-- Nesting within a depth, sorted objects, and numbers of a kind. -/
def Kept (exact : ν → Prop) : (depth : ℕ) → JsonValue ν → Prop
  | _, .null | _, .bool _ | _, .string _ => True
  | _, .number n => exact n
  | 0, .array _ | 0, .object _ => False
  | depth+1, .array items => ∀ v ∈ items, Kept exact depth v
  | depth+1, .object fields => fields.Pairwise (fun e f => e.1 < f.1) ∧ ∀ e ∈ fields, Kept exact depth e.2

theorem Kept.mono {p q : ν → Prop} (hpq : ∀ n, p n → q n) {depth : ℕ} {v : JsonValue ν} (h : Kept p depth v) :
    Kept q depth v := by
  induction depth generalizing v with
  | zero =>
    cases v with
    | null | bool | string => trivial
    | number n => exact hpq n h
    | array | object => cases h
  | succ depth ih =>
    cases v with
    | null | bool | string => trivial
    | number n => exact hpq n h
    | array items => exact fun v hv => ih (h v hv)
    | object fields => exact ⟨h.1,fun e he => ih (h.2 e he)⟩

theorem Kept.remove {exact : ν → Prop} {depth : ℕ} {v : JsonValue ν} (h : Kept exact depth v) (key : String) :
    Kept exact depth (v.remove key) := by
  cases v with
  | null | bool | string | number | array => exact h
  | object fields =>
    cases depth with
    | zero => cases h
    | succ depth => exact ⟨h.1.filter _,fun e he => h.2 e (List.mem_filter.mp he).1⟩

theorem Kept.update {exact : ν → Prop} {depth : ℕ} {v : JsonValue ν} (h : Kept exact depth v) (key : String)
    {f : JsonValue ν → JsonValue ν} (hf : ∀ depth v, Kept exact depth v → Kept exact depth (f v)) :
    Kept exact depth (v.update key f) := by
  cases v with
  | null | bool | string | number | array => exact h
  | object fields =>
    cases depth with
    | zero => cases h
    | succ depth =>
      have hkey : ∀ e : String × JsonValue ν, (if e.1 = key then (e.1,f e.2) else e).1 = e.1 := by
        intro e
        split_ifs <;> rfl
      refine ⟨List.pairwise_map.mpr (h.1.imp fun {e e'} hlt => ?_),fun e he => ?_⟩
      · rw [hkey,hkey]
        exact hlt
      · obtain ⟨e,hmem,rfl⟩ := List.mem_map.mp he
        split_ifs
        · exact hf depth e.2 (h.2 e hmem)
        · exact h.2 e hmem

theorem eq_iff {exact : ν → Prop} {numberEq : ν → ν → Bool}
    (hnumber : ∀ m n, exact m → exact n → (numberEq m n = true ↔ m = n)) {depth : ℕ} {v w : JsonValue ν}
    (hv : Kept exact depth v) (hw : Kept exact depth w) : v.eq numberEq w = true ↔ v = w := by
  induction depth generalizing v w with
  | zero =>
    cases v <;> cases w <;> simp_all [eq,Kept]
  | succ depth ih =>
    have hitems : ∀ items items' : List (JsonValue ν), (∀ v ∈ items, Kept exact depth v) →
        (∀ v ∈ items', Kept exact depth v) → (itemsEq numberEq items items' = true ↔ items = items') := by
      intro items
      induction items with
      | nil => rintro (_ | _) - - <;> simp [itemsEq]
      | cons v items ihitems =>
        rintro (_ | ⟨w,items'⟩) hv hw
        · simp [itemsEq]
        · rw [itemsEq,Bool.and_eq_true,List.cons.injEq,ih (hv v (by simp)) (hw w (by simp)),
            ihitems items' (fun x hx => hv x (by simp [hx])) (fun x hx => hw x (by simp [hx]))]
    have hfields : ∀ fields fields' : List (String × JsonValue ν), (∀ e ∈ fields, Kept exact depth e.2) →
        (∀ e ∈ fields', Kept exact depth e.2) → (fieldsEq numberEq fields fields' = true ↔ fields = fields') := by
      intro fields
      induction fields with
      | nil => rintro (_ | _) - - <;> simp [fieldsEq]
      | cons e fields ihfields =>
        rintro (_ | ⟨e',fields'⟩) hv hw
        · simp [fieldsEq]
        · rw [fieldsEq,Bool.and_eq_true,Bool.and_eq_true,beq_iff_eq,List.cons.injEq,Prod.ext_iff,
            ih (hv e (by simp)) (hw e' (by simp)),
            ihfields fields' (fun x hx => hv x (by simp [hx])) (fun x hx => hw x (by simp [hx]))]
    cases v with
    | null | bool | string => cases w <;> simp [eq]
    | number m =>
      cases w with
      | number n =>
        rw [eq,number.injEq]
        exact hnumber m n hv hw
      | _ => simp [eq]
    | array items =>
      cases w with
      | array items' =>
        rw [eq,array.injEq]
        exact hitems items items' hv hw
      | _ => simp [eq]
    | object fields =>
      cases w with
      | object fields' =>
        rw [eq,object.injEq]
        exact hfields fields fields' hv.2 hw.2
      | _ => simp [eq]

def decidableKept (exact : ν → Prop) [DecidablePred exact] : (depth : ℕ) → (v : JsonValue ν) →
    Decidable (Kept exact depth v)
  | depth, .null | depth, .bool _ | depth, .string _ => isTrue (by cases depth <;> trivial)
  | 0, .number n | _+1, .number n => inferInstanceAs (Decidable (exact n))
  | 0, .array _ | 0, .object _ => isFalse id
  | depth+1, .array items =>
    have : DecidablePred (Kept exact depth) := decidableKept exact depth
    inferInstanceAs (Decidable (∀ v ∈ items, Kept exact depth v))
  | depth+1, .object fields =>
    have : DecidablePred (Kept exact depth) := decidableKept exact depth
    inferInstanceAs (Decidable (fields.Pairwise (fun e f => e.1 < f.1) ∧ ∀ e ∈ fields, Kept exact depth e.2))

instance (exact : ν → Prop) [DecidablePred exact] (depth : ℕ) (v : JsonValue ν) : Decidable (Kept exact depth v) :=
  decidableKept exact depth v

/-! ### Values of naturals -/

mutual

def toJson : JsonValue ℕ → Json
  | .null => .null
  | .bool b => .bool b
  | .number n => .num n
  | .string s => .str s
  | .array items => .arr (itemsToJson items)
  | .object fields => .obj (fieldsToJson fields)

def itemsToJson : List (JsonValue ℕ) → List Json
  | [] => []
  | v::items => v.toJson::itemsToJson items

def fieldsToJson : List (String × JsonValue ℕ) → List (String × Json)
  | [] => []
  | (key,v)::fields => (key,v.toJson)::fieldsToJson fields

end

mutual

def ofJson : Json → JsonValue ℕ
  | .null => .null
  | .bool b => .bool b
  | .num n => .number n
  | .str s => .string s
  | .arr items => .array (itemsOfJson items)
  | .obj fields => .object (fieldsOfJson fields)

def itemsOfJson : List Json → List (JsonValue ℕ)
  | [] => []
  | v::items => ofJson v::itemsOfJson items

def fieldsOfJson : List (String × Json) → List (String × JsonValue ℕ)
  | [] => []
  | (key,v)::fields => (key,ofJson v)::fieldsOfJson fields

end

mutual

@[simp] theorem ofJson_toJson (v : JsonValue ℕ) : ofJson v.toJson = v := by
  match v with
  | .null | .bool _ | .number _ | .string _ => rfl
  | .array items => rw [toJson,ofJson,itemsOfJson_toJson items]
  | .object fields => rw [toJson,ofJson,fieldsOfJson_toJson fields]

theorem itemsOfJson_toJson (items : List (JsonValue ℕ)) : itemsOfJson (itemsToJson items) = items := by
  match items with
  | [] => rfl
  | v::items => rw [itemsToJson,itemsOfJson,ofJson_toJson v,itemsOfJson_toJson items]

theorem fieldsOfJson_toJson (fields : List (String × JsonValue ℕ)) : fieldsOfJson (fieldsToJson fields) = fields := by
  match fields with
  | [] => rfl
  | (key,v)::fields => rw [fieldsToJson,fieldsOfJson,ofJson_toJson v,fieldsOfJson_toJson fields]

end

end JsonValue
end North
