import North.RequirementRuns
import North.Lib.Prog
import North.Lib.Json

/-! The requests that write the texts of a requirement: their normalisation, and the limits
that every stored requirement keeps. -/
namespace North
namespace Requests

open Machine Domain

inductive RequirementHttpError
  | badRequest
  deriving DecidableEq, Repr

def maxTitle : ℕ := 500

def maxText : ℕ := 10000

def maxItems : ℕ := 100

def randomHex {n : ℕ} (draw : Fin n → Fin 256) : String :=
  String.ofList ((List.ofFn draw).flatMap fun b =>
    [Json.hexDigit (b.val/16),Json.hexDigit (b.val%16)])

def boundedText (value : String) (max : ℕ) : Option String :=
  let value := Text.trim value
  if value.isEmpty = false ∧ value.utf8ByteSize ≤ max then some value else none

def normalizeEditText (value : Option String) (max : ℕ) (allowEmpty : Bool) :
    Except RequirementHttpError (Option String) :=
  match value with
  | none => .ok none
  | some value =>
    let value := Text.trim value
    if max < value.utf8ByteSize ∨ (allowEmpty = false ∧ value.isEmpty) then .error .badRequest
    else .ok (some value)

def normalizeEditList (values : Option (List String)) (maxItems maxItem : ℕ) :
    Except RequirementHttpError (Option (List String)) :=
  match values with
  | none => .ok none
  | some values =>
    if maxItems < values.length then .error .badRequest
    else match values.mapM fun value => boundedText value maxItem with
      | none => .error .badRequest
      | some values => .ok (some values)

structure CreateRequirementRequest where
  title : String
  description : String
  deriving DecidableEq, Repr

structure RequirementEditRequest where
  expectedStateVersion : Option ℕ := none
  title : Option String := none
  description : Option String := none
  summary : Option String := none
  acceptanceCriteria : Option (List String) := none
  assumptions : Option (List String) := none
  openQuestions : Option (List String) := none
  deriving DecidableEq, Repr

def RequirementEditRequest.intoDomain (self : RequirementEditRequest) :
    Except RequirementHttpError (ℕ × RequirementEdit) := do
  let expectedStateVersion ← self.expectedStateVersion.elim (.error .badRequest) .ok
  let title ← normalizeEditText self.title maxTitle false
  let description ← normalizeEditText self.description maxText false
  let summary ← normalizeEditText self.summary maxText true
  let acceptanceCriteria ← normalizeEditList self.acceptanceCriteria maxItems maxText
  let assumptions ← normalizeEditList self.assumptions maxItems maxText
  let openQuestions ← normalizeEditList self.openQuestions maxItems maxText
  return (expectedStateVersion,{
    title := title
    description := description
    summary := summary
    acceptanceCriteria := acceptanceCriteria
    assumptions := assumptions
    openQuestions := openQuestions })

def createRequirement (draw : Fin 16 → Fin 256) (actor : String) (payload : CreateRequirementRequest) :
    Except RequirementHttpError Requirement :=
  match boundedText payload.title maxTitle, boundedText payload.description maxText with
  | some title, some description => .ok (Requirement.new (randomHex draw) title description actor)
  | _, _ => .error .badRequest

/-- A request for a requirement that is stored: an edit of its texts, or one of the operations
that leave them alone. -/
inductive Change
  | edit (request : RequirementEditRequest)
  | beginDiscussion
  | markReady (assessment : ReadinessAssessment)
  | accept
  | reject
  | requestChanges
  | reopen
  deriving DecidableEq, Repr

/-- The domain operation behind a request, if it gets that far. -/
def Change.operation (r : Requirement) : Change → Option Operation
  | .edit request =>
    match request.intoDomain with
    | .ok normalized =>
      if r.stateVersion = normalized.1 then some (.applyEdit normalized.2) else none
    | .error _ => none
  | .beginDiscussion => some .beginDiscussion
  | .markReady assessment => some (.markReady assessment)
  | .accept => some .accept
  | .reject => some .reject
  | .requestChanges => some .requestChanges
  | .reopen => some .reopen

def change (r : Requirement) (c : Change) : Requirement :=
  match c.operation r with
  | some op => (op.apply r).2
  | none => r

/-- A created requirement after some requests. -/
def stored (created : Requirement) (changes : List Change) : Requirement := changes.foldl change created

/-- A requirement that the create and edit requests, with the lifecycle between them, lead to. -/
def Stored (r : Requirement) : Prop :=
  ∃ draw actor payload created changes,
    createRequirement draw actor payload = .ok created ∧ r = stored created changes

/-! ### The limits -/

/-- A text within a limit, with a letter in it unless it may be empty. -/
structure TextWithin (max : ℕ) (allowEmpty : Bool) (value : String) : Prop where
  size : value.utf8ByteSize ≤ max
  filled : allowEmpty = false → Text.blank value = false

structure ListWithin (values : List String) : Prop where
  length : values.length ≤ maxItems
  items : ∀ value ∈ values, TextWithin maxText false value

/-- What every stored requirement keeps. -/
structure Limits (r : Requirement) : Prop where
  id : ∃ draw : Fin 16 → Fin 256, r.id = randomHex draw
  revision : 0 < r.revision ∧ r.revision ≤ u64Max
  title : TextWithin maxTitle false r.title
  description : TextWithin maxText false r.description
  summary : TextWithin maxText true r.summary
  acceptanceCriteria : ListWithin r.acceptanceCriteria
  assumptions : ListWithin r.assumptions
  openQuestions : ListWithin r.openQuestions

theorem isWhitespace_hexDigit {n : ℕ} (h : n < 16) : Text.isWhitespace (Json.hexDigit n) = false := by
  interval_cases n <;> decide

theorem blank_of_head {c : Char} {cs : List Char} (h : Text.isWhitespace c = false) :
    Text.blank (String.ofList (c::cs)) = false := by
  rw [Bool.eq_false_iff]
  intro hblank
  have hall := (Text.blank_iff _).mp hblank
  rw [String.toList_ofList] at hall
  exact absurd (hall c (by simp)) (by simp [h])

theorem blank_randomHex {n : ℕ} (draw : Fin (n+1) → Fin 256) : Text.blank (randomHex draw) = false := by
  unfold randomHex
  rw [List.ofFn_succ,List.flatMap_cons]
  exact blank_of_head (isWhitespace_hexDigit (by have := (draw 0).isLt; omega))

theorem boundedText_some {value kept : String} {max : ℕ} (h : boundedText value max = some kept) :
    TextWithin max false kept := by
  simp only [boundedText] at h
  split_ifs at h with hkept
  obtain rfl := Option.some.inj h
  exact ⟨hkept.2,fun _ => by rw [Text.blank_trim]; exact hkept.1⟩

theorem normalizeEditText_ok {value kept : Option String} {max : ℕ} {allowEmpty : Bool}
    (h : normalizeEditText value max allowEmpty = .ok kept) :
    ∀ text ∈ kept, TextWithin max allowEmpty text := by
  cases value with
  | none =>
    obtain rfl := Except.ok.inj h
    simp
  | some value =>
    simp only [normalizeEditText] at h
    split_ifs at h with hbad
    obtain rfl := Except.ok.inj h
    push Not at hbad
    rintro text ⟨⟩
    refine ⟨hbad.1,fun hfilled => ?_⟩
    rw [Text.blank_trim]
    simpa [Text.blank] using hbad.2 hfilled

theorem mapM_boundedText {values kept : List String} {max : ℕ}
    (h : values.mapM (fun value => boundedText value max) = some kept) :
    kept.length = values.length ∧ ∀ text ∈ kept, TextWithin max false text := by
  induction values generalizing kept with
  | nil =>
    obtain rfl : [] = kept := by simpa using h
    simp
  | cons value values ih =>
    simp only [List.mapM_cons,Option.bind_eq_bind,Option.bind_eq_some_iff] at h
    obtain ⟨text,htext,rest,hrest,hkept⟩ := h
    obtain rfl := Option.some.inj hkept
    obtain ⟨hlength,hitems⟩ := ih hrest
    refine ⟨by simp [hlength],fun t ht => ?_⟩
    rcases List.mem_cons.mp ht with rfl | ht
    · exact boundedText_some htext
    · exact hitems t ht

theorem normalizeEditList_ok {values kept : Option (List String)}
    (h : normalizeEditList values maxItems maxText = .ok kept) : ∀ list ∈ kept, ListWithin list := by
  cases values with
  | none =>
    obtain rfl := Except.ok.inj h
    simp
  | some values =>
    simp only [normalizeEditList] at h
    split_ifs at h with hlong
    cases hmap : values.mapM fun value => boundedText value maxText with
    | none => simp [hmap] at h
    | some list =>
      rw [hmap] at h
      obtain rfl := Except.ok.inj h
      obtain ⟨hlength,hitems⟩ := mapM_boundedText hmap
      rintro _ ⟨⟩
      exact ⟨by omega,hitems⟩

/-- What the fields of an edit keep, where they are set. -/
structure EditWithin (e : RequirementEdit) : Prop where
  title : ∀ text ∈ e.title, TextWithin maxTitle false text
  description : ∀ text ∈ e.description, TextWithin maxText false text
  summary : ∀ text ∈ e.summary, TextWithin maxText true text
  acceptanceCriteria : ∀ list ∈ e.acceptanceCriteria, ListWithin list
  assumptions : ∀ list ∈ e.assumptions, ListWithin list
  openQuestions : ∀ list ∈ e.openQuestions, ListWithin list

theorem intoDomain_ok {request : RequirementEditRequest} {expected : ℕ} {edit : RequirementEdit}
    (h : request.intoDomain = .ok (expected,edit)) : EditWithin edit := by
  simp only [RequirementEditRequest.intoDomain,bind_eq_ok] at h
  obtain ⟨_,-,_,htitle,_,hdescription,_,hsummary,_,hcriteria,_,hassumptions,_,hquestions,h⟩ := h
  obtain ⟨-,rfl⟩ := Prod.mk.inj (Except.ok.inj h)
  exact ⟨normalizeEditText_ok htitle,normalizeEditText_ok hdescription,normalizeEditText_ok hsummary,
    normalizeEditList_ok hcriteria,normalizeEditList_ok hassumptions,normalizeEditList_ok hquestions⟩

theorem createRequirement_limits {draw : Fin 16 → Fin 256} {actor : String}
    {payload : CreateRequirementRequest} {r : Requirement}
    (h : createRequirement draw actor payload = .ok r) : Limits r := by
  unfold createRequirement at h
  cases htitle : boundedText payload.title maxTitle with
  | none => simp [htitle] at h
  | some title =>
    cases hdescription : boundedText payload.description maxText with
    | none => simp [htitle,hdescription] at h
    | some description =>
      rw [htitle,hdescription] at h
      obtain rfl := Except.ok.inj h
      have hnil : ListWithin [] := ⟨by simp,by simp⟩
      exact ⟨⟨draw,rfl⟩,⟨by simp [Requirement.new],by simp [Requirement.new,u64Max]⟩,boundedText_some htitle,
        boundedText_some hdescription,⟨by simp [Requirement.new],by simp⟩,hnil,hnil,hnil⟩

theorem getD_of {α : Type} {P : α → Prop} {value : Option α} {old : α} (h : ∀ new ∈ value, P new)
    (hold : P old) : P (value.getD old) := by
  cases value with
  | none => exact hold
  | some new => exact h new rfl

theorem applyEdit_limits {r : Requirement} {e : RequirementEdit} (h : Limits r) (he : EditWithin e) :
    Limits (r.applyEdit e).2 := by
  unfold Requirement.applyEdit
  split
  · exact h
  simp only
  split
  · exact h
  cases hrevision : checkedSucc u64Max r.revision with
  | none => exact h
  | some revision =>
    cases hversion : checkedSucc u64Max r.stateVersion with
    | none => exact h
    | some version =>
      obtain ⟨hlt,rfl⟩ := checkedSucc_eq_some.mp hrevision
      exact ⟨h.id,⟨by simp,hlt⟩,getD_of he.title h.title,getD_of he.description h.description,
        getD_of he.summary h.summary,getD_of he.acceptanceCriteria h.acceptanceCriteria,
        getD_of he.assumptions h.assumptions,getD_of he.openQuestions h.openQuestions⟩

/-- An operation that is no edit leaves the texts and the revision. -/
theorem effect_limits {op : Operation} {r r' : Requirement} {result : Except OperationError Unit}
    (heffect : Operation.Effect op r result r') (h : Limits r) (hop : ∀ e, op ≠ .applyEdit e) :
    Limits r' := by
  cases heffect with
  | refused e => exact h
  | noop edit hedit => exact h
  | moved source next at_ edge gates =>
    exact ⟨h.id,h.revision,h.title,h.description,h.summary,h.acceptanceCriteria,h.assumptions,h.openQuestions⟩
  | edited edit r' hedit => exact absurd hedit (hop edit)

theorem apply_limits {r : Requirement} {op : Operation} (h : Limits r)
    (hedit : ∀ e, op = .applyEdit e → EditWithin e) : Limits (op.apply r).2 := by
  by_cases hop : ∃ e, op = .applyEdit e
  · obtain ⟨e,rfl⟩ := hop
    exact applyEdit_limits h (hedit e rfl)
  · exact effect_limits (apply_effect op r) h fun e heq => hop ⟨e,heq⟩

theorem change_limits {r : Requirement} (c : Change) (h : Limits r) : Limits (change r c) := by
  unfold change
  cases c with
  | edit request =>
    simp only [Change.operation]
    cases hedit : request.intoDomain with
    | error e => exact h
    | ok normalized =>
      simp only
      split_ifs
      · exact apply_limits h fun e he => by
          obtain rfl := Operation.applyEdit.inj he
          exact intoDomain_ok hedit
      · exact h
  | _ => exact apply_limits h (by simp)

/-- A stored requirement keeps the limits of its creation and of its edits. -/
theorem Stored.limits {r : Requirement} (h : Stored r) : Limits r := by
  obtain ⟨draw,actor,payload,created,changes,hcreate,rfl⟩ := h
  induction changes using List.reverseRecOn with
  | nil => exact createRequirement_limits hcreate
  | append_singleton changes c ih =>
    rw [stored,List.foldl_append]
    exact change_limits c ih

end Requests
end North
