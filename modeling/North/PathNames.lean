import North.RuntimeContext
import North.Lib.Hex

/-! The names that the daemon gives to directories and files: the components of the repository
cache, the checkouts and the retained contexts. Different identities get different names, so that
no run reads or removes what belongs to another. -/
namespace North
namespace PathNames

open North.Runtime (RepositorySource InspectionError)

/-- `{byte:02x}` for each byte of a value. -/
def hexBytes (value : String) : String := String.ofList (Hex.text (Text.asBytes value))

def pathComponent (value : String) : String := "id-" ++ hexBytes value

def isAsciiHexdigit (byte : UInt8) : Bool :=
  (48 ≤ byte && byte ≤ 57) || (97 ≤ byte && byte ≤ 102) || (65 ≤ byte && byte ≤ 70)

/-- `is_cache_namespace_name`, from what `name.to_str()` gives. -/
def isCacheNamespaceName (name : Option String) : Bool :=
  match name with
  | none => false
  | some name =>
    match Text.stripPrefix name "id-" with
    | none => false
    | some encoded => !encoded.isEmpty && encoded.utf8ByteSize%2 == 0 &&
      (Text.asBytes encoded).all isAsciiHexdigit

structure InspectionRequest where
  sessionId : String
  taskId : String
  repository : RepositorySource
  deriving DecidableEq, Repr

def workspacePrefix : String := "workspace-"

def decimal (n : ℕ) : String := String.ofList (Digits.text 10 n)

/-- The last component of the path that `allocate_workspace` looks at. -/
def workspaceName (request : InspectionRequest) (processId sequence : ℕ) : String :=
  workspacePrefix ++ pathComponent request.sessionId ++ "-" ++ pathComponent request.taskId ++ "-" ++
    pathComponent request.repository.repositoryId ++ "-" ++ decimal processId ++ "-" ++ decimal sequence

/-- `root.join(name)` for a name that is no absolute path. -/
def join (root name : String) : String :=
  if root.isEmpty || root.toList.getLast? == some '/' then root ++ name else root ++ "/" ++ name

inductive Metadata
  | present
  | notFound
  | failed (error : String)
  deriving DecidableEq, Repr

/-- The loop of `allocate_workspace`. Each turn draws the next number of the counter, which all
threads share, and looks at the name with it; `none` is a loop still at work after these turns. -/
def allocateLoop (root : String) (request : InspectionRequest) (processId : ℕ) :
    List (ℕ × Metadata) → Option (Except InspectionError String)
  | [] => none
  | (sequence,metadata)::turns =>
    let path := join root (workspaceName request processId sequence)
    match metadata with
    | .present => allocateLoop root request processId turns
    | .notFound => some (.ok path)
    | .failed error => some (.error {
        phase := .workspace
        reason := "inspect workspace destination " ++ path ++ ": " ++ error })

def allocateWorkspace (validateRoot : Except InspectionError Unit) (root : String)
    (request : InspectionRequest) (processId : ℕ) (turns : List (ℕ × Metadata)) :
    Option (Except InspectionError String) :=
  match validateRoot with
  | .error error => some (.error error)
  | .ok _ => allocateLoop root request processId turns

def contextName (sessionId : String) : String := "clarification-" ++ hexBytes sessionId ++ ".json"

def contextPath (sessionDir sessionId : String) : String := join sessionDir (contextName sessionId)

/-- The name before its last dot, unless that dot is the first character. -/
def fileStem (name : List Char) : List Char :=
  match name.reverse.dropWhile (· != '.') with
  | [] => name
  | _::before => if before = [] then name else before.reverse

/-- `with_extension` as it changes the last component of a path, which is not `..`. -/
def withExtension (name extension : String) : String :=
  String.ofList (fileStem name.toList) ++ if extension.isEmpty then "" else "." ++ extension

def temporaryPath (sessionDir sessionId : String) : String :=
  join sessionDir (withExtension (contextName sessionId) "json.tmp")

/-! ### Hexadecimal components -/

theorem toList_hexBytes (value : String) : (hexBytes value).toList = Hex.text (Text.asBytes value) :=
  String.toList_ofList

theorem hexBytes_injective : Function.Injective hexBytes := by
  intro value value' h
  have hlist := congrArg String.toList h
  rw [toList_hexBytes,toList_hexBytes] at hlist
  exact Text.asBytes_injective (Hex.text_injective hlist)

theorem not_mem_hexBytes {c : Char} (hc : Digits.isDigit 16 c = false) (value : String) :
    c ∉ (hexBytes value).toList := by
  rw [toList_hexBytes]
  exact Hex.not_mem_text hc _

theorem toList_pathComponent (value : String) :
    (pathComponent value).toList = 'i' :: 'd' :: '-' :: (hexBytes value).toList := by
  rw [pathComponent,String.toList_append]
  rfl

theorem pathComponent_injective : Function.Injective pathComponent := by
  intro value value' h
  have hlist := congrArg String.toList h
  rw [toList_pathComponent,toList_pathComponent] at hlist
  simp only [List.cons.injEq,true_and] at hlist
  exact hexBytes_injective (String.toList_inj.mp hlist)

/-- A slash, and the backslash of other systems. -/
def isSeparator (c : Char) : Bool := c == '/' || c.toNat == 92

theorem pathComponent_no_separator {value : String} {c : Char} (hc : c ∈ (pathComponent value).toList) :
    isSeparator c = false := by
  rw [toList_pathComponent] at hc
  simp only [List.mem_cons] at hc
  rcases hc with rfl | rfl | rfl | hc
  · decide
  · decide
  · decide
  · by_contra hsep
    have hdigit : Digits.isDigit 16 c = true := by
      rw [toList_hexBytes] at hc
      exact Hex.mem_text hc
    have hslash : ('/').toNat = 47 := rfl
    simp only [isSeparator,Bool.not_eq_false,Bool.or_eq_true,beq_iff_eq] at hsep
    have hrange := Digits.isDigit_sixteen hdigit
    rcases hsep with rfl | hsep
    · omega
    · omega

theorem isAsciiHexdigit_of_digit {c : Char} (hc : Digits.isDigit 16 c = true) :
    isAsciiHexdigit (UInt8.ofNat c.toNat) = true := by
  have hrange := Digits.isDigit_sixteen hc
  simp only [isAsciiHexdigit,Bool.or_eq_true,Bool.and_eq_true,decide_eq_true_eq,UInt8.le_iff_toNat_le,
    UInt8.toNat_ofNat',UInt8.reduceToNat]
  omega

theorem asBytes_hexBytes (value : String) :
    Text.asBytes (hexBytes value) =
      (Hex.text (Text.asBytes value)).map fun c => UInt8.ofNat c.toNat := by
  refine Text.asBytes_ofList fun c hc => ?_
  have hrange := Digits.isDigit_sixteen (Hex.mem_text hc)
  omega

theorem pathComponent_recognised {value : String} (h : value ≠ "") :
    isCacheNamespaceName (some (pathComponent value)) = true := by
  have hstrip : Text.stripPrefix (pathComponent value) "id-" = some (hexBytes value) := by
    rw [Text.stripPrefix_eq_some,pathComponent,String.toList_append]
  have hlen : (hexBytes value).utf8ByteSize = 2*(Text.asBytes value).length := by
    rw [← Text.length_asBytes,asBytes_hexBytes,List.length_map,Hex.length_text]
  have hpos : 0 < (Text.asBytes value).length :=
    List.length_pos_of_ne_nil fun hnil => h (Text.asBytes_eq_nil.mp hnil)
  have hne : (hexBytes value).isEmpty = false := by
    rw [Bool.eq_false_iff,ne_eq,String.isEmpty_iff_utf8ByteSize_eq_zero,hlen]
    omega
  have hdigits : (Text.asBytes (hexBytes value)).all isAsciiHexdigit = true := by
    rw [asBytes_hexBytes,List.all_eq_true]
    intro byte hbyte
    obtain ⟨c,hc,rfl⟩ := List.mem_map.mp hbyte
    exact isAsciiHexdigit_of_digit (Hex.mem_text hc)
  simp [isCacheNamespaceName,hstrip,hne,hlen,hdigits]

/-! ### Checkout names -/

theorem decimal_injective : Function.Injective decimal := by
  intro n n' h
  have hlist := congrArg String.toList h
  simp only [decimal,String.toList_ofList] at hlist
  exact Digits.text_injective (by omega) (by omega) hlist

theorem dash_not_mem_decimal (n : ℕ) : '-' ∉ (decimal n).toList := by
  rw [decimal,String.toList_ofList]
  intro hmem
  have hdigit := Digits.mem_text (by omega) (by omega) hmem
  have hdash : Digits.isDigit 10 '-' = false := by decide
  rw [hdash] at hdigit
  cases hdigit

theorem dash_not_mem_hexBytes (value : String) : '-' ∉ (hexBytes value).toList :=
  not_mem_hexBytes (by decide) value

/-- The name with the digits of its five parts apart. -/
theorem toList_workspaceName (request : InspectionRequest) (processId sequence : ℕ) :
    (workspaceName request processId sequence).toList = "workspace-id-".toList ++
      ((hexBytes request.sessionId).toList ++ '-' :: 'i' :: 'd' :: '-' ::
        ((hexBytes request.taskId).toList ++ '-' :: 'i' :: 'd' :: '-' ::
          ((hexBytes request.repository.repositoryId).toList ++ '-' ::
            ((decimal processId).toList ++ '-' :: (decimal sequence).toList)))) := by
  simp [workspaceName,workspacePrefix,pathComponent]

/-- The five parts that a checkout's name is made of. -/
structure SameWorkspace (request request' : InspectionRequest) (processId processId' sequence sequence' : ℕ) :
    Prop where
  session : request.sessionId = request'.sessionId
  task : request.taskId = request'.taskId
  repository : request.repository.repositoryId = request'.repository.repositoryId
  process : processId = processId'
  sequence : sequence = sequence'

theorem workspaceName_determines {request request' : InspectionRequest}
    {processId processId' sequence sequence' : ℕ}
    (h : workspaceName request processId sequence = workspaceName request' processId' sequence') :
    SameWorkspace request request' processId processId' sequence sequence' := by
  have hlist := congrArg String.toList h
  rw [toList_workspaceName,toList_workspaceName,List.append_cancel_left_eq,
    Text.append_separator (dash_not_mem_hexBytes _) (dash_not_mem_hexBytes _)] at hlist
  obtain ⟨hsession,hlist⟩ := hlist
  simp only [List.cons.injEq,true_and] at hlist
  rw [Text.append_separator (dash_not_mem_hexBytes _) (dash_not_mem_hexBytes _)] at hlist
  obtain ⟨htask,hlist⟩ := hlist
  simp only [List.cons.injEq,true_and] at hlist
  rw [Text.append_separator (dash_not_mem_hexBytes _) (dash_not_mem_hexBytes _),
    Text.append_separator (dash_not_mem_decimal _) (dash_not_mem_decimal _)] at hlist
  obtain ⟨hrepository,hprocess,hsequence⟩ := hlist
  exact ⟨hexBytes_injective (String.toList_inj.mp hsession),
    hexBytes_injective (String.toList_inj.mp htask),
    hexBytes_injective (String.toList_inj.mp hrepository),
    decimal_injective (String.toList_inj.mp hprocess),
    decimal_injective (String.toList_inj.mp hsequence)⟩

theorem join_injective (root : String) : Function.Injective (join root) := by
  intro name name' h
  have hlist := congrArg String.toList h
  unfold join at hlist
  split_ifs at hlist <;> simp only [String.toList_append,List.append_cancel_left_eq] at hlist <;>
    exact String.toList_inj.mp hlist

/-- A path is given out for a number that was drawn and whose name was not there. -/
theorem allocateWorkspace_ok {validateRoot : Except InspectionError Unit} {root path : String}
    {request : InspectionRequest} {processId : ℕ} {turns : List (ℕ × Metadata)}
    (h : allocateWorkspace validateRoot root request processId turns = some (.ok path)) :
    ∃ sequence, (sequence,.notFound) ∈ turns ∧
      path = join root (workspaceName request processId sequence) := by
  cases validateRoot with
  | error error => simp [allocateWorkspace] at h
  | ok u =>
    simp only [allocateWorkspace] at h
    induction turns with
    | nil => simp [allocateLoop] at h
    | cons turn turns ih =>
      obtain ⟨sequence,metadata⟩ := turn
      cases metadata with
      | present =>
        obtain ⟨drawn,hmem,hpath⟩ := ih h
        exact ⟨drawn,List.mem_cons_of_mem _ hmem,hpath⟩
      | notFound =>
        simp only [allocateLoop,Option.some.injEq,Except.ok.injEq] at h
        exact ⟨sequence,List.mem_cons_self,h.symm⟩
      | failed error => simp [allocateLoop] at h

/-! ### Context files -/

theorem fileStem_append {xs ys : List Char} (hx : xs ≠ []) (hy : '.' ∉ ys) :
    fileStem (xs ++ '.' :: ys) = xs := by
  have hreverse : (xs ++ '.' :: ys).reverse = ys.reverse ++ '.' :: xs.reverse := by simp
  have hdrop : (ys.reverse ++ '.' :: xs.reverse).dropWhile (· != '.') = '.' :: xs.reverse := by
    rw [List.dropWhile_append_of_pos]
    · simp
    · intro c hc
      have hne : c ≠ '.' := fun h => hy (h ▸ List.mem_reverse.mp hc)
      simpa using hne
  simp [fileStem,hreverse,hdrop,hx]

theorem dot_not_mem_hexBytes (value : String) : '.' ∉ (hexBytes value).toList :=
  not_mem_hexBytes (by decide) value

theorem toList_contextName (sessionId : String) : (contextName sessionId).toList =
    "clarification-".toList ++ ((hexBytes sessionId).toList ++ '.' :: "json".toList) := by
  simp [contextName]

theorem toList_temporaryName (sessionId : String) :
    (withExtension (contextName sessionId) "json.tmp").toList =
      "clarification-".toList ++ ((hexBytes sessionId).toList ++ '.' :: "json.tmp".toList) := by
  have hstem : fileStem (contextName sessionId).toList =
      "clarification-".toList ++ (hexBytes sessionId).toList := by
    rw [toList_contextName,← List.append_assoc]
    exact fileStem_append (by simp) (by simp)
  rw [withExtension,hstem]
  simp

theorem contextName_injective : Function.Injective contextName := by
  intro sessionId sessionId' h
  have hlist := congrArg String.toList h
  rw [toList_contextName,toList_contextName,List.append_cancel_left_eq,
    Text.append_separator (dot_not_mem_hexBytes _) (dot_not_mem_hexBytes _)] at hlist
  exact hexBytes_injective (String.toList_inj.mp hlist.1)

theorem contextPath_injective (sessionDir : String) : Function.Injective (contextPath sessionDir) :=
  (join_injective sessionDir).comp contextName_injective

theorem contextPath_ne_temporaryPath (sessionDir sessionId sessionId' : String) :
    contextPath sessionDir sessionId ≠ temporaryPath sessionDir sessionId' := by
  intro h
  have hlist := congrArg String.toList (join_injective sessionDir h)
  rw [toList_contextName,toList_temporaryName,List.append_cancel_left_eq,
    Text.append_separator (dot_not_mem_hexBytes _) (dot_not_mem_hexBytes _)] at hlist
  exact absurd hlist.2 (by decide)

/-- Each name tells what it was made of: a component its value, a checkout its identities and
numbers, a context file its session. No component holds a separator, and no context has the name
of a temporary file. -/
theorem names_determine_identities :
    Function.Injective pathComponent ∧
    (∀ value, ∀ c ∈ (pathComponent value).toList, isSeparator c = false) ∧
    (∀ value, value ≠ "" → isCacheNamespaceName (some (pathComponent value)) = true) ∧
    (∀ request request' processId processId' sequence sequence',
      workspaceName request processId sequence = workspaceName request' processId' sequence' →
        SameWorkspace request request' processId processId' sequence sequence') ∧
    (∀ validateRoot validateRoot' root request request' processId processId' turns turns' path,
      allocateWorkspace validateRoot root request processId turns = some (.ok path) →
      allocateWorkspace validateRoot' root request' processId' turns' = some (.ok path) →
        ∃ sequence, (sequence,.notFound) ∈ turns ∧ (sequence,.notFound) ∈ turns' ∧
          SameWorkspace request request' processId processId' sequence sequence) ∧
    (∀ sessionDir, Function.Injective (contextPath sessionDir)) ∧
    (∀ sessionDir sessionId sessionId',
      contextPath sessionDir sessionId ≠ temporaryPath sessionDir sessionId') := by
  refine ⟨pathComponent_injective,fun _ _ hc => pathComponent_no_separator hc,
    fun _ => pathComponent_recognised,fun _ _ _ _ _ _ => workspaceName_determines,?_,
    contextPath_injective,contextPath_ne_temporaryPath⟩
  intro validateRoot validateRoot' root request request' processId processId' turns turns' path h h'
  obtain ⟨sequence,hdrawn,hpath⟩ := allocateWorkspace_ok h
  obtain ⟨sequence',hdrawn',hpath'⟩ := allocateWorkspace_ok h'
  have hsame := workspaceName_determines (join_injective root (hpath.symm.trans hpath'))
  obtain rfl := hsame.sequence
  exact ⟨sequence,hdrawn,hdrawn',hsame⟩

def sampleRequest : InspectionRequest :=
  ⟨"session-1","task/1",⟨"../cache","https://example.test/repo.git"⟩⟩

/-- The first name drawn is taken. -/
def sampleTurns : List (ℕ × Metadata) := [(1,.present),(2,.notFound)]

theorem sample_names_determined : isCacheNamespaceName (some (pathComponent "../cache")) = true ∧
    ∃ sequence, (sequence,.notFound) ∈ sampleTurns ∧ (sequence,.notFound) ∈ sampleTurns ∧
      SameWorkspace sampleRequest sampleRequest 7 7 sequence sequence := by
  obtain ⟨-,-,hrecognised,-,hallocated,-⟩ := names_determine_identities
  have hpath : allocateWorkspace (.ok ()) "/var/north" sampleRequest 7 sampleTurns =
      some (.ok (join "/var/north" (workspaceName sampleRequest 7 2))) := rfl
  exact ⟨hrecognised "../cache" (by decide),hallocated _ _ _ _ _ _ _ _ _ _ hpath hpath⟩

end PathNames
end North
