import North.StartContext
import North.Lib.JsonSize
import Mathlib.Data.Nat.Digits.Lemmas

/-! The sizes of a start: of the frame that carries it to the daemon, and of the context that the
runtime retains of it, against the limits of the transport and of the runtime. -/
namespace North

namespace Runtime

open AssessmentHandoff (RepositoryReview)

/-! ### The retained context as JSON -/

def RequirementSnapshot.toValue (s : RequirementSnapshot) : Json := .obj [
  ("id",.str s.id),
  ("revision",.num s.revision),
  ("title",.str s.title),
  ("description",.str s.description),
  ("summary",.str s.summary),
  ("acceptance_criteria",.strings s.acceptanceCriteria),
  ("assumptions",.strings s.assumptions),
  ("open_questions",.strings s.openQuestions)]

def TurnRole.asStr : TurnRole → String
  | .requester => "Requester"
  | .agent => "Agent"
  | .system => "System"

def ConversationTurn.toValue (t : ConversationTurn) : Json := .obj [
  ("message_id",.str t.messageId),
  ("role",.str t.role.asStr),
  ("content",.str t.content)]

def AuthorizedRepository.toValue (r : AuthorizedRepository) : Json := .obj [
  ("repository_id",.str r.repositoryId),
  ("name",.str r.name),
  ("url",.str r.url),
  ("description",.str r.description)]

def StartInput.toValue (s : StartInput) : Json := .obj [
  ("requirement",s.requirement.toValue),
  ("conversation",.arr (s.conversation.map ConversationTurn.toValue)),
  ("repositories",.arr (s.repositories.map AuthorizedRepository.toValue))]

def reviewValue (r : RepositoryReview) : Json := .obj [
  ("repository_id",.str r.repositoryId),
  ("commit_sha",.str r.commitSha)]

def SourceFileEvidence.toValue (f : SourceFileEvidence) : Json := .obj [
  ("path",.str f.path),
  ("content",.str f.content)]

def RepositoryEvidence.toValue (e : RepositoryEvidence) : Json := .obj [
  ("repository_id",.str e.repositoryId),
  ("commit_sha",.str e.commitSha),
  ("files",.arr (e.files.map SourceFileEvidence.toValue))]

def StoredContext.toValue (c : StoredContext) : Json := .obj [
  ("requirement_id",.str c.requirementId),
  ("requirement_revision",.num c.requirementRevision),
  ("repositories_reviewed",.arr (c.repositoriesReviewed.map reviewValue)),
  ("evidence",.arr (c.evidence.map RepositoryEvidence.toValue)),
  ("context",match c.context with
    | some start => start.toValue
    | none => .null)]

/-- The length of `serde_json::to_vec`. -/
def serializedSize (c : StoredContext) : ℕ := (Json.compact c.toValue).utf8ByteSize

/-! ### The evidence budget -/

def totalEvidence (inspected : List (RepositoryReview × RepositoryEvidence)) : ℕ × ℕ :=
  ((inspected.map fun p => (evidenceSize p.2).1).sum,(inspected.map fun p => (evidenceSize p.2).2).sum)

structure WithinBudget (inspected : List (RepositoryReview × RepositoryEvidence)) : Prop where
  bytes : (totalEvidence inspected).1 ≤ maxTotalEvidenceBytes
  files : (totalEvidence inspected).2 ≤ maxTotalEvidenceFiles

end Runtime

namespace Context

open Machine Protocol Domain Requests Json
open AssessmentHandoff (RepositoryReview)
open North.Runtime (RepositoryEvidence)

def maxFrameSize : ℕ := 1024*1024

def maxMessageSize : ℕ := 8*1024*1024

/-! ### The runtime's copy of a start -/

def turnRole : ConversationRoleWire → Runtime.TurnRole
  | .requester => .requester
  | .agent => .agent
  | .system => .system

/-- `command_to_runtime` of a start. -/
def startInput (start : SessionStart) : Runtime.StartInput where
  requirement := {
    id := start.requirement.id
    revision := start.requirement.revision
    title := start.requirement.title
    description := start.requirement.description
    summary := start.requirement.summary
    acceptanceCriteria := start.requirement.acceptanceCriteria
    assumptions := start.requirement.assumptions
    openQuestions := start.requirement.openQuestions }
  conversation := start.excerpt.map fun m => ⟨m.messageId,turnRole m.role,m.content⟩
  repositories := start.repositories.map fun r => ⟨r.repositoryId,r.name,r.url,r.description⟩

/-! ### Sizes of the stored data -/

def requirementSize (r : Requirement) : ℕ :=
  110 + textSize r.id + digitCount r.revision + textSize r.title + textSize r.description + textSize r.summary +
    seqSize (r.acceptanceCriteria.map textSize) + seqSize (r.assumptions.map textSize) +
    seqSize (r.openQuestions.map textSize)

def roleSize : ConversationRole → ℕ
  | .requester => 11
  | .agent => 7
  | .system => 8

def messageSize (m : ConversationMessageSnapshot) : ℕ :=
  34 + textSize m.messageId + roleSize m.role + textSize m.content

def repositorySize (r : RepositoryRecord) : ℕ :=
  48 + textSize r.id + textSize r.name + textSize r.url + textSize r.description

/-- The bytes of a requirement, of messages and of repositories in one record. -/
def startSize (r : Requirement) (messages : List ConversationMessageSnapshot)
    (repositories : List RepositoryRecord) : ℕ :=
  48 + requirementSize r + seqSize (messages.map messageSize) + seqSize (repositories.map repositorySize)

def reviewSize (r : RepositoryReview) : ℕ := 32 + textSize r.repositoryId + textSize r.commitSha

def fileSize (f : Runtime.SourceFileEvidence) : ℕ := 20 + textSize f.path + textSize f.content

def evidenceSize (e : RepositoryEvidence) : ℕ :=
  41 + textSize e.repositoryId + textSize e.commitSha + seqSize (e.files.map fileSize)

/-- The bytes of the context that is retained of a start and of what was inspected for it. -/
def retainedSize (r : Requirement) (messages : List ConversationMessageSnapshot)
    (repositories : List RepositoryRecord) (inspected : List (RepositoryReview × RepositoryEvidence)) : ℕ :=
  91 + textSize r.id + digitCount r.revision + seqSize (inspected.map fun p => reviewSize p.1) +
    seqSize (inspected.map fun p => evidenceSize p.2) + startSize r messages repositories

/-- Of a conversation, the start message and the longest end of the others that fits beside it. -/
def keptMessages (slice : MessageSlice) (startMessage : ConversationMessageSnapshot) :
    List ConversationMessageSnapshot :=
  startMessage::Suffix.longest (fun rest => decide (Fits startMessage rest))
    (others startMessage.messageId slice.messages)

/-! ### The sizes of what is written -/

theorem seqSize_perm {sizes sizes' : List ℕ} (h : sizes.Perm sizes') : seqSize sizes = seqSize sizes' := by
  rw [seqSize,seqSize,(h.map _).sum_eq]

theorem key_sizes : textSize "id" = 4 ∧ textSize "revision" = 10 ∧ textSize "title" = 7 ∧
    textSize "description" = 13 ∧ textSize "summary" = 9 ∧ textSize "acceptance_criteria" = 21 ∧
    textSize "assumptions" = 13 ∧ textSize "open_questions" = 16 ∧ textSize "message_id" = 12 ∧
    textSize "role" = 6 ∧ textSize "content" = 9 ∧ textSize "repository_id" = 15 ∧ textSize "name" = 6 ∧
    textSize "url" = 5 ∧ textSize "requirement" = 13 ∧ textSize "conversation" = 14 ∧
    textSize "repositories" = 14 ∧ textSize "excerpt" = 9 := by decide

/-- A record of some fields takes its braces, a comma or brace behind each, and the colons. -/
theorem record_size {fields : List (String × Json)} (h : fields ≠ []) :
    (Json.obj fields).size = 1 + (fields.map fun e => textSize e.1 + e.2.size + 2).sum := by
  obtain ⟨e,rest,rfl⟩ := List.exists_cons_of_ne_nil h
  have hshift : ((e::rest).map fun e => textSize e.1 + 1 + e.2.size).map (· + 1) =
      (e::rest).map fun e => textSize e.1 + e.2.size + 2 := by
    rw [List.map_map]
    refine List.map_congr_left fun e _ => ?_
    simp only [Function.comp_apply]
    omega
  rw [size_obj,seqSize,hshift,List.map_cons,List.sum_cons]
  omega

theorem requirement_size (r : Requirement) :
    (startInput (startOf r [] [])).requirement.toValue.size = requirementSize r ∧
      (startOf r [] []).requirement.toValue.size = requirementSize r := by
  have h : (startOf r [] []).requirement.toValue.size = requirementSize r := by
    rw [RequirementContext.toValue,record_size (by simp)]
    simp only [startOf,RequirementSnapshot.context,RequirementSnapshot.ofRequirement,List.map_cons,
      List.map_nil,List.sum_cons,List.sum_nil,key_sizes,size_str,size_num,size_strings,requirementSize]
    omega
  exact ⟨h,h⟩

theorem message_size (m : ConversationMessageSnapshot) : m.context.toValue.size = messageSize m := by
  have hrole : textSize m.role.wire.asStr = roleSize m.role := by cases m.role <;> decide
  rw [ConversationMessageContext.toValue,record_size (by simp)]
  simp only [ConversationMessageSnapshot.context,List.map_cons,List.map_nil,List.sum_cons,List.sum_nil,
    key_sizes,size_str,hrole,messageSize]
  omega

theorem turn_size (m : ConversationMessageSnapshot) :
    (⟨m.messageId,turnRole m.role.wire,m.content⟩ : Runtime.ConversationTurn).toValue.size = messageSize m := by
  have hrole : textSize (turnRole m.role.wire).asStr = roleSize m.role := by cases m.role <;> decide
  rw [Runtime.ConversationTurn.toValue,record_size (by simp)]
  simp only [List.map_cons,List.map_nil,List.sum_cons,List.sum_nil,key_sizes,size_str,hrole,messageSize]
  omega

theorem repository_size (r : RepositoryRecord) :
    (repositorySnapshot r).context.toValue.size = repositorySize r := by
  rw [RepositoryContext.toValue,record_size (by simp)]
  simp only [RepositorySnapshot.context,repositorySnapshot,List.map_cons,List.map_nil,List.sum_cons,
    List.sum_nil,key_sizes,size_str,repositorySize]
  omega

theorem start_size (r : Requirement) (excerpt : List ConversationMessageSnapshot)
    (repositories : List RepositoryRecord) :
    (startInput (startOf r excerpt repositories)).toValue.size = startSize r excerpt repositories := by
  have hrequirement : (startInput (startOf r excerpt repositories)).requirement.toValue.size =
      requirementSize r := (requirement_size r).1
  have hmessages : ((startInput (startOf r excerpt repositories)).conversation.map
      Runtime.ConversationTurn.toValue).map Json.size = excerpt.map messageSize := by
    simp only [startInput,startOf,List.map_map]
    exact List.map_congr_left fun m _ => turn_size m
  have hrepositories : ((startInput (startOf r excerpt repositories)).repositories.map
      Runtime.AuthorizedRepository.toValue).map Json.size = repositories.map repositorySize := by
    simp only [startInput,startOf,List.map_map]
    exact List.map_congr_left fun r _ => repository_size r
  rw [Runtime.StartInput.toValue,record_size (by simp)]
  simp only [List.map_cons,List.map_nil,List.sum_cons,List.sum_nil,key_sizes,size_arr,hrequirement,hmessages,
    hrepositories,startSize]
  omega

theorem wire_size (r : Requirement) (excerpt : List ConversationMessageSnapshot)
    (repositories : List RepositoryRecord) :
    (startOf r excerpt repositories).toValue.size = 12 + startSize r excerpt repositories := by
  have hrequirement : (startOf r excerpt repositories).requirement.toValue.size = requirementSize r :=
    (requirement_size r).2
  have hmessages : ((startOf r excerpt repositories).excerpt.map
      ConversationMessageContext.toValue).map Json.size = excerpt.map messageSize := by
    simp only [startOf,List.map_map]
    exact List.map_congr_left fun m _ => message_size m
  have hrepositories : ((startOf r excerpt repositories).repositories.map
      RepositoryContext.toValue).map Json.size = repositories.map repositorySize := by
    simp only [startOf,List.map_map]
    exact List.map_congr_left fun r _ => repository_size r
  rw [SessionStart.toValue,record_size (by simp)]
  simp only [List.map_cons,List.map_nil,List.sum_cons,List.sum_nil,key_sizes,size_arr,hrequirement,hmessages,
    hrepositories,record_size (List.cons_ne_nil _ _),startSize]
  omega

theorem context_key_sizes : textSize "requirement_id" = 16 ∧ textSize "requirement_revision" = 22 ∧
    textSize "repositories_reviewed" = 23 ∧ textSize "evidence" = 10 ∧ textSize "context" = 9 ∧
    textSize "commit_sha" = 12 ∧ textSize "files" = 7 ∧ textSize "path" = 6 := by decide

theorem review_size (r : RepositoryReview) : (Runtime.reviewValue r).size = reviewSize r := by
  rw [Runtime.reviewValue,record_size (by simp)]
  simp only [List.map_cons,List.map_nil,List.sum_cons,List.sum_nil,key_sizes,context_key_sizes,size_str,reviewSize]
  omega

theorem file_size (f : Runtime.SourceFileEvidence) : f.toValue.size = fileSize f := by
  rw [Runtime.SourceFileEvidence.toValue,record_size (by simp)]
  simp only [List.map_cons,List.map_nil,List.sum_cons,List.sum_nil,key_sizes,context_key_sizes,size_str,fileSize]
  omega

theorem evidence_size (e : RepositoryEvidence) : e.toValue.size = evidenceSize e := by
  have hfiles : (e.files.map Runtime.SourceFileEvidence.toValue).map Json.size = e.files.map fileSize := by
    rw [List.map_map]
    exact List.map_congr_left fun f _ => file_size f
  rw [Runtime.RepositoryEvidence.toValue,record_size (by simp)]
  simp only [List.map_cons,List.map_nil,List.sum_cons,List.sum_nil,key_sizes,context_key_sizes,size_str,
    size_arr,hfiles,evidenceSize]
  omega

/-- The bytes of the context that `persist_context` is given once the repositories are inspected. -/
theorem retained_size (r : Requirement) (excerpt : List ConversationMessageSnapshot)
    (repositories : List RepositoryRecord) (inspected : List (RepositoryReview × RepositoryEvidence)) :
    Runtime.serializedSize (Runtime.startedContext (startInput (startOf r excerpt repositories)) inspected) =
      retainedSize r excerpt repositories inspected := by
  have hreviews : ((inspected.map (·.1)).map Runtime.reviewValue).map Json.size =
      inspected.map fun p => reviewSize p.1 := by
    simp only [List.map_map]
    exact List.map_congr_left fun p _ => review_size p.1
  have hevidence : ((inspected.map (·.2)).map Runtime.RepositoryEvidence.toValue).map Json.size =
      inspected.map fun p => evidenceSize p.2 := by
    simp only [List.map_map]
    exact List.map_congr_left fun p _ => evidence_size p.2
  have hid : (startInput (startOf r excerpt repositories)).requirement.id = r.id := rfl
  have hrevision : (startInput (startOf r excerpt repositories)).requirement.revision = r.revision := rfl
  rw [Runtime.serializedSize,utf8ByteSize_compact,Runtime.StoredContext.toValue,record_size (by simp)]
  simp only [Runtime.startedContext,List.map_cons,List.map_nil,List.sum_cons,List.sum_nil,context_key_sizes,
    size_str,size_num,size_arr,hid,hrevision,hreviews,hevidence,start_size,retainedSize]
  omega

theorem frame_key_sizes : textSize "frame" = 7 ∧ textSize "payload" = 9 ∧ textSize "command_id" = 12 ∧
    textSize "session_id" = 12 ∧ textSize "server_command_seq" = 20 ∧ textSize "sent_at" = 9 ∧
    textSize "schema_version" = 16 ∧ textSize "command" = 9 ∧ textSize "type" = 6 ∧
    textSize "session.start" = 15 ∧ digitCount schemaVersion = 1 := by decide

theorem frame_size (runId commandId sentAt : String) (sequence : ℕ) (start : SessionStart) :
    (CommandEnvelope.frame ⟨commandId,runId,sequence,sentAt,schemaVersion,.sessionStart start⟩).size =
      157 + textSize commandId + textSize runId + digitCount sequence + textSize sentAt + start.toValue.size := by
  rw [CommandEnvelope.frame,record_size (by simp)]
  simp only [CommandEnvelope.toValue,Command.toValue,List.map_cons,List.map_nil,List.sum_cons,List.sum_nil,
    frame_key_sizes,size_str,size_num,record_size (List.cons_ne_nil _ _)]
  omega

theorem charSize_hexDigit {n : ℕ} (h : n < 16) : charSize (hexDigit n) = 1 := by
  interval_cases n <;> decide

theorem textSize_randomHex {n : ℕ} (draw : Fin n → Fin 256) : textSize (randomHex draw) = 2 + 2*n := by
  have hall : ∀ bytes : List (Fin 256), ((bytes.flatMap fun b => [hexDigit (b.val/16),hexDigit (b.val%16)]).map
      charSize).sum = 2*bytes.length := by
    intro bytes
    induction bytes with
    | nil => rfl
    | cons b bytes ih =>
      have hb := b.isLt
      simp only [List.flatMap_cons,List.cons_append,List.nil_append,List.map_cons,List.sum_cons,
        charSize_hexDigit (show b.val/16 < 16 by omega),charSize_hexDigit (show b.val%16 < 16 by omega),ih,
        List.length_cons]
      omega
  rw [textSize,randomHex,String.toList_ofList,hall,List.length_ofFn]

theorem digitCount_le {n : ℕ} (h : n ≤ u64Max) : digitCount n ≤ 20 := by
  unfold digitCount numChars
  split_ifs
  · simp
  · rw [List.length_map,List.length_reverse]
    exact (Nat.digits_length_le_iff (by omega) n).mpr (lt_of_le_of_lt h (by decide))

theorem charSize_digit {c : Char} (h : c.isDigit = true) : charSize c = 1 := by
  obtain ⟨hlow,hhigh⟩ := Char.isDigit_iff_toNat.mp h
  have hcodes : '0'.toNat = 48 ∧ '9'.toNat = 57 := by decide
  rw [hcodes.1] at hlow
  rw [hcodes.2] at hhigh
  rw [← Char.ofNat_toNat c]
  generalize c.toNat = n at hlow hhigh
  interval_cases n <;> decide

theorem textSize_serverTime {now : Option ℕ} (h : ∀ t ∈ now, t ≤ u64Max) : textSize (serverTime now) ≤ 22 := by
  cases now with
  | none => decide
  | some seconds =>
    have htext : (serverTime (some seconds)).toList = Nat.toDigits 10 seconds := Nat.toList_repr
    have hsizes : (Nat.toDigits 10 seconds).map charSize = (Nat.toDigits 10 seconds).map fun _ => 1 :=
      List.map_congr_left fun c hc => charSize_digit (Nat.isDigit_of_mem_toDigits (by omega) le_rfl hc)
    have hlength : (Nat.toDigits 10 seconds).length ≤ 20 :=
      (Nat.length_toDigits_le_iff (by omega) (by omega)).mpr (lt_of_le_of_lt (h seconds rfl) (by decide))
    rw [textSize,htext,hsizes,List.map_const',List.sum_replicate_nat]
    omega

/-! ### The limits -/

/-- The runtime's refusal of a context that is too large. -/
def exceeded : String := "Pi session context exceeded bounded size"

/-- The start of stored data is built, its frame fits the transport, and the context that the
runtime retains of it, with what it inspected, is not refused for its size. -/
def SizesAgree (E : Runtime.Environment) (r : Requirement) (conversation : StoredConversation)
    (startMessage : Store.Message) (repositories : ActiveRepositories)
    (runDraw commandDraw : Fin 16 → Fin 256) (now : Option ℕ) (sequence : ℕ)
    (inspected : List (RepositoryReview × RepositoryEvidence)) : Prop :=
  ∃ excerpt start payload,
    selectConversationExcerpt conversation.slice startMessage.id = .ok excerpt ∧
    assembleSessionStart (RequirementSnapshot.ofRequirement r) excerpt
      (repositories.records.map repositorySnapshot) = .ok start ∧
    buildStartPayload (Codec.compact _ _) now (randomHex runDraw) (randomHex commandDraw) sequence
      start.toValue = .ok payload ∧
    payload.utf8ByteSize ≤ maxFrameSize ∧ payload.utf8ByteSize ≤ maxMessageSize ∧
    { E with size := Runtime.serializedSize }.refuses .reviewed
      (Runtime.startedContext (startInput start) inspected) ≠ some exceeded

theorem refuses_exceeded_iff (E : Runtime.Environment) (site : Runtime.WriteSite) (c : Runtime.StoredContext) :
    { E with size := Runtime.serializedSize }.refuses site c ≠ some exceeded ↔
      Runtime.serializedSize c ≤ Runtime.maxSessionContextBytes := by
  unfold Runtime.Environment.refuses
  constructor
  · intro h
    by_contra hlarge
    exact h (if_pos (Nat.lt_of_not_le hlarge))
  · intro h
    rw [if_neg (Nat.not_lt.mpr h)]
    intro heq
    obtain ⟨error,-,htext⟩ := Option.map_eq_some_iff.mp heq
    -- the other refusals begin with another letter
    have hhead := congrArg (fun text => text.toList.head?) htext
    rw [String.toList_append] at hhead
    exact absurd hhead (by simp [exceeded])

theorem excerpt_perm {conversation : StoredConversation}
    (hdistinct : (conversation.records.map (·.id)).Nodup) {startMessage : Store.Message}
    (hstart : startMessage ∈ conversation.records) {excerpt : List ConversationMessageSnapshot}
    (h : selectConversationExcerpt conversation.slice startMessage.id = .ok excerpt) :
    excerpt.Perm (keptMessages conversation.slice (messageSnapshot startMessage)) := by
  have hids : (conversation.slice.messages.map (·.messageId)).Nodup := by
    simpa [StoredConversation.slice,messageSnapshot,Function.comp_def] using hdistinct
  obtain ⟨before,start,after,oldest,hsplit,hid,rfl,hlongest⟩ := select_split h
  have hsame : start = messageSnapshot startMessage := by
    have hmem : start ∈ conversation.slice.messages := by simp [hsplit]
    exact List.inj_on_of_nodup_map hids hmem (List.mem_map_of_mem hstart) hid
  have hothers : others start.messageId conversation.slice.messages = before ++ after := by
    have hall := others_split (hsplit ▸ hids) 0
    have hrest : restFrom before after 0 = before ++ after := by simp [restFrom]
    simpa only [List.drop_zero,Nat.zero_sub,hrest,← hsplit] using hall
  rw [keptMessages,← hsame,hothers,← hlongest,restFrom_eq]
  exact List.perm_middle

theorem retainedSize_perm (r : Requirement) {messages messages' : List ConversationMessageSnapshot}
    (h : messages.Perm messages') (repositories : List RepositoryRecord)
    (inspected : List (RepositoryReview × RepositoryEvidence)) :
    retainedSize r messages repositories inspected = retainedSize r messages' repositories inspected := by
  rw [retainedSize,retainedSize,startSize,startSize,seqSize_perm (h.map messageSize)]

theorem built_size {r : Requirement} (hr : Stored r) {conversation : StoredConversation}
    {startMessage : Store.Message} {excerpt : List ConversationMessageSnapshot}
    (hselect : selectConversationExcerpt conversation.slice startMessage.id = .ok excerpt)
    (repositories : ActiveRepositories) (runDraw commandDraw : Fin 16 → Fin 256) (now : Option ℕ)
    {sequence : ℕ} (hsequence : 0 < sequence ∧ sequence ≤ u64Max) :
    assembleSessionStart (RequirementSnapshot.ofRequirement r) excerpt
      (repositories.records.map repositorySnapshot) = .ok (startOf r excerpt repositories.records) ∧
    ∃ payload, buildStartPayload (Codec.compact _ _) now (randomHex runDraw) (randomHex commandDraw) sequence
        (startOf r excerpt repositories.records).toValue = .ok payload ∧
      payload.utf8ByteSize = 237 + digitCount sequence + textSize (serverTime now) +
        startSize r excerpt repositories.records := by
  have hlimits := hr.limits
  have hsubset := (excerpt_subset hselect).1
  have hvalid := startOf_valid hlimits hsubset repositories
  refine ⟨assemble_stored hlimits hsubset repositories,_,
    (buildStartPayload_ok _ now runDraw commandDraw hsequence hvalid hlimits.revision.2 rfl rfl).1,?_⟩
  show (Json.compact _).utf8ByteSize = _
  rw [utf8ByteSize_compact,startEnvelope,frame_size,wire_size,textSize_randomHex,textSize_randomHex]
  omega

/-- The sizes agree exactly when the retained context stays within its own limit: the frame of a
start that passes there is far below the limit of the transport. -/
theorem sizes_agree_iff (E : Runtime.Environment) {r : Requirement} (hr : Stored r)
    (conversation : StoredConversation) (hdistinct : (conversation.records.map (·.id)).Nodup)
    {startMessage : Store.Message} (hstart : startMessage ∈ conversation.records)
    (repositories : ActiveRepositories) (runDraw commandDraw : Fin 16 → Fin 256) {now : Option ℕ}
    (hnow : ∀ t ∈ now, t ≤ u64Max) {sequence : ℕ} (hsequence : 0 < sequence ∧ sequence ≤ u64Max)
    (inspected : List (RepositoryReview × RepositoryEvidence)) :
    SizesAgree E r conversation startMessage repositories runDraw commandDraw now sequence inspected ↔
      retainedSize r (keptMessages conversation.slice (messageSnapshot startMessage)) repositories.records
        inspected ≤ Runtime.maxSessionContextBytes := by
  have hretained : ∀ excerpt, selectConversationExcerpt conversation.slice startMessage.id = .ok excerpt →
      Runtime.serializedSize (Runtime.startedContext
        (startInput (startOf r excerpt repositories.records)) inspected) =
      retainedSize r (keptMessages conversation.slice (messageSnapshot startMessage)) repositories.records
        inspected := by
    intro excerpt hselect
    rw [retained_size,retainedSize_perm r (excerpt_perm hdistinct hstart hselect)]
  constructor
  · rintro ⟨excerpt,start,payload,hselect,hassemble,-,-,-,haccepted⟩
    have hstartOf := (built_size hr hselect repositories runDraw commandDraw now hsequence).1
    obtain rfl := Except.ok.inj (hassemble.symm.trans hstartOf)
    rw [← hretained excerpt hselect]
    exact (refuses_exceeded_iff E _ _).mp haccepted
  · intro hsmall
    obtain ⟨excerpt,hselect⟩ := select_stored hstart
    obtain ⟨hassemble,payload,hbuild,hsize⟩ :=
      built_size hr hselect repositories runDraw commandDraw now hsequence
    have hcontext := hretained excerpt hselect
    have hsequenceDigits := digitCount_le hsequence.2
    have htime := textSize_serverTime hnow
    have hframe : payload.utf8ByteSize ≤ maxFrameSize := by
      have hstartSize : startSize r excerpt repositories.records ≤ Runtime.maxSessionContextBytes := by
        rw [← hcontext,retained_size,retainedSize] at hsmall
        omega
      simp only [maxFrameSize,Runtime.maxSessionContextBytes] at hstartSize ⊢
      omega
    refine ⟨excerpt,_,payload,hselect,hassemble,hbuild,hframe,le_trans hframe (by decide),?_⟩
    exact (refuses_exceeded_iff E _ _).mpr (hcontext ▸ hsmall)

/-! A start that agrees, and lists of which each item obeys the limits of an edit while their
start fits nowhere. -/

def quietEnvironment : Runtime.Environment where
  requested := none
  size := Runtime.serializedSize
  write := fun _ => none
  remove := fun _ => none
  decode := fun _ => none
  prepare := fun _ => none
  inspect := fun _ _ => .error ⟨.cache,"offline",none,none⟩
  agent := .error (.failed "no agent")

theorem loginRequirement_agrees : SizesAgree quietEnvironment loginRequirement loginConversation loginMessage
    loginRepositories zeros zeros (some 0) 1 [] :=
  (sizes_agree_iff _ loginRequirement_stored loginConversation (by decide) (List.mem_singleton.mpr rfl)
    loginRepositories zeros zeros (by simp) (by decide) []).mpr (by decide)

def longItem : String := String.ofList (List.replicate maxText 'x')

def longRequest : RequirementEditRequest where
  expectedStateVersion := some 1
  acceptanceCriteria := some (List.replicate maxItems longItem)
  assumptions := some (List.replicate maxItems longItem)

def longRequirement : Requirement :=
  stored (Requirement.new (randomHex zeros) "Login" "Sign in by mail" "u1") [.edit longRequest]

theorem longItem_size : longItem.utf8ByteSize = maxText := by
  have hbytes : ∀ n, bytes (List.replicate n 'x') = n := by
    intro n
    induction n with
    | zero => rfl
    | succ n ih =>
      have hx : ('x').utf8Size = 1 := by decide
      rw [List.replicate_succ,bytes_cons,ih,hx,Nat.add_comm]
  rw [longItem,utf8ByteSize_ofList,hbytes]

theorem longItem_bounded : boundedText longItem maxText = some longItem := by
  have hsolid : ∀ c ∈ longItem.toList, Text.isWhitespace c = false := by
    intro c hc
    rw [longItem,String.toList_ofList] at hc
    rw [List.eq_of_mem_replicate hc]
    decide
  have hfilled : longItem.isEmpty = false := by
    rw [Bool.eq_false_iff,ne_eq,String.isEmpty_iff_utf8ByteSize_eq_zero,longItem_size]
    decide
  simp only [boundedText,Text.trim_of_solid hsolid,hfilled,longItem_size,le_refl,and_self,if_true]

theorem longRequest_edit : longRequest.intoDomain = .ok (1,{
    acceptanceCriteria := some (List.replicate maxItems longItem)
    assumptions := some (List.replicate maxItems longItem) }) := by
  have hlist : (List.replicate maxItems longItem).mapM (fun value => boundedText value maxText) =
      some (List.replicate maxItems longItem) := by
    have h := mapM_map id (fun value => boundedText value maxText) (List.replicate maxItems longItem)
      fun value hvalue => by rw [id,List.eq_of_mem_replicate hvalue,longItem_bounded]
    rwa [List.map_id] at h
  have hlists : normalizeEditList (some (List.replicate maxItems longItem)) maxItems maxText =
      .ok (some (List.replicate maxItems longItem)) := by
    simp only [normalizeEditList,List.length_replicate,lt_irrefl,if_false,hlist]
  simp only [RequirementEditRequest.intoDomain,longRequest,hlists]
  rfl

theorem edited_lists {r : Requirement} {request : RequirementEditRequest} {lists : List String}
    (hdraft : r.status = .draft) (hrevision : r.revision < u64Max) (hversion : r.stateVersion = 1)
    (hedit : request.intoDomain =
      .ok (1,{ acceptanceCriteria := some lists, assumptions := some lists }))
    (hnew : lists ≠ r.acceptanceCriteria) :
    (stored r [.edit request]).acceptanceCriteria = lists ∧ (stored r [.edit request]).assumptions = lists := by
  have hsucc : checkedSucc u64Max r.revision = some (r.revision+1) := checkedSucc_eq_some.mpr ⟨hrevision,rfl⟩
  have hsucc' : checkedSucc u64Max 1 = some 2 := by decide
  simp [stored,change,Change.operation,hedit,hversion,Operation.apply,Requirement.applyEdit,hdraft,hnew,hsucc,
    hsucc']

/-- Two full lists of full items alone are more than a frame holds. -/
theorem full_lists_size {r : Requirement} {item : String} (hitem : maxText ≤ item.utf8ByteSize)
    (hcriteria : r.acceptanceCriteria = List.replicate maxItems item)
    (hassumptions : r.assumptions = List.replicate maxItems item)
    (messages : List ConversationMessageSnapshot) (repositories : List RepositoryRecord) :
    maxFrameSize < startSize r messages repositories := by
  have hescaped := utf8ByteSize_le_textSize item
  have hsum := sum_le_seqSize (List.replicate maxItems (textSize item))
  rw [List.sum_replicate_nat] at hsum
  simp only [maxText,maxItems] at hitem hsum hcriteria hassumptions
  simp only [startSize,requirementSize,hcriteria,hassumptions,List.map_replicate,maxFrameSize]
  omega

theorem longRequirement_size (messages : List ConversationMessageSnapshot) (repositories : List RepositoryRecord) :
    maxFrameSize < startSize longRequirement messages repositories := by
  have hnew : List.replicate maxItems longItem ≠ [] := List.cons_ne_nil _ _
  have hrevision : 1 < u64Max := by decide
  have hlists : longRequirement.acceptanceCriteria = List.replicate maxItems longItem ∧
      longRequirement.assumptions = List.replicate maxItems longItem :=
    edited_lists rfl hrevision rfl longRequest_edit hnew
  obtain ⟨hcriteria,hassumptions⟩ := hlists
  exact full_lists_size (le_of_eq longItem_size.symm) hcriteria hassumptions messages repositories

def noRepositories : ActiveRepositories := ⟨[],by simp,by simp,by simp⟩

theorem longRequirement_exceeds : Stored longRequirement ∧ loginMessage ∈ loginConversation.records ∧
    Runtime.WithinBudget [] ∧
    ∀ E, ¬ SizesAgree E longRequirement loginConversation loginMessage noRepositories zeros zeros (some 0) 1 [] := by
  have hstored : Stored longRequirement := ⟨zeros,"u1",⟨"Login","Sign in by mail"⟩,_,_,by decide,rfl⟩
  refine ⟨hstored,List.mem_singleton.mpr rfl,⟨by decide,by decide⟩,?_⟩
  rintro E ⟨excerpt,start,payload,hselect,hassemble,hbuild,hframe,-,-⟩
  obtain ⟨hassemble',payload',hbuild',hsize⟩ :=
    built_size hstored hselect noRepositories zeros zeros (some 0) (by decide : 0 < 1 ∧ 1 ≤ u64Max)
  obtain rfl := Except.ok.inj (hassemble.symm.trans hassemble')
  obtain rfl := Except.ok.inj (hbuild.symm.trans hbuild')
  have hlarge := longRequirement_size excerpt noRepositories.records
  omega

end Context
end North
