import North.ConversationExcerpt
import North.RequirementRequests
import North.RepositoryMetadata
import North.WireCodec
import North.StoreState

/-! The context of a `session.start`, from the stored requirement, conversation and repositories
to the payload of the command. Three validators see it: the wire's, the store's and again the
wire's when the payload is built. -/
namespace North
namespace Context

open Machine Protocol Domain Requests

structure RequirementSnapshot where
  id : String
  revision : ℕ
  title : String
  description : String
  summary : String
  acceptanceCriteria : List String
  assumptions : List String
  openQuestions : List String
  deriving DecidableEq, Repr

def RequirementSnapshot.ofRequirement (r : Requirement) : RequirementSnapshot :=
  ⟨r.id,r.revision,r.title,r.description,r.summary,r.acceptanceCriteria,r.assumptions,r.openQuestions⟩

def RequirementSnapshot.context (s : RequirementSnapshot) : RequirementContext :=
  ⟨s.id,s.revision,s.title,s.description,s.summary,s.acceptanceCriteria,s.assumptions,s.openQuestions⟩

def ConversationRole.wire : ConversationRole → ConversationRoleWire
  | .requester => .requester
  | .agent => .agent
  | .system => .system

def ConversationMessageSnapshot.context (m : ConversationMessageSnapshot) : ConversationMessageContext :=
  ⟨m.messageId,m.role.wire,m.content⟩

structure RepositorySnapshot where
  repositoryId : String
  name : String
  url : String
  description : String
  enabled : Bool
  deriving DecidableEq, Repr

def RepositorySnapshot.context (r : RepositorySnapshot) : RepositoryContext :=
  ⟨r.repositoryId,r.name,r.url,r.description⟩

/-- The context before the server dispatches `session.start`; disabled repositories are left out. -/
def assembleSessionStart (requirement : RequirementSnapshot)
    (conversationExcerpt : List ConversationMessageSnapshot) (repositories : List RepositorySnapshot) :
    Except FrameError SessionStart := do
  let start : SessionStart := {
    requirement := requirement.context
    excerpt := conversationExcerpt.map ConversationMessageSnapshot.context
    repositories := (repositories.filter (·.enabled)).map RepositorySnapshot.context }
  start.validate
  return start

/-! ### The store's check -/

def contextRepositoryIds (context : Json) : List String :=
  (((context.get "repositories").bind Json.asArray).getD []).filterMap fun repository =>
    repository.field "repository_id" Json.asStr

/-- `ids.windows(2).any(|pair| pair[0] == pair[1])`. -/
def adjacentEqual (ids : List String) : Bool := (ids.zip ids.tail).any fun pair => decide (pair.1 = pair.2)

def validStartContext (context : Json) (requirementId startMessageId : String) (requirementRevision : ℕ)
    (repositoryIds requiredCapabilities : List String) : Bool :=
  match context.get "requirement" with
  | some (.obj fields) =>
    let requirement := Json.obj fields
    if requirement.field "id" Json.asStr ≠ some requirementId ∨
        requirement.field "revision" (Json.asNum u64Max) ≠ some requirementRevision then false
    else match context.field "conversation" fun conversation => conversation.field "excerpt" Json.asArray with
      | none => false
      | some excerpt =>
        if !(excerpt.any fun m => decide (m.field "message_id" Json.asStr = some startMessageId)) then false
        else match ((context.get "repositories").bind Json.asArray).bind fun repositories =>
            repositories.mapM fun repository => repository.field "repository_id" Json.asStr with
          | none => false
          | some contextRepositoryIds =>
            decide (contextRepositoryIds = repositoryIds) && !adjacentEqual repositoryIds &&
              !requiredCapabilities.isEmpty &&
              requiredCapabilities.all fun capability => !Text.blank capability
  | _ => false

/-! ### The payload -/

/-- The clock in whole seconds, or zero before the epoch. -/
def serverTime (now : Option ℕ) : String := (now.map toString).getD "0"

def startEnvelope (now : Option ℕ) (runId commandId : String) (sequence : ℕ) (start : SessionStart) :
    CommandEnvelope where
  commandId := commandId
  sessionId := runId
  serverCommandSeq := sequence
  sentAt := serverTime now
  schemaVersion := schemaVersion
  command := .sessionStart start

def buildStartPayload (text : WireText) (now : Option ℕ) (runId commandId : String) (sequence : ℕ)
    (context : Json) : Except Store.PersistenceError String :=
  match SessionStart.fromValue context with
  | none => .error .invalidCommandPayload
  | some start =>
    ((startEnvelope now runId commandId sequence start).toJson text).mapError fun _ => .invalidCommandPayload

/-! ### What is stored -/

def maxMessageBytes : ℕ := 100000

/-- `post_requester_message`, as far as the row. -/
def postRequesterMessage (draw : Fin 16 → Fin 256) (conversationId authorUserId body : String) :
    Option Store.Message :=
  if Text.blank authorUserId ∨ Text.blank body ∨ maxMessageBytes < body.utf8ByteSize then none
  else some {
    id := randomHex draw
    conversationId := conversationId
    kind := .requester
    body := Text.trim body }

/-- The row that an `agent.message` event leaves. -/
def agentMessage (conversationId eventId messageId content : String) : Store.Message where
  id := messageId
  conversationId := conversationId
  kind := .agent
  body := content
  sourceEventId := some eventId

/-- The two ways a message comes into a conversation. -/
inductive StoredMessage : Store.Message → Prop
  | requester {draw conversationId authorUserId body message}
      (post : postRequesterMessage draw conversationId authorUserId body = some message) :
      StoredMessage message
  | agent {envelope : EventEnvelope} {messageId content} (valid : envelope.validate = .ok ())
      (event : envelope.event = .agentMessage messageId content) (conversationId : String) :
      StoredMessage (agentMessage conversationId envelope.eventId messageId content)

def roleOf : Store.MessageKind → ConversationRole
  | .requester => .requester
  | .agent => .agent
  | .system => .system

def messageSnapshot (m : Store.Message) : ConversationMessageSnapshot := ⟨m.id,roleOf m.kind,m.body⟩

/-- What `conversation_messages` answers. -/
structure StoredConversation where
  records : List Store.Message
  stored : ∀ m ∈ records, StoredMessage m
  inMemory : contentBytes (records.map messageSnapshot) ≤ u64Max

def StoredConversation.slice (c : StoredConversation) : MessageSlice := ⟨c.records.map messageSnapshot,c.inMemory⟩

structure RepositoryRecord where
  id : String
  name : String
  url : String
  description : String
  disabledAt : Option String := none
  deriving DecidableEq, Repr

/-- The drawn bytes, with the version and the variant of the id set. -/
def idByte (draw : Fin 16 → Fin 256) (i : Fin 16) : ℕ :=
  if i = 6 then (draw i).val%16+64 else if i = 8 then (draw i).val%64+128 else (draw i).val

/-- The id of a repository, in the shape of a UUID. -/
def repositoryId (draw : Fin 16 → Fin 256) : String :=
  String.ofList ((List.finRange 16).flatMap fun i =>
    (if i = 4 ∨ i = 6 ∨ i = 8 ∨ i = 10 then ['-'] else []) ++
      [Json.hexDigit (idByte draw i/16),Json.hexDigit (idByte draw i%16)])

/-- A repository as it was created or edited last. -/
structure StoredRepository (r : RepositoryRecord) : Prop where
  id : ∃ draw, r.id = repositoryId draw
  metadata : ∃ name url description,
    validateMetadata name url description = .ok ⟨r.name,r.url,r.description⟩

def repositorySnapshot (r : RepositoryRecord) : RepositorySnapshot :=
  ⟨r.id,r.name,r.url,r.description,r.disabledAt.isNone⟩

/-- What `active_repositories` answers. -/
structure ActiveRepositories where
  records : List RepositoryRecord
  stored : ∀ r ∈ records, StoredRepository r
  active : ∀ r ∈ records, r.disabledAt = none
  distinct : (records.map (·.id)).Nodup

/-! ### The validators agree -/

theorem nonEmpty_of {field value : String} (h : Text.blank value = false) : nonEmpty field value = .ok () := by
  simp [nonEmpty,h]

theorem nonEmptyList_of {field : String} {values : List String}
    (h : ∀ value ∈ values, Text.blank value = false) : nonEmptyList field values = .ok () :=
  forM_eq_ok fun value hvalue => nonEmpty_of (h value hvalue)

theorem sequence_of {field : String} {value : ℕ} (h : 0 < value) : sequence field value = .ok () :=
  if_neg (Nat.pos_iff_ne_zero.mp h)

theorem ListWithin.filled {values : List String} (h : ListWithin values) :
    ∀ value ∈ values, Text.blank value = false :=
  fun value hvalue => (h.items value hvalue).filled rfl

theorem Limits.id_filled {r : Requirement} (h : Limits r) : Text.blank r.id = false := by
  obtain ⟨draw,hid⟩ := h.id
  rw [hid]
  exact blank_randomHex draw

theorem requirement_valid {r : Requirement} (h : Limits r) :
    (RequirementSnapshot.ofRequirement r).context.validate = .ok () := by
  simp only [RequirementContext.validate,RequirementSnapshot.context,RequirementSnapshot.ofRequirement,
    nonEmpty_of (Limits.id_filled h),nonEmpty_of (h.title.filled rfl),nonEmpty_of (h.description.filled rfl),
    nonEmptyList_of (ListWithin.filled h.acceptanceCriteria),nonEmptyList_of (ListWithin.filled h.assumptions),
    nonEmptyList_of (ListWithin.filled h.openQuestions),sequence_of h.revision.1,bind,
    Except.bind]

theorem storedMessage_filled {m : Store.Message} (h : StoredMessage m) :
    Text.blank m.id = false ∧ Text.blank m.body = false := by
  cases h with
  | requester post =>
    unfold postRequesterMessage at post
    split_ifs at post with hbad
    obtain rfl := Option.some.inj post
    push Not at hbad
    exact ⟨blank_randomHex _,by rw [Text.blank_trim]; simpa using hbad.2.1⟩
  | @agent envelope messageId content valid event conversationId =>
    simp only [EventEnvelope.validate,event,bind_eq_ok] at valid
    obtain ⟨_,-,_,-,_,-,_,-,_,-,_,hid,hcontent⟩ := valid
    exact ⟨nonEmpty_ok hid,nonEmpty_ok hcontent⟩

theorem message_valid {m : Store.Message} (h : StoredMessage m) :
    (messageSnapshot m).context.validate = .ok () := by
  obtain ⟨hid,hbody⟩ := storedMessage_filled h
  simp only [ConversationMessageContext.validate,messageSnapshot,ConversationMessageSnapshot.context,
    nonEmpty_of hid,nonEmpty_of hbody,bind,Except.bind]

theorem blank_repositoryId (draw : Fin 16 → Fin 256) : Text.blank (repositoryId draw) = false := by
  unfold repositoryId
  rw [List.finRange_succ,List.flatMap_cons]
  exact blank_of_head (isWhitespace_hexDigit (by have := (draw 0).isLt; simp [idByte]; omega))

theorem repository_valid {r : RepositoryRecord} (h : StoredRepository r) :
    (repositorySnapshot r).context.validate = .ok () := by
  obtain ⟨draw,hid⟩ := h.id
  obtain ⟨name,url,description,hmetadata⟩ := h.metadata
  have haccepted := validateMetadata_ok hmetadata
  have hfilled : Text.blank r.id = false := hid ▸ blank_repositoryId draw
  simp only [RepositoryContext.validate,repositorySnapshot,RepositorySnapshot.context,nonEmpty_of hfilled,
    nonEmpty_of haccepted.name,nonEmpty_of haccepted.url,bind,Except.bind]

theorem enabled_active (repositories : ActiveRepositories) :
    (repositories.records.map repositorySnapshot).filter (·.enabled) =
      repositories.records.map repositorySnapshot := by
  refine List.filter_eq_self.mpr fun snapshot hsnapshot => ?_
  obtain ⟨r,hr,rfl⟩ := List.mem_map.mp hsnapshot
  simp [repositorySnapshot,repositories.active r hr]

/-- The start that is assembled of stored data. -/
def startOf (r : Requirement) (excerpt : List ConversationMessageSnapshot)
    (repositories : List RepositoryRecord) : SessionStart where
  requirement := (RequirementSnapshot.ofRequirement r).context
  excerpt := excerpt.map ConversationMessageSnapshot.context
  repositories := (repositories.map repositorySnapshot).map RepositorySnapshot.context

theorem startOf_valid {r : Requirement} (hr : Limits r) {conversation : StoredConversation}
    {excerpt : List ConversationMessageSnapshot} (hexcerpt : excerpt ⊆ conversation.slice.messages)
    (repositories : ActiveRepositories) :
    (startOf r excerpt repositories.records).validate = .ok () := by
  have hmessages : (startOf r excerpt repositories.records).excerpt.forM
      ConversationMessageContext.validate = .ok () := by
    refine forM_eq_ok fun context hcontext => ?_
    obtain ⟨snapshot,hsnapshot,rfl⟩ := List.mem_map.mp hcontext
    obtain ⟨m,hm,rfl⟩ := List.mem_map.mp (hexcerpt hsnapshot)
    exact message_valid (conversation.stored m hm)
  have hrepositories : (startOf r excerpt repositories.records).repositories.forM
      RepositoryContext.validate = .ok () := by
    refine forM_eq_ok fun context hcontext => ?_
    obtain ⟨snapshot,hsnapshot,rfl⟩ := List.mem_map.mp hcontext
    obtain ⟨record,hrecord,rfl⟩ := List.mem_map.mp hsnapshot
    exact repository_valid (repositories.stored record hrecord)
  simp only [SessionStart.validate,startOf,requirement_valid hr,bind,Except.bind] at hmessages hrepositories ⊢
  rw [hmessages]
  exact hrepositories

theorem assemble_stored {r : Requirement} (hr : Limits r) {conversation : StoredConversation}
    {excerpt : List ConversationMessageSnapshot} (hexcerpt : excerpt ⊆ conversation.slice.messages)
    (repositories : ActiveRepositories) :
    assembleSessionStart (RequirementSnapshot.ofRequirement r) excerpt
      (repositories.records.map repositorySnapshot) = .ok (startOf r excerpt repositories.records) := by
  have hvalid := startOf_valid hr hexcerpt repositories
  unfold startOf at hvalid ⊢
  simp only [assembleSessionStart,enabled_active,hvalid]
  rfl

theorem adjacentEqual_of_nodup {ids : List String} (h : ids.Nodup) : adjacentEqual ids = false := by
  induction ids with
  | nil => rfl
  | cons id ids ih =>
    obtain ⟨hfresh,htail⟩ := List.nodup_cons.mp h
    cases ids with
    | nil => rfl
    | cons next ids =>
      have hne : id ≠ next := fun heq => hfresh (heq ▸ List.mem_cons_self)
      have hrest := ih htail
      simp only [adjacentEqual,List.tail_cons,List.zip_cons_cons,List.any_cons] at hrest ⊢
      rw [hrest]
      simpa using hne

theorem repository_id_field (r : RepositoryContext) :
    r.toValue.field "repository_id" Json.asStr = some r.repositoryId := rfl

theorem contextRepositoryIds_toValue (start : SessionStart) :
    contextRepositoryIds start.toValue = start.repositories.map (·.repositoryId) := by
  have hfield : (start.toValue.get "repositories").bind Json.asArray =
      some (start.repositories.map RepositoryContext.toValue) := rfl
  unfold contextRepositoryIds
  rw [hfield,Option.getD_some,List.filterMap_map]
  exact List.filterMap_eq_map' ▸ rfl

theorem validStartContext_toValue {start : SessionStart} {startMessageId : String}
    {requiredCapabilities : List String} (hrevision : start.requirement.revision ≤ u64Max)
    (hmessage : ∃ m ∈ start.excerpt, m.messageId = startMessageId)
    (hdistinct : (start.repositories.map (·.repositoryId)).Nodup) (hsome : requiredCapabilities ≠ [])
    (hfilled : ∀ capability ∈ requiredCapabilities, Text.blank capability = false) :
    validStartContext start.toValue start.requirement.id startMessageId start.requirement.revision
      (contextRepositoryIds start.toValue) requiredCapabilities = true := by
  have hrequirement : start.toValue.get "requirement" = some start.requirement.toValue := rfl
  have hid : start.requirement.toValue.field "id" Json.asStr = some start.requirement.id := rfl
  have hrevision' : start.requirement.toValue.field "revision" (Json.asNum u64Max) =
      some start.requirement.revision := if_pos hrevision
  have hexcerpt : start.toValue.field "conversation" (fun c => c.field "excerpt" Json.asArray) =
      some (start.excerpt.map ConversationMessageContext.toValue) := rfl
  have hstart : (start.excerpt.map ConversationMessageContext.toValue).any (fun m =>
      decide (m.field "message_id" Json.asStr = some startMessageId)) = true := by
    obtain ⟨m,hm,rfl⟩ := hmessage
    exact List.any_eq_true.mpr ⟨m.toValue,List.mem_map_of_mem hm,decide_eq_true rfl⟩
  have hrepositories : (start.toValue.get "repositories").bind Json.asArray =
      some (start.repositories.map RepositoryContext.toValue) := rfl
  have hids : (start.repositories.map RepositoryContext.toValue).mapM (fun repository =>
      repository.field "repository_id" Json.asStr) = some (start.repositories.map (·.repositoryId)) := by
    generalize start.repositories = repositories
    induction repositories with
    | nil => rfl
    | cons r repositories ih => simp [List.mapM_cons,repository_id_field,ih]
  have hadjacent := adjacentEqual_of_nodup hdistinct
  have hempty : requiredCapabilities.isEmpty = false := by simpa using hsome
  have hcapabilities : requiredCapabilities.all (fun capability => !Text.blank capability) = true :=
    List.all_eq_true.mpr fun capability hmem => by simp [hfilled capability hmem]
  unfold RequirementContext.toValue at hrequirement hid hrevision'
  simp only [validStartContext,hrequirement,hid,hrevision',hexcerpt,hstart,hrepositories,Option.bind_some,hids,
    contextRepositoryIds_toValue,hadjacent,hempty,hcapabilities,ne_eq,not_true_eq_false,or_self,if_false,
    Bool.not_true,Bool.false_eq_true,Bool.not_false,decide_true,Bool.and_true]

theorem isWhitespace_of_isDigit {c : Char} (h : c.isDigit = true) : Text.isWhitespace c = false := by
  obtain ⟨hlow,hhigh⟩ := Char.isDigit_iff_toNat.mp h
  have hcodes : '0'.toNat = 48 ∧ '9'.toNat = 57 := by decide
  simp only [Text.isWhitespace,Bool.or_eq_false_iff,Bool.and_eq_false_iff,decide_eq_false_iff_not,beq_eq_false_iff_ne]
  omega

theorem blank_serverTime (now : Option ℕ) : Text.blank (serverTime now) = false := by
  cases now with
  | none => decide
  | some seconds =>
    have htext : serverTime (some seconds) = String.ofList (Nat.toDigits 10 seconds) :=
      Nat.repr_eq_ofList_toDigits
    cases hdigits : Nat.toDigits 10 seconds with
    | nil => exact absurd hdigits (List.ne_nil_of_length_pos Nat.length_toDigits_pos)
    | cons c cs =>
      have hdigit := Nat.isDigit_of_mem_toDigits (by omega) le_rfl (hdigits ▸ List.mem_cons_self)
      rw [htext,hdigits]
      exact blank_of_head (isWhitespace_of_isDigit hdigit)

theorem buildStartPayload_ok (text : WireText) (now : Option ℕ) (runDraw commandDraw : Fin 16 → Fin 256)
    {sequence : ℕ} (hsequence : 0 < sequence ∧ sequence ≤ u64Max) {start : SessionStart}
    (hvalid : start.validate = .ok ()) (hrevision : start.requirement.revision ≤ u64Max) {payload : String}
    {envelope : CommandEnvelope}
    (henvelope : envelope = startEnvelope now (randomHex runDraw) (randomHex commandDraw) sequence start)
    (hpayload : payload = text.write envelope.frame) :
    buildStartPayload text now (randomHex runDraw) (randomHex commandDraw) sequence start.toValue = .ok payload ∧
      CommandEnvelope.fromJson text payload = .ok envelope := by
  have hvalidate : envelope.validate = .ok () := by
    simp only [henvelope,startEnvelope,CommandEnvelope.validate,schema,ne_eq,not_true_eq_false,if_false,bind,
      Except.bind,nonEmpty_of (blank_randomHex commandDraw),nonEmpty_of (blank_randomHex runDraw),
      nonEmpty_of (blank_serverTime now),sequence_of hsequence.1,hvalid]
  have hwrite : envelope.toJson text = .ok payload := by
    simp only [CommandEnvelope.toJson,hvalidate,hpayload]
    rfl
  have hrange : envelope.InRange := by
    rw [henvelope]
    exact ⟨hsequence.2,(by decide : schemaVersion ≤ u16Max),hrevision⟩
  refine ⟨?_,fromJson_toJson hrange hwrite⟩
  simp only [buildStartPayload,start_fromValue hrevision,← henvelope,hwrite]
  rfl

theorem excerpt_subset {slice : MessageSlice} {startMessageId : String}
    {excerpt : List ConversationMessageSnapshot}
    (h : selectConversationExcerpt slice startMessageId = .ok excerpt) :
    excerpt ⊆ slice.messages ∧ ∃ m ∈ excerpt, m.messageId = startMessageId := by
  obtain ⟨before,start,after,oldest,hsplit,hid,rfl,-⟩ := select_split h
  rw [hsplit]
  exact ⟨((List.drop_sublist _ _).append ((List.drop_sublist _ _).cons_cons start)).subset,start,by simp,hid⟩

/-- A message of a conversation can start from it. -/
theorem select_stored {conversation : StoredConversation} {startMessage : Store.Message}
    (hstart : startMessage ∈ conversation.records) :
    ∃ excerpt, selectConversationExcerpt conversation.slice startMessage.id = .ok excerpt := by
  cases hselect : selectConversationExcerpt conversation.slice startMessage.id with
  | error e =>
    rcases (select_error_iff _ _).mp ⟨e,hselect⟩ with hblank | habsent
    · exact absurd hblank (by simp [(storedMessage_filled (conversation.stored _ hstart)).1])
    · exact absurd rfl (habsent _ (List.mem_map_of_mem hstart))
  | ok excerpt => exact ⟨excerpt,rfl⟩

/-- The start of stored data is assembled, passes the store's check, and its payload is read
back as the same start. -/
theorem start_buildable (text : WireText) {r : Requirement} (hr : Stored r) (conversation : StoredConversation)
    {startMessage : Store.Message} (hstart : startMessage ∈ conversation.records)
    (repositories : ActiveRepositories) (runDraw commandDraw : Fin 16 → Fin 256) (now : Option ℕ)
    {sequence : ℕ} (hsequence : 0 < sequence ∧ sequence ≤ u64Max) :
    ∃ excerpt start payload envelope,
      selectConversationExcerpt conversation.slice startMessage.id = .ok excerpt ∧
      assembleSessionStart (RequirementSnapshot.ofRequirement r) excerpt
        (repositories.records.map repositorySnapshot) = .ok start ∧
      validStartContext start.toValue r.id startMessage.id r.revision
        (contextRepositoryIds start.toValue) ["agent"] = true ∧
      buildStartPayload text now (randomHex runDraw) (randomHex commandDraw) sequence start.toValue =
        .ok payload ∧
      CommandEnvelope.fromJson text payload = .ok envelope ∧ envelope.command = .sessionStart start := by
  have hlimits := hr.limits
  obtain ⟨excerpt,hselect⟩ := select_stored hstart
  obtain ⟨hsubset,kept,hkept,hid⟩ := excerpt_subset hselect
  have hvalid := startOf_valid hlimits hsubset repositories
  have hids : (startOf r excerpt repositories.records).repositories.map (·.repositoryId) =
      repositories.records.map (·.id) := by
    simp only [startOf,List.map_map]
    rfl
  obtain ⟨hbuild,hread⟩ :=
    buildStartPayload_ok text now runDraw commandDraw hsequence hvalid hlimits.revision.2 rfl rfl
  refine ⟨excerpt,_,_,_,hselect,assemble_stored hlimits hsubset repositories,?_,hbuild,hread,rfl⟩
  exact validStartContext_toValue hlimits.revision.2 ⟨kept.context,List.mem_map_of_mem hkept,hid⟩
    (hids ▸ repositories.distinct) (by simp) (by decide)

/-! A stored requirement, its conversation and a repository. -/

def zeros : Fin 16 → Fin 256 := fun _ => 0

def loginRequirement : Requirement := stored
  (Requirement.new (randomHex zeros) "Login" "Sign in by mail" "u1")
  [.edit { expectedStateVersion := some 1, openQuestions := some [" Which provider? "] },.beginDiscussion]

theorem loginRequirement_stored : Stored loginRequirement :=
  ⟨zeros,"u1",⟨" Login ","Sign in by mail"⟩,_,_,by decide,rfl⟩

def loginMessage : Store.Message := ⟨randomHex zeros,"conv",.requester,"Which login?",none⟩

def loginConversation : StoredConversation where
  records := [loginMessage]
  stored := by
    intro m hm
    obtain rfl := List.mem_singleton.mp hm
    exact .requester (by decide : postRequesterMessage zeros "conv" "u1" "Which login? " = some loginMessage)
  inMemory := by decide

def loginRepository : RepositoryRecord := ⟨repositoryId zeros,"North","git@github.com:org/north.git","",none⟩

def loginRepositories : ActiveRepositories where
  records := [loginRepository]
  stored := by
    intro r hr
    obtain rfl := List.mem_singleton.mp hr
    exact ⟨⟨zeros,rfl⟩," North","git@github.com:org/north.git"," ",by decide⟩
  active := by simp [loginRepository]
  distinct := by simp

theorem loginRequirement_buildable : ∃ excerpt start payload envelope,
    selectConversationExcerpt loginConversation.slice loginMessage.id = .ok excerpt ∧
    assembleSessionStart (RequirementSnapshot.ofRequirement loginRequirement) excerpt
      (loginRepositories.records.map repositorySnapshot) = .ok start ∧
    validStartContext start.toValue loginRequirement.id loginMessage.id loginRequirement.revision
      (contextRepositoryIds start.toValue) ["agent"] = true ∧
    buildStartPayload (Json.Codec.compact _ _) (some 0) (randomHex zeros) (randomHex zeros) 1 start.toValue =
      .ok payload ∧
    CommandEnvelope.fromJson (Json.Codec.compact _ _) payload = .ok envelope ∧
    envelope.command = .sessionStart start :=
  start_buildable _ loginRequirement_stored loginConversation (List.mem_singleton.mpr rfl) loginRepositories
    zeros zeros (some 0) (by decide)

end Context
end North
