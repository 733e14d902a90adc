import North.Protocol
import North.Lib.Json

/-! The JSON text of a command frame: its record, as the wire names the fields, and the
reading of that record. The text format itself is a parameter. A record is read from an object
only; the derived readers of the code also take an array of its fields, which no writer makes. -/
namespace North
namespace Protocol

open Machine

def u16Max : ℕ := 2^16-1

/-- The nesting at which a reader of the text stops. -/
def maxNesting : ℕ := 127

/-- The text format of the wire. -/
abbrev WireText := Json.Codec u64Max maxNesting

/-! ### The context of a start -/

def RequirementContext.toValue (c : RequirementContext) : Json := .obj [
  ("id",.str c.id),
  ("revision",.num c.revision),
  ("title",.str c.title),
  ("description",.str c.description),
  ("summary",.str c.summary),
  ("acceptance_criteria",.strings c.acceptanceCriteria),
  ("assumptions",.strings c.assumptions),
  ("open_questions",.strings c.openQuestions)]

/-- Reads an object, as every reader of a record here; the derived reader takes an array as well. -/
def RequirementContext.fromValue (v : Json) : Option RequirementContext := do
  let id ← v.field "id" Json.asStr
  let revision ← v.field "revision" (Json.asNum u64Max)
  let title ← v.field "title" Json.asStr
  let description ← v.field "description" Json.asStr
  let summary ← v.field "summary" Json.asStr
  let acceptanceCriteria ← v.field "acceptance_criteria" Json.asStrings
  let assumptions ← v.field "assumptions" Json.asStrings
  let openQuestions ← v.field "open_questions" Json.asStrings
  return ⟨id,revision,title,description,summary,acceptanceCriteria,assumptions,openQuestions⟩

def ConversationRoleWire.asStr : ConversationRoleWire → String
  | .requester => "requester"
  | .agent => "agent"
  | .system => "system"

def ConversationRoleWire.fromValue (v : Json) : Option ConversationRoleWire :=
  match v.asStr with
  | some "requester" => some .requester
  | some "agent" => some .agent
  | some "system" => some .system
  | _ => none

def ConversationMessageContext.toValue (m : ConversationMessageContext) : Json := .obj [
  ("message_id",.str m.messageId),
  ("role",.str m.role.asStr),
  ("content",.str m.content)]

def ConversationMessageContext.fromValue (v : Json) : Option ConversationMessageContext := do
  let messageId ← v.field "message_id" Json.asStr
  let role ← v.field "role" ConversationRoleWire.fromValue
  let content ← v.field "content" Json.asStr
  return ⟨messageId,role,content⟩

def RepositoryContext.toValue (r : RepositoryContext) : Json := .obj [
  ("repository_id",.str r.repositoryId),
  ("name",.str r.name),
  ("url",.str r.url),
  ("description",.str r.description)]

def RepositoryContext.fromValue (v : Json) : Option RepositoryContext := do
  let repositoryId ← v.field "repository_id" Json.asStr
  let name ← v.field "name" Json.asStr
  let url ← v.field "url" Json.asStr
  let description ← v.field "description" Json.asStr
  return ⟨repositoryId,name,url,description⟩

def listOf {α : Type} (read : Json → Option α) (v : Json) : Option (List α) :=
  v.asArray.bind fun items => items.mapM read

def SessionStart.toValue (s : SessionStart) : Json := .obj [
  ("requirement",s.requirement.toValue),
  ("conversation",.obj [("excerpt",.arr (s.excerpt.map ConversationMessageContext.toValue))]),
  ("repositories",.arr (s.repositories.map RepositoryContext.toValue))]

def SessionStart.fromValue (v : Json) : Option SessionStart := do
  let requirement ← v.field "requirement" RequirementContext.fromValue
  let excerpt ← v.field "conversation" fun c => c.field "excerpt" (listOf ConversationMessageContext.fromValue)
  let repositories ← v.field "repositories" (listOf RepositoryContext.fromValue)
  return ⟨requirement,excerpt,repositories⟩

/-! ### Commands -/

def Command.toValue : Command → Json
  | .sessionStart start => .obj [("type",.str "session.start"),("payload",start.toValue)]
  | .sessionCancel reason => .obj [("type",.str "session.cancel"),("payload",.obj [("reason",.str reason)])]
  | .sessionResume => .obj [("type",.str "session.resume"),("payload",.obj [])]
  | .messageSend messageId content => .obj [("type",.str "message.send"),
      ("payload",.obj [("message_id",.str messageId),("content",.str content)])]

def Command.fromValue (v : Json) : Option Command := do
  let payload ← v.get "payload"
  match ← v.field "type" Json.asStr with
  | "session.start" => (SessionStart.fromValue payload).map .sessionStart
  | "session.cancel" => (payload.field "reason" Json.asStr).map .sessionCancel
  | "session.resume" => match payload with
    | .obj _ => some .sessionResume
    | _ => none
  | "message.send" => do
    let messageId ← payload.field "message_id" Json.asStr
    let content ← payload.field "content" Json.asStr
    return .messageSend messageId content
  | _ => none

def CommandEnvelope.toValue (e : CommandEnvelope) : Json := .obj [
  ("command_id",.str e.commandId),
  ("session_id",.str e.sessionId),
  ("server_command_seq",.num e.serverCommandSeq),
  ("sent_at",.str e.sentAt),
  ("schema_version",.num e.schemaVersion),
  ("command",e.command.toValue)]

def CommandEnvelope.fromValue (v : Json) : Option CommandEnvelope := do
  let commandId ← v.field "command_id" Json.asStr
  let sessionId ← v.field "session_id" Json.asStr
  let serverCommandSeq ← v.field "server_command_seq" (Json.asNum u64Max)
  let sentAt ← v.field "sent_at" Json.asStr
  let schemaVersion ← v.field "schema_version" (Json.asNum u16Max)
  let command ← v.field "command" Command.fromValue
  return ⟨commandId,sessionId,serverCommandSeq,sentAt,schemaVersion,command⟩

/-- The record of a `ServerFrame::Command`. -/
def CommandEnvelope.frame (e : CommandEnvelope) : Json :=
  .obj [("frame",.str "command"),("payload",e.toValue)]

/-- The command of a frame; a frame of another kind has none. -/
def CommandEnvelope.ofFrame (v : Json) : Option CommandEnvelope := do
  match ← v.field "frame" Json.asStr with
  | "command" => v.field "payload" CommandEnvelope.fromValue
  | _ => none

/-- `ServerFrame::to_json` of a command. -/
def CommandEnvelope.toJson (text : WireText) (e : CommandEnvelope) : Except FrameError String := do
  e.validate
  return text.write e.frame

/-- `ServerFrame::from_json`, where the frame is a command. -/
def CommandEnvelope.fromJson (text : WireText) (payload : String) : Except FrameError CommandEnvelope :=
  match (text.read payload).bind CommandEnvelope.ofFrame with
  | none => .error (.json "not a command frame")
  | some e => do
    e.validate
    return e

/-! ### What is written is read back -/

@[simp] theorem role_fromValue (role : ConversationRoleWire) :
    ConversationRoleWire.fromValue (.str role.asStr) = some role := by
  cases role <;> rfl

@[simp] theorem requirement_fromValue {c : RequirementContext} (h : c.revision ≤ u64Max) :
    RequirementContext.fromValue c.toValue = some c := by
  simp [RequirementContext.fromValue,RequirementContext.toValue,Json.field,Json.get,Json.asStr,Json.asNum,h]

@[simp] theorem message_fromValue (m : ConversationMessageContext) :
    ConversationMessageContext.fromValue m.toValue = some m := by
  simp [ConversationMessageContext.fromValue,ConversationMessageContext.toValue,Json.field,Json.get,Json.asStr]

@[simp] theorem repository_fromValue (r : RepositoryContext) :
    RepositoryContext.fromValue r.toValue = some r := by
  simp [RepositoryContext.fromValue,RepositoryContext.toValue,Json.field,Json.get,Json.asStr]

@[simp] theorem listOf_map {α : Type} {write : α → Json} {read : Json → Option α} {xs : List α}
    (h : ∀ x ∈ xs, read (write x) = some x) : listOf read (.arr (xs.map write)) = some xs :=
  Json.mapM_map write read xs h

theorem start_fromValue {s : SessionStart} (h : s.requirement.revision ≤ u64Max) :
    SessionStart.fromValue s.toValue = some s := by
  simp [SessionStart.fromValue,SessionStart.toValue,Json.field,Json.get,requirement_fromValue h]

/-- The numbers of a command fit their types. -/
def Command.InRange : Command → Prop
  | .sessionStart start => start.requirement.revision ≤ u64Max
  | _ => True

theorem command_fromValue {c : Command} (h : c.InRange) : Command.fromValue c.toValue = some c := by
  cases c with
  | sessionStart start =>
    simp [Command.fromValue,Command.toValue,Json.field,Json.get,Json.asStr,start_fromValue h]
  | sessionCancel reason => simp [Command.fromValue,Command.toValue,Json.field,Json.get,Json.asStr]
  | sessionResume => simp [Command.fromValue,Command.toValue,Json.field,Json.get,Json.asStr]
  | messageSend messageId content => simp [Command.fromValue,Command.toValue,Json.field,Json.get,Json.asStr]

structure CommandEnvelope.InRange (e : CommandEnvelope) : Prop where
  seq : e.serverCommandSeq ≤ u64Max
  schema : e.schemaVersion ≤ u16Max
  command : e.command.InRange

theorem ofFrame_frame {e : CommandEnvelope} (h : e.InRange) : CommandEnvelope.ofFrame e.frame = some e := by
  have henvelope : CommandEnvelope.fromValue e.toValue = some e := by
    simp [CommandEnvelope.fromValue,CommandEnvelope.toValue,Json.field,Json.get,Json.asStr,Json.asNum,h.seq,
      h.schema,command_fromValue h.command]
  simp [CommandEnvelope.ofFrame,CommandEnvelope.frame,Json.field,Json.get,Json.asStr,henvelope]

theorem start_within {s : SessionStart} (h : s.requirement.revision ≤ u64Max) (depth : ℕ) :
    s.toValue.Within u64Max (depth+4) := by
  simp [SessionStart.toValue,RequirementContext.toValue,ConversationMessageContext.toValue,
    RepositoryContext.toValue,Json.Within,Json.within_strings,h]

theorem command_within {c : Command} (h : c.InRange) (depth : ℕ) : c.toValue.Within u64Max (depth+5) := by
  cases c with
  | sessionStart start => simpa [Command.toValue,Json.Within] using start_within h depth
  | sessionCancel reason => simp [Command.toValue,Json.Within]
  | sessionResume => simp [Command.toValue,Json.Within]
  | messageSend messageId content => simp [Command.toValue,Json.Within]

theorem frame_within {e : CommandEnvelope} (h : e.InRange) : e.frame.Within u64Max maxNesting := by
  have hschema : e.schemaVersion ≤ u64Max := le_trans h.schema (by decide)
  have hcommand := command_within h.command 120
  simpa [CommandEnvelope.frame,CommandEnvelope.toValue,maxNesting,Json.Within,h.seq,hschema] using hcommand

theorem fromJson_toJson {text : WireText} {e : CommandEnvelope} {payload : String} (h : e.InRange)
    (hwrite : e.toJson text = .ok payload) : CommandEnvelope.fromJson text payload = .ok e := by
  simp only [CommandEnvelope.toJson,bind_eq_ok] at hwrite
  obtain ⟨_,hvalid,hpayload⟩ := hwrite
  obtain rfl := Except.ok.inj hpayload
  simp only [CommandEnvelope.fromJson,text.read_write _ (frame_within h),Option.bind_some,ofFrame_frame h,hvalid]
  rfl

end Protocol
end North
