import North.WireCodec
import North.Lib.JsonFormat

/-! The frames of both directions: their records, the reading of these from objects, and the text
codec that checks a frame before it is written and after it was read. -/
namespace North
namespace Protocol

open Machine

def CommandAck.validate (a : CommandAck) : Except FrameError Unit := do
  schema a.schemaVersion
  nonEmpty "command_id" a.commandId
  nonEmpty "session_id" a.sessionId
  sequence "server_command_seq" a.serverCommandSeq

/-! ### Events -/

def ReadinessVerdictWire.asStr : ReadinessVerdictWire → String
  | .ready => "ready"
  | .needsClarification => "needs_clarification"

def ReadinessVerdictWire.fromValue (v : Json) : Option ReadinessVerdictWire :=
  match v.asStr with
  | some "ready" => some .ready
  | some "needs_clarification" => some .needsClarification
  | _ => none

def ReviewedRepositoryWire.toValue (r : ReviewedRepositoryWire) : Json := .obj [
  ("repository_id",.str r.repositoryId),
  ("commit_sha",.str r.commitSha)]

def ReviewedRepositoryWire.fromValue (v : Json) : Option ReviewedRepositoryWire := do
  let repositoryId ← v.field "repository_id" Json.asStr
  let commitSha ← v.field "commit_sha" Json.asStr
  return ⟨repositoryId,commitSha⟩

def RequirementAssessed.toValue (a : RequirementAssessed) : Json := .obj [
  ("requirement_id",.str a.requirementId),
  ("requirement_revision",.num a.requirementRevision),
  ("verdict",.str a.verdict.asStr),
  ("blockers",.strings a.blockers),
  ("assumptions",.strings a.assumptions),
  ("repositories_reviewed",.arr (a.repositoriesReviewed.map ReviewedRepositoryWire.toValue))]

def RequirementAssessed.fromValue (v : Json) : Option RequirementAssessed := do
  let requirementId ← v.field "requirement_id" Json.asStr
  let requirementRevision ← v.field "requirement_revision" (Json.asNum u64Max)
  let verdict ← v.field "verdict" ReadinessVerdictWire.fromValue
  let blockers ← v.field "blockers" Json.asStrings
  let assumptions ← v.field "assumptions" Json.asStrings
  let repositoriesReviewed ← v.field "repositories_reviewed" (listOf ReviewedRepositoryWire.fromValue)
  return ⟨requirementId,requirementRevision,verdict,blockers,assumptions,repositoriesReviewed⟩

def Event.toValue : Event → Json
  | .sessionStarted runtimeId => .tagged "type" "payload" "session.started" (.obj [("runtime_id",.str runtimeId)])
  | .agentMessage messageId content =>
    .tagged "type" "payload" "agent.message" (.obj [("message_id",.str messageId),("content",.str content)])
  | .agentActivity activity => .tagged "type" "payload" "agent.activity" (.obj [("activity",.str activity)])
  | .requirementAssessed assessed => .tagged "type" "payload" "requirement.assessed" assessed.toValue
  | .sessionCompleted summary => .tagged "type" "payload" "session.completed" (.obj [("summary",.str summary)])
  | .sessionFailed recoverable reason =>
    .tagged "type" "payload" "session.failed" (.obj [("recoverable",.bool recoverable),("reason",.str reason)])

def Event.fromValue (v : Json) : Option Event := do
  let payload ← v.get "payload"
  match ← v.field "type" Json.asStr with
  | "session.started" => (payload.field "runtime_id" Json.asStr).map .sessionStarted
  | "agent.message" => do
    let messageId ← payload.field "message_id" Json.asStr
    let content ← payload.field "content" Json.asStr
    return .agentMessage messageId content
  | "agent.activity" => (payload.field "activity" Json.asStr).map .agentActivity
  | "requirement.assessed" => (RequirementAssessed.fromValue payload).map .requirementAssessed
  | "session.completed" => (payload.field "summary" Json.asStr).map .sessionCompleted
  | "session.failed" => do
    let recoverable ← payload.field "recoverable" Json.asBool
    let reason ← payload.field "reason" Json.asStr
    return .sessionFailed recoverable reason
  | _ => none

def EventEnvelope.toValue (e : EventEnvelope) : Json := .obj [
  ("event_id",.str e.eventId),
  ("session_id",.str e.sessionId),
  ("daemon_event_seq",.num e.daemonEventSeq),
  ("sent_at",.str e.sentAt),
  ("schema_version",.num e.schemaVersion),
  ("event",e.event.toValue)]

def EventEnvelope.fromValue (v : Json) : Option EventEnvelope := do
  let eventId ← v.field "event_id" Json.asStr
  let sessionId ← v.field "session_id" Json.asStr
  let daemonEventSeq ← v.field "daemon_event_seq" (Json.asNum u64Max)
  let sentAt ← v.field "sent_at" Json.asStr
  let schemaVersion ← v.field "schema_version" (Json.asNum u16Max)
  let event ← v.field "event" Event.fromValue
  return ⟨eventId,sessionId,daemonEventSeq,sentAt,schemaVersion,event⟩

/-! ### Acknowledgements and the reconciliation snapshot -/

def CommandAck.toValue (a : CommandAck) : Json := .obj [
  ("command_id",.str a.commandId),
  ("session_id",.str a.sessionId),
  ("server_command_seq",.num a.serverCommandSeq),
  ("schema_version",.num a.schemaVersion)]

def CommandAck.fromValue (v : Json) : Option CommandAck := do
  let commandId ← v.field "command_id" Json.asStr
  let sessionId ← v.field "session_id" Json.asStr
  let serverCommandSeq ← v.field "server_command_seq" (Json.asNum u64Max)
  let schemaVersion ← v.field "schema_version" (Json.asNum u16Max)
  return ⟨commandId,sessionId,serverCommandSeq,schemaVersion⟩

def EventAckStatus.asStr : EventAckStatus → String
  | .accepted => "accepted"
  | .rejected => "rejected"

def EventAckStatus.fromValue (v : Json) : Option EventAckStatus :=
  match v.asStr with
  | some "accepted" => some .accepted
  | some "rejected" => some .rejected
  | _ => none

def EventAck.toValue (a : EventAck) : Json := .obj [
  ("event_id",.str a.eventId),
  ("session_id",.str a.sessionId),
  ("daemon_event_seq",.num a.daemonEventSeq),
  ("schema_version",.num a.schemaVersion),
  ("status",.str a.status.asStr),
  ("reason",.ofOption .str a.reason)]

def EventAck.fromValue (v : Json) : Option EventAck := do
  let eventId ← v.field "event_id" Json.asStr
  let sessionId ← v.field "session_id" Json.asStr
  let daemonEventSeq ← v.field "daemon_event_seq" (Json.asNum u64Max)
  let schemaVersion ← v.field "schema_version" (Json.asNum u16Max)
  let status ← v.field "status" EventAckStatus.fromValue
  let reason ← v.optField "reason" Json.asStr
  return ⟨eventId,sessionId,daemonEventSeq,schemaVersion,status,reason⟩

def SessionReconcileState.toValue (s : SessionReconcileState) : Json := .obj [
  ("session_id",.str s.sessionId),
  ("command_ack_through_seq",.num s.commandAckThroughSeq),
  ("event_ack_through_seq",.num s.eventAckThroughSeq),
  ("event_ack_sparse",.arr (s.eventAckSparse.map .num))]

def SessionReconcileState.fromValue (v : Json) : Option SessionReconcileState := do
  let sessionId ← v.field "session_id" Json.asStr
  let commandAckThroughSeq ← v.field "command_ack_through_seq" (Json.asNum u64Max)
  let eventAckThroughSeq ← v.field "event_ack_through_seq" (Json.asNum u64Max)
  let eventAckSparse ← v.field "event_ack_sparse" (listOf (Json.asNum u64Max))
  return ⟨sessionId,commandAckThroughSeq,eventAckThroughSeq,eventAckSparse⟩

def ReconcileSnapshot.toValue (r : ReconcileSnapshot) : Json := .obj [
  ("schema_version",.num r.schemaVersion),
  ("sessions",.arr (r.sessions.map SessionReconcileState.toValue))]

def ReconcileSnapshot.fromValue (v : Json) : Option ReconcileSnapshot := do
  let schemaVersion ← v.field "schema_version" (Json.asNum u16Max)
  let sessions ← v.field "sessions" (listOf SessionReconcileState.fromValue)
  return ⟨schemaVersion,sessions⟩

/-! ### What is written is read back -/

theorem schema_u64 {version : ℕ} (h : version ≤ u16Max) : version ≤ u64Max := h.trans (by decide)

@[simp] theorem verdict_fromValue (verdict : ReadinessVerdictWire) :
    ReadinessVerdictWire.fromValue (.str verdict.asStr) = some verdict := by
  cases verdict <;> rfl

@[simp] theorem status_fromValue (status : EventAckStatus) :
    EventAckStatus.fromValue (.str status.asStr) = some status := by
  cases status <;> rfl

@[simp] theorem reviewed_fromValue (r : ReviewedRepositoryWire) :
    ReviewedRepositoryWire.fromValue r.toValue = some r := by
  simp [ReviewedRepositoryWire.fromValue,ReviewedRepositoryWire.toValue,Json.field,Json.get,Json.asStr]

theorem assessed_faithful : Json.Faithful u64Max 3 (fun a : RequirementAssessed => a.requirementRevision ≤ u64Max)
    RequirementAssessed.toValue RequirementAssessed.fromValue where
  within a h := by
    simp [RequirementAssessed.toValue,ReviewedRepositoryWire.toValue,Json.Within,Json.within_strings,h]
  read_write a h := by
    simp [RequirementAssessed.fromValue,RequirementAssessed.toValue,Json.field,Json.get,Json.asStr,Json.asNum,h]
  in_range v a h := by
    simp only [RequirementAssessed.fromValue,Option.bind_eq_bind,Option.bind_eq_some_iff] at h
    obtain ⟨_,-,_,hrevision,_,-,_,-,_,-,_,-,h⟩ := h
    cases h
    exact Json.field_num_le hrevision

def Event.InRange : Event → Prop
  | .requirementAssessed assessed => assessed.requirementRevision ≤ u64Max
  | _ => True

theorem event_faithful : Json.Faithful u64Max 4 Event.InRange Event.toValue Event.fromValue where
  within e h := by
    cases e with
    | requirementAssessed assessed => exact Json.tagged_within (assessed_faithful.within assessed h)
    | sessionStarted | agentMessage | agentActivity | sessionCompleted | sessionFailed =>
      simp [Event.toValue,Json.tagged,Json.Within]
  read_write e h := by
    cases e with
    | requirementAssessed assessed =>
      have hpayload := assessed_faithful.read_write assessed h
      simp [Event.fromValue,Event.toValue,Json.tagged_content,hpayload]
    | sessionStarted | agentMessage | agentActivity | sessionCompleted | sessionFailed =>
      simp [Event.fromValue,Event.toValue,Json.tagged,Json.field,Json.get,Json.asStr,Json.asBool]
  in_range v e h := by
    simp only [Event.fromValue,Option.bind_eq_bind,Option.bind_eq_some_iff] at h
    obtain ⟨payload,-,kind,-,h⟩ := h
    split at h
    · obtain ⟨_,-,rfl⟩ := Option.map_eq_some_iff.mp h
      exact trivial
    · simp only [Option.bind_eq_some_iff] at h
      obtain ⟨_,-,_,-,h⟩ := h
      cases h
      exact trivial
    · obtain ⟨_,-,rfl⟩ := Option.map_eq_some_iff.mp h
      exact trivial
    · obtain ⟨assessed,hassessed,rfl⟩ := Option.map_eq_some_iff.mp h
      exact assessed_faithful.in_range payload assessed hassessed
    · obtain ⟨_,-,rfl⟩ := Option.map_eq_some_iff.mp h
      exact trivial
    · simp only [Option.bind_eq_some_iff] at h
      obtain ⟨_,-,_,-,h⟩ := h
      cases h
      exact trivial
    · cases h

structure EventEnvelope.InRange (e : EventEnvelope) : Prop where
  seq : e.daemonEventSeq ≤ u64Max
  schema : e.schemaVersion ≤ u16Max
  event : e.event.InRange

theorem envelope_faithful : Json.Faithful u64Max 5 EventEnvelope.InRange EventEnvelope.toValue
    EventEnvelope.fromValue where
  within e h := by
    have hevent := event_faithful.within e.event h.event
    simp [EventEnvelope.toValue,Json.Within,h.seq,schema_u64 h.schema,hevent]
  read_write e h := by
    have hevent := event_faithful.read_write e.event h.event
    simp [EventEnvelope.fromValue,EventEnvelope.toValue,Json.field,Json.get,Json.asStr,Json.asNum,h.seq,h.schema,hevent]
  in_range v e h := by
    simp only [EventEnvelope.fromValue,Option.bind_eq_bind,Option.bind_eq_some_iff] at h
    obtain ⟨_,-,_,-,_,hseq,_,-,_,hschema,event,hevent,h⟩ := h
    cases h
    obtain ⟨w,hw⟩ := Json.field_some hevent
    exact ⟨Json.field_num_le hseq,Json.field_num_le hschema,event_faithful.in_range w event hw⟩

/-- The numbers of a numbered record fit their types. -/
structure CommandAck.InRange (a : CommandAck) : Prop where
  seq : a.serverCommandSeq ≤ u64Max
  schema : a.schemaVersion ≤ u16Max

theorem commandAck_faithful : Json.Faithful u64Max 1 CommandAck.InRange CommandAck.toValue CommandAck.fromValue where
  within a h := by simp [CommandAck.toValue,Json.Within,h.seq,schema_u64 h.schema]
  read_write a h := by
    simp [CommandAck.fromValue,CommandAck.toValue,Json.field,Json.get,Json.asStr,Json.asNum,h.seq,h.schema]
  in_range v a h := by
    simp only [CommandAck.fromValue,Option.bind_eq_bind,Option.bind_eq_some_iff] at h
    obtain ⟨_,-,_,-,_,hseq,_,hschema,h⟩ := h
    cases h
    exact ⟨Json.field_num_le hseq,Json.field_num_le hschema⟩

structure EventAck.InRange (a : EventAck) : Prop where
  seq : a.daemonEventSeq ≤ u64Max
  schema : a.schemaVersion ≤ u16Max

theorem eventAck_faithful : Json.Faithful u64Max 1 EventAck.InRange EventAck.toValue EventAck.fromValue where
  within a h := by
    have hreason : (Json.ofOption .str a.reason).Within u64Max 0 := by cases a.reason <;> exact trivial
    simp [EventAck.toValue,Json.Within,h.seq,schema_u64 h.schema,hreason]
  read_write a h := by
    have hreason : a.toValue.optField "reason" Json.asStr = some a.reason := by
      cases hreason : a.reason <;> simp [EventAck.toValue,Json.optField,Json.get,Json.ofOption,Json.asStr,hreason]
    simp only [EventAck.fromValue,hreason]
    simp [EventAck.toValue,Json.field,Json.get,Json.asStr,Json.asNum,h.seq,h.schema]
  in_range v a h := by
    simp only [EventAck.fromValue,Option.bind_eq_bind,Option.bind_eq_some_iff] at h
    obtain ⟨_,-,_,-,_,hseq,_,hschema,_,-,_,-,h⟩ := h
    cases h
    exact ⟨Json.field_num_le hseq,Json.field_num_le hschema⟩

theorem num_faithful : Json.Faithful u64Max 0 (· ≤ u64Max) .num (Json.asNum u64Max) where
  within _ h := h
  read_write _ h := if_pos h
  in_range _ _ h := Json.asNum_le h

structure SessionReconcileState.InRange (s : SessionReconcileState) : Prop where
  command : s.commandAckThroughSeq ≤ u64Max
  event : s.eventAckThroughSeq ≤ u64Max
  sparse : ∀ q ∈ s.eventAckSparse, q ≤ u64Max

theorem reconcileState_faithful : Json.Faithful u64Max 2 SessionReconcileState.InRange SessionReconcileState.toValue
    SessionReconcileState.fromValue where
  within s h := by
    simpa [SessionReconcileState.toValue,Json.Within,h.command,h.event] using h.sparse
  read_write s h := by
    have hsparse : listOf (Json.asNum u64Max) (.arr (s.eventAckSparse.map .num)) = some s.eventAckSparse :=
      num_faithful.list.read_write s.eventAckSparse h.sparse
    simp [SessionReconcileState.fromValue,SessionReconcileState.toValue,Json.field,Json.get,Json.asStr,Json.asNum,
      h.command,h.event,hsparse]
  in_range v s h := by
    simp only [SessionReconcileState.fromValue,Option.bind_eq_bind,Option.bind_eq_some_iff] at h
    obtain ⟨_,-,_,hcommand,_,hevent,sparse,hsparse,h⟩ := h
    cases h
    obtain ⟨w,hw⟩ := Json.field_some hsparse
    exact ⟨Json.field_num_le hcommand,Json.field_num_le hevent,num_faithful.list.in_range w sparse hw⟩

structure ReconcileSnapshot.InRange (r : ReconcileSnapshot) : Prop where
  schema : r.schemaVersion ≤ u16Max
  sessions : ∀ s ∈ r.sessions, s.InRange

theorem snapshot_faithful : Json.Faithful u64Max 4 ReconcileSnapshot.InRange ReconcileSnapshot.toValue
    ReconcileSnapshot.fromValue where
  within r h := by
    have hsessions (s) (hs : s ∈ r.sessions) := reconcileState_faithful.within s (h.sessions s hs)
    simpa [ReconcileSnapshot.toValue,Json.Within,schema_u64 h.schema] using hsessions
  read_write r h := by
    have hsessions : listOf SessionReconcileState.fromValue (.arr (r.sessions.map SessionReconcileState.toValue)) =
        some r.sessions := reconcileState_faithful.list.read_write r.sessions h.sessions
    simp [ReconcileSnapshot.fromValue,ReconcileSnapshot.toValue,Json.field,Json.get,Json.asNum,h.schema,hsessions]
  in_range v r h := by
    simp only [ReconcileSnapshot.fromValue,Option.bind_eq_bind,Option.bind_eq_some_iff] at h
    obtain ⟨_,hschema,sessions,hsessions,h⟩ := h
    cases h
    obtain ⟨w,hw⟩ := Json.field_some hsessions
    exact ⟨Json.field_num_le hschema,reconcileState_faithful.list.in_range w sessions hw⟩

theorem requirement_in_range {v : Json} {c : RequirementContext} (h : RequirementContext.fromValue v = some c) :
    c.revision ≤ u64Max := by
  simp only [RequirementContext.fromValue,Option.bind_eq_bind,Option.bind_eq_some_iff] at h
  obtain ⟨_,-,_,hrevision,_,-,_,-,_,-,_,-,_,-,_,-,h⟩ := h
  cases h
  exact Json.field_num_le hrevision

theorem start_in_range {v : Json} {s : SessionStart} (h : SessionStart.fromValue v = some s) :
    s.requirement.revision ≤ u64Max := by
  simp only [SessionStart.fromValue,Option.bind_eq_bind,Option.bind_eq_some_iff] at h
  obtain ⟨_,hrequirement,_,-,_,-,h⟩ := h
  cases h
  obtain ⟨w,hw⟩ := Json.field_some hrequirement
  exact requirement_in_range hw

theorem command_in_range {v : Json} {c : Command} (h : Command.fromValue v = some c) : c.InRange := by
  simp only [Command.fromValue,Option.bind_eq_bind,Option.bind_eq_some_iff] at h
  obtain ⟨payload,-,kind,-,h⟩ := h
  split at h
  · obtain ⟨start,hstart,rfl⟩ := Option.map_eq_some_iff.mp h
    exact start_in_range hstart
  · obtain ⟨_,-,rfl⟩ := Option.map_eq_some_iff.mp h
    exact trivial
  · split at h
    · cases h
      exact trivial
    · cases h
  · simp only [Option.bind_eq_some_iff] at h
    obtain ⟨_,-,_,-,h⟩ := h
    cases h
    exact trivial
  · cases h

theorem command_faithful : Json.Faithful u64Max 6 CommandEnvelope.InRange CommandEnvelope.toValue
    CommandEnvelope.fromValue where
  within e h := by
    have hcommand := command_within h.command 0
    simpa [CommandEnvelope.toValue,Json.Within,h.seq,schema_u64 h.schema] using hcommand
  read_write e h := by
    simp [CommandEnvelope.fromValue,CommandEnvelope.toValue,Json.field,Json.get,Json.asStr,Json.asNum,h.seq,
      h.schema,command_fromValue h.command]
  in_range v e h := by
    simp only [CommandEnvelope.fromValue,Option.bind_eq_bind,Option.bind_eq_some_iff] at h
    obtain ⟨_,-,_,-,_,hseq,_,-,_,hschema,command,hcommand,h⟩ := h
    cases h
    obtain ⟨w,hw⟩ := Json.field_some hcommand
    exact ⟨Json.field_num_le hseq,Json.field_num_le hschema,command_in_range hw⟩

namespace Wire

def protocolVersion : String := "0.1"

/-- `serde_json` and what the standard library decides of the messages. -/
structure Host where
  text : WireText
  /-- What `serde_json` says of a text it refuses. -/
  refusal : String → String
  /-- The quoted form of a string, `{:?}`. -/
  debug : String → String

variable (host : Host)

/-- `serde_json::from_str` of a type with its derived reader. -/
def Host.fromStr {F : Type} (fromValue : Json → Option F) (text : String) : Except FrameError F :=
  match (host.text.read text).bind fromValue with
  | some frame => .ok frame
  | none => .error (.json (host.refusal text))

def protocol (version : String) : Except FrameError Unit :=
  if version ≠ protocolVersion then
    .error (.validation ("unsupported protocol_version " ++ host.debug version ++ "; expected " ++
      host.debug protocolVersion))
  else .ok ()

/-! ### The handshake, liveness and errors -/

structure Hello where
  protocolVersion : String
  schemaVersion : ℕ
  daemonId : String
  credential : String
  capabilities : List String
  deriving DecidableEq, Repr

def Hello.validate (f : Hello) : Except FrameError Unit := do
  protocol host f.protocolVersion
  schema f.schemaVersion
  nonEmpty "daemon_id" f.daemonId
  nonEmpty "credential" f.credential

def Hello.toValue (f : Hello) : Json := .obj [
  ("protocol_version",.str f.protocolVersion),
  ("schema_version",.num f.schemaVersion),
  ("daemon_id",.str f.daemonId),
  ("credential",.str f.credential),
  ("capabilities",.strings f.capabilities)]

def Hello.fromValue (v : Json) : Option Hello := do
  let protocolVersion ← v.field "protocol_version" Json.asStr
  let schemaVersion ← v.field "schema_version" (Json.asNum u16Max)
  let daemonId ← v.field "daemon_id" Json.asStr
  let credential ← v.field "credential" Json.asStr
  let capabilities ← v.field "capabilities" Json.asStrings
  return ⟨protocolVersion,schemaVersion,daemonId,credential,capabilities⟩

structure Welcome where
  protocolVersion : String
  schemaVersion : ℕ
  daemonId : String
  serverTime : String
  deriving DecidableEq, Repr

def Welcome.validate (f : Welcome) : Except FrameError Unit := do
  protocol host f.protocolVersion
  schema f.schemaVersion
  nonEmpty "daemon_id" f.daemonId
  nonEmpty "server_time" f.serverTime

def Welcome.toValue (f : Welcome) : Json := .obj [
  ("protocol_version",.str f.protocolVersion),
  ("schema_version",.num f.schemaVersion),
  ("daemon_id",.str f.daemonId),
  ("server_time",.str f.serverTime)]

def Welcome.fromValue (v : Json) : Option Welcome := do
  let protocolVersion ← v.field "protocol_version" Json.asStr
  let schemaVersion ← v.field "schema_version" (Json.asNum u16Max)
  let daemonId ← v.field "daemon_id" Json.asStr
  let serverTime ← v.field "server_time" Json.asStr
  return ⟨protocolVersion,schemaVersion,daemonId,serverTime⟩

structure Heartbeat where
  schemaVersion : ℕ
  daemonId : String
  sentAt : String
  applicationState : String
  deriving DecidableEq, Repr

def Heartbeat.validate (f : Heartbeat) : Except FrameError Unit := do
  schema f.schemaVersion
  nonEmpty "daemon_id" f.daemonId
  nonEmpty "sent_at" f.sentAt
  nonEmpty "application_state" f.applicationState

def Heartbeat.toValue (f : Heartbeat) : Json := .obj [
  ("schema_version",.num f.schemaVersion),
  ("daemon_id",.str f.daemonId),
  ("sent_at",.str f.sentAt),
  ("application_state",.str f.applicationState)]

def Heartbeat.fromValue (v : Json) : Option Heartbeat := do
  let schemaVersion ← v.field "schema_version" (Json.asNum u16Max)
  let daemonId ← v.field "daemon_id" Json.asStr
  let sentAt ← v.field "sent_at" Json.asStr
  let applicationState ← v.field "application_state" Json.asStr
  return ⟨schemaVersion,daemonId,sentAt,applicationState⟩

structure ProtocolErrorFrame where
  schemaVersion : ℕ
  code : String
  message : String
  deriving DecidableEq, Repr

def ProtocolErrorFrame.validate (f : ProtocolErrorFrame) : Except FrameError Unit := do
  schema f.schemaVersion
  nonEmpty "code" f.code
  nonEmpty "message" f.message

def ProtocolErrorFrame.toValue (f : ProtocolErrorFrame) : Json := .obj [
  ("schema_version",.num f.schemaVersion),
  ("code",.str f.code),
  ("message",.str f.message)]

def ProtocolErrorFrame.fromValue (v : Json) : Option ProtocolErrorFrame := do
  let schemaVersion ← v.field "schema_version" (Json.asNum u16Max)
  let code ← v.field "code" Json.asStr
  let message ← v.field "message" Json.asStr
  return ⟨schemaVersion,code,message⟩

/-! ### The frames of a direction -/

inductive ServerFrame
  | welcome (frame : Welcome)
  | command (frame : CommandEnvelope)
  | eventAck (frame : EventAck)
  | reconcile (frame : ReconcileSnapshot)
  | protocolError (frame : ProtocolErrorFrame)
  deriving DecidableEq, Repr

def ServerFrame.validate : ServerFrame → Except FrameError Unit
  | .welcome frame => frame.validate host
  | .command frame => frame.validate
  | .eventAck frame => frame.validate
  | .reconcile frame => frame.validate
  | .protocolError frame => frame.validate

def ServerFrame.toValue : ServerFrame → Json
  | .welcome frame => .tagged "frame" "payload" "welcome" frame.toValue
  | .command frame => .tagged "frame" "payload" "command" frame.toValue
  | .eventAck frame => .tagged "frame" "payload" "event_ack" frame.toValue
  | .reconcile frame => .tagged "frame" "payload" "reconcile" frame.toValue
  | .protocolError frame => .tagged "frame" "payload" "protocol_error" frame.toValue

def ServerFrame.fromValue (v : Json) : Option ServerFrame := do
  let payload ← v.get "payload"
  match ← v.field "frame" Json.asStr with
  | "welcome" => (Welcome.fromValue payload).map .welcome
  | "command" => (CommandEnvelope.fromValue payload).map .command
  | "event_ack" => (EventAck.fromValue payload).map .eventAck
  | "reconcile" => (ReconcileSnapshot.fromValue payload).map .reconcile
  | "protocol_error" => (ProtocolErrorFrame.fromValue payload).map .protocolError
  | _ => none

def ServerFrame.toJson (f : ServerFrame) : Except FrameError String := do
  f.validate host
  return host.text.write f.toValue

def ServerFrame.fromJson (text : String) : Except FrameError ServerFrame := do
  let frame ← host.fromStr ServerFrame.fromValue text
  frame.validate host
  return frame

inductive DaemonFrame
  | hello (frame : Hello)
  | heartbeat (frame : Heartbeat)
  | event (frame : EventEnvelope)
  | commandAck (frame : CommandAck)
  | protocolError (frame : ProtocolErrorFrame)
  deriving DecidableEq, Repr

def DaemonFrame.validate : DaemonFrame → Except FrameError Unit
  | .hello frame => frame.validate host
  | .heartbeat frame => frame.validate
  | .event frame => frame.validate
  | .commandAck frame => frame.validate
  | .protocolError frame => frame.validate

def DaemonFrame.toValue : DaemonFrame → Json
  | .hello frame => .tagged "frame" "payload" "hello" frame.toValue
  | .heartbeat frame => .tagged "frame" "payload" "heartbeat" frame.toValue
  | .event frame => .tagged "frame" "payload" "event" frame.toValue
  | .commandAck frame => .tagged "frame" "payload" "command_ack" frame.toValue
  | .protocolError frame => .tagged "frame" "payload" "protocol_error" frame.toValue

def DaemonFrame.fromValue (v : Json) : Option DaemonFrame := do
  let payload ← v.get "payload"
  match ← v.field "frame" Json.asStr with
  | "hello" => (Hello.fromValue payload).map .hello
  | "heartbeat" => (Heartbeat.fromValue payload).map .heartbeat
  | "event" => (EventEnvelope.fromValue payload).map .event
  | "command_ack" => (CommandAck.fromValue payload).map .commandAck
  | "protocol_error" => (ProtocolErrorFrame.fromValue payload).map .protocolError
  | _ => none

def DaemonFrame.toJson (f : DaemonFrame) : Except FrameError String := do
  f.validate host
  return host.text.write f.toValue

def DaemonFrame.fromJson (text : String) : Except FrameError DaemonFrame := do
  let frame ← host.fromStr DaemonFrame.fromValue text
  frame.validate host
  return frame

/-! ### The codec of a direction -/

theorem hello_faithful : Json.Faithful u64Max 2 (fun f : Hello => f.schemaVersion ≤ u16Max) Hello.toValue
    Hello.fromValue where
  within f h := by simp [Hello.toValue,Json.Within,Json.within_strings,schema_u64 h]
  read_write f h := by simp [Hello.fromValue,Hello.toValue,Json.field,Json.get,Json.asStr,Json.asNum,h]
  in_range v f h := by
    simp only [Hello.fromValue,Option.bind_eq_bind,Option.bind_eq_some_iff] at h
    obtain ⟨_,-,_,hschema,_,-,_,-,_,-,h⟩ := h
    cases h
    exact Json.field_num_le hschema

theorem welcome_faithful : Json.Faithful u64Max 1 (fun f : Welcome => f.schemaVersion ≤ u16Max) Welcome.toValue
    Welcome.fromValue where
  within f h := by simp [Welcome.toValue,Json.Within,schema_u64 h]
  read_write f h := by simp [Welcome.fromValue,Welcome.toValue,Json.field,Json.get,Json.asStr,Json.asNum,h]
  in_range v f h := by
    simp only [Welcome.fromValue,Option.bind_eq_bind,Option.bind_eq_some_iff] at h
    obtain ⟨_,-,_,hschema,_,-,_,-,h⟩ := h
    cases h
    exact Json.field_num_le hschema

theorem heartbeat_faithful : Json.Faithful u64Max 1 (fun f : Heartbeat => f.schemaVersion ≤ u16Max) Heartbeat.toValue
    Heartbeat.fromValue where
  within f h := by simp [Heartbeat.toValue,Json.Within,schema_u64 h]
  read_write f h := by simp [Heartbeat.fromValue,Heartbeat.toValue,Json.field,Json.get,Json.asStr,Json.asNum,h]
  in_range v f h := by
    simp only [Heartbeat.fromValue,Option.bind_eq_bind,Option.bind_eq_some_iff] at h
    obtain ⟨_,hschema,_,-,_,-,_,-,h⟩ := h
    cases h
    exact Json.field_num_le hschema

theorem protocolError_faithful : Json.Faithful u64Max 1 (fun f : ProtocolErrorFrame => f.schemaVersion ≤ u16Max)
    ProtocolErrorFrame.toValue ProtocolErrorFrame.fromValue where
  within f h := by simp [ProtocolErrorFrame.toValue,Json.Within,schema_u64 h]
  read_write f h := by
    simp [ProtocolErrorFrame.fromValue,ProtocolErrorFrame.toValue,Json.field,Json.get,Json.asStr,Json.asNum,h]
  in_range v f h := by
    simp only [ProtocolErrorFrame.fromValue,Option.bind_eq_bind,Option.bind_eq_some_iff] at h
    obtain ⟨_,hschema,_,-,_,-,h⟩ := h
    cases h
    exact Json.field_num_le hschema

def ServerFrame.InRange : ServerFrame → Prop
  | .welcome frame => frame.schemaVersion ≤ u16Max
  | .command frame => frame.InRange
  | .eventAck frame => frame.InRange
  | .reconcile frame => frame.InRange
  | .protocolError frame => frame.schemaVersion ≤ u16Max

theorem serverFrame_faithful : Json.Faithful u64Max maxNesting ServerFrame.InRange ServerFrame.toValue
    ServerFrame.fromValue where
  within f h := by
    cases f with
    | welcome frame => exact Json.tagged_within ((welcome_faithful.deeper (by decide)).within frame h)
    | command frame => exact Json.tagged_within ((command_faithful.deeper (by decide)).within frame h)
    | eventAck frame => exact Json.tagged_within ((eventAck_faithful.deeper (by decide)).within frame h)
    | reconcile frame => exact Json.tagged_within ((snapshot_faithful.deeper (by decide)).within frame h)
    | protocolError frame => exact Json.tagged_within ((protocolError_faithful.deeper (by decide)).within frame h)
  read_write f h := by
    cases f with
    | welcome frame =>
      simp [ServerFrame.fromValue,ServerFrame.toValue,Json.tagged_content,welcome_faithful.read_write frame h]
    | command frame =>
      simp [ServerFrame.fromValue,ServerFrame.toValue,Json.tagged_content,command_faithful.read_write frame h]
    | eventAck frame =>
      simp [ServerFrame.fromValue,ServerFrame.toValue,Json.tagged_content,eventAck_faithful.read_write frame h]
    | reconcile frame =>
      simp [ServerFrame.fromValue,ServerFrame.toValue,Json.tagged_content,snapshot_faithful.read_write frame h]
    | protocolError frame =>
      simp [ServerFrame.fromValue,ServerFrame.toValue,Json.tagged_content,protocolError_faithful.read_write frame h]
  in_range v f h := by
    simp only [ServerFrame.fromValue,Option.bind_eq_bind,Option.bind_eq_some_iff] at h
    obtain ⟨payload,-,kind,-,h⟩ := h
    split at h
    · obtain ⟨frame,hframe,rfl⟩ := Option.map_eq_some_iff.mp h
      exact welcome_faithful.in_range payload frame hframe
    · obtain ⟨frame,hframe,rfl⟩ := Option.map_eq_some_iff.mp h
      exact command_faithful.in_range payload frame hframe
    · obtain ⟨frame,hframe,rfl⟩ := Option.map_eq_some_iff.mp h
      exact eventAck_faithful.in_range payload frame hframe
    · obtain ⟨frame,hframe,rfl⟩ := Option.map_eq_some_iff.mp h
      exact snapshot_faithful.in_range payload frame hframe
    · obtain ⟨frame,hframe,rfl⟩ := Option.map_eq_some_iff.mp h
      exact protocolError_faithful.in_range payload frame hframe
    · cases h

def DaemonFrame.InRange : DaemonFrame → Prop
  | .hello frame => frame.schemaVersion ≤ u16Max
  | .heartbeat frame => frame.schemaVersion ≤ u16Max
  | .event frame => frame.InRange
  | .commandAck frame => frame.InRange
  | .protocolError frame => frame.schemaVersion ≤ u16Max

theorem daemonFrame_faithful : Json.Faithful u64Max maxNesting DaemonFrame.InRange DaemonFrame.toValue
    DaemonFrame.fromValue where
  within f h := by
    cases f with
    | hello frame => exact Json.tagged_within ((hello_faithful.deeper (by decide)).within frame h)
    | heartbeat frame => exact Json.tagged_within ((heartbeat_faithful.deeper (by decide)).within frame h)
    | event frame => exact Json.tagged_within ((envelope_faithful.deeper (by decide)).within frame h)
    | commandAck frame => exact Json.tagged_within ((commandAck_faithful.deeper (by decide)).within frame h)
    | protocolError frame => exact Json.tagged_within ((protocolError_faithful.deeper (by decide)).within frame h)
  read_write f h := by
    cases f with
    | hello frame =>
      simp [DaemonFrame.fromValue,DaemonFrame.toValue,Json.tagged_content,hello_faithful.read_write frame h]
    | heartbeat frame =>
      simp [DaemonFrame.fromValue,DaemonFrame.toValue,Json.tagged_content,heartbeat_faithful.read_write frame h]
    | event frame =>
      simp [DaemonFrame.fromValue,DaemonFrame.toValue,Json.tagged_content,envelope_faithful.read_write frame h]
    | commandAck frame =>
      simp [DaemonFrame.fromValue,DaemonFrame.toValue,Json.tagged_content,commandAck_faithful.read_write frame h]
    | protocolError frame =>
      simp [DaemonFrame.fromValue,DaemonFrame.toValue,Json.tagged_content,protocolError_faithful.read_write frame h]
  in_range v f h := by
    simp only [DaemonFrame.fromValue,Option.bind_eq_bind,Option.bind_eq_some_iff] at h
    obtain ⟨payload,-,kind,-,h⟩ := h
    split at h
    · obtain ⟨frame,hframe,rfl⟩ := Option.map_eq_some_iff.mp h
      exact hello_faithful.in_range payload frame hframe
    · obtain ⟨frame,hframe,rfl⟩ := Option.map_eq_some_iff.mp h
      exact heartbeat_faithful.in_range payload frame hframe
    · obtain ⟨frame,hframe,rfl⟩ := Option.map_eq_some_iff.mp h
      exact envelope_faithful.in_range payload frame hframe
    · obtain ⟨frame,hframe,rfl⟩ := Option.map_eq_some_iff.mp h
      exact commandAck_faithful.in_range payload frame hframe
    · obtain ⟨frame,hframe,rfl⟩ := Option.map_eq_some_iff.mp h
      exact protocolError_faithful.in_range payload frame hframe
    · cases h

variable {host : Host}

theorem fromStr_eq_ok {F : Type} {fromValue : Json → Option F} {text : String} {frame : F} :
    host.fromStr fromValue text = .ok frame ↔ (host.text.read text).bind fromValue = some frame := by
  rw [Host.fromStr]
  cases (host.text.read text).bind fromValue <;> simp

theorem fromStr_refused {F : Type} {fromValue : Json → Option F} {text : String}
    (h : (host.text.read text).bind fromValue = none) :
    host.fromStr fromValue text = .error (.json (host.refusal text)) := by
  rw [Host.fromStr,h]

/-- Exactly the valid frames are written, they are read back, and only valid frames are read. -/
structure CodecLaws {F : Type} (validate : F → Except FrameError Unit) (InRange : F → Prop)
    (toJson : F → Except FrameError String) (fromJson : String → Except FrameError F) : Prop where
  encodes (f : F) : (∃ text, toJson f = .ok text) ↔ validate f = .ok ()
  round_trip (f : F) (text : String) (h : InRange f) (htext : toJson f = .ok text) : fromJson text = .ok f
  decodes_valid (text : String) (f : F) (h : fromJson text = .ok f) : validate f = .ok () ∧ InRange f

/-- A faithful format gives a codec that checks its frames. -/
theorem codecLaws_of_faithful {F : Type} {InRange : F → Prop} {toValue : F → Json} {fromValue : Json → Option F}
    (h : Json.Faithful u64Max maxNesting InRange toValue fromValue) (validate : F → Except FrameError Unit) :
    CodecLaws validate InRange (Checked.encode validate fun f => host.text.write (toValue f))
      (Checked.decode validate (host.fromStr fromValue)) where
  encodes _ := Checked.encode_ok_iff
  round_trip _ _ hrange htext := Checked.decode_encode (fromStr_eq_ok.mpr (h.text host.text hrange)) htext
  decodes_valid text f hdecoded := by
    obtain ⟨hread,hvalid⟩ := Checked.decode_eq_ok.mp hdecoded
    obtain ⟨v,-,hv⟩ := Option.bind_eq_some_iff.mp (fromStr_eq_ok.mp hread)
    exact ⟨hvalid,h.in_range v f hv⟩

theorem ServerFrame.codecLaws (host : Host) :
    CodecLaws (ServerFrame.validate host) ServerFrame.InRange (ServerFrame.toJson host) (ServerFrame.fromJson host) :=
  codecLaws_of_faithful serverFrame_faithful (ServerFrame.validate host)

theorem DaemonFrame.codecLaws (host : Host) :
    CodecLaws (DaemonFrame.validate host) DaemonFrame.InRange (DaemonFrame.toJson host) (DaemonFrame.fromJson host) :=
  codecLaws_of_faithful daemonFrame_faithful (DaemonFrame.validate host)

/-! ### A frame and the other direction -/

theorem ServerFrame.read_other {f : ServerFrame} (hf : ∀ e, f ≠ .protocolError e) :
    DaemonFrame.fromValue f.toValue = none := by
  cases f with
  | welcome frame | command frame | eventAck frame | reconcile frame =>
    simp [DaemonFrame.fromValue,ServerFrame.toValue,Json.tagged_content]
  | protocolError e => exact absurd rfl (hf e)

theorem DaemonFrame.read_other {f : DaemonFrame} (hf : ∀ e, f ≠ .protocolError e) :
    ServerFrame.fromValue f.toValue = none := by
  cases f with
  | hello frame | heartbeat frame | event frame | commandAck frame =>
    simp [ServerFrame.fromValue,DaemonFrame.toValue,Json.tagged_content]
  | protocolError e => exact absurd rfl (hf e)

theorem ServerFrame.toJson_eq_ok {f : ServerFrame} {text : String} :
    f.toJson host = .ok text ↔ f.validate host = .ok () ∧ host.text.write f.toValue = text := by
  have hencode : f.toJson host = Checked.encode (ServerFrame.validate host) (fun f => host.text.write f.toValue) f := rfl
  rw [hencode,Checked.encode_eq_ok]

theorem DaemonFrame.toJson_eq_ok {f : DaemonFrame} {text : String} :
    f.toJson host = .ok text ↔ f.validate host = .ok () ∧ host.text.write f.toValue = text := by
  have hencode : f.toJson host = Checked.encode (DaemonFrame.validate host) (fun f => host.text.write f.toValue) f := rfl
  rw [hencode,Checked.encode_eq_ok]

theorem fromStr_other {F G : Type} {InRange : F → Prop} {toValue : F → Json} {fromValue : Json → Option F}
    (h : Json.Faithful u64Max maxNesting InRange toValue fromValue) {other : Json → Option G} {f : F} (hf : InRange f)
    (hother : other (toValue f) = none) :
    host.fromStr other (host.text.write (toValue f)) = .error (.json (host.refusal (host.text.write (toValue f)))) := by
  refine fromStr_refused ?_
  rw [host.text.read_write _ (h.within f hf),Option.bind_some,hother]

theorem ServerFrame.refused_iff {f : ServerFrame} {text : String} (h : f.InRange) (htext : f.toJson host = .ok text) :
    (∃ error, DaemonFrame.fromJson host text = .error error) ↔ ∀ e, f ≠ .protocolError e := by
  obtain ⟨hvalid,rfl⟩ := ServerFrame.toJson_eq_ok.mp htext
  constructor
  · rintro ⟨error,herror⟩ e rfl
    -- both directions write an error the same
    have hsame := (DaemonFrame.codecLaws host).round_trip (.protocolError e) _ h
      (DaemonFrame.toJson_eq_ok.mpr ⟨hvalid,rfl⟩)
    cases hsame.symm.trans herror
  · intro hf
    rw [DaemonFrame.fromJson,fromStr_other serverFrame_faithful h (ServerFrame.read_other hf)]
    exact ⟨_,rfl⟩

theorem DaemonFrame.refused_iff {f : DaemonFrame} {text : String} (h : f.InRange) (htext : f.toJson host = .ok text) :
    (∃ error, ServerFrame.fromJson host text = .error error) ↔ ∀ e, f ≠ .protocolError e := by
  obtain ⟨hvalid,rfl⟩ := DaemonFrame.toJson_eq_ok.mp htext
  constructor
  · rintro ⟨error,herror⟩ e rfl
    have hsame := (ServerFrame.codecLaws host).round_trip (.protocolError e) _ h
      (ServerFrame.toJson_eq_ok.mpr ⟨hvalid,rfl⟩)
    cases hsame.symm.trans herror
  · intro hf
    rw [ServerFrame.fromJson,fromStr_other daemonFrame_faithful h (DaemonFrame.read_other hf)]
    exact ⟨_,rfl⟩

/-- The codec of both directions; a text of one is refused by the other unless it holds an error. -/
theorem wire_codec (host : Host) :
    CodecLaws (ServerFrame.validate host) ServerFrame.InRange (ServerFrame.toJson host) (ServerFrame.fromJson host) ∧
    CodecLaws (DaemonFrame.validate host) DaemonFrame.InRange (DaemonFrame.toJson host) (DaemonFrame.fromJson host) ∧
    (∀ (f : ServerFrame) (text : String), f.InRange → f.toJson host = .ok text →
      ((∃ error, DaemonFrame.fromJson host text = .error error) ↔ ∀ e, f ≠ .protocolError e)) ∧
    ∀ (f : DaemonFrame) (text : String), f.InRange → f.toJson host = .ok text →
      ((∃ error, ServerFrame.fromJson host text = .error error) ↔ ∀ e, f ≠ .protocolError e) :=
  ⟨ServerFrame.codecLaws host,DaemonFrame.codecLaws host,fun _ _ h htext => ServerFrame.refused_iff h htext,
    fun _ _ h htext => DaemonFrame.refused_iff h htext⟩

/-- The compact text, and messages without an escape. -/
def sampleHost : Host where
  text := Json.Codec.compact _ _
  refusal _ := "not a frame"
  debug s := "\"" ++ s ++ "\""

def sampleFrame : ServerFrame := .reconcile ⟨1,[⟨"session-1",1,1,[3]⟩,⟨"session-2",2,4,[6]⟩]⟩

theorem sample_wire_codec : ∃ text, sampleFrame.toJson sampleHost = .ok text ∧
    ServerFrame.fromJson sampleHost text = .ok sampleFrame ∧
    ∃ error, DaemonFrame.fromJson sampleHost text = .error error := by
  obtain ⟨hserver,-,hrefused,-⟩ := wire_codec sampleHost
  have hrange : sampleFrame.InRange := by
    refine ⟨by decide,fun s hs => ?_⟩
    simp only [List.mem_cons,List.not_mem_nil,or_false] at hs
    rcases hs with rfl | rfl <;> exact ⟨by decide,by decide,by decide⟩
  obtain ⟨text,htext⟩ := (hserver.encodes sampleFrame).mpr (by decide +kernel)
  exact ⟨text,htext,hserver.round_trip sampleFrame text hrange htext,(hrefused sampleFrame text hrange htext).mpr nofun⟩

end Wire

end Protocol
end North
