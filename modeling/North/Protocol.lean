import North.Lib.Text
import North.Lib.Machine
import North.Lib.Prog

/-! The wire contract of `north-protocol`: commands, events, acknowledgements and
the reconciliation snapshot, with their structural validation. -/
namespace North
namespace Protocol

open Machine

def schemaVersion : ℕ := 1

inductive FrameError
  | json (reason : String)
  | validation (reason : String)
  deriving DecidableEq, Repr

def nonEmpty (field value : String) : Except FrameError Unit :=
  if Text.blank value then .error (.validation (field ++ " must not be empty")) else .ok ()

def schema (version : ℕ) : Except FrameError Unit :=
  if version ≠ schemaVersion then
    .error (.validation ("unsupported schema_version " ++ toString version ++ "; expected " ++
      toString schemaVersion))
  else .ok ()

def sequence (field : String) (value : ℕ) : Except FrameError Unit :=
  if value = 0 then .error (.validation (field ++ " must start at 1")) else .ok ()

def nonEmptyList (field : String) (values : List String) : Except FrameError Unit :=
  values.forM (nonEmpty field)

/-- A complete Git object id: forty or sixty-four hexadecimal digits. -/
def completeCommitSha (value : String) : Bool :=
  [20*2,32*2].contains value.utf8ByteSize &&
    value.toList.all fun c => c.isDigit || ('a' ≤ c && c ≤ 'f') || ('A' ≤ c && c ≤ 'F')

structure RequirementContext where
  id : String
  revision : ℕ
  title : String
  description : String
  summary : String
  acceptanceCriteria : List String
  assumptions : List String
  openQuestions : List String
  deriving DecidableEq, Repr

def RequirementContext.validate (c : RequirementContext) : Except FrameError Unit := do
  nonEmpty "requirement.id" c.id
  sequence "requirement.revision" c.revision
  nonEmpty "requirement.title" c.title
  nonEmpty "requirement.description" c.description
  nonEmptyList "requirement.acceptance_criteria" c.acceptanceCriteria
  nonEmptyList "requirement.assumptions" c.assumptions
  nonEmptyList "requirement.open_questions" c.openQuestions

inductive ConversationRoleWire
  | requester | agent | system
  deriving DecidableEq, Repr

structure ConversationMessageContext where
  messageId : String
  role : ConversationRoleWire
  content : String
  deriving DecidableEq, Repr

def ConversationMessageContext.validate (m : ConversationMessageContext) :
    Except FrameError Unit := do
  nonEmpty "conversation.message_id" m.messageId
  nonEmpty "conversation.content" m.content

structure RepositoryContext where
  repositoryId : String
  name : String
  url : String
  description : String
  deriving DecidableEq, Repr

def RepositoryContext.validate (r : RepositoryContext) : Except FrameError Unit := do
  nonEmpty "repository.repository_id" r.repositoryId
  nonEmpty "repository.name" r.name
  nonEmpty "repository.url" r.url

structure SessionStart where
  requirement : RequirementContext
  /-- The server-assembled excerpt, `conversation.excerpt` on the wire. -/
  excerpt : List ConversationMessageContext
  repositories : List RepositoryContext
  deriving DecidableEq, Repr

def SessionStart.validate (s : SessionStart) : Except FrameError Unit := do
  s.requirement.validate
  s.excerpt.forM ConversationMessageContext.validate
  s.repositories.forM RepositoryContext.validate

inductive Command
  | sessionStart (start : SessionStart)
  | sessionCancel (reason : String)
  | sessionResume
  | messageSend (messageId content : String)
  deriving DecidableEq, Repr

def Command.isSessionCancel : Command → Bool
  | .sessionCancel _ => true
  | _ => false

structure CommandEnvelope where
  commandId : String
  sessionId : String
  serverCommandSeq : ℕ
  sentAt : String
  schemaVersion : ℕ
  command : Command
  deriving DecidableEq, Repr

def CommandEnvelope.validate (e : CommandEnvelope) : Except FrameError Unit := do
  schema e.schemaVersion
  nonEmpty "command_id" e.commandId
  nonEmpty "session_id" e.sessionId
  nonEmpty "sent_at" e.sentAt
  sequence "server_command_seq" e.serverCommandSeq
  match e.command with
  | .sessionStart start => start.validate
  | .sessionCancel reason => nonEmpty "reason" reason
  | .sessionResume => .ok ()
  | .messageSend messageId content => do
    nonEmpty "message_id" messageId
    nonEmpty "content" content

theorem schema_ok {version : ℕ} (h : schema version = .ok ()) : version = schemaVersion := by
  unfold schema at h
  split_ifs at h with hv
  exact not_ne_iff.mp hv

theorem sequence_ok {field : String} {value : ℕ} (h : sequence field value = .ok ()) :
    0 < value := by
  unfold sequence at h
  split_ifs at h with hv
  omega

theorem nonEmpty_ok {field value : String} (h : nonEmpty field value = .ok ()) :
    Text.blank value = false := by
  unfold nonEmpty at h
  split_ifs at h with hv
  simpa using hv

theorem CommandEnvelope.validate_names {e : CommandEnvelope} (h : e.validate = .ok ()) :
    Text.blank e.commandId = false ∧ Text.blank e.sessionId = false := by
  unfold CommandEnvelope.validate at h
  simp only [bind_eq_ok] at h
  obtain ⟨_,-,_,hcommand,_,hsession,-⟩ := h
  exact ⟨nonEmpty_ok hcommand,nonEmpty_ok hsession⟩

theorem CommandEnvelope.validate_ok {e : CommandEnvelope} (h : e.validate = .ok ()) :
    e.schemaVersion = Protocol.schemaVersion ∧ 0 < e.serverCommandSeq := by
  unfold CommandEnvelope.validate at h
  simp only [bind_eq_ok] at h
  obtain ⟨_,hschema,_,-,_,-,_,-,_,hseq,-⟩ := h
  exact ⟨schema_ok hschema,sequence_ok hseq⟩

inductive ReadinessVerdictWire
  | ready | needsClarification
  deriving DecidableEq, Repr

structure ReviewedRepositoryWire where
  repositoryId : String
  commitSha : String
  deriving DecidableEq, Repr

def ReviewedRepositoryWire.validate (r : ReviewedRepositoryWire) : Except FrameError Unit := do
  nonEmpty "repositories_reviewed.repository_id" r.repositoryId
  if completeCommitSha r.commitSha then .ok ()
  else .error (.validation "repositories_reviewed.commit_sha must be a complete Git object ID")

structure RequirementAssessed where
  requirementId : String
  requirementRevision : ℕ
  verdict : ReadinessVerdictWire
  blockers : List String
  assumptions : List String
  repositoriesReviewed : List ReviewedRepositoryWire
  deriving DecidableEq, Repr

def RequirementAssessed.validate (a : RequirementAssessed) : Except FrameError Unit := do
  nonEmpty "requirement_id" a.requirementId
  sequence "requirement_revision" a.requirementRevision
  nonEmptyList "blockers" a.blockers
  nonEmptyList "assumptions" a.assumptions
  a.repositoriesReviewed.forM ReviewedRepositoryWire.validate

inductive Event
  | sessionStarted (runtimeId : String)
  | agentMessage (messageId content : String)
  | agentActivity (activity : String)
  | requirementAssessed (assessed : RequirementAssessed)
  | sessionCompleted (summary : String)
  | sessionFailed (recoverable : Bool) (reason : String)
  deriving DecidableEq, Repr

structure EventEnvelope where
  eventId : String
  sessionId : String
  daemonEventSeq : ℕ
  sentAt : String
  schemaVersion : ℕ
  event : Event
  deriving DecidableEq, Repr

def EventEnvelope.validate (e : EventEnvelope) : Except FrameError Unit := do
  schema e.schemaVersion
  nonEmpty "event_id" e.eventId
  nonEmpty "session_id" e.sessionId
  nonEmpty "sent_at" e.sentAt
  sequence "daemon_event_seq" e.daemonEventSeq
  match e.event with
  | .sessionStarted runtimeId => nonEmpty "runtime_id" runtimeId
  | .agentMessage messageId content => do
    nonEmpty "message_id" messageId
    nonEmpty "content" content
  | .agentActivity activity => nonEmpty "activity" activity
  | .requirementAssessed assessed => assessed.validate
  | .sessionCompleted summary => nonEmpty "summary" summary
  | .sessionFailed _ reason => nonEmpty "reason" reason

/-- What an acknowledgement names of an event. -/
structure EventRef where
  eventId : String
  sessionId : String
  daemonEventSeq : ℕ
  deriving DecidableEq, Repr

def EventEnvelope.ref (e : EventEnvelope) : EventRef := ⟨e.eventId,e.sessionId,e.daemonEventSeq⟩

structure CommandAck where
  commandId : String
  sessionId : String
  serverCommandSeq : ℕ
  schemaVersion : ℕ
  deriving DecidableEq, Repr

inductive EventAckStatus
  | accepted | rejected
  deriving DecidableEq, Repr

structure EventAck where
  eventId : String
  sessionId : String
  daemonEventSeq : ℕ
  schemaVersion : ℕ
  status : EventAckStatus
  reason : Option String
  deriving DecidableEq, Repr

def EventAck.ref (a : EventAck) : EventRef := ⟨a.eventId,a.sessionId,a.daemonEventSeq⟩

def EventAck.validate (a : EventAck) : Except FrameError Unit := do
  schema a.schemaVersion
  nonEmpty "event_id" a.eventId
  nonEmpty "session_id" a.sessionId
  sequence "daemon_event_seq" a.daemonEventSeq
  if a.status = .rejected ∧ a.reason.all String.isEmpty then
    .error (.validation "rejected event ACK must include reason")
  else if a.status = .accepted ∧ a.reason.isSome then
    .error (.validation "accepted event ACK must not include reason")
  else .ok ()

theorem EventAck.validate_ok {a : EventAck} (h : a.validate = .ok ()) : 0 < a.daemonEventSeq := by
  unfold EventAck.validate at h
  simp only [bind_eq_ok] at h
  obtain ⟨_,-,_,-,_,-,_,hseq,-⟩ := h
  exact sequence_ok hseq

structure SessionReconcileState where
  sessionId : String
  commandAckThroughSeq : ℕ
  eventAckThroughSeq : ℕ
  eventAckSparse : List ℕ
  deriving DecidableEq, Repr

/-- The loop over the sparse acknowledgements, with the element before it in `previous`. -/
def sparseAscending (through : ℕ) : ℕ → List ℕ → Except FrameError Unit
  | _, [] => .ok ()
  | previous, q::qs =>
    if q ≤ through then
      .error (.validation "sparse acknowledgements must be above event_ack_through_seq")
    else if q ≤ previous then
      .error (.validation "sparse acknowledgements must be strictly ascending and unique")
    else sparseAscending through q qs

def SessionReconcileState.validate (s : SessionReconcileState) : Except FrameError Unit := do
  nonEmpty "session_id" s.sessionId
  sparseAscending s.eventAckThroughSeq s.eventAckThroughSeq s.eventAckSparse

structure ReconcileSnapshot where
  schemaVersion : ℕ
  sessions : List SessionReconcileState
  deriving DecidableEq, Repr

/-- The loop over the sessions, with the ids already seen. -/
def sessionsDistinct : List String → List SessionReconcileState → Except FrameError Unit
  | _, [] => .ok ()
  | seen, s::rest => do
    s.validate
    if seen.contains s.sessionId then
      .error (.validation "reconciliation snapshot contains duplicate session_id")
    else sessionsDistinct (s.sessionId::seen) rest

def ReconcileSnapshot.validate (r : ReconcileSnapshot) : Except FrameError Unit := do
  schema r.schemaVersion
  sessionsDistinct [] r.sessions

theorem sessionsDistinct_ok {seen : List String} {sessions : List SessionReconcileState}
    (h : sessionsDistinct seen sessions = .ok ()) :
    (sessions.map (·.sessionId)).Nodup ∧ ∀ s ∈ sessions, s.sessionId ∉ seen := by
  induction sessions generalizing seen with
  | nil => simp
  | cons s rest ih =>
    simp only [sessionsDistinct,bind_eq_ok] at h
    obtain ⟨_,-,h⟩ := h
    split_ifs at h with hseen
    obtain ⟨hnodup,hfresh⟩ := ih h
    have hout : s.sessionId ∉ seen := by simpa using hseen
    refine ⟨?_,fun x hx => ?_⟩
    · rw [List.map_cons,List.nodup_cons]
      refine ⟨fun hmem => ?_,hnodup⟩
      obtain ⟨x,hx,hid⟩ := List.mem_map.mp hmem
      exact hfresh x hx (by simp [hid])
    · rcases List.mem_cons.mp hx with rfl | hx
      · exact hout
      · exact fun hin => hfresh x hx (by simp [hin])

theorem ReconcileSnapshot.validate_ok {r : ReconcileSnapshot} (h : r.validate = .ok ()) :
    (r.sessions.map (·.sessionId)).Nodup := by
  simp only [ReconcileSnapshot.validate,bind_eq_ok] at h
  obtain ⟨_,-,h⟩ := h
  exact (sessionsDistinct_ok h).1

/-- The frames a daemon sends after the handshake, apart from its heartbeat. -/
inductive DaemonFrame
  | event (envelope : EventEnvelope)
  | commandAck (ack : CommandAck)
  | protocolError (code message : String)
  deriving DecidableEq, Repr

inductive ServerFrame
  | welcome
  | reconcile (snapshot : ReconcileSnapshot)
  | command (envelope : CommandEnvelope)
  | eventAck (ack : EventAck)
  | protocolError (code message : String)
  deriving DecidableEq, Repr

def eventsOf (frames : List DaemonFrame) : List EventEnvelope :=
  frames.filterMap fun
    | .event envelope => some envelope
    | _ => none

theorem eventsOf_append (frames more : List DaemonFrame) :
    eventsOf (frames ++ more) = eventsOf frames ++ eventsOf more := by
  simp [eventsOf]

theorem eventsOf_map_event (envelopes : List EventEnvelope) :
    eventsOf (envelopes.map .event) = envelopes := by
  simp [eventsOf]

end Protocol
end North
