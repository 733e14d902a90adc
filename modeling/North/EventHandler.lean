import North.EventLog
import North.AssessmentHandoff

/-! How the server handles a frame of a daemon: it checks the owner of the session, makes
one or two transactions on the ledger and answers with an acknowledgement. A handler that
fails closes the connection and answers nothing. -/
namespace North
namespace Store

open Machine Protocol Domain

/-- The wire text of an event and its canonical digest, from `serde_json` and `sha2`. -/
structure EventCodec where
  text : EventEnvelope → String
  digest : EventEnvelope → String

/-- What a handler reads besides its frame: the clock in the units of the store and in
milliseconds, the jitter of a retry and a new assessment id. -/
structure Readings where
  now : ℕ
  nowMs : ℕ
  jitter : Fin 26
  assessmentId : String

inductive EventHandleError
  | gap
  | integrity (reason : String)
  | requirementMismatch
  | internal
  deriving DecidableEq, Repr

def frameErrorText : FrameError → String
  | .json reason => "North JSON codec error: " ++ reason
  | .validation reason => "invalid North frame: " ++ reason

def mapPersistenceEventError : PersistenceError → EventHandleError
  | .eventSequenceGap _ _ => .gap
  | .protocolIntegrity reason => .integrity reason
  | _ => .internal

def mapAssessmentEventError : ReadinessError → EventHandleError
  | .sequenceGap _ _ => .gap
  | .sequenceConflict | .eventIdentityConflict => .integrity "event identity conflict"
  | .sessionRequirementMismatch => .requirementMismatch
  | .database | .invalidRevision | .invalidEvidence => .internal

def mapClarificationEventError : ClarificationEventError → EventHandleError
  | .gap _ _ => .gap
  | .integrity | .sequenceConflict _ => .integrity "event identity conflict"
  | .database | .projection | .notClarificationSession => .internal

def IngestError.handle : IngestError → EventHandleError
  | .receipt error => mapPersistenceEventError error
  | .projection error => mapClarificationEventError error
  | .readiness error => mapAssessmentEventError error

def eventAckFromReceipt (receipt : EventReceipt) : EventAck where
  eventId := receipt.eventId
  sessionId := receipt.sessionId
  daemonEventSeq := receipt.daemonEventSeq
  schemaVersion := Protocol.schemaVersion
  status := match receipt.outcome with
    | .accepted => .accepted
    | .rejected => .rejected
  reason := match receipt.outcome with
    | .accepted => none
    | .rejected => receipt.rejectionReason

/-- The projection of an event; assessments have a path of their own. -/
def clarificationEvent : Event → Option ClarificationEvent
  | .sessionStarted runtimeId => some (.sessionStarted runtimeId)
  | .agentMessage messageId content => some (.agentMessage messageId content)
  | .agentActivity activity => some (.activity activity)
  | .sessionCompleted summary => some (.completed summary)
  | .sessionFailed recoverable reason => some (.failed recoverable reason)
  | .requirementAssessed _ => none

def receiptCall (codec : EventCodec) (e : EventEnvelope) : EventCall :=
  .receipt ⟨e.eventId,e.sessionId,e.daemonEventSeq,codec.digest e,codec.text e,.rejected,
    some "event_handler_not_implemented"⟩

/-- Where the handler of an event stands: before its first transaction, or after a
projection that found no clarification session. -/
inductive HandlerStage
  | admitted | unprojected
  deriving DecidableEq, Repr

/-- The transaction that `handle_event` makes next. -/
def handlerCall (codec : EventCodec) (r : Readings) (e : EventEnvelope) :
    HandlerStage → Except EventHandleError EventCall
  | .admitted =>
    match e.event with
    | .requirementAssessed payload =>
      match AssessmentHandoff.readinessAssessmentFromWire payload r.nowMs with
      | .error error => .error (.integrity (frameErrorText error))
      | .ok assessment => .ok (.assess r.assessmentId ⟨e.eventId,e.sessionId,e.daemonEventSeq,
          payload.requirementId,assessment,codec.digest e⟩)
    | event =>
      match clarificationEvent event with
      | some projected => .ok (.project r.now r.jitter ⟨e.eventId,e.sessionId,e.daemonEventSeq,
          codec.digest e,codec.text e,projected⟩)
      | none => .ok (receiptCall codec e)
  | .unprojected => .ok (receiptCall codec e)

/-- What the handler does with the result of its transaction. -/
inductive Handled
  | acknowledged (ack : EventAck)
  | unprojected
  | failed (error : EventHandleError)
  deriving DecidableEq, Repr

def handled : Except IngestError (EventReceipt × Db) → Handled
  | .ok (receipt,_) => .acknowledged (eventAckFromReceipt receipt)
  | .error (.projection .notClarificationSession) => .unprojected
  | .error error => .failed error.handle

def sessionOwner (db : Db) (sessionId : String) : Option String :=
  (db.session? sessionId).bind (·.daemonId)

def sessionReconcileState (s : Session) : SessionReconcileState :=
  ⟨s.id,s.commandAckThroughSeq,s.eventAckThroughSeq,s.eventAckSparse⟩

def reconciliationForDaemon (db : Db) (daemonId : String) : List SessionReconcileState :=
  ((db.sessions.filter fun s => decide (s.daemonId = some daemonId)).insertionSort
    fun a b => a.id ≤ b.id).map sessionReconcileState

def reconcileSnapshot (db : Db) (daemonId : String) : ReconcileSnapshot :=
  ⟨Protocol.schemaVersion,reconciliationForDaemon db daemonId⟩

/-! ### What a handler commits and acknowledges -/

def EventDedupe.ref (row : EventDedupe) : EventRef := ⟨row.eventId,row.sessionId,row.daemonEventSeq⟩

/-- The call carries the identity and the content of the event. -/
def MadeOf (codec : EventCodec) (e : EventEnvelope) (call : EventCall) : Prop :=
  call.key = ⟨e.eventId,e.sessionId,e.daemonEventSeq,codec.digest e⟩ ∧
    match call with
    | .receipt request => request.outcome = .rejected
    | .project _ _ request => clarificationEvent e.event = some request.event
    | .assess _ request => ∃ payload ms, e.event = .requirementAssessed payload ∧
      AssessmentHandoff.readinessAssessmentFromWire payload ms = .ok request.assessment ∧
      request.requirementId = payload.requirementId

theorem handlerCall_madeOf {codec : EventCodec} {r : Readings} {e : EventEnvelope} {stage : HandlerStage}
    {call : EventCall} (h : handlerCall codec r e stage = .ok call) : MadeOf codec e call := by
  have hreceipt : MadeOf codec e (receiptCall codec e) := ⟨rfl,rfl⟩
  cases stage with
  | unprojected =>
    cases h
    exact hreceipt
  | admitted =>
    simp only [handlerCall] at h
    split at h
    · rename_i payload hevent
      split at h
      · cases h
      · rename_i assessment hwire
        cases h
        exact ⟨rfl,payload,r.nowMs,hevent,hwire,rfl⟩
    · split at h
      · rename_i projected hprojected
        cases h
        exact ⟨rfl,hprojected⟩
      · cases h
        exact hreceipt

theorem MadeOf.ref {codec : EventCodec} {e : EventEnvelope} {call : EventCall} {row : EventDedupe}
    (h : MadeOf codec e call) (hkey : row.key = call.key) : row.ref = e.ref := by
  have hrow := hkey.trans h.1
  simp only [EventDedupe.key,EventKey.mk.injEq] at hrow
  simp [EventDedupe.ref,EventEnvelope.ref,hrow.1,hrow.2.1,hrow.2.2.1]

/-- A call that returns has its event in the ledger, and its receipt names that event. -/
theorem EventInv.exec_committed {d : Digests} {db db' : Db} (h : EventInv db) {call : EventCall}
    {receipt : EventReceipt} (hexec : call.exec d db = .ok (receipt,db')) :
    ∃ row ∈ db'.dedupe, row.key = call.key ∧ (eventAckFromReceipt receipt).ref = row.ref := by
  rcases call.exec_ok hexec with ⟨rfl,hrepeats⟩ | ⟨row,hcommits,rfl⟩
  · obtain ⟨row,hrow,hkey⟩ := h.repeats_row hrepeats
    have hserved := h.served_ok hrow hkey.symm hrepeats.serves
    rw [hexec] at hserved
    cases hserved
    exact ⟨row,hrow,hkey,rfl⟩
  · refine ⟨row,?_,hcommits.key,rfl⟩
    rw [(EventInv.commits_dedupe hcommits).1]
    simp

theorem skipSparse_le {sparse : List ℕ} {fuel n m : ℕ} (hn : n ≤ i64Max)
    (h : skipSparse sparse fuel n = some m) : m ≤ i64Max := by
  induction fuel generalizing n with
  | zero =>
    cases h
    exact hn
  | succ fuel ih =>
    unfold skipSparse at h
    split_ifs at h
    · obtain ⟨next,hnext,h⟩ := Option.bind_eq_some_iff.mp h
      obtain ⟨hlt,rfl⟩ := checkedSucc_eq_some.mp hnext
      exact ih hlt h
    · cases h
      exact hn

theorem Commits.bounded {d : Digests} {db db' : Db} {call : EventCall} {row : EventDedupe}
    (h : Commits d db call row db') : row.daemonEventSeq ≤ i64Max := by
  obtain ⟨s,db₁,advance,records,-⟩ := h.steps
  obtain ⟨expected,hexpected,hle⟩ := records.next
  obtain ⟨next,hnext,hskip⟩ := Option.bind_eq_some_iff.mp hexpected
  obtain ⟨hlt,rfl⟩ := checkedSucc_eq_some.mp hnext
  exact hle.trans (skipSparse_le hlt hskip)

theorem LogInv.bounded {d : Digests} {db : Db} {log : List (Db × Committed)} (h : LogInv d db log)
    {row : EventDedupe} (hrow : row ∈ db.dedupe) : row.daemonEventSeq ≤ i64Max := by
  rw [h.logged] at hrow
  obtain ⟨e,he,rfl⟩ := List.mem_map.mp hrow
  exact (h.applied e he).bounded

/-! ### The owner of a session -/

theorem SessionKept.owner {o o' : Option Session} (h : SessionKept o o') {id : String}
    (ho : o.bind (·.daemonId) = some id) : o'.bind (·.daemonId) = some id := by
  obtain ⟨s,hs,hid⟩ := Option.bind_eq_some_iff.mp ho
  obtain ⟨s',hs',hkept⟩ := h.forward hs
  rw [hs']
  exact hkept.owner id hid

/-- No transaction moves a session from one daemon to another. -/
theorem LogInv.owner_kept {d : Digests} {db : Db} {log : List (Db × Committed)} (h : LogInv d db log)
    (act : Act) {sessionId id : String} (howner : sessionOwner db sessionId = some id) :
    sessionOwner (act.apply d db) sessionId = some id := by
  cases hcall : act.call? with
  | none => exact ((act.ledgerKept h.inv.keyed hcall).sessions sessionId).owner howner
  | some call =>
    have hact : act.apply d db = call.act.apply d db := by
      cases act with
      | run act => rw [RunAct.call?_some hcall,Act.apply]
      | command => cases hcall
    rw [hact]
    rcases call.commits_or_same d db with ⟨row,hcommits⟩ | hsame
    · obtain ⟨s,hmoved⟩ := h.inv.commits_moved hcommits
      by_cases hsid : sessionId = row.sessionId
      · obtain ⟨s',hs',-,-,-,-,hkept⟩ := hmoved.moved
        rw [hsid,sessionOwner,hmoved.found] at howner
        rw [hsid,sessionOwner,hs']
        exact hkept id howner
      · exact (hmoved.others sessionId hsid).owner howner
    · rw [hsame]
      exact howner

theorem mem_reconciliation {db : Db} {daemonId : String} {remote : SessionReconcileState} :
    remote ∈ reconciliationForDaemon db daemonId ↔
      ∃ s ∈ db.sessions, s.daemonId = some daemonId ∧ sessionReconcileState s = remote := by
  simp only [reconciliationForDaemon,List.mem_map,List.mem_insertionSort,List.mem_filter,
    decide_eq_true_eq,and_assoc]

/-- What a snapshot says of a session is in the ledger. -/
theorem EventInv.snapshot_rows {db : Db} (h : EventInv db) {daemonId : String}
    {remote : SessionReconcileState} (hremote : remote ∈ reconciliationForDaemon db daemonId) {m : ℕ}
    (hpos : 0 < m) (hm : m ≤ remote.eventAckThroughSeq ∨ m ∈ remote.eventAckSparse) :
    sessionOwner db remote.sessionId = some daemonId ∧
      ∃ row ∈ db.dedupe, row.sessionId = remote.sessionId ∧ row.daemonEventSeq = m := by
  obtain ⟨s,hs,howner,rfl⟩ := mem_reconciliation.mp hremote
  have hfound := session?_of_mem h.keyed hs
  refine ⟨by rw [sessionOwner,sessionReconcileState,hfound]; exact howner,?_⟩
  have hsparse : s.eventAckSparse = [] := h.sparse s.id s hfound
  have hle : m ≤ (db.dedupeOf s.id).length := by
    rw [h.cursor s.id s hfound]
    rcases hm with hm | hm
    · exact hm
    · change m ∈ s.eventAckSparse at hm
      rw [hsparse] at hm
      cases hm
  obtain ⟨row,hrow,hseq⟩ := (h.numbered s.id).exists_seq hpos hle
  obtain ⟨hmem,hsession⟩ := List.mem_filter.mp hrow
  exact ⟨row,hmem,of_decide_eq_true hsession,hseq⟩

end Store
end North
