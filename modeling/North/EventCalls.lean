import North.EventIngestion

/-! The three ingestion transactions as one kind of call. A call that returns has either
found its event in the ledger and changed nothing, or it has committed the event: the
effect, one row of the ledger, and the cursor of the session. -/
namespace North
namespace Store

open Machine Protocol Domain

/-- The identity that a redelivered event repeats. -/
structure EventKey where
  eventId : String
  sessionId : String
  daemonEventSeq : ℕ
  payloadDigest : String
  deriving DecidableEq, Repr

def EventDedupe.key (r : EventDedupe) : EventKey :=
  ⟨r.eventId,r.sessionId,r.daemonEventSeq,r.payloadDigest⟩

inductive EventCall
  | receipt (request : EventReceiptRequest)
  | project (now : ℕ) (jitter : Fin 26) (request : ProjectionRequest)
  | assess (assessmentId : String) (request : AssessmentRequest)

inductive IngestError
  | receipt (error : PersistenceError)
  | projection (error : ClarificationEventError)
  | readiness (error : ReadinessError)

def ReadinessAssessmentResult.receipt (r : ReadinessAssessmentResult) : EventReceipt where
  eventId := r.record.eventId
  sessionId := r.record.sessionId
  daemonEventSeq := r.record.daemonEventSeq
  outcome := r.record.outcome
  rejectionReason := r.record.rejectionReason
  duplicate := r.duplicate

namespace EventCall

def key : EventCall → EventKey
  | receipt r => ⟨r.eventId,r.sessionId,r.daemonEventSeq,r.payloadDigest⟩
  | project _ _ r => ⟨r.eventId,r.sessionId,r.daemonEventSeq,r.payloadDigest⟩
  | assess _ r => ⟨r.eventId,r.sessionId,r.daemonEventSeq,r.eventDigest⟩

/-- The checks on the arguments of a call, before its transaction. -/
def Checked (d : Digests) : EventCall → Prop
  | receipt r => r.check d = .ok ()
  | project _ _ r => r.check d = .ok ()
  | assess _ r => r.check = .ok ()

def exec (d : Digests) (db : Db) : EventCall → Except IngestError (EventReceipt × Db)
  | receipt r => (recordEventReceiptWithPayload d r db).mapError .receipt
  | project now jitter r => (projectClarificationEvent d now jitter r db).mapError .projection
  | assess assessmentId r =>
    ((recordReadinessAssessmentWithEventDigest assessmentId r db).mapError .readiness).map
      fun result => (result.1.receipt,result.2)

end EventCall

/-- The event is new and at the next sequence the session accepts. -/
structure Records (db : Db) (s : Session) (row : EventDedupe) : Prop where
  found : db.session? row.sessionId = some s
  newId : dedupeById db row.eventId = none
  newSequence : dedupeBySequence db row.sessionId row.daemonEventSeq = none
  next : ∃ expected, expectedSequence s = some expected ∧ row.daemonEventSeq ≤ expected
  above : s.eventAckThroughSeq < row.daemonEventSeq

def Db.addDedupe (db : Db) (row : EventDedupe) : Db := { db with dedupe := db.dedupe ++ [row] }

/-- The effect of a committed event, with the row that records its outcome. -/
inductive Applies (db : Db) (s : Session) : EventCall → EventDedupe → Db → Prop
  | noted (request : EventReceiptRequest) : Applies db s (.receipt request) request.row db
  | rejected {now : ℕ} {jitter : Fin 26} {request : ProjectionRequest} {reason : String}
      (run : s.startMessageId.isSome = true) (policy : projectionRejection s request.event = some reason) :
      Applies db s (.project now jitter request) (request.row (some reason)) db
  | projected {now : ℕ} {jitter : Fin 26} {request : ProjectionRequest} {db₁ : Db}
      (run : s.startMessageId.isSome = true) (policy : projectionRejection s request.event = none)
      (effect : applyEvent db now jitter s request.eventId request.event = .ok db₁) :
      Applies db s (.project now jitter request) (request.row none) db₁
  | assessed {assessmentId : String} {request : AssessmentRequest} {rejection : Option String}
      {record : AssessmentRow} {db₁ : Db} (bound : s.requirementId = some request.requirementId)
      (effect : applyAssessment db s assessmentId request = .ok (rejection,record,db₁)) :
      Applies db s (.assess assessmentId request) (request.row rejection) db₁

/-- The call commits its event with this row. -/
structure Commits (d : Digests) (db : Db) (call : EventCall) (row : EventDedupe) (db' : Db) : Prop where
  checked : call.Checked d
  steps : ∃ s db₁ advance, Records db s row ∧ Applies db s call row db₁ ∧
    (advance = advanceCursor ∨ advance = advanceProjectionCursor) ∧
    db' = (db₁.addDedupe row).updateSession row.sessionId (setCursor advance row.daemonEventSeq)
  key : row.key = call.key
  current : row.legacyIdentity = false

theorem insertEventDedupe_some {db db' : Db} {row : EventDedupe}
    (h : insertEventDedupe db row = some db') : db' = db.addDedupe row := by
  unfold insertEventDedupe at h
  split_ifs at h
  exact (by simpa using h.symm : db' = _)

theorem updateRequirement_outer {db db' : Db} {r : Requirement} {expected : ℕ}
    (h : updateRequirement db r expected = .ok db') :
    db' = { db with requirements := db'.requirements } := by
  unfold updateRequirement at h
  split_ifs at h
  cases h
  rfl

theorem mapError_eq_ok {ε ε' α : Type} {f : ε → ε'} {x : Except ε α} {a : α} :
    x.mapError f = .ok a ↔ x = .ok a := by
  cases x <;> simp [Except.mapError]

theorem insertAssessment_outer {db db' : Db} {row : AssessmentRow}
    (h : insertAssessment db row = .ok db') : db' = { db with assessments := db.assessments ++ [row] } := by
  unfold insertAssessment at h
  split_ifs at h
  cases h
  rfl

theorem promote_outer {db db' : Db} {requirement promoted : Requirement} {eventId assessmentId : String}
    (h : promote db requirement promoted eventId assessmentId = .ok db') :
    db' = { db with requirements := db'.requirements, audit := db'.audit } := by
  simp only [promote,bind_eq_ok,mapError_eq_ok] at h
  obtain ⟨db₁,h₁,h⟩ := h
  have hdb := updateRequirement_outer h₁
  split_ifs at h
  cases h
  rw [hdb]

theorem applyAssessment_outer {db db' : Db} {session : Session} {assessmentId : String}
    {request : AssessmentRequest} {rejection : Option String} {record : AssessmentRow}
    (h : applyAssessment db session assessmentId request = .ok (rejection,record,db')) :
    db' = { db with
      assessments := db.assessments ++ [record]
      requirements := db'.requirements
      audit := db'.audit } := by
  unfold applyAssessment at h
  split at h
  · simp only [bind_eq_ok] at h
    obtain ⟨db₁,h₁,h⟩ := h
    cases h
    rw [insertAssessment_outer h₁]
  · simp only [bind_eq_ok] at h
    obtain ⟨db₁,h₁,db₂,h₂,h⟩ := h
    cases h
    split at h₂
    · cases h₂
      rw [insertAssessment_outer h₁]
    · rw [promote_outer h₂,insertAssessment_outer h₁]

/-- The outcome of an assessment stands in its record and in its ledger row. -/
theorem applyAssessment_receipt {db db' : Db} {session : Session} {assessmentId : String}
    {request : AssessmentRequest} {rejection : Option String} {record : AssessmentRow}
    (h : applyAssessment db session assessmentId request = .ok (rejection,record,db')) :
    ∃ requirementId version, record = request.record assessmentId requirementId rejection version := by
  unfold applyAssessment at h
  split at h
  · simp only [bind_eq_ok] at h
    obtain ⟨db₁,-,h⟩ := h
    cases h
    exact ⟨_,_,rfl⟩
  · simp only [bind_eq_ok] at h
    obtain ⟨db₁,-,db₂,-,h⟩ := h
    cases h
    exact ⟨_,_,rfl⟩

/-- The path on which a call comes serves the event it repeats: plain receipts serve all
but assessments, projections serve runs, and readiness serves an assessment it has
recorded with the same requirement and content. -/
def EventCall.Serves (d : Digests) (db : Db) : EventCall → Prop
  | .receipt r => r.check d = .ok () ∧ ∀ a ∈ db.assessments, a.eventId ≠ r.eventId
  | .project _ _ r => r.check d = .ok () ∧
    ∃ s, db.session? r.sessionId = some s ∧ s.startMessageId.isSome = true
  | .assess _ r => r.check = .ok () ∧ ∃ a ∈ db.assessments, a.eventId = r.eventId ∧
    a.eventRequirementId = r.requirementId ∧ sameAssessmentContent a.assessment r.assessment = true

/-- The call finds its event in the ledger. -/
structure Repeats (d : Digests) (db : Db) (call : EventCall) (receipt : EventReceipt) : Prop where
  duplicate : receipt.duplicate = true
  serves : call.Serves d db
  known : (dedupeById db call.key.eventId).isSome = true ∨
    ∃ a ∈ db.assessments, a.eventId = call.key.eventId
  identity : ∀ row, dedupeById db call.key.eventId = some row → row.legacyIdentity = false →
    row.key = call.key

theorem repeated_key {db : Db} {row row' : EventDedupe} {key : EventKey}
    (hrow' : dedupeById db key.eventId = some row') (hrow : dedupeById db key.eventId = some row)
    (hsame : ¬(row.sessionId ≠ key.sessionId ∨ row.daemonEventSeq ≠ key.daemonEventSeq ∨
      row.payloadDigest ≠ key.payloadDigest)) : row'.key = key := by
  rw [hrow,Option.some.injEq] at hrow'
  subst hrow'
  have hid := (Table.find?_key hrow).2
  simp only [not_or,not_not] at hsame
  obtain ⟨hsession,hsequence,hdigest⟩ := hsame
  cases key
  simp_all [EventDedupe.key]

theorem receipt_ok {d : Digests} {request : EventReceiptRequest} {db db' : Db} {receipt : EventReceipt}
    (h : recordEventReceiptWithPayload d request db = .ok (receipt,db')) :
    (db' = db ∧ Repeats d db (.receipt request) receipt) ∨
      Commits d db (.receipt request) request.row db' ∧ receipt = request.row.receipt false := by
  simp only [recordEventReceiptWithPayload,bind_eq_ok,orError_eq_ok] at h
  obtain ⟨_,hchecked,session,found,h⟩ := h
  split at h
  · cases h
  rename_i hreadiness
  split at h
  · rename_i row hrow
    split at h
    · cases h
    · rename_i hsame
      cases h
      refine .inl ⟨rfl,rfl,⟨hchecked,by simpa using hreadiness⟩,.inl (by simp [EventCall.key,hrow]),?_⟩
      exact fun row' hrow' _ => repeated_key hrow' hrow hsame
  rename_i hnew
  split at h
  · cases h
  rename_i hslot
  simp only [bind_eq_ok,orError_eq_ok] at h
  obtain ⟨expected,hexpected,h⟩ := h
  split at h
  · cases h
  rename_i hgap
  split at h
  · cases h
  rename_i habove
  simp only [bind_eq_ok,orError_eq_ok] at h
  obtain ⟨db₁,hins,h⟩ := h
  obtain rfl := insertEventDedupe_some hins
  cases h
  have records : Records db session request.row :=
    ⟨found,hnew,hslot,⟨expected,hexpected,not_lt.mp hgap⟩,not_le.mp habove⟩
  exact .inr ⟨⟨hchecked,⟨session,db,advanceCursor,records,.noted request,.inl rfl,rfl⟩,rfl,rfl⟩,rfl⟩

theorem project_ok {d : Digests} {now : ℕ} {jitter : Fin 26} {request : ProjectionRequest} {db db' : Db}
    {receipt : EventReceipt}
    (h : projectClarificationEvent d now jitter request db = .ok (receipt,db')) :
    (db' = db ∧ Repeats d db (.project now jitter request) receipt) ∨
      ∃ row, Commits d db (.project now jitter request) row db' ∧ receipt = row.receipt false := by
  simp only [projectClarificationEvent,bind_eq_ok,orError_eq_ok] at h
  obtain ⟨_,hchecked,session,found,h⟩ := h
  split at h
  · cases h
  rename_i hstart
  have hrun : session.startMessageId.isSome = true := by
    cases hm : session.startMessageId <;> simp_all
  split at h
  · rename_i row hrow
    split at h
    · cases h
    · rename_i hsame
      cases h
      refine .inl ⟨rfl,rfl,⟨hchecked,session,found,hrun⟩,.inl (by simp [EventCall.key,hrow]),?_⟩
      exact fun row' hrow' _ => repeated_key hrow' hrow hsame
  rename_i hnew
  simp only [bind_eq_ok,orError_eq_ok] at h
  obtain ⟨expected,hexpected,h⟩ := h
  split at h
  · cases h
  rename_i hgap
  split at h
  · cases h
  rename_i habove
  split at h
  · cases h
  rename_i hslot
  simp only [bind_eq_ok,orError_eq_ok] at h
  obtain ⟨db₁,heffect,db₂,hins,h⟩ := h
  obtain rfl := insertEventDedupe_some hins
  cases h
  have records : ∀ rejection, Records db session (request.row rejection) := fun rejection =>
    ⟨found,hnew,hslot,⟨expected,hexpected,not_lt.mp hgap⟩,not_le.mp habove⟩
  have applies : Applies db session (.project now jitter request)
      (request.row (projectionRejection session request.event)) db₁ := by
    split at heffect
    · rename_i reason hpolicy
      cases heffect
      rw [hpolicy]
      exact .rejected hrun hpolicy
    · rename_i hpolicy
      rw [hpolicy]
      exact .projected hrun hpolicy heffect
  exact .inr ⟨_,⟨hchecked,⟨session,db₁,advanceProjectionCursor,records _,applies,.inr rfl,rfl⟩,rfl,rfl⟩,rfl⟩

theorem assess_ok {d : Digests} {assessmentId : String} {request : AssessmentRequest} {db db' : Db}
    {result : ReadinessAssessmentResult}
    (h : recordReadinessAssessmentWithEventDigest assessmentId request db = .ok (result,db')) :
    (db' = db ∧ Repeats d db (.assess assessmentId request) result.receipt) ∨
      ∃ row, Commits d db (.assess assessmentId request) row db' ∧ result.receipt = row.receipt false := by
  simp only [recordReadinessAssessmentWithEventDigest,bind_eq_ok,orError_eq_ok] at h
  obtain ⟨_,hchecked,session,hsession,h⟩ := h
  obtain ⟨found,hbound⟩ := Option.filter_eq_some_iff.mp hsession
  split at h
  · cases h
  rename_i hidentity
  split at h
  · rename_i record hrecord
    split at h
    · cases h
    · rename_i hsame
      cases h
      obtain ⟨hmem,hid⟩ := Table.find?_key hrecord
      simp only [not_or,not_not,Bool.not_eq_false] at hsame
      refine .inl ⟨rfl,rfl,⟨hchecked,record,hmem,hid,hsame.2.2.1,hsame.2.2.2⟩,.inr ⟨record,hmem,hid⟩,?_⟩
      intro row hrow hcurrent
      have hrow' : dedupeById db request.eventId = some row := hrow
      have hid := (Table.find?_key hrow').2
      simp [hrow',hcurrent] at hidentity
      simp [EventDedupe.key,EventCall.key,hid,hidentity]
  simp only [bind_eq_ok,orError_eq_ok] at h
  obtain ⟨expected,hexpected,h⟩ := h
  split at h
  · cases h
  rename_i hgap
  split at h
  · cases h
  rename_i habove
  split at h
  · cases h
  split at h
  · cases h
  rename_i hslot
  simp only [bind_eq_ok,orError_eq_ok] at h
  obtain ⟨⟨rejection,record,db₁⟩,heffect,db₂,hins,h⟩ := h
  cases h
  have hslot' : dedupeBySequence db request.sessionId request.daemonEventSeq = none := by
    simpa using hslot
  -- only the primary key keeps a generic event of the same id out of the readiness path
  have hnew : dedupeById db request.eventId = none := by
    have hsame : db₁.dedupe = db.dedupe := by rw [applyAssessment_outer heffect]
    unfold insertEventDedupe at hins
    split_ifs at hins with hany
    rw [hsame] at hany
    apply Table.find?_key_none.mpr
    intro r hr heq
    exact hany (List.any_eq_true.mpr ⟨r,hr,by simp [AssessmentRequest.row,heq]⟩)
  obtain rfl := insertEventDedupe_some hins
  have records : Records db session (request.row rejection) :=
    ⟨found,hnew,hslot',⟨expected,hexpected,not_lt.mp hgap⟩,not_le.mp habove⟩
  obtain ⟨requirementId,version,rfl⟩ := applyAssessment_receipt heffect
  exact .inr ⟨_,⟨hchecked,⟨session,db₁,advanceCursor,records,.assessed (of_decide_eq_true hbound) heffect,.inl rfl,rfl⟩,rfl,rfl⟩,rfl⟩

theorem EventCall.exec_ok {d : Digests} {db db' : Db} {call : EventCall} {receipt : EventReceipt}
    (h : call.exec d db = .ok (receipt,db')) : (db' = db ∧ Repeats d db call receipt) ∨
      ∃ row, Commits d db call row db' ∧ receipt = row.receipt false := by
  cases call with
  | receipt request =>
    simp only [EventCall.exec,mapError_eq_ok] at h
    rcases receipt_ok h with hdup | hnew
    · exact .inl hdup
    · exact .inr ⟨_,hnew⟩
  | project now jitter request =>
    simp only [EventCall.exec,mapError_eq_ok] at h
    exact project_ok h
  | assess assessmentId request =>
    obtain ⟨⟨result,db₁⟩,hresult,heq⟩ : ∃ result, recordReadinessAssessmentWithEventDigest
        assessmentId request db = .ok result ∧ (result.1.receipt,result.2) = (receipt,db') := by
      unfold EventCall.exec at h
      cases hr : recordReadinessAssessmentWithEventDigest assessmentId request db with
      | error e => simp [hr,Except.mapError,Except.map] at h
      | ok result => exact ⟨result,rfl,by simpa [hr,Except.mapError,Except.map] using h⟩
    cases heq
    exact assess_ok hresult

end Store
end North
