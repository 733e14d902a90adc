import North.EventLedger

/-! The event ledger over whole runs. Whatever order the three ingestion paths are called
in, and whatever else happens between the calls, the ledger is the log of the committed
events and the tables of effects are what these events write, each once. -/
namespace North
namespace Store

open Machine Protocol Domain

/-! ### Calls on a ledger in order -/

namespace EventInv

variable {d : Digests} {db db' : Db}

theorem dedupeById_of_mem (h : EventInv db) {row : EventDedupe} (hrow : row ∈ db.dedupe) :
    dedupeById db row.eventId = some row :=
  @Table.find?_key_of_mem _ _ _ (fun r : EventDedupe => r.eventId) _ _ h.ids hrow

theorem mem_dedupeOf {row : EventDedupe} (hrow : row ∈ db.dedupe) : row ∈ db.dedupeOf row.sessionId :=
  List.mem_filter.mpr ⟨hrow,by simp⟩

theorem repeats_row (h : EventInv db) {call : EventCall} {receipt : EventReceipt}
    (hrepeats : Repeats d db call receipt) : ∃ row ∈ db.dedupe, row.key = call.key := by
  have hknown : ∃ row ∈ db.dedupe, row.eventId = call.key.eventId := by
    rcases hrepeats.known with hsome | ⟨a,ha,hid⟩
    · obtain ⟨row,hrow⟩ := Option.isSome_iff_exists.mp hsome
      exact ⟨row,(Table.find?_key hrow).1,(Table.find?_key hrow).2⟩
    · obtain ⟨⟨row,hrow,hwith⟩,-⟩ := h.assessed a ha
      exact ⟨row,hrow,hwith.eventId.trans hid⟩
  obtain ⟨row,hrow,hid⟩ := hknown
  have hfind := h.dedupeById_of_mem hrow
  rw [hid] at hfind
  exact ⟨row,hrow,hrepeats.identity row hfind (h.current row hrow)⟩

theorem sequence_le (h : EventInv db) {row : EventDedupe} (hrow : row ∈ db.dedupe) {s : Session}
    (hs : db.session? row.sessionId = some s) : row.daemonEventSeq ≤ s.eventAckThroughSeq := by
  rw [← h.cursor _ s hs]
  exact (h.numbered row.sessionId).le_length (mem_dedupeOf hrow)

theorem eq_of_sequence (h : EventInv db) {row row' : EventDedupe} (hrow : row ∈ db.dedupe)
    (hrow' : row' ∈ db.dedupe) (hsession : row.sessionId = row'.sessionId)
    (hsequence : row.daemonEventSeq = row'.daemonEventSeq) : row = row' := by
  have hmem : row' ∈ db.dedupeOf row.sessionId := hsession ▸ mem_dedupeOf hrow'
  exact (h.numbered row.sessionId).injective (mem_dedupeOf hrow) hmem hsequence

theorem conflict_error (h : EventInv db) {row : EventDedupe} (hrow : row ∈ db.dedupe) {call : EventCall}
    (hreuse : call.key.eventId = row.eventId ∨
      call.key.sessionId = row.sessionId ∧ call.key.daemonEventSeq = row.daemonEventSeq)
    (hne : call.key ≠ row.key) : ∃ e, call.exec d db = .error e := by
  cases hexec : call.exec d db with
  | error e => exact ⟨e,rfl⟩
  | ok result =>
    exfalso
    obtain ⟨receipt,db'⟩ := result
    rcases call.exec_ok hexec with ⟨-,hrepeats⟩ | ⟨row',hcommits,-⟩
    · obtain ⟨row',hrow',hkey⟩ := h.repeats_row hrepeats
      have heq : row' = row := by
        rw [← hkey] at hreuse
        rcases hreuse with hid | ⟨hsession,hsequence⟩
        · exact List.inj_on_of_nodup_map h.ids hrow' hrow hid
        · exact h.eq_of_sequence hrow' hrow hsession hsequence
      exact hne (heq ▸ hkey.symm)
    · obtain ⟨s,db₁,advance,records,-⟩ := hcommits.steps
      rw [← hcommits.key] at hreuse
      rcases hreuse with hid | ⟨hsession,hsequence⟩
      · exact Table.find?_key_none.mp records.newId row hrow hid.symm
      · have hnone := List.find?_eq_none.mp records.newSequence row hrow
        apply hnone
        have hs : row.sessionId = row'.sessionId := hsession.symm
        have hq : row.daemonEventSeq = row'.daemonEventSeq := hsequence.symm
        simp [hs,hq]

theorem gap_error (h : EventInv db) {s : Session} {call : EventCall}
    (hs : db.session? call.key.sessionId = some s)
    (hgap : s.eventAckThroughSeq+1 < call.key.daemonEventSeq) : ∃ e, call.exec d db = .error e := by
  cases hexec : call.exec d db with
  | error e => exact ⟨e,rfl⟩
  | ok result =>
    exfalso
    obtain ⟨receipt,db'⟩ := result
    rcases call.exec_ok hexec with ⟨-,hrepeats⟩ | ⟨row,hcommits,-⟩
    · obtain ⟨row,hrow,hkey⟩ := h.repeats_row hrepeats
      rw [← hkey] at hs hgap
      have hle := h.sequence_le hrow hs
      change _ < row.daemonEventSeq at hgap
      omega
    · obtain ⟨s',db₁,advance,records,-⟩ := hcommits.steps
      have hnext := h.records_next records
      have hfound := records.found
      rw [← hcommits.key] at hs hgap
      change db.session? row.sessionId = _ at hs
      change _ < row.daemonEventSeq at hgap
      rw [hs,Option.some.injEq] at hfound
      rw [← hfound] at hnext
      omega

/-- A repeated identity on a path that serves it returns the recorded outcome. -/
theorem served_ok (h : EventInv db) {row : EventDedupe} (hrow : row ∈ db.dedupe) {call : EventCall}
    (hkey : call.key = row.key) (hserves : call.Serves d db) :
    call.exec d db = .ok (row.receipt true,db) := by
  have hfind := h.dedupeById_of_mem hrow
  obtain ⟨s,hs⟩ := Option.isSome_iff_exists.mp (h.owned row hrow)
  have hid : row.eventId = call.key.eventId := congrArg EventKey.eventId hkey.symm
  have hsession : row.sessionId = call.key.sessionId := congrArg EventKey.sessionId hkey.symm
  have hsequence : row.daemonEventSeq = call.key.daemonEventSeq :=
    congrArg EventKey.daemonEventSeq hkey.symm
  have hdigest : row.payloadDigest = call.key.payloadDigest := congrArg EventKey.payloadDigest hkey.symm
  rw [hid] at hfind
  rw [hsession] at hs
  cases call with
  | receipt r =>
    obtain ⟨hcheck,hgeneric⟩ := hserves
    simp only [EventCall.key] at hfind hs hsession hsequence hdigest
    have hany : (db.assessments.any fun a => decide (a.eventId = r.eventId)) = false := by
      simpa using hgeneric
    have hrecorded : recordEventReceiptWithPayload d r db = .ok (row.receipt true,db) := by
      simp [recordEventReceiptWithPayload,hcheck,hs,orError,hany,hfind,hsession,hsequence,hdigest,bind,
        Except.bind]
    simp only [EventCall.exec,hrecorded,Except.mapError]
  | project now jitter r =>
    obtain ⟨hcheck,t,ht,hstart⟩ := hserves
    simp only [EventCall.key] at hfind hsession hsequence hdigest
    have hstart' : t.startMessageId.isNone = false := by
      cases hm : t.startMessageId <;> simp_all
    have hrecorded : projectClarificationEvent d now jitter r db = .ok (row.receipt true,db) := by
      simp [projectClarificationEvent,hcheck,ht,orError,hstart',hfind,hsession,hsequence,hdigest,bind,
        Except.bind]
    simp only [EventCall.exec,hrecorded,Except.mapError]
  | assess assessmentId r =>
    obtain ⟨hcheck,a,ha,haid,hrequirement,hcontent⟩ := hserves
    simp only [EventCall.key] at hfind hs hid hsession hsequence hdigest
    obtain ⟨⟨row',hrow',hwith⟩,t,ht,hbound⟩ := h.assessed a ha
    have heq : row' = row := List.inj_on_of_nodup_map h.ids hrow' hrow (hwith.eventId.trans (haid.trans hid.symm))
    rw [heq] at hwith
    have hafind : (db.assessments.find? fun b => decide (b.eventId = r.eventId)) = some a := by
      rw [← haid]
      exact @Table.find?_key_of_mem _ _ _ (fun b : AssessmentRow => b.eventId) _ _ h.assessedIds ha
    have htfilter : ((db.session? r.sessionId).filter fun s =>
        decide (s.requirementId = some r.requirementId)) = some t := by
      rw [← hsession,hwith.sessionId,ht]
      simp [hbound,hrequirement]
    have hsame : a.sessionId = r.sessionId ∧ a.daemonEventSeq = r.daemonEventSeq :=
      ⟨hwith.sessionId.symm.trans hsession,hwith.daemonEventSeq.symm.trans hsequence⟩
    have hrecorded : recordReadinessAssessmentWithEventDigest assessmentId r db = .ok (⟨a,true⟩,db) := by
      simp [recordReadinessAssessmentWithEventDigest,hcheck,htfilter,orError,hfind,hsession,hsequence,
        hdigest,hafind,hsame,hrequirement,hcontent,bind,Except.bind]
    have hreceipt : (ReadinessAssessmentResult.mk a true).receipt = row.receipt true := by
      simp [ReadinessAssessmentResult.receipt,EventDedupe.receipt,hwith.eventId,hwith.sessionId,
        hwith.daemonEventSeq,hwith.outcome,hwith.rejectionReason]
    simp only [EventCall.exec,hrecorded,Except.mapError,Except.map,hreceipt]

/-- A repeated identity on a path that does not serve it is refused. -/
theorem unserved_error {row : EventDedupe} (hrow : row ∈ db.dedupe) {call : EventCall}
    (hkey : call.key = row.key) (hunserved : ¬ call.Serves d db) : ∃ e, call.exec d db = .error e := by
  cases hexec : call.exec d db with
  | error e => exact ⟨e,rfl⟩
  | ok result =>
    exfalso
    obtain ⟨receipt,db'⟩ := result
    rcases call.exec_ok hexec with ⟨-,hrepeats⟩ | ⟨row',hcommits,-⟩
    · exact hunserved hrepeats.serves
    · obtain ⟨s,db₁,advance,records,-⟩ := hcommits.steps
      have hid : row.eventId = row'.eventId := congrArg EventKey.eventId (hkey.symm.trans hcommits.key.symm)
      exact Table.find?_key_none.mp records.newId row hrow hid

end EventInv

/-! ### Runs -/

def newEvents (db db' : Db) : List EventDedupe := db'.dedupe.drop db.dedupe.length

/-- The events a transaction commits, each with the database before it. -/
def Act.logged (d : Digests) (db : Db) (act : Act) : List (Db × Committed) :=
  match act.call? with
  | some call => (newEvents db (act.apply d db)).map fun row => (db,⟨call,row⟩)
  | none => []

def eventLog (d : Digests) : World → List Act → List (Db × Committed)
  | _, [] => []
  | w, act::acts => act.logged d w.db ++ eventLog d (w.step d act) acts

/-- The ledger and the tables of effects are the image of the log. -/
structure LogInv (d : Digests) (db : Db) (log : List (Db × Committed)) : Prop where
  inv : EventInv db
  logged : db.dedupe = log.map (·.2.row)
  applied : ∀ e ∈ log, Commits d e.1 e.2.call e.2.row (e.2.call.act.apply d e.1)
  effects : db.effects = Effects.all (log.map (·.2))
  started : ∀ e ∈ log, ∀ now jitter request, e.2.call = .project now jitter request →
    ∃ s, db.session? request.sessionId = some s ∧ s.startMessageId.isSome = true

theorem LogInv.empty (d : Digests) : LogInv d {} [] := by
  refine ⟨⟨by simp [Db.Keyed],by simp,by simp,by simp,?_,fun sid => rfl,?_,by simp,by simp⟩,rfl,by simp,rfl,
    by simp⟩
  · intro sid s hs
    cases hs
  · intro sid s hs
    cases hs

theorem LogInv.kept {d : Digests} {db db' : Db} {log : List (Db × Committed)} (h : LogInv d db log)
    (hkept : LedgerKept db db') : LogInv d db' log := by
  refine ⟨h.inv.kept hkept,by rw [hkept.dedupe,h.logged],h.applied,by rw [hkept.effects.effects_eq,h.effects],
    fun e he now jitter request hcall => ?_⟩
  obtain ⟨s,hs,hstart⟩ := h.started e he now jitter request hcall
  obtain ⟨s',hs',hcursor⟩ := (hkept.sessions _).forward hs
  exact ⟨s',hs',hcursor.start hstart⟩

theorem Commits.started {d : Digests} {db db' : Db} {now : ℕ} {jitter : Fin 26} {row : EventDedupe}
    {request : ProjectionRequest} (h : Commits d db (.project now jitter request) row db') :
    ∃ s, db.session? request.sessionId = some s ∧ s.startMessageId.isSome = true := by
  obtain ⟨s,db₁,advance,records,applies,-⟩ := h.steps
  cases applies with
  | rejected run => exact ⟨s,records.found,run⟩
  | projected run => exact ⟨s,records.found,run⟩

theorem LogInv.commit {d : Digests} {db : Db} {log : List (Db × Committed)} (h : LogInv d db log)
    {call : EventCall} {row : EventDedupe} (hc : Commits d db call row (call.act.apply d db)) :
    LogInv d (call.act.apply d db) (log ++ [(db,⟨call,row⟩)]) := by
  obtain ⟨s,hmoved⟩ := h.inv.commits_moved hc
  obtain ⟨s',hs',-,-,-,hstart,-⟩ := hmoved.moved
  have forward : ∀ sid t, db.session? sid = some t → t.startMessageId.isSome = true →
      ∃ t', (call.act.apply d db).session? sid = some t' ∧ t'.startMessageId.isSome = true := by
    intro sid t ht htstart
    by_cases hsid : sid = row.sessionId
    · rw [hsid,hmoved.found,Option.some.injEq] at ht
      rw [hsid]
      exact ⟨s',hs',hstart (ht ▸ htstart)⟩
    · obtain ⟨t',ht',hkept⟩ := (hmoved.others sid hsid).forward ht
      exact ⟨t',ht',hkept.start htstart⟩
  refine ⟨h.inv.commit hc,?_,fun e he => ?_,?_,fun e he now jitter request hcall => ?_⟩
  · rw [(EventInv.commits_dedupe hc).1,h.logged]
    simp
  · rcases List.mem_append.mp he with he | he
    · exact h.applied e he
    · obtain rfl := List.mem_singleton.mp he
      exact hc
  · rw [EventInv.commits_effects hc,h.effects,List.map_append,List.map_singleton,Effects.all_snoc]
  · have hbefore : ∃ t, db.session? request.sessionId = some t ∧ t.startMessageId.isSome = true := by
      rcases List.mem_append.mp he with he | he
      · exact h.started e he now jitter request hcall
      · obtain rfl := List.mem_singleton.mp he
        have hcall' : call = .project now jitter request := hcall
        rw [hcall'] at hc
        exact hc.started
    obtain ⟨t,ht,htstart⟩ := hbefore
    exact forward _ t ht htstart

theorem EventCall.commits_or_same (d : Digests) (db : Db) (call : EventCall) :
    (∃ row, Commits d db call row (call.act.apply d db)) ∨ call.act.apply d db = db := by
  cases hexec : call.exec d db with
  | error e => exact .inr (apply_of_error hexec)
  | ok result =>
    obtain ⟨receipt,db'⟩ := result
    rw [apply_of_ok hexec]
    rcases call.exec_ok hexec with ⟨hsame,-⟩ | ⟨row,hcommits,-⟩
    · exact .inr hsame
    · exact .inl ⟨row,hcommits⟩

theorem LogInv.step {d : Digests} {w : World} {log : List (Db × Committed)} (h : LogInv d w.db log)
    (act : Act) : LogInv d (w.step d act).db (log ++ act.logged d w.db) := by
  show LogInv d (act.apply d w.db) _
  cases hcall : act.call? with
  | none =>
    have hnone : act.logged d w.db = [] := by simp [Act.logged,hcall]
    rw [hnone,List.append_nil]
    exact h.kept (act.ledgerKept h.inv.keyed hcall)
  | some call =>
    have hact : act.apply d w.db = call.act.apply d w.db := by
      cases act with
      | run act => rw [RunAct.call?_some hcall,Act.apply]
      | command => cases hcall
    simp only [Act.logged,hcall,hact]
    rcases call.commits_or_same d w.db with ⟨row,hcommits⟩ | hsame
    · have hnew : newEvents w.db (call.act.apply d w.db) = [row] := by
        simp [newEvents,(EventInv.commits_dedupe hcommits).1]
      rw [hnew]
      exact h.commit hcommits
    · have hnew : newEvents w.db (call.act.apply d w.db) = [] := by
        simp [newEvents,hsame]
      rw [hnew,hsame]
      simpa using h

theorem LogInv.run {d : Digests} {w : World} {log : List (Db × Committed)} (h : LogInv d w.db log)
    (acts : List Act) : LogInv d (w.run d acts).db (log ++ eventLog d w acts) := by
  induction acts generalizing w log with
  | nil => simpa [eventLog,World.run] using h
  | cons act acts ih =>
    rw [World.run_cons,eventLog,← List.append_assoc]
    exact ih (h.step act)

/-! ### What the ledger promises -/

theorem Committed.mem_assessments {e : Committed} {x : AssessedEvent} :
    x ∈ e.effects.assessments ↔ ∃ assessmentId request, e.call = .assess assessmentId request ∧
      x = ⟨request.eventId,request.sessionId,request.daemonEventSeq,request.requirementId,
        request.assessment,e.row.outcome,e.row.rejectionReason⟩ := by
  obtain ⟨call,row⟩ := e
  cases call with
  | receipt request => simp [Committed.effects]
  | project now jitter request =>
    cases hout : row.outcome <;> cases hevent : request.event <;> simp [Committed.effects,hout,hevent]
  | assess assessmentId request => simp [Committed.effects]

theorem LogInv.eq_of_eventId {d : Digests} {db : Db} {log : List (Db × Committed)} (h : LogInv d db log)
    {e e' : Db × Committed} (he : e ∈ log) (he' : e' ∈ log) (hid : e.2.row.eventId = e'.2.row.eventId) :
    e = e' := by
  have hids := h.inv.ids
  rw [h.logged,List.map_map] at hids
  exact List.inj_on_of_nodup_map hids he he' hid

/-- Every committed call is served when it comes again, whatever happened since. -/
theorem LogInv.own_serves {d : Digests} {db : Db} {log : List (Db × Committed)} (h : LogInv d db log)
    {e : Db × Committed} (he : e ∈ log) : e.2.call.Serves d db := by
  have hcommits := h.applied e he
  have hchecked := hcommits.checked
  have hassessments : db.assessments.map (·.event) = (log.map (·.2)).flatMap (·.effects.assessments) :=
    congrArg Effects.assessments h.effects
  cases hcall : e.2.call with
  | receipt request =>
    rw [hcall] at hchecked
    refine ⟨hchecked,fun a ha hid => ?_⟩
    have hmem : a.event ∈ (log.map (·.2)).flatMap (·.effects.assessments) :=
      hassessments ▸ List.mem_map_of_mem ha
    obtain ⟨c,hc,hx⟩ := List.mem_flatMap.mp hmem
    obtain ⟨e',he',rfl⟩ := List.mem_map.mp hc
    obtain ⟨assessmentId,request',hcall',hevent⟩ := Committed.mem_assessments.mp hx
    have hkey := (h.applied e' he').key
    rw [hcall'] at hkey
    have hid' : e'.2.row.eventId = a.eventId := (congrArg EventKey.eventId hkey).trans
      (congrArg AssessedEvent.eventId hevent).symm
    rw [hcall] at hcommits
    have hown : e.2.row.eventId = request.eventId := congrArg EventKey.eventId hcommits.key
    have heq := h.eq_of_eventId he' he (hid'.trans (hid.trans hown.symm))
    rw [heq,hcall] at hcall'
    cases hcall'
  | project now jitter request =>
    rw [hcall] at hchecked
    exact ⟨hchecked,h.started e he now jitter request hcall⟩
  | assess assessmentId request =>
    rw [hcall] at hchecked
    have hwritten : ∃ a ∈ db.assessments, a.event = ⟨request.eventId,request.sessionId,
        request.daemonEventSeq,request.requirementId,request.assessment,e.2.row.outcome,
        e.2.row.rejectionReason⟩ := by
      apply List.mem_map.mp
      rw [hassessments]
      apply List.mem_flatMap.mpr
      exact ⟨e.2,List.mem_map_of_mem he,Committed.mem_assessments.mpr ⟨assessmentId,request,hcall,rfl⟩⟩
    obtain ⟨a,ha,hevent⟩ := hwritten
    have hid : a.eventId = request.eventId := congrArg AssessedEvent.eventId hevent
    have hrequirement : a.eventRequirementId = request.requirementId :=
      congrArg AssessedEvent.requirementId hevent
    have hassessment : a.assessment = request.assessment := congrArg AssessedEvent.assessment hevent
    refine ⟨hchecked,a,ha,hid,hrequirement,?_⟩
    simp [sameAssessmentContent,hassessment]

/-- The call fails and changes nothing. -/
def EventCall.Refused (d : Digests) (db : Db) (call : EventCall) : Prop :=
  (∃ e, call.exec d db = .error e) ∧ call.act.apply d db = db

theorem EventCall.refused_of_error {d : Digests} {db : Db} {call : EventCall}
    (h : ∃ e, call.exec d db = .error e) : call.Refused d db := by
  obtain ⟨e,he⟩ := h
  exact ⟨⟨e,he⟩,apply_of_error he⟩

/-- The promises of the event ledger in a state with its log of committed events. -/
structure EventContract (d : Digests) (db : Db) (log : List (Db × Committed)) : Prop where
  /-- The rows of a session carry the sequences up to its cursor, each once. -/
  sequences : ∀ s ∈ db.sessions,
    (db.dedupeOf s.id).map (·.daemonEventSeq) = List.range' 1 s.eventAckThroughSeq
  owned : ∀ row ∈ db.dedupe, ∃ s ∈ db.sessions, s.id = row.sessionId
  ids : (db.dedupe.map (·.eventId)).Nodup
  /-- Each row was written by one committing call, whose effect was applied there. -/
  logged : db.dedupe = log.map (·.2.row)
  applied : ∀ e ∈ log, Commits d e.1 e.2.call e.2.row (e.2.call.act.apply d e.1)
  /-- Every other call leaves everything as it is. -/
  otherwise : ∀ call : EventCall, (∃ row, Commits d db call row (call.act.apply d db)) ∨
    call.act.apply d db = db
  /-- The messages, activities, assessments and promotions are what the log writes. -/
  effects : db.effects = Effects.all (log.map (·.2))
  /-- A committed call that comes again returns what was recorded. -/
  again : ∀ e ∈ log, e.2.call.exec d db = .ok (e.2.row.receipt true,db)
  /-- So does any call with the same identity, on a path that serves the event. -/
  repeated : ∀ row ∈ db.dedupe, ∀ call : EventCall, call.key = row.key → call.Serves d db →
    call.exec d db = .ok (row.receipt true,db)
  unserved : ∀ row ∈ db.dedupe, ∀ call : EventCall, call.key = row.key → ¬ call.Serves d db →
    call.Refused d db
  /-- An event id or a sequence under other data. -/
  conflicting : ∀ row ∈ db.dedupe, ∀ call : EventCall, (call.key.eventId = row.eventId ∨
    call.key.sessionId = row.sessionId ∧ call.key.daemonEventSeq = row.daemonEventSeq) →
    call.key ≠ row.key → call.Refused d db
  gap : ∀ s ∈ db.sessions, ∀ call : EventCall, call.key.sessionId = s.id →
    s.eventAckThroughSeq+1 < call.key.daemonEventSeq → call.Refused d db

/-- The event ledger keeps its promises in every run, whichever path handles which event
and whatever else the store does in between. -/
theorem event_ledger (d : Digests) (acts : List Act) :
    EventContract d (runActs d acts).db (eventLog d {} acts) := by
  have h : LogInv d (runActs d acts).db (eventLog d {} acts) := by
    have hrun := LogInv.run (w := {}) (LogInv.empty d) acts
    rwa [List.nil_append] at hrun
  generalize (runActs d acts).db = db at h
  generalize eventLog d {} acts = log at h
  have found : ∀ s ∈ db.sessions, db.session? s.id = some s := fun s hs => session?_of_mem h.inv.keyed hs
  refine ⟨fun s hs => ?_,fun row hrow => ?_,h.inv.ids,h.logged,h.applied,fun call => call.commits_or_same d db,
    h.effects,fun e he => ?_,fun row hrow call => h.inv.served_ok hrow,fun row hrow call hkey hunserved => ?_,
    fun row hrow call hreuse hne => ?_,fun s hs call hsession hgap => ?_⟩
  · rw [← h.inv.cursor s.id s (found s hs)]
    exact h.inv.numbered s.id
  · obtain ⟨s,hs⟩ := Option.isSome_iff_exists.mp (h.inv.owned row hrow)
    exact ⟨s,(session?_some hs).1,(session?_some hs).2⟩
  · have hrow : e.2.row ∈ db.dedupe := h.logged ▸ List.mem_map_of_mem he
    exact h.inv.served_ok hrow (h.applied e he).key.symm (h.own_serves he)
  · exact EventCall.refused_of_error (EventInv.unserved_error hrow hkey hunserved)
  · exact EventCall.refused_of_error (h.inv.conflict_error hrow hreuse hne)
  · refine EventCall.refused_of_error (h.inv.gap_error (s := s) ?_ hgap)
    rw [hsession]
    exact found s hs

def EventCall.payload : EventCall → String
  | .receipt r => r.payload
  | .project _ _ r => r.payload
  | .assess _ r => r.eventDigest

namespace Sample

def assessment : ReadinessAssessment where
  requirementRevision := 1
  repositoriesReviewed := []
  verdict := .needsClarification
  blockers := []
  assumptions := []
  assessedAtMs := 1

/-- A run whose first event is an assessment. -/
def assessed : List Act := started.map .run ++ [.run (.assess "a1" ⟨"e1","run",1,"req",assessment,"e1"⟩)]

/-- The event of the assessment once more, as a plain receipt. -/
def plainAgain : EventCall := .receipt ⟨"e1","run",1,"e1","e1",.rejected,some "verdict_not_ready"⟩

end Sample

/-- Not every repeated event returns its recorded outcome: plain receipts refuse the events
of the readiness ledger. -/
theorem repeated_not_always : ¬ ∀ (d : Digests) (acts : List Act),
    ∀ row ∈ (runActs d acts).db.dedupe, ∀ call : EventCall, call.key = row.key →
      call.payload = row.payload → ∃ receipt db', call.exec d (runActs d acts).db = .ok (receipt,db') ∧
        receipt.outcome = row.outcome ∧ receipt.rejectionReason = row.rejectionReason := by
  intro h
  have hrow : ∃ row ∈ (runActs Sample.digests Sample.assessed).db.dedupe,
      Sample.plainAgain.key = row.key ∧ Sample.plainAgain.payload = row.payload := by decide +kernel
  obtain ⟨row,hmem,hkey,hpayload⟩ := hrow
  obtain ⟨receipt,db',hok,-⟩ := h Sample.digests Sample.assessed row hmem Sample.plainAgain hkey hpayload
  have hfails : (Sample.plainAgain.exec Sample.digests
      (runActs Sample.digests Sample.assessed).db).toOption.isNone = true := by decide +kernel
  rw [hok] at hfails
  cases hfails

end Store
end North
