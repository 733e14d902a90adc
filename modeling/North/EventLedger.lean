import North.CommandSteps
import North.Lib.Numbered

/-! The invariant of the event ledger: the rows of a session carry the sequences up to its
cursor, every event has one row, and an assessment has the row it was recorded with. -/
namespace North
namespace Store

open Machine Protocol Domain

/-! ### The rows that events write -/

/-- An assessment as its event carried it, with the verdict of the server. -/
structure AssessedEvent where
  eventId : String
  sessionId : String
  daemonEventSeq : ℕ
  requirementId : String
  assessment : ReadinessAssessment
  outcome : Outcome
  rejectionReason : Option String
  deriving DecidableEq, Repr

/-- The tables of effects, as far as events determine them: agent messages, activities,
assessments, and promotions with the assessments behind them. -/
@[ext] structure Effects where
  messages : List (Option String × String × String) := []
  activities : List ActivityRow := []
  assessments : List AssessedEvent := []
  promotions : List (String × Option String) := []

def AssessmentRow.event (a : AssessmentRow) : AssessedEvent :=
  ⟨a.eventId,a.sessionId,a.daemonEventSeq,a.eventRequirementId,a.assessment,a.outcome,a.rejectionReason⟩

def Db.effects (db : Db) : Effects where
  messages := (sourced db.messages).map fun m => (m.sourceEventId,m.id,m.body)
  activities := db.activities
  assessments := db.assessments.map (·.event)
  promotions := (promotions db.audit).map fun a => (a.actorId,a.assessmentId)

structure Committed where
  call : EventCall
  row : EventDedupe

namespace Committed

/-- The rows that one committed event writes; a rejected event writes at most its evidence. -/
def effects (e : Committed) : Effects :=
  match e.call, e.row.outcome with
  | .project _ _ request, .accepted =>
    match request.event with
    | .agentMessage messageId content => { messages := [(some request.eventId,messageId,content)] }
    | .activity activity => { activities := [⟨request.eventId,request.sessionId,activity⟩] }
    | .sessionStarted _ | .completed _ | .failed _ _ => {}
  | .assess assessmentId request, outcome => {
      assessments := [⟨request.eventId,request.sessionId,request.daemonEventSeq,request.requirementId,
        request.assessment,outcome,e.row.rejectionReason⟩]
      promotions := match outcome with
        | .accepted => [(request.eventId,some assessmentId)]
        | .rejected => [] }
  | _, _ => {}

end Committed

namespace Effects

def append (a b : Effects) : Effects :=
  ⟨a.messages ++ b.messages,a.activities ++ b.activities,a.assessments ++ b.assessments,
    a.promotions ++ b.promotions⟩

def all (log : List Committed) : Effects :=
  ⟨log.flatMap (·.effects.messages),log.flatMap (·.effects.activities),
    log.flatMap (·.effects.assessments),log.flatMap (·.effects.promotions)⟩

theorem all_snoc (log : List Committed) (e : Committed) : all (log ++ [e]) = (all log).append e.effects := by
  simp [all,append]

end Effects

theorem EffectsKept.effects_eq {db db' : Db} (h : EffectsKept db db') : db'.effects = db.effects := by
  unfold Db.effects
  rw [h.messages,h.activities,h.assessments,h.promoted]

/-! ### Effects of one event -/

theorem Effects.append_nil (a : Effects) : a.append {} = a := by
  simp [Effects.append]

/-- The effect tables after the effect of an event, and what the effect leaves alone. -/
structure EffectApplied (db db₁ : Db) (e : Committed) : Prop where
  keyed : db.Keyed → db₁.Keyed
  dedupe : db₁.dedupe = db.dedupe
  sessions : ∀ sid, SessionKept (db.session? sid) (db₁.session? sid)
  effects : db₁.effects = db.effects.append e.effects
  evidence : db₁.assessments = db.assessments ∨ ∃ assessmentId request, e.call = .assess assessmentId request

theorem LedgerKept.applied {db db₁ : Db} {e : Committed} (h : LedgerKept db db₁) (he : e.effects = {}) :
    EffectApplied db db₁ e :=
  ⟨h.keyed,h.dedupe,h.sessions,by rw [he,Effects.append_nil,h.effects.effects_eq],
    .inl h.effects.assessments⟩

/-- An effect on the session row and its attempts writes no row of its own. -/
theorem closed_applied {db closed : Db} {attemptId : String} {outcome : AttemptOutcome} {sid : String}
    {f : Session → Session} {e : Committed} (closes : closeAttempt db attemptId sid outcome = some closed)
    (hid : ∀ s, (f s).id = s.id) (hf : ∀ s, CursorKept s (f s)) (he : e.effects = {}) :
    EffectApplied db (closed.updateSession sid f) e := by
  rw [(closeAttempt_some closes).2.1]
  exact LedgerKept.applied (.update rfl rfl ⟨rfl,rfl,rfl,rfl⟩ hid fun s _ => hf s) he

theorem applyEvent_applied {db db₁ : Db} {now : ℕ} {jitter : Fin 26} {s : Session}
    {request : ProjectionRequest} (hid : s.id = request.sessionId)
    (effect : applyEvent db now jitter s request.eventId request.event = .ok db₁) :
    EffectApplied db db₁ ⟨.project now jitter request,request.row none⟩ := by
  cases hevent : request.event with
  | sessionStarted runtimeId =>
    rw [hevent] at effect
    cases effect
    refine LedgerKept.applied (.update rfl rfl ⟨rfl,rfl,rfl,rfl⟩ (fun _ => rfl)
      fun _ _ => .of_eq rfl rfl rfl rfl rfl) ?_
    simp [Committed.effects,ProjectionRequest.row,hevent]
  | agentMessage messageId content =>
    simp only [hevent,applyEvent,bind_eq_ok,orError_eq_ok] at effect
    obtain ⟨conversation,-,effect⟩ := effect
    unfold insertAgentMessage at effect
    split_ifs at effect
    cases effect
    refine ⟨id,rfl,fun sid => .refl _,?_,.inl rfl⟩
    simp [Committed.effects,ProjectionRequest.row,hevent,Db.effects,Effects.append,sourced]
  | activity activity =>
    simp only [hevent,applyEvent] at effect
    split_ifs at effect
    cases effect
    refine ⟨id,rfl,fun sid => .refl _,?_,.inl rfl⟩
    simp [Committed.effects,ProjectionRequest.row,hevent,Db.effects,Effects.append,hid]
  | completed summary =>
    simp only [hevent,applyEvent,bind_eq_ok,orError_eq_ok] at effect
    obtain ⟨attemptId,-,closed,closes,effect⟩ := effect
    cases effect
    refine closed_applied closes (fun _ => rfl) (fun _ => .of_eq rfl rfl rfl rfl rfl) ?_
    simp [Committed.effects,ProjectionRequest.row,hevent]
  | failed recoverable reason =>
    simp only [hevent,applyEvent,applyFailure,bind_eq_ok,orError_eq_ok] at effect
    obtain ⟨attemptId,-,closed,closes,effect⟩ := effect
    split_ifs at effect
    cases effect
    refine closed_applied closes (fun _ => rfl) (fun _ => .of_eq rfl rfl rfl rfl rfl) ?_
    simp [Committed.effects,ProjectionRequest.row,hevent]

theorem promote_audit {db db' : Db} {requirement promoted : Requirement} {eventId assessmentId : String}
    (h : promote db requirement promoted eventId assessmentId = .ok db') :
    (promotions db'.audit).map (fun a => (a.actorId,a.assessmentId)) =
      (promotions db.audit).map (fun a => (a.actorId,a.assessmentId)) ++ [(eventId,some assessmentId)] := by
  simp only [promote,bind_eq_ok,mapError_eq_ok] at h
  obtain ⟨db₁,h₁,h⟩ := h
  have haudit : db₁.audit = db.audit := by rw [updateRequirement_outer h₁]
  split_ifs at h
  cases h
  simp [promotions,haudit]

theorem applyAssessment_audit {db db₁ : Db} {s : Session} {assessmentId : String}
    {request : AssessmentRequest} {rejection : Option String} {record : AssessmentRow}
    (effect : applyAssessment db s assessmentId request = .ok (rejection,record,db₁)) :
    (promotions db₁.audit).map (fun a => (a.actorId,a.assessmentId)) =
      (promotions db.audit).map (fun a => (a.actorId,a.assessmentId)) ++
        if rejection.isSome then [] else [(request.eventId,some assessmentId)] := by
  unfold applyAssessment at effect
  split at effect
  · simp only [bind_eq_ok] at effect
    obtain ⟨db₂,hins,effect⟩ := effect
    cases effect
    rw [insertAssessment_outer hins]
    simp
  · simp only [bind_eq_ok] at effect
    obtain ⟨db₂,hins,db₃,hpromote,effect⟩ := effect
    cases effect
    have haudit : db₂.audit = db.audit := by rw [insertAssessment_outer hins]
    split at hpromote
    · rename_i hrejected
      cases hpromote
      rw [haudit,if_pos hrejected,List.append_nil]
    · rename_i hrejected
      rw [promote_audit hpromote,haudit,if_neg hrejected]

theorem applyAssessment_applied {db db₁ : Db} {s : Session} {assessmentId : String}
    {request : AssessmentRequest} {rejection : Option String} {record : AssessmentRow}
    (effect : applyAssessment db s assessmentId request = .ok (rejection,record,db₁)) :
    EffectApplied db db₁ ⟨.assess assessmentId request,request.row rejection⟩ := by
  have houter := applyAssessment_outer effect
  refine ⟨fun hk => ?_,by rw [houter],fun sid => ?_,?_,.inr ⟨assessmentId,request,rfl⟩⟩
  · rw [houter]
    exact hk
  · have hsame : db₁.session? sid = db.session? sid := by
      rw [houter]
      rfl
    rw [hsame]
    exact .refl _
  · obtain ⟨requirementId,version,rfl⟩ := applyAssessment_receipt effect
    have haudit := applyAssessment_audit effect
    have hmessages : db₁.messages = db.messages := by rw [houter]
    have hactivities : db₁.activities = db.activities := by rw [houter]
    have hassessments : db₁.assessments = db.assessments ++
        [request.record assessmentId requirementId rejection version] := by rw [houter]
    unfold Db.effects
    rw [haudit,hmessages,hactivities,hassessments]
    cases rejection <;> simp [Committed.effects,AssessmentRequest.row,Effects.append,AssessmentRow.event,
      AssessmentRequest.record]

theorem Applies.applied {db db₁ : Db} {s : Session} {call : EventCall} {row : EventDedupe}
    (hid : s.id = row.sessionId) (h : Applies db s call row db₁) : EffectApplied db db₁ ⟨call,row⟩ := by
  cases h with
  | noted request =>
    refine (LedgerKept.refl db).applied ?_
    simp [Committed.effects]
  | rejected policy =>
    refine (LedgerKept.refl db).applied ?_
    simp [Committed.effects,ProjectionRequest.row]
  | projected _ _ effect => exact applyEvent_applied hid effect
  | assessed _ effect => exact applyAssessment_applied effect

/-! ### The invariant -/

/-- The ledger row that an assessment was recorded with. -/
structure RecordedWith (row : EventDedupe) (a : AssessmentRow) : Prop where
  eventId : row.eventId = a.eventId
  sessionId : row.sessionId = a.sessionId
  daemonEventSeq : row.daemonEventSeq = a.daemonEventSeq
  outcome : row.outcome = a.outcome
  rejectionReason : row.rejectionReason = a.rejectionReason

structure EventInv (db : Db) : Prop where
  keyed : db.Keyed
  ids : (db.dedupe.map (·.eventId)).Nodup
  owned : ∀ row ∈ db.dedupe, (db.session? row.sessionId).isSome = true
  current : ∀ row ∈ db.dedupe, row.legacyIdentity = false
  sparse : ∀ sid s, db.session? sid = some s → s.eventAckSparse = []
  numbered : ∀ sid, Numbered (·.daemonEventSeq) (db.dedupeOf sid)
  cursor : ∀ sid s, db.session? sid = some s → (db.dedupeOf sid).length = s.eventAckThroughSeq
  assessed : ∀ a ∈ db.assessments, (∃ row ∈ db.dedupe, RecordedWith row a) ∧
    ∃ s, db.session? a.sessionId = some s ∧ s.requirementId = some a.eventRequirementId
  assessedIds : (db.assessments.map (·.eventId)).Nodup

namespace EventInv

variable {db db' : Db}

theorem dedupeOf_absent (h : EventInv db) {sid : String} (hs : db.session? sid = none) :
    db.dedupeOf sid = [] := by
  apply List.filter_eq_nil_iff.mpr
  intro row hrow heq
  have hsome := h.owned row hrow
  rw [of_decide_eq_true heq,hs] at hsome
  cases hsome

theorem kept (h : EventInv db) (hkept : LedgerKept db db') : EventInv db' := by
  have hof : ∀ sid, db'.dedupeOf sid = db.dedupeOf sid := by
    intro sid
    unfold Db.dedupeOf
    rw [hkept.dedupe]
  refine ⟨hkept.keyed h.keyed,?_,fun row hrow => ?_,fun row hrow => ?_,fun sid s' hs' => ?_,fun sid => ?_,
    fun sid s' hs' => ?_,fun a ha => ?_,?_⟩
  · rw [hkept.dedupe]
    exact h.ids
  · rw [hkept.dedupe] at hrow
    obtain ⟨s,hs⟩ := Option.isSome_iff_exists.mp (h.owned row hrow)
    obtain ⟨s',hs',-⟩ := (hkept.sessions row.sessionId).forward hs
    simp [hs']
  · rw [hkept.dedupe] at hrow
    exact h.current row hrow
  · rcases (hkept.sessions sid).backward hs' with ⟨s,hs,hcursor⟩ | ⟨-,-,hsparse⟩
    · rw [hcursor.sparse]
      exact h.sparse sid s hs
    · exact hsparse
  · rw [hof]
    exact h.numbered sid
  · rw [hof]
    rcases (hkept.sessions sid).backward hs' with ⟨s,hs,hcursor⟩ | ⟨hnone,hthrough,-⟩
    · rw [hcursor.through]
      exact h.cursor sid s hs
    · rw [h.dedupeOf_absent hnone,hthrough]
      rfl
  · rw [hkept.effects.assessments] at ha
    obtain ⟨⟨row,hrow,hwith⟩,s,hs,hrequirement⟩ := h.assessed a ha
    obtain ⟨s',hs',hcursor⟩ := (hkept.sessions a.sessionId).forward hs
    rw [hkept.dedupe]
    exact ⟨⟨row,hrow,hwith⟩,s',hs',hcursor.requirement _ hrequirement⟩
  · rw [hkept.effects.assessments]
    exact h.assessedIds

theorem records_next (h : EventInv db) {s : Session} {row : EventDedupe} (records : Records db s row) :
    row.daemonEventSeq = s.eventAckThroughSeq+1 := by
  obtain ⟨expected,hexpected,hle⟩ := records.next
  have hsparse := h.sparse _ s records.found
  have habove := records.above
  simp only [expectedSequence,hsparse,Option.bind_eq_some_iff,checkedSucc_eq_some,List.length_nil,
    skipSparse,Option.some.injEq] at hexpected
  obtain ⟨next,⟨-,rfl⟩,rfl⟩ := hexpected
  omega

theorem setCursor_next {advance : ℕ → List ℕ → ℕ → ℕ × List ℕ} {s : Session}
    (cursor : advance = advanceCursor ∨ advance = advanceProjectionCursor)
    (hsparse : s.eventAckSparse = []) :
    (setCursor advance (s.eventAckThroughSeq+1) s).eventAckThroughSeq = s.eventAckThroughSeq+1 ∧
      (setCursor advance (s.eventAckThroughSeq+1) s).eventAckSparse = [] := by
  have hlt : ¬ s.eventAckThroughSeq+1 ≤ s.eventAckThroughSeq := by omega
  rcases cursor with rfl | rfl
  · simp [setCursor,advanceCursor,hsparse,closeGap]
  · simp [setCursor,advanceProjectionCursor,hsparse,closeGap,hlt]

/-- The session rows after a commit: the cursor of one session has moved on by one. -/
structure Moved (db db' : Db) (row : EventDedupe) (s : Session) : Prop where
  found : db.session? row.sessionId = some s
  next : row.daemonEventSeq = s.eventAckThroughSeq+1
  moved : ∃ s', db'.session? row.sessionId = some s' ∧
    s'.eventAckThroughSeq = s.eventAckThroughSeq+1 ∧ s'.eventAckSparse = [] ∧
    (∀ id, s.requirementId = some id → s'.requirementId = some id) ∧
    (s.startMessageId.isSome = true → s'.startMessageId.isSome = true) ∧
    ∀ id, s.daemonId = some id → s'.daemonId = some id
  others : ∀ sid, sid ≠ row.sessionId → SessionKept (db.session? sid) (db'.session? sid)

theorem commits_moved {d : Digests} {call : EventCall} {row : EventDedupe} (h : EventInv db)
    (hc : Commits d db call row db') : ∃ s, Moved db db' row s := by
  obtain ⟨s,db₁,advance,records,applies,cursor,rfl⟩ := hc.steps
  obtain ⟨-,hid⟩ := session?_some records.found
  have happlied := applies.applied hid
  obtain ⟨s₁,hs₁,hkept⟩ := (happlied.sessions row.sessionId).forward records.found
  have hnext := h.records_next records
  have hcursor := @setCursor_next advance s₁ cursor (hkept.sparse.trans (h.sparse _ s records.found))
  have hsession : ∀ sid, ((db₁.addDedupe row).updateSession row.sessionId
      (setCursor advance row.daemonEventSeq)).session? sid = if sid = row.sessionId then
        some (setCursor advance row.daemonEventSeq s₁) else db₁.session? sid := by
    intro sid
    rw [session?_updateSession _ _ _ (setCursor advance row.daemonEventSeq) fun _ => rfl]
    have hfound : (db₁.addDedupe row).session? row.sessionId = some s₁ := hs₁
    rw [hfound]
    rfl
  refine ⟨s,records.found,hnext,⟨setCursor advance row.daemonEventSeq s₁,?_,?_,?_,?_,?_,?_⟩,fun sid hne => ?_⟩
  · rw [hsession,if_pos rfl]
  · rw [hnext,← hkept.through]
    exact hcursor.1
  · rw [hnext,← hkept.through]
    exact hcursor.2
  · exact hkept.requirement
  · exact hkept.start
  · exact hkept.owner
  · rw [hsession,if_neg hne]
    exact happlied.sessions sid

theorem commits_dedupe {d : Digests} {call : EventCall} {row : EventDedupe}
    (hc : Commits d db call row db') : db'.dedupe = db.dedupe ++ [row] ∧
      (∀ r ∈ db.dedupe, r.eventId ≠ row.eventId) := by
  obtain ⟨s,db₁,advance,records,applies,cursor,rfl⟩ := hc.steps
  obtain ⟨-,hid⟩ := session?_some records.found
  refine ⟨?_,Table.find?_key_none.mp records.newId⟩
  show db₁.dedupe ++ [row] = _
  rw [(applies.applied hid).dedupe]

theorem commits_effects {d : Digests} {call : EventCall} {row : EventDedupe}
    (hc : Commits d db call row db') :
    db'.effects = db.effects.append (Committed.effects ⟨call,row⟩) := by
  obtain ⟨s,db₁,advance,records,applies,cursor,rfl⟩ := hc.steps
  obtain ⟨-,hid⟩ := session?_some records.found
  exact (applies.applied hid).effects

/-- Only an assessment adds to the assessments, under the requirement of its session. -/
theorem commits_assessments {d : Digests} {call : EventCall} {row : EventDedupe}
    (hc : Commits d db call row db') : db'.assessments = db.assessments ∨
      ∃ a s, db'.assessments = db.assessments ++ [a] ∧ RecordedWith row a ∧
        db.session? row.sessionId = some s ∧ s.requirementId = some a.eventRequirementId := by
  obtain ⟨s,db₁,advance,records,applies,cursor,rfl⟩ := hc.steps
  show db₁.assessments = _ ∨ ∃ a s, db₁.assessments = _ ∧ _
  cases applies with
  | noted => exact .inl rfl
  | rejected => exact .inl rfl
  | projected _ _ effect =>
    rcases (applyEvent_applied (session?_some records.found).2 effect).evidence with hsame | ⟨_,_,hcall⟩
    · exact .inl hsame
    · cases hcall
  | assessed bound effect =>
    have houter := applyAssessment_outer effect
    obtain ⟨requirementId,version,rfl⟩ := applyAssessment_receipt effect
    exact .inr ⟨_,s,by rw [houter],⟨rfl,rfl,rfl,rfl,rfl⟩,records.found,bound⟩

theorem dedupeOf_commit {row : EventDedupe} (hd : db'.dedupe = db.dedupe ++ [row]) (sid : String) :
    db'.dedupeOf sid = if sid = row.sessionId then db.dedupeOf sid ++ [row] else db.dedupeOf sid := by
  unfold Db.dedupeOf
  rw [hd,List.filter_append]
  split_ifs with hsid
  · simp [hsid]
  · have hne : row.sessionId ≠ sid := fun heq => hsid heq.symm
    simp [hne]

theorem Moved.forward {row : EventDedupe} {s : Session} (hmoved : Moved db db' row s) {sid : String}
    {t : Session} (ht : db.session? sid = some t) :
    ∃ t', db'.session? sid = some t' ∧ ∀ id, t.requirementId = some id → t'.requirementId = some id := by
  by_cases hsid : sid = row.sessionId
  · obtain ⟨s',hs',-,-,hrequirement,-⟩ := hmoved.moved
    rw [hsid,hmoved.found,Option.some.injEq] at ht
    exact ⟨s',hsid ▸ hs',ht ▸ hrequirement⟩
  · obtain ⟨t',ht',hkept⟩ := (hmoved.others sid hsid).forward ht
    exact ⟨t',ht',hkept.requirement⟩

/-- The cursor of the session moves with the number of its rows, and no entry waits beside it. -/
theorem commit_cursor {d : Digests} {call : EventCall} {row : EventDedupe} (h : EventInv db)
    (hc : Commits d db call row db') {sid : String} {t : Session} (ht : db'.session? sid = some t) :
    (db'.dedupeOf sid).length = t.eventAckThroughSeq ∧ t.eventAckSparse = [] := by
  obtain ⟨s,hmoved⟩ := h.commits_moved hc
  obtain ⟨s',hs',hthrough,hsparse,-⟩ := hmoved.moved
  rw [dedupeOf_commit (commits_dedupe hc).1]
  split_ifs with hsid
  · rw [hsid,hs',Option.some.injEq] at ht
    rw [← ht,hthrough,List.length_append,hsid,h.cursor _ s hmoved.found]
    exact ⟨rfl,hsparse⟩
  · rcases (hmoved.others sid hsid).backward ht with ⟨t₀,ht₀,hkept⟩ | ⟨hnone,hzero,hempty⟩
    · rw [hkept.through,hkept.sparse]
      exact ⟨h.cursor sid t₀ ht₀,h.sparse sid t₀ ht₀⟩
    · rw [h.dedupeOf_absent hnone,hzero]
      exact ⟨rfl,hempty⟩

theorem commit_assessed {d : Digests} {call : EventCall} {row : EventDedupe} (h : EventInv db)
    (hc : Commits d db call row db') {a : AssessmentRow} (ha : a ∈ db'.assessments) :
    (∃ r ∈ db'.dedupe, RecordedWith r a) ∧
      ∃ t, db'.session? a.sessionId = some t ∧ t.requirementId = some a.eventRequirementId := by
  obtain ⟨s,hmoved⟩ := h.commits_moved hc
  have hdedupe := (commits_dedupe hc).1
  have hold : ∀ a ∈ db.assessments, (∃ r ∈ db'.dedupe, RecordedWith r a) ∧
      ∃ t, db'.session? a.sessionId = some t ∧ t.requirementId = some a.eventRequirementId := by
    intro a ha
    obtain ⟨⟨r,hr,hwith⟩,t,ht,hbound⟩ := h.assessed a ha
    obtain ⟨t',ht',hkeeps⟩ := hmoved.forward ht
    rw [hdedupe]
    exact ⟨⟨r,List.mem_append_left _ hr,hwith⟩,t',ht',hkeeps _ hbound⟩
  rcases commits_assessments hc with hsame | ⟨b,t,happend,hwith,ht,hbound⟩
  · rw [hsame] at ha
    exact hold a ha
  · rw [happend] at ha
    rcases List.mem_append.mp ha with ha | ha
    · exact hold a ha
    · obtain rfl := List.mem_singleton.mp ha
      obtain ⟨t',ht',hkeeps⟩ := hmoved.forward ht
      rw [hdedupe,← hwith.sessionId]
      exact ⟨⟨row,by simp,hwith⟩,t',ht',hkeeps _ hbound⟩

theorem commit_assessedIds {d : Digests} {call : EventCall} {row : EventDedupe} (h : EventInv db)
    (hc : Commits d db call row db') : (db'.assessments.map (·.eventId)).Nodup := by
  rcases commits_assessments hc with hsame | ⟨b,t,happend,hwith,-⟩
  · rw [hsame]
    exact h.assessedIds
  · rw [happend,List.map_append,List.nodup_append]
    refine ⟨h.assessedIds,by simp,?_⟩
    intro x hx y hy
    obtain ⟨a,ha,rfl⟩ := List.mem_map.mp hx
    obtain rfl : y = b.eventId := by simpa using hy
    obtain ⟨⟨r,hr,hr'⟩,-⟩ := h.assessed a ha
    rw [← hr'.eventId,← hwith.eventId]
    exact (commits_dedupe hc).2 r hr

theorem commit {d : Digests} {call : EventCall} {row : EventDedupe} (h : EventInv db)
    (hc : Commits d db call row db') : EventInv db' := by
  obtain ⟨s,hmoved⟩ := h.commits_moved hc
  obtain ⟨s',hs',-⟩ := hmoved.moved
  obtain ⟨hdedupe,hnew⟩ := commits_dedupe hc
  have hrows : ∀ r ∈ db'.dedupe, r ∈ db.dedupe ∨ r = row := by
    intro r hr
    rw [hdedupe] at hr
    exact (List.mem_append.mp hr).imp id List.mem_singleton.mp
  refine ⟨hc.changes.keyed h.keyed,?_,fun r hr => ?_,fun r hr => ?_,fun sid t ht => (h.commit_cursor hc ht).2,
    fun sid => ?_,fun sid t ht => (h.commit_cursor hc ht).1,fun a ha => h.commit_assessed hc ha,
    h.commit_assessedIds hc⟩
  · rw [hdedupe,List.map_append,List.nodup_append]
    refine ⟨h.ids,by simp,?_⟩
    intro x hx y hy
    obtain ⟨r,hr,rfl⟩ := List.mem_map.mp hx
    obtain rfl : y = row.eventId := by simpa using hy
    exact hnew r hr
  · rcases hrows r hr with hr | rfl
    · obtain ⟨t,ht⟩ := Option.isSome_iff_exists.mp (h.owned r hr)
      obtain ⟨t',ht',-⟩ := hmoved.forward ht
      simp [ht']
    · simp [hs']
  · rcases hrows r hr with hr | rfl
    · exact h.current r hr
    · exact hc.current
  · rw [dedupeOf_commit hdedupe]
    split_ifs with hsid
    · apply (h.numbered sid).snoc
      rw [hmoved.next,hsid,h.cursor _ s hmoved.found]
    · exact h.numbered sid

end EventInv

end Store
end North
