import North.RequirementOps
import North.StoreRuns

/-! What a committed transaction on a requirement does: it performs at most one operation
of the domain on the row it locked, and writes one audit row exactly when the status moves.
One lemma for each of the four transactions, and one for the kind. -/
namespace North
namespace Store

open Machine Protocol Domain

/-- A transaction that may write a requirement row. -/
inductive RequirementCall
  | transition (request : TransitionRequest)
  | edit (request : EditRequest)
  | assess (assessmentId : String) (request : AssessmentRequest)
  | start (now : ℕ) (runId : String) (draw : Draw) (input : ClarificationStartInput)

inductive RequirementReply
  | requirement (requirement : Requirement)
  | assessment (result : ReadinessAssessmentResult)
  | run (result : ClarificationStartResult)

inductive RequirementFailure
  | requirement (error : RequirementCallError)
  | readiness (error : ReadinessError)
  | clarification (error : ClarificationError)

namespace RequirementCall

def requirementId : RequirementCall → String
  | transition r => r.requirementId
  | edit r => r.requirementId
  | assess _ r => r.requirementId
  | start _ _ _ input => input.requirementId

/-- What the transaction does once `lock_requirement` has answered with `row`. -/
def finish (d : Digests) (row : Option Requirement) (db : Db) :
    RequirementCall → Except RequirementFailure (RequirementReply × Db)
  | transition r => ((orError .notFound row >>= fun q => transitionLocked r q db).mapError
      .requirement).map fun (q,db) => (.requirement q,db)
  | edit r => ((orError .notFound row >>= fun q => editLocked r q db).mapError
      .requirement).map fun (q,db) => (.requirement q,db)
  | assess assessmentId r => ((assessLocked assessmentId r row db).mapError
      .readiness).map fun (result,db) => (.assessment result,db)
  | start now runId draw input => ((orError .requirementNotFound row >>= fun q =>
      startLocked d now runId draw input q db).mapError
      .clarification).map fun (result,db) => (.run result,db)

/-- The domain operation that a committed transaction stands for: an accepted assessment is
a `mark_ready`, a new run of a draft a `begin_discussion`. -/
def operation (row : Requirement) : RequirementCall → RequirementReply → Option Operation
  | transition r, _ => some r.transition.operation
  | edit r, _ => some (.applyEdit r.edit)
  | assess _ r, .assessment result =>
    if result.duplicate = false ∧ result.record.outcome = .accepted then
      some (.markReady r.assessment) else none
  | start _ _ _ _, .run result =>
    if result.reused = false ∧ row.status = .draft then some .beginDiscussion else none
  | _, _ => none

end RequirementCall

/-! ### What a committed transaction does to the row and the audit -/

/-- The operation, if there is one, takes the row from `r` to `r'`. -/
def Performs : Option Operation → Requirement → Requirement → Prop
  | none, r, r' => r' = r
  | some op, r, r' => op.apply r = (.ok (),r')

/-- The audit row tells the move from `r` to `r'`. -/
structure TransitionAudit.Tells (a : TransitionAudit) (r r' : Requirement) : Prop where
  requirement : a.requirementId = r.id
  source : a.fromStatus = r.status
  target : a.toStatus = r'.status
  version : a.stateVersion = r'.stateVersion

/-- The row `r` becomes `r'`, and an audit row is written exactly when the status moves. -/
structure Writes (db : Db) (r r' : Requirement) (db' : Db) : Prop where
  stored : ∀ id, db'.requirement? id = if id = r.id then some r' else db.requirement? id
  audited : r'.status = r.status ∧ db'.audit = db.audit ∨
    r'.status ≠ r.status ∧ ∃ a : TransitionAudit, a.Tells r r' ∧ db'.audit = db.audit ++ [a]

/-- What the transaction adds to the evidence. Only an accepted assessment makes a
requirement Ready, and its row names the state version that it made. -/
inductive Evidence (call : RequirementCall) (r r' : Requirement) (db db' : Db) : Prop
  | kept (same : db'.assessments = db.assessments) (ready : r'.status = .ready → r' = r)
  | refused (a : AssessmentRow) (fresh : ∀ b ∈ db.assessments, b.id ≠ a.id)
      (outcome : a.outcome = .rejected) (added : db'.assessments = db.assessments ++ [a])
      (same : r' = r)
  | promoted (a : AssessmentRow) (request : AssessmentRequest)
      (fresh : ∀ b ∈ db.assessments, b.id ≠ a.id) (isCall : call = .assess a.id request)
      (row : a = request.record a.id (some request.requirementId) none (some r'.stateVersion))
      (added : db'.assessments = db.assessments ++ [a])
      (operation : (Operation.markReady request.assessment).apply r = (.ok (),r'))
      (within : r'.revision ≤ i64Max ∧ r'.stateVersion ≤ i64Max)

theorem Writes.congr {db db₁ db₂ : Db} {r r' : Requirement} (h : Writes db r r' db₁)
    (hr : db₂.requirements = db₁.requirements) (ha : db₂.audit = db₁.audit) : Writes db r r' db₂ := by
  obtain ⟨stored,audited⟩ := h
  simp only [Db.requirement?] at stored
  refine ⟨fun id => ?_,?_⟩
  · simp only [Db.requirement?]
    rw [hr,stored id]
  · rwa [ha]

theorem Writes.refl {db : Db} {r : Requirement} (found : db.requirement? r.id = some r) :
    Writes db r r db := by
  refine ⟨fun id => ?_,.inl ⟨rfl,rfl⟩⟩
  by_cases hid : id = r.id
  · simp [hid,found]
  · simp [hid]

theorem requirement?_id {db : Db} {id : String} {r : Requirement} (h : db.requirement? id = some r) :
    r.id = id := (Table.find?_key h).2

theorem apply_identity (op : Operation) (r : Requirement) :
    (op.apply r).2.id = r.id ∧ (op.apply r).2.createdBy = r.createdBy := by
  have htransition : ∀ source next, (r.transitionFrom source next).2.id = r.id ∧
      (r.transitionFrom source next).2.createdBy = r.createdBy := by
    intro source next
    rcases transitionFrom_cases r source next with ⟨e,h⟩ | ⟨-,h⟩ <;> rw [h] <;> exact ⟨rfl,rfl⟩
  cases op with
  | beginDiscussion => exact htransition _ _
  | markReady a =>
    simp only [Operation.apply,Requirement.markReady]
    split_ifs <;> first | exact ⟨rfl,rfl⟩ | exact htransition _ _
  | accept => exact htransition _ _
  | reject => exact htransition _ _
  | requestChanges => exact htransition _ _
  | reopen => exact htransition _ _
  | applyEdit e =>
    simp only [Operation.apply,Requirement.applyEdit]
    split
    · exact ⟨rfl,rfl⟩
    split
    · exact ⟨rfl,rfl⟩
    cases checkedSucc u64Max r.revision with
    | none => exact ⟨rfl,rfl⟩
    | some n => cases checkedSucc u64Max r.stateVersion <;> exact ⟨rfl,rfl⟩

/-- The optimistic write of the row that was read replaces exactly that row. -/
theorem updateRequirement_stored {db db' : Db} {r r' : Requirement}
    (found : db.requirement? r.id = some r) (hid : r'.id = r.id) (hby : r'.createdBy = r.createdBy)
    (h : updateRequirement db r' r.stateVersion = .ok db') (id : String) :
    db'.requirement? id = if id = r.id then some r' else db.requirement? id := by
  unfold updateRequirement at h
  split_ifs at h
  cases h
  simp only [Db.requirement?,hid] at found ⊢
  have hnarrow : Table.updateFirst (fun q : Requirement => decide (q.id = r.id) &&
        decide (q.stateVersion = r.stateVersion))
        (fun q => { r' with id := r.id, createdBy := q.createdBy }) db.requirements =
      Table.updateFirst (fun q => decide (q.id = r.id))
        (fun q => { r' with id := q.id, createdBy := q.createdBy }) db.requirements := by
    generalize db.requirements = rows at found
    induction rows with
    | nil => rfl
    | cons q rows ih =>
      by_cases hq : q.id = r.id
      · obtain rfl : q = r := by simpa [hq] using found
        simp [Table.updateFirst]
      · have hrest := ih (by simpa [hq] using found)
        simp [Table.updateFirst,hq,hrest]
  rw [hnarrow,Table.find?_updateFirst (fun q : Requirement => q.id) r.id id
    (fun q => { r' with id := q.id, createdBy := q.createdBy }) (fun _ => rfl)]
  by_cases hk : id = r.id
  · simp only [hk,if_true,found,Option.map_some]
    rw [← hid,← hby]
  · simp [hk]

theorem updateRequirement_within {db db' : Db} {r : Requirement} {expected : ℕ}
    (h : updateRequirement db r expected = .ok db') : r.revision ≤ i64Max ∧ r.stateVersion ≤ i64Max := by
  unfold updateRequirement at h
  split_ifs at h with hrevision hversion
  omega

/-- An operation that succeeds with a change moves the version on, and takes an edge of the
lifecycle unless it is an edit. -/
theorem apply_moves {op : Operation} {r r' : Requirement} (h : op.apply r = (.ok (),r')) :
    r' = r ∧ (∃ e, op = .applyEdit e) ∨ r'.stateVersion = r.stateVersion+1 ∧
      ((∃ source next, r.status = source ∧ Operation.Edge op source next ∧ r'.status = next) ∨
        (∃ e, op = .applyEdit e) ∧ r'.status = if r.status = .ready then .discussing else r.status) := by
  have heff := apply_effect op r
  rw [h] at heff
  cases heff with
  | noop edit hop => exact .inl ⟨rfl,edit,hop⟩
  | moved source next at_ edge gates => exact .inr ⟨rfl,.inl ⟨source,next,at_,edge,rfl⟩⟩
  | edited edit _ hop open_ content revision version status =>
    exact .inr ⟨version,.inr ⟨⟨edit,hop⟩,status⟩⟩

/-- Only `mark_ready` makes a requirement Ready. -/
theorem apply_ready {op : Operation} {r r' : Requirement} (h : op.apply r = (.ok (),r'))
    (hop : ∀ a, op ≠ .markReady a) (ready : r'.status = .ready) : r' = r := by
  rcases apply_moves h with ⟨hkept,-⟩ | ⟨-,⟨source,next,-,edge,hn⟩ | ⟨-,hstatus⟩⟩
  · exact hkept
  · rw [ready] at hn
    subst hn
    cases edge
    exact absurd rfl (hop _)
  · rw [ready] at hstatus
    split_ifs at hstatus with hready
    exact absurd hstatus.symm hready

theorem Edge.moves {op : Operation} {source next : RequirementStatus}
    (h : Operation.Edge op source next) : next ≠ source := by
  cases h <;> simp

theorem RequirementTransition.operation_apply (t : RequirementTransition) (r : Requirement) :
    t.operation.apply r = ((t.apply r).1.mapError .transition,(t.apply r).2) := by
  cases t <;> rfl

theorem RequirementTransition.operation_ne_edit (t : RequirementTransition) (e : RequirementEdit) :
    t.operation ≠ .applyEdit e := by
  cases t <;> simp [operation]

theorem RequirementTransition.operation_ne_ready (t : RequirementTransition) (a : ReadinessAssessment) :
    t.operation ≠ .markReady a := by
  cases t <;> simp [operation]

theorem writes_audited {db db₁ : Db} {r r' : Requirement} {op : Operation} {a : TransitionAudit}
    (found : db.requirement? r.id = some r) (hop : op.apply r = (.ok (),r'))
    (h : updateRequirement db r' r.stateVersion = .ok db₁) (moves : r'.status ≠ r.status)
    (tells : a.Tells r r') : Writes db r r' { db₁ with audit := db₁.audit ++ [a] } := by
  obtain ⟨hid,hby⟩ := apply_identity op r
  rw [hop] at hid hby
  have hstored := updateRequirement_stored found hid hby h
  refine ⟨hstored,.inr ⟨moves,a,tells,?_⟩⟩
  rw [updateRequirement_outer h]

theorem transitionLocked_ok {request : TransitionRequest} {r reply : Requirement} {db db' : Db}
    (found : db.requirement? r.id = some r) (h : transitionLocked request r db = .ok (reply,db')) :
    reviewGate db request r = .ok () ∧ request.transition.operation.apply r = (.ok (),reply) ∧
      Writes db r reply db' ∧ db'.assessments = db.assessments := by
  unfold transitionLocked at h
  split at h
  · cases h
  rename_i hversion
  simp only [bind_eq_ok,mapError_eq_ok] at h
  obtain ⟨_,hgate,h⟩ := h
  split at h
  · cases h
  rename_i _ transitioned happly
  have hop : request.transition.operation.apply r = (.ok (),transitioned) := by
    rw [RequirementTransition.operation_apply,happly]
    rfl
  have hmoves : transitioned.status ≠ r.status := by
    rcases apply_moves hop with ⟨-,e,he⟩ | ⟨-,⟨source,next,hs,edge,hn⟩ | ⟨⟨e,he⟩,-⟩⟩
    · exact absurd he (request.transition.operation_ne_edit e)
    · rw [hn,hs]
      exact Edge.moves edge
    · exact absurd he (request.transition.operation_ne_edit e)
  have hid := (apply_identity request.transition.operation r).1
  rw [hop] at hid
  simp only [bind_eq_ok,mapError_eq_ok] at h
  obtain ⟨db₁,hupdate,h⟩ := h
  split_ifs at h
  cases h
  push Not at hversion
  rw [← hversion] at hupdate
  refine ⟨hgate,hop,writes_audited found hop hupdate hmoves ⟨hid,rfl,rfl,rfl⟩,?_⟩
  rw [updateRequirement_outer hupdate]

theorem editLocked_ok {request : EditRequest} {r reply : Requirement} {db db' : Db}
    (found : db.requirement? r.id = some r) (h : editLocked request r db = .ok (reply,db')) :
    (Operation.applyEdit request.edit).apply r = (.ok (),reply) ∧ Writes db r reply db' ∧
      db'.assessments = db.assessments := by
  unfold editLocked at h
  split at h
  · cases h
  rename_i hversion
  push Not at hversion
  split at h
  · cases h
  rename_i _ edited hedit
  have hop : (Operation.applyEdit request.edit).apply r = (.ok (),edited) := by
    simp only [Operation.apply,hedit]
    rfl
  have hmoves := apply_moves hop
  split at h
  · cases h
    have hkept : edited = r := by
      rcases hmoves with ⟨hkept,-⟩ | ⟨hnext,-⟩
      · exact hkept
      · omega
    rw [hkept] at hop
    exact ⟨hop,.refl found,rfl⟩
  rename_i hsame
  have hstatus : edited.status = if r.status = .ready then .discussing else r.status := by
    rcases hmoves with ⟨hkept,-⟩ | ⟨-,⟨source,next,-,edge,-⟩ | ⟨-,hstatus⟩⟩
    · rw [hkept] at hsame
      exact absurd hversion hsame
    · cases edge
    · exact hstatus
  have hidentity := apply_identity (.applyEdit request.edit) r
  rw [hop] at hidentity
  simp only [bind_eq_ok,mapError_eq_ok] at h
  obtain ⟨db₁,hupdate,h⟩ := h
  rw [← hversion] at hupdate
  have hkeep : db₁.assessments = db.assessments := by rw [updateRequirement_outer hupdate]
  split_ifs at h with htexts hready
  · cases h
    refine ⟨hop,writes_audited found hop hupdate ?_ ⟨hidentity.1,hready.symm,rfl,rfl⟩,hkeep⟩
    simp [hstatus,hready]
  · cases h
    refine ⟨hop,⟨updateRequirement_stored found hidentity.1 hidentity.2 hupdate,.inl ⟨?_,?_⟩⟩,hkeep⟩
    · simp [hstatus,hready]
    · rw [updateRequirement_outer hupdate]

theorem insertAssessment_fresh {db db' : Db} {row : AssessmentRow} (h : insertAssessment db row = .ok db') :
    ∀ b ∈ db.assessments, b.id ≠ row.id := by
  unfold insertAssessment at h
  split_ifs at h with htime hrevision hversion hkeys
  intro b hb hid
  exact hkeys (List.any_eq_true.mpr ⟨b,hb,by simp [hid]⟩)

/-- What an assessment leaves: its evidence, and the promotion when it is accepted. -/
theorem applyAssessment_ok {db db' : Db} {session : Session} {assessmentId : String}
    {request : AssessmentRequest} {rejection : Option String} {record : AssessmentRow} {r : Requirement}
    (found : db.requirement? request.requirementId = some r)
    (h : applyAssessment db session assessmentId request = .ok (rejection,record,db')) :
    db'.assessments = db.assessments ++ [record] ∧ (∀ b ∈ db.assessments, b.id ≠ record.id) ∧
      ((∃ reason, rejection = some reason ∧
          record = request.record assessmentId (some request.requirementId) (some reason) none ∧
          db'.requirements = db.requirements ∧ db'.audit = db.audit) ∨
        ∃ r', rejection = none ∧ (Operation.markReady request.assessment).apply r = (.ok (),r') ∧
          record = request.record assessmentId (some request.requirementId) none
            (some r'.stateVersion) ∧ Writes db r r' db' ∧
          r'.revision ≤ i64Max ∧ r'.stateVersion ≤ i64Max) := by
  have hid := requirement?_id found
  have hassessments := applyAssessment_outer h
  unfold applyAssessment at h
  rw [found] at h
  simp only [bind_eq_ok] at h
  obtain ⟨db₁,hinsert,db₂,hpromote,h⟩ := h
  cases h
  rw [insertAssessment_outer hinsert] at hpromote
  refine ⟨by rw [hassessments],insertAssessment_fresh hinsert,?_⟩
  unfold judgeAssessment at hpromote ⊢
  split at hpromote
  · rename_i hcited
    rw [if_pos hcited]
    cases hpromote
    exact .inl ⟨_,rfl,rfl,rfl,rfl⟩
  rename_i hcited
  rw [if_neg hcited]
  split at hpromote
  · rename_i _ promoted hready
    simp only [Option.isSome_none,Bool.false_eq_true,if_false,promote,bind_eq_ok,
      mapError_eq_ok] at hpromote
    obtain ⟨db₃,hupdate,hpromote⟩ := hpromote
    have hop : (Operation.markReady request.assessment).apply r = (.ok (),promoted) := by
      simp only [Operation.apply,hready]
      rfl
    have hstatus : r.status = .discussing ∧ promoted.status = .ready := by
      rcases apply_moves hop with ⟨-,e,he⟩ | ⟨-,⟨source,next,hs,edge,hn⟩ | ⟨⟨e,he⟩,-⟩⟩
      · cases he
      · cases edge
        exact ⟨hs,hn⟩
      · cases he
    have hidentity := (apply_identity (.markReady request.assessment) r).1
    rw [hop] at hidentity
    split_ifs at hpromote
    cases hpromote
    simp only [true_and]
    refine .inr ⟨promoted,hop,rfl,?_,updateRequirement_within hupdate⟩
    rw [← hid] at found
    -- the evidence inserted before the write is in no table the write reads
    have hwrites := writes_audited (a := ⟨promoted.id,request.eventId,"mark_ready",.discussing,
      promoted.status,none,some assessmentId,promoted.stateVersion⟩) (by exact found) hop hupdate
      (by simp [hstatus]) ⟨hidentity,hstatus.1.symm,rfl,rfl⟩
    exact ⟨hwrites.stored,hwrites.audited⟩
  · cases hpromote
    exact .inl ⟨_,rfl,rfl,rfl,rfl⟩

theorem record_ok {assessmentId : String} {request : AssessmentRequest} {db db' : Db}
    {result : ReadinessAssessmentResult}
    (h : recordReadinessAssessmentWithEventDigest assessmentId request db = .ok (result,db')) :
    db' = db ∧ result.duplicate = true ∨ ∃ session rejection db₁, applyAssessment db session
        assessmentId request = .ok (rejection,result.record,db₁) ∧ result.duplicate = false ∧
      db'.requirements = db₁.requirements ∧ db'.audit = db₁.audit ∧
      db'.assessments = db₁.assessments := by
  simp only [recordReadinessAssessmentWithEventDigest,bind_eq_ok,orError_eq_ok] at h
  obtain ⟨_,-,session,-,h⟩ := h
  split at h
  · cases h
  split at h
  · split at h
    · cases h
    · cases h
      exact .inl ⟨rfl,rfl⟩
  simp only [bind_eq_ok,orError_eq_ok] at h
  obtain ⟨expected,-,h⟩ := h
  split_ifs at h
  simp only [bind_eq_ok,orError_eq_ok] at h
  obtain ⟨⟨rejection,record,db₁⟩,heffect,db₂,hins,h⟩ := h
  cases h
  refine .inr ⟨session,rejection,db₁,heffect,rfl,?_⟩
  rw [insertEventDedupe_some hins]
  exact ⟨rfl,rfl,rfl⟩

/-- The tables a requirement's history is read from are the same. -/
structure SameHistory (db db' : Db) : Prop where
  requirements : db'.requirements = db.requirements
  audit : db'.audit = db.audit
  assessments : db'.assessments = db.assessments

theorem insertStart_history {d : Digests} {db db' : Db} {draw : Draw} {runId daemonId : String}
    {sequence : ℕ} {payload : CommandEnvelope}
    (h : insertStart d db draw runId daemonId sequence payload = .ok db') : SameHistory db db' := by
  obtain ⟨a,-,-,-,-,-,-,-,rfl⟩ := insertStart_ok h
  exact ⟨rfl,rfl,rfl⟩

theorem reusedResult_reused {db db' : Db} {now : ℕ} {runId commandId : String}
    {result : ClarificationStartResult} (h : reusedResult db now runId commandId = .ok (result,db')) :
    result.reused = true ∧ db' = db := by
  simp only [reusedResult,bind_eq_ok] at h
  obtain ⟨run,-,h⟩ := h
  cases h
  exact ⟨rfl,rfl⟩

theorem reuseRun_history {d : Digests} {now : ℕ} {draw : Draw} {input : ClarificationStartInput}
    {occupant : Session} {db db' : Db} {result : ClarificationStartResult}
    (h : reuseRun d now draw input occupant db = .ok (result,db')) :
    result.reused = true ∧ SameHistory db db' := by
  unfold reuseRun at h
  split_ifs at h
  simp only [bind_eq_ok] at h
  obtain ⟨run,-,h⟩ := h
  split at h
  · split at h
    · cases h
      exact ⟨rfl,rfl,rfl,rfl⟩
    · simp only [bind_eq_ok] at h
      obtain ⟨sequence,-,context,-,payload,-,db₁,hins,h⟩ := h
      obtain ⟨hreused,rfl⟩ := reusedResult_reused h
      have hsame := insertStart_history hins
      exact ⟨hreused,hsame.requirements,hsame.audit,hsame.assessments⟩
  · obtain ⟨hreused,rfl⟩ := reusedResult_reused h
    exact ⟨hreused,rfl,rfl,rfl⟩

theorem createRun_history {d : Digests} {now : ℕ} {runId : String} {draw : Draw}
    {input : ClarificationStartInput} {requirement : Requirement} {db db' : Db}
    {result : ClarificationStartResult}
    (h : createRun d now runId draw input requirement db = .ok (result,db')) :
    result.reused = false ∧ requirement.stateVersion = input.expectedStateVersion ∧
      ∃ db₁, openDiscussion db requirement input.expectedStateVersion = .ok db₁ ∧
        SameHistory db₁ db' := by
  unfold createRun at h
  split at h
  · cases h
  split at h
  · cases h
  rename_i hversion
  split at h
  · cases h
  simp only [bind_eq_ok] at h
  obtain ⟨db₁,hopen,h⟩ := h
  split at h
  · cases h
  split at h
  · simp only [bind_eq_ok,orError_eq_ok] at h
    obtain ⟨db₂,hins,run,-,h⟩ := h
    cases h
    obtain ⟨-,-,rfl⟩ := insertRun_some hins
    exact ⟨rfl,not_not.mp hversion,db₁,hopen,rfl,rfl,rfl⟩
  · simp only [bind_eq_ok,orError_eq_ok] at h
    obtain ⟨payload,-,db₂,hins,db₃,hstart,run,-,h⟩ := h
    cases h
    obtain ⟨-,-,rfl⟩ := insertRun_some hins
    have hsame := insertStart_history hstart
    exact ⟨rfl,not_not.mp hversion,db₁,hopen,hsame.requirements,hsame.audit,hsame.assessments⟩

theorem openDiscussion_ok {db db' : Db} {r : Requirement} (found : db.requirement? r.id = some r)
    (h : openDiscussion db r r.stateVersion = .ok db') :
    (∃ r', Performs (if r.status = .draft then some .beginDiscussion else none) r r' ∧
      Writes db r r' db') ∧ db'.assessments = db.assessments := by
  refine ⟨?_,by rw [openDiscussion_outer h]⟩
  unfold openDiscussion at h
  by_cases hdraft : r.status = .draft
  · rw [if_neg (not_not.mpr hdraft)] at h
    rw [if_pos hdraft]
    split at h
    · cases h
    rename_i _ transitioned hbegin
    have hop : Operation.beginDiscussion.apply r = (.ok (),transitioned) := by
      simp only [Operation.apply,hbegin]
      rfl
    simp only [bind_eq_ok,mapError_eq_ok] at h
    obtain ⟨db₁,hupdate,h⟩ := h
    split_ifs at h
    cases h
    have hnext : transitioned.status = .discussing := by
      rcases apply_moves hop with ⟨-,e,he⟩ | ⟨-,⟨source,next,-,edge,hn⟩ | ⟨⟨e,he⟩,-⟩⟩
      · cases he
      · cases edge
        exact hn
      · cases he
    exact ⟨transitioned,hop,writes_audited found hop hupdate (by simp [hnext,hdraft])
      ⟨rfl,hdraft.symm,hnext.symm,rfl⟩⟩
  · rw [if_pos hdraft] at h
    rw [if_neg hdraft]
    cases h
    exact ⟨r,rfl,.refl found⟩

theorem map_eq_ok {ε α β : Type} {f : α → β} {x : Except ε α} {b : β} :
    x.map f = .ok b ↔ ∃ a, x = .ok a ∧ f a = b := by
  cases x <;> simp [Except.map]

theorem startLocked_ok {d : Digests} {now : ℕ} {runId : String} {draw : Draw}
    {input : ClarificationStartInput} {r : Requirement} {db db' : Db} {result : ClarificationStartResult}
    (found : db.requirement? input.requirementId = some r)
    (h : startLocked d now runId draw input r db = .ok (result,db')) :
    ∃ r', Performs ((RequirementCall.start now runId draw input).operation r (.run result)) r r' ∧
      Writes db r r' db' ∧ Evidence (.start now runId draw input) r r' db db' := by
  have found' : db.requirement? r.id = some r := by rwa [requirement?_id found]
  rw [startLocked_eq found] at h
  unfold startClarification at h
  rw [found] at h
  split at h
  · cases h
  simp only [orError,bind,Except.bind] at h
  split at h
  · cases h
  simp only [RequirementCall.operation]
  split at h
  · obtain ⟨hreused,hsame⟩ := reuseRun_history h
    refine ⟨r,?_,(Writes.refl found').congr hsame.requirements hsame.audit,
      .kept hsame.assessments fun _ => rfl⟩
    simp [hreused,Performs]
  · obtain ⟨hreused,hversion,db₁,hopen,hsame⟩ := createRun_history h
    rw [← hversion] at hopen
    obtain ⟨⟨r',hperforms,hwrites⟩,hkept⟩ := openDiscussion_ok found' hopen
    refine ⟨r',by simpa [hreused] using hperforms,hwrites.congr hsame.requirements hsame.audit,
      .kept (hsame.assessments.trans hkept) fun ready => ?_⟩
    by_cases hdraft : r.status = .draft
    · rw [if_pos hdraft] at hperforms
      exact apply_ready hperforms (by simp) ready
    · rw [if_neg hdraft] at hperforms
      exact hperforms

theorem assessLocked_ok {assessmentId : String} {request : AssessmentRequest} {r : Requirement}
    {db db' : Db} {result : ReadinessAssessmentResult}
    (found : db.requirement? request.requirementId = some r)
    (h : assessLocked assessmentId request (some r) db = .ok (result,db')) :
    ∃ r', Performs ((RequirementCall.assess assessmentId request).operation r (.assessment result))
      r r' ∧ Writes db r r' db' ∧ Evidence (.assess assessmentId request) r r' db db' := by
  have found' : db.requirement? r.id = some r := by rwa [requirement?_id found]
  rw [← found,assessLocked_eq] at h
  simp only [RequirementCall.operation]
  rcases record_ok h with ⟨rfl,hduplicate⟩ | ⟨session,rejection,db₁,happly,hnew,hreq,haudit,hrows⟩
  · refine ⟨r,?_,.refl found',.kept rfl fun _ => rfl⟩
    simp [hduplicate,Performs]
  obtain ⟨hadded,hfresh,⟨reason,-,hrecord,hreq₁,haudit₁⟩ | ⟨r',-,hop,hrecord,hwrites,hwithin⟩⟩ :=
    applyAssessment_ok found happly
  · refine ⟨r,?_,(Writes.refl found').congr (hreq.trans hreq₁) (haudit.trans haudit₁),
      .refused result.record hfresh (by rw [hrecord]; rfl) (hrows.trans hadded) rfl⟩
    simp [hrecord,AssessmentRequest.record,Performs]
  · have hid : result.record.id = assessmentId := by rw [hrecord]; rfl
    refine ⟨r',?_,hwrites.congr hreq haudit,.promoted result.record request hfresh (by rw [hid])
      (by rw [hid]; exact hrecord) (hrows.trans hadded) hop hwithin⟩
    simp [hnew,hrecord,AssessmentRequest.record,Performs,hop]

theorem RequirementCall.finish_ok {d : Digests} {call : RequirementCall} {r : Requirement}
    {db db' : Db} {reply : RequirementReply} (found : db.requirement? call.requirementId = some r)
    (h : call.finish d (some r) db = .ok (reply,db')) :
    ∃ r', Performs (call.operation r reply) r r' ∧ Writes db r r' db' ∧ Evidence call r r' db db' := by
  have found' : db.requirement? r.id = some r := by rwa [requirement?_id found]
  cases call with
  | transition request =>
    simp only [finish,map_eq_ok,mapError_eq_ok,bind_eq_ok,orError_eq_ok] at h
    obtain ⟨⟨q,db₁⟩,⟨_,⟨⟩,h⟩,⟨⟩⟩ := h
    obtain ⟨-,hop,hwrites,hkept⟩ := transitionLocked_ok found' h
    exact ⟨q,hop,hwrites,.kept hkept (apply_ready hop (request.transition.operation_ne_ready))⟩
  | edit request =>
    simp only [finish,map_eq_ok,mapError_eq_ok,bind_eq_ok,orError_eq_ok] at h
    obtain ⟨⟨q,db₁⟩,⟨_,⟨⟩,h⟩,⟨⟩⟩ := h
    obtain ⟨hop,hwrites,hkept⟩ := editLocked_ok found' h
    exact ⟨q,hop,hwrites,.kept hkept (apply_ready hop (by simp))⟩
  | assess assessmentId request =>
    simp only [finish,map_eq_ok,mapError_eq_ok] at h
    obtain ⟨⟨result,db₁⟩,h,⟨⟩⟩ := h
    exact assessLocked_ok found h
  | start now runId draw input =>
    simp only [finish,map_eq_ok,mapError_eq_ok,bind_eq_ok,orError_eq_ok] at h
    obtain ⟨⟨result,db₁⟩,⟨_,⟨⟩,h⟩,⟨⟩⟩ := h
    exact startLocked_ok found h

/-- A transaction that found no row leaves every row, and at most refused evidence. -/
theorem RequirementCall.finish_missing {d : Digests} {call : RequirementCall} {db db' : Db}
    {reply : RequirementReply} (h : call.finish d none db = .ok (reply,db')) :
    db'.requirements = db.requirements ∧ db'.audit = db.audit ∧ (db'.assessments = db.assessments ∨
      ∃ a, (∀ b ∈ db.assessments, b.id ≠ a.id) ∧ a.outcome = .rejected ∧
        db'.assessments = db.assessments ++ [a]) := by
  cases call with
  | transition request => cases h
  | edit request => cases h
  | assess assessmentId request =>
    simp only [finish,map_eq_ok,mapError_eq_ok] at h
    obtain ⟨⟨result,db₁⟩,h,⟨⟩⟩ := h
    simp only [assessLocked,bind_eq_ok,orError_eq_ok] at h
    obtain ⟨_,-,session,-,h⟩ := h
    split at h
    · cases h
    split at h
    · split at h
      · cases h
      · cases h
        exact ⟨rfl,rfl,.inl rfl⟩
    simp only [bind_eq_ok,orError_eq_ok] at h
    obtain ⟨expected,-,h⟩ := h
    split_ifs at h
    simp only [applyAssessmentTo,bind_eq_ok,orError_eq_ok] at h
    obtain ⟨_,⟨db₂,hinsert,⟨⟩⟩,db₃,hins,h⟩ := h
    cases h
    rw [insertEventDedupe_some hins]
    refine ⟨?_,?_,.inr ⟨_,insertAssessment_fresh hinsert,rfl,?_⟩⟩ <;>
      rw [insertAssessment_outer hinsert] <;> rfl
  | start now runId draw input => cases h

end Store
end North
