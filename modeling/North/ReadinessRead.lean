import North.ReviewBinding
import Mathlib.Data.Prod.Lex
import Mathlib.Data.String.Basic

/-! The two reads of a requirement's readiness. The readiness read takes the newest
assessment, whatever its outcome, and says whether it is current; the review packet takes
the accepted assessment of the current Ready generation. They name the same assessment
unless a newer one was refused while the requirement stayed Ready. -/
namespace North
namespace Store

open Domain

/-- `created_at`, then the id; rows are unique by id, so the clock is given by it. -/
def AssessmentRow.age (createdAt : String → ℕ) (a : AssessmentRow) : ℕ ×ₗ String :=
  toLex (createdAt a.id,a.id)

/-- `ORDER BY created_at DESC, id DESC`. -/
def newestFirst (createdAt : String → ℕ) (a b : AssessmentRow) : Prop := b.age createdAt ≤ a.age createdAt

instance (createdAt : String → ℕ) (a b : AssessmentRow) : Decidable (newestFirst createdAt a b) :=
  inferInstanceAs (Decidable (b.age createdAt ≤ a.age createdAt))

instance (createdAt : String → ℕ) : Std.Total (newestFirst createdAt) :=
  ⟨fun a b => le_total (b.age createdAt) (a.age createdAt)⟩

instance (createdAt : String → ℕ) : IsTrans AssessmentRow (newestFirst createdAt) :=
  ⟨fun _ _ _ h h' => le_trans h' h⟩

def latestReadiness (createdAt : String → ℕ) (db : Db) (requirementId : String) : Option AssessmentRow :=
  ((db.assessments.filter fun a => decide (a.requirementId = some requirementId)).insertionSort
    (newestFirst createdAt)).head?

/-- The `current` flag of `readiness_response`. -/
def readinessCurrent (a : AssessmentRow) (r : Requirement) : Bool :=
  decide (a.outcome = .accepted) && decide (r.status = .ready) &&
    decide (a.assessment.requirementRevision = r.revision) &&
    decide (a.acceptedStateVersion = some r.stateVersion)

/-- `get_readiness`: the id of the assessment it shows, and whether it is current. -/
def readinessRead (createdAt : String → ℕ) (db : Db) (requirementId : String) : Option (String × Bool) :=
  match db.requirement? requirementId with
  | none => none
  | some r => (latestReadiness createdAt db requirementId).map fun a => (a.id,readinessCurrent a r)

theorem latestReadiness_some {createdAt : String → ℕ} {db : Db} {id : String} {a : AssessmentRow} :
    latestReadiness createdAt db id = some a → a ∈ db.assessments ∧ a.requirementId = some id ∧
      ∀ b ∈ db.assessments, b.requirementId = some id → b.age createdAt ≤ a.age createdAt := by
  intro h
  unfold latestReadiness at h
  have hsorted := List.pairwise_insertionSort (newestFirst createdAt)
    (db.assessments.filter fun a => decide (a.requirementId = some id))
  have hmem : ∀ b, b ∈ (db.assessments.filter fun a => decide (a.requirementId = some id)).insertionSort
      (newestFirst createdAt) ↔ b ∈ db.assessments ∧ b.requirementId = some id := by
    intro b
    simp [List.mem_insertionSort]
  generalize (db.assessments.filter fun a => decide (a.requirementId = some id)).insertionSort
    (newestFirst createdAt) = rows at h hsorted hmem
  cases rows with
  | nil => cases h
  | cons c rows =>
    obtain rfl : c = a := by simpa using h
    obtain ⟨ha,hid⟩ := (hmem c).mp (by simp)
    refine ⟨ha,hid,fun b hb hbid => ?_⟩
    rcases List.mem_cons.mp ((hmem b).mpr ⟨hb,hbid⟩) with rfl | hrest
    · exact le_rfl
    · exact (List.pairwise_cons.mp hsorted).1 b hrest

theorem latestReadiness_isSome (createdAt : String → ℕ) {db : Db} {id : String} {a : AssessmentRow}
    (ha : a ∈ db.assessments) (hid : a.requirementId = some id) :
    ∃ b, latestReadiness createdAt db id = some b := by
  have hmem : a ∈ (db.assessments.filter fun a => decide (a.requirementId = some id)).insertionSort
      (newestFirst createdAt) := by
    simp [List.mem_insertionSort,ha,hid]
  unfold latestReadiness
  cases hrows : (db.assessments.filter fun a => decide (a.requirementId = some id)).insertionSort
    (newestFirst createdAt) with
  | nil => simp [hrows] at hmem
  | cons b rows => exact ⟨b,rfl⟩

theorem readinessRead_current {createdAt : String → ℕ} {db : Db} {id x : String} :
    readinessRead createdAt db id = some (x,true) ↔ ∃ r a, db.requirement? id = some r ∧
      latestReadiness createdAt db id = some a ∧ a.id = x ∧ r.status = .ready ∧
      a.outcome = .accepted ∧ a.assessment.requirementRevision = r.revision ∧
      a.acceptedStateVersion = some r.stateVersion := by
  unfold readinessRead
  cases db.requirement? id with
  | none => simp
  | some r =>
    simp only [Option.map_eq_some_iff,Prod.mk.injEq,readinessCurrent,Bool.and_eq_true,
      decide_eq_true_eq,Option.some.injEq]
    constructor
    · rintro ⟨a,ha,hid,⟨⟨haccepted,hready⟩,hrevision⟩,hversion⟩
      exact ⟨r,a,rfl,ha,hid,hready,haccepted,hrevision,hversion⟩
    · rintro ⟨q,a,rfl,ha,hid,hready,haccepted,hrevision,hversion⟩
      exact ⟨a,ha,hid,⟨⟨haccepted,hready⟩,hrevision⟩,hversion⟩

end Store

namespace RequirementHistory

open Machine Domain Store

/-- The ids of assessments are drawn from `random_hex`. -/
def Act.Draws : Act → Prop
  | .lock _ (.assess assessmentId _) => Text.blank assessmentId = false
  | _ => True

theorem history_locked (d : Digests) (acts : List Act) :
    (∀ o ∈ (history d acts).opens, ∃ txn, Act.lock txn o.call ∈ acts) ∧
      ∀ c ∈ (history d acts).commits, ∃ txn, Act.lock txn c.call ∈ acts := by
  induction acts using List.reverseRecOn with
  | nil => simp [history,World.run]
  | append_singleton acts act ih =>
    obtain ⟨hopens,hcommits⟩ := ih
    have hopens' : ∀ o ∈ (history d acts).opens, ∃ txn, Act.lock txn o.call ∈ acts ++ [act] := by
      intro o ho
      obtain ⟨txn,htxn⟩ := hopens o ho
      exact ⟨txn,by simp [htxn]⟩
    have hcommits' : ∀ c ∈ (history d acts).commits, ∃ txn, Act.lock txn c.call ∈ acts ++ [act] := by
      intro c hc
      obtain ⟨txn,htxn⟩ := hcommits c hc
      exact ⟨txn,by simp [htxn]⟩
    have hclose : ∀ txn, ∀ o ∈ (history d acts).close txn, ∃ txn, Act.lock txn o.call ∈ acts ++ [act] :=
      fun txn o ho => hopens' o (List.mem_of_mem_filter ho)
    rw [history_append]
    change (∀ o ∈ ((history d acts).step d act).opens, _) ∧ ∀ c ∈ ((history d acts).step d act).commits, _
    cases act with
    | create id title description createdBy conversationId => exact ⟨hopens',hcommits'⟩
    | lock txn call =>
      simp only [World.step]
      split
      · exact ⟨hopens',hcommits'⟩
      · refine ⟨fun o ho => ?_,hcommits'⟩
        rcases List.mem_append.mp ho with ho | ho
        · exact hopens' o ho
        · obtain rfl := List.mem_singleton.mp ho
          exact ⟨txn,by simp⟩
    | commit txn =>
      simp only [World.step]
      split
      · exact ⟨hopens',hcommits'⟩
      rename_i o ho
      split
      · exact ⟨hclose txn,hcommits'⟩
      · refine ⟨hclose txn,fun c hc => ?_⟩
        rcases List.mem_append.mp hc with hc | hc
        · exact hcommits' c hc
        · obtain ⟨r,-,rfl⟩ := List.mem_map.mp hc
          exact hopens' o (Table.find?_key ho).1
    | rollback txn => exact ⟨hclose txn,hcommits'⟩
    | other tables => exact ⟨hopens',hcommits'⟩

theorem Produced.drawn {d : Digests} {acts : List Act} {id : String} {a : AssessmentRow}
    {r : Requirement} (h : Produced (history d acts) id a r) (drawn : ∀ act ∈ acts, act.Draws) :
    Text.blank a.id = false := by
  obtain ⟨request,c,hlast,hcall,-⟩ := h.change
  have hc : c ∈ (history d acts).commits := by
    have hmem := List.mem_of_getLast? hlast
    exact List.mem_of_mem_filter (List.mem_of_mem_filter hmem)
  obtain ⟨txn,hlock⟩ := (history_locked d acts).2 c hc
  rw [hcall] at hlock
  exact drawn _ hlock

/-- The evidence of a Ready generation is one row. -/
theorem Backed.unique {w : World} (h : Backed w) {id : String} {r : Requirement} {a b : AssessmentRow}
    (found : w.db.requirement? id = some r) (ha : a ∈ w.db.assessments) (hb : b ∈ w.db.assessments)
    (hbacks : a.backs id r.revision r.stateVersion = true)
    (hbacks' : b.backs id r.revision r.stateVersion = true) : a = b := by
  obtain ⟨⟨request,c,hlast,hcall,-⟩,request',c',hlast',hcall',-⟩ :=
    And.intro (h.produced found ha hbacks).change (h.produced found hb hbacks').change
  obtain rfl : c = c' := Option.some.inj (hlast.symm.trans hlast')
  rw [hcall,RequirementCall.assess.injEq] at hcall'
  exact List.inj_on_of_nodup_map h.ids ha hb hcall'.1

/-- The packet of a Ready requirement is made from the row that backs it. -/
theorem reviewPacket_of_backs {d : Digests} {acts : List Act} (drawn : ∀ act ∈ acts, act.Draws)
    {id : String} {r : Requirement} {a : AssessmentRow}
    (found : (history d acts).db.requirement? id = some r) (ready : r.status = .ready)
    (ha : a ∈ (history d acts).db.assessments)
    (hbacks : a.backs id r.revision r.stateVersion = true) :
    (reviewPacket (history d acts).db id).map (·.assessmentId) = .ok a.id := by
  have hbacked := history_backed d acts
  have hproduced := hbacked.produced found ha hbacks
  have hfind : ((history d acts).db.assessments.find? fun b =>
      b.backs id r.revision r.stateVersion) = some a := by
    cases hrow : (history d acts).db.assessments.find? fun b =>
        b.backs id r.revision r.stateVersion with
    | none =>
      have hnone := List.find?_eq_none.mp hrow a ha
      exact absurd hbacks hnone
    | some b =>
      have hb : b.backs id r.revision r.stateVersion = true := by simpa using List.find?_some hrow
      rw [hbacked.unique found ha (List.mem_of_find?_eq_some hrow) hbacks hb]
  obtain ⟨-,hrevision,hversion,-⟩ := backs_iff.mp hbacks
  obtain ⟨criterion,hmem,hfilled⟩ := hproduced.gates.criteria
  have hcriteria : ¬∀ c ∈ r.acceptanceCriteria, Text.blank c = true := by
    intro hall
    rw [hall criterion hmem] at hfilled
    cases hfilled
  simp [reviewPacket,found,orError,bind,Except.bind,ready,not_lt.mpr hproduced.within.1,
    not_lt.mpr hproduced.within.2,hfind,hversion,ReviewPacket.project,hproduced.drawn drawn,hrevision,
    hproduced.gates.verdict,hproduced.gates.blockers,hcriteria,Except.mapError,Except.map]

/-- The readiness read shows an assessment as current exactly when the review packet is made
from it and every other assessment of the requirement is older. -/
theorem readiness_read_current (d : Digests) (acts : List Act) (drawn : ∀ act ∈ acts, act.Draws)
    (createdAt : String → ℕ) (id assessmentId : String) :
    readinessRead createdAt (history d acts).db id = some (assessmentId,true) ↔
      (reviewPacket (history d acts).db id).map (·.assessmentId) = .ok assessmentId ∧
        ∀ b ∈ (history d acts).db.assessments, b.requirementId = some id → b.id ≠ assessmentId →
          createdAt b.id < createdAt assessmentId ∨
            createdAt b.id = createdAt assessmentId ∧ b.id < assessmentId := by
  have hbacked := history_backed d acts
  rw [readinessRead_current]
  constructor
  · rintro ⟨r,a,found,hlatest,rfl,ready,haccepted,hrevision,hversion⟩
    obtain ⟨ha,hid,hnewest⟩ := latestReadiness_some hlatest
    have hbacks := backs_iff.mpr ⟨hid,hrevision,hversion,haccepted⟩
    refine ⟨reviewPacket_of_backs drawn found ready ha hbacks,fun b hb hbid hne => ?_⟩
    have hle := hnewest b hb hbid
    rw [AssessmentRow.age,AssessmentRow.age,Prod.Lex.toLex_le_toLex] at hle
    rcases hle with hlt | ⟨heq,hle⟩
    · exact .inl hlt
    · exact .inr ⟨heq,lt_of_le_of_ne hle hne⟩
  · rintro ⟨hpacket,holder⟩
    obtain ⟨packet,hok,rfl⟩ := map_eq_ok.mp hpacket
    obtain ⟨r,a,found,ready,ha,hbacks,haid,-,-,-⟩ := reviewPacket_ok hok
    obtain ⟨hid,hrevision,hversion,haccepted⟩ := backs_iff.mp hbacks
    obtain ⟨b,hlatest⟩ := latestReadiness_isSome createdAt ha hid
    obtain ⟨hb,hbid,hnewest⟩ := latestReadiness_some hlatest
    obtain rfl : b = a := by
      by_contra hne
      have hids : b.id ≠ packet.assessmentId := by
        rw [haid]
        exact fun h => hne (List.inj_on_of_nodup_map hbacked.ids hb ha h)
      have hle := hnewest a ha hid
      have hold := holder b hb hbid hids
      rw [haid] at hold
      rw [AssessmentRow.age,AssessmentRow.age,Prod.Lex.toLex_le_toLex] at hle
      rcases hle with hlt | ⟨heq,hle⟩ <;> rcases hold with hlt' | ⟨heq',hlt'⟩
      · exact absurd (hlt.trans hlt') (lt_irrefl _)
      · rw [heq'] at hlt
        exact absurd hlt (lt_irrefl _)
      · exact absurd heq hlt'.ne'
      · exact absurd (lt_of_le_of_lt hle hlt') (lt_irrefl _)
    exact ⟨r,b,found,hlatest,haid.symm,ready,haccepted,hrevision,hversion⟩

/-- A clock by the ids of the sample runs. -/
def sampleClock (assessmentId : String) : ℕ := if assessmentId = "a1" then 1 else 2

theorem readyRun_current :
    readinessRead sampleClock (history Sample.digests readyRun).db "req" = some ("a1",true) ∧
      (reviewPacket (history Sample.digests readyRun).db "req").map (·.assessmentId) = .ok "a1" := by
  have hread : readinessRead sampleClock (history Sample.digests readyRun).db "req" =
      some ("a1",true) := by decide +kernel
  have hdrawn : ∀ act ∈ readyRun, act.Draws := by
    simp [readyRun,startedRun,assesses,Act.Draws]
    decide +kernel
  exact ⟨hread,((readiness_read_current _ _ hdrawn _ _ _).mp hread).1⟩

/-- A second assessment of a Ready requirement is refused and leaves it Ready. -/
def reassessedRun : List Act := readyRun ++ [.lock 5 (assesses "a2" "e2" 2 2),.commit 5]

theorem reassessedRun_disagrees :
    (reviewPacket (history Sample.digests reassessedRun).db "req").map (·.assessmentId) = .ok "a1" ∧
      readinessRead sampleClock (history Sample.digests reassessedRun).db "req" =
        some ("a2",false) := by
  decide +kernel

end RequirementHistory
end North
