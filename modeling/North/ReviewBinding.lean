import North.RequirementHistory

/-! The evidence behind a review decision. An accepted assessment row names the state
version that its promotion made; the version moves with every change of the row, so the
row backs decisions in one Ready generation only. -/
namespace North
namespace Domain

/-- Accepted evidence with its identity and its Ready generation. -/
structure AcceptedReadinessAssessment where
  id : String
  stateVersion : ℕ
  assessment : ReadinessAssessment
  deriving DecidableEq, Repr

inductive PacketError
  | staleAssessment (assessmentRevision currentRevision : ℕ)
  | staleStateVersion (assessmentStateVersion currentStateVersion : ℕ)
  | invalidAssessmentIdentity
  | notReady
  | invalidAssessment
  deriving DecidableEq, Repr

/-- The human-review handoff, derived on demand. -/
structure ReviewPacket where
  assessmentId : String
  requirementRevision : ℕ
  requirementStateVersion : ℕ
  goal : String
  scope : String
  summary : String
  acceptanceCriteria : List String
  assumptions : List String
  openQuestions : List String
  blockers : List String
  assessmentAssumptions : List String
  repositoriesReviewed : List ReviewedRepository
  deriving DecidableEq, Repr

def ReviewPacket.project (requirement : Requirement) (evidence : AcceptedReadinessAssessment) :
    Except PacketError ReviewPacket :=
  if Text.blank evidence.id then .error .invalidAssessmentIdentity
  else if evidence.assessment.requirementRevision ≠ requirement.revision then
    .error (.staleAssessment evidence.assessment.requirementRevision requirement.revision)
  else if evidence.stateVersion ≠ requirement.stateVersion then
    .error (.staleStateVersion evidence.stateVersion requirement.stateVersion)
  else if requirement.status ≠ .ready then .error .notReady
  else if evidence.assessment.verdict ≠ .ready ∨ evidence.assessment.blockers.isEmpty = false ∨
      requirement.acceptanceCriteria.all Text.blank then .error .invalidAssessment
  else .ok {
    assessmentId := evidence.id
    requirementRevision := requirement.revision
    requirementStateVersion := requirement.stateVersion
    goal := requirement.title
    scope := requirement.description
    summary := requirement.summary
    acceptanceCriteria := requirement.acceptanceCriteria
    assumptions := requirement.assumptions
    openQuestions := requirement.openQuestions
    blockers := evidence.assessment.blockers
    assessmentAssumptions := evidence.assessment.assumptions
    repositoriesReviewed := evidence.assessment.repositoriesReviewed }

end Domain

namespace Store

open Machine Domain

inductive ReviewPacketError
  | requirementNotFound
  | notReady
  | invalidRevision
  | invalidEvidence
  | staleAssessment (assessmentRevision currentRevision : ℕ)
  | staleStateVersion (assessmentStateVersion currentStateVersion : ℕ)
  deriving DecidableEq, Repr

def packetError : PacketError → ReviewPacketError
  | .staleAssessment a c => .staleAssessment a c
  | .staleStateVersion a c => .staleStateVersion a c
  | .invalidAssessmentIdentity | .notReady | .invalidAssessment => .invalidEvidence

/-- `review_packet`. The accepted-generation index leaves at most one matching row, so the
order of the query does not matter. -/
def reviewPacket (db : Db) (requirementId : String) : Except ReviewPacketError ReviewPacket := do
  let requirement ← orError .requirementNotFound (db.requirement? requirementId)
  if requirement.status ≠ .ready then .error .notReady
  else if i64Max < requirement.revision then .error .invalidRevision
  else if i64Max < requirement.stateVersion then .error .invalidEvidence
  else do
    let row ← orError (.staleAssessment 0 requirement.revision) (db.assessments.find? fun a =>
      a.backs requirementId requirement.revision requirement.stateVersion)
    let stateVersion ← orError .invalidEvidence row.acceptedStateVersion
    (ReviewPacket.project requirement ⟨row.id,stateVersion,row.assessment⟩).mapError packetError

/-- The assessment id passes the check of a review decision: the requirement is Ready, and
the id names the accepted evidence of this generation. -/
def decisionValid (db : Db) (requirementId assessmentId : String) : Prop :=
  ∃ r, db.requirement? requirementId = some r ∧ r.status = .ready ∧ Text.blank assessmentId = false ∧
    currentReviewAssessment db requirementId r.revision r.stateVersion assessmentId = .ok ()

end Store

namespace RequirementHistory

open Machine Domain Store

/-! ### The steps of a history -/

/-- What one step does to the tables of the history. -/
inductive Moves (w w' : World) : Prop
  | still (same : SameHistory w.db w'.db) (commits : w'.commits = w.commits)
  | created (r : Requirement) (new : w.db.requirement? r.id = none) (draft : r.status = .draft)
      (requirements : w'.db.requirements = w.db.requirements ++ [r])
      (assessments : w'.db.assessments = w.db.assessments) (commits : w'.commits = w.commits)
  | refused (a : AssessmentRow) (requirements : w'.db.requirements = w.db.requirements)
      (fresh : ∀ b ∈ w.db.assessments, b.id ≠ a.id) (outcome : a.outcome = .rejected)
      (added : w'.db.assessments = w.db.assessments ++ [a]) (commits : w'.commits = w.commits)
  | committed (c : Commit) (r' : Requirement)
      (found : w.db.requirement? c.call.requirementId = some c.read) (left : c.left = some r')
      (performs : Performs c.operation c.read r') (writes : Writes w.db c.read r' w'.db)
      (evidence : Evidence c.call c.read r' w.db w'.db) (commits : w'.commits = w.commits ++ [c])

theorem Sound.moves {d : Digests} {w : World} (h : Sound w) (act : Act) : Moves w (w.step d act) := by
  cases act with
  | create id title description createdBy conversationId =>
    simp only [World.step]
    cases hc : createRequirement id title description createdBy conversationId w.db with
    | error e => exact .still ⟨rfl,rfl,rfl⟩ rfl
    | ok result =>
      obtain ⟨hnew,haudit,hassessments,hreq⟩ := createRequirement_ok hc
      exact .created (.new id title description createdBy) hnew rfl hreq hassessments rfl
  | lock txn call =>
    simp only [World.step]
    split <;> exact .still ⟨rfl,rfl,rfl⟩ rfl
  | commit txn =>
    simp only [World.step]
    split
    · exact .still ⟨rfl,rfl,rfl⟩ rfl
    rename_i o ho
    split
    · exact .still ⟨rfl,rfl,rfl⟩ rfl
    rename_i reply db' hf
    cases hr : o.row with
    | none =>
      rw [hr] at hf
      obtain ⟨hreq,haudit,hrows | ⟨a,hfresh,houtcome,hadded⟩⟩ := RequirementCall.finish_missing hf
      · exact .still ⟨hreq,haudit,hrows⟩ (by simp [Txn.record,hr])
      · exact .refused a hreq hfresh houtcome hadded (by simp [Txn.record,hr])
    | some r =>
      have found := h.held o (Table.find?_key ho).1 r hr
      rw [hr] at hf
      obtain ⟨r',hop,hwrites,hevidence⟩ := RequirementCall.finish_ok found hf
      have hleft : db'.requirement? o.call.requirementId = some r' := by
        rw [hwrites.stored,if_pos (requirement?_id found).symm]
      exact .committed ⟨o.call,r,o.call.operation r reply,some r'⟩ r' found rfl hop hwrites hevidence
        (by simp [Txn.record,hr,hleft])
  | rollback txn => exact .still ⟨rfl,rfl,rfl⟩ rfl
  | other tables => exact .still ⟨rfl,rfl,rfl⟩ rfl

def Commit.changed (c : Commit) : Bool := decide (c.left ≠ some c.read)

def World.changesOf (w : World) (requirementId : String) : List Commit :=
  (w.commitsOf requirementId).filter Commit.changed

/-- The row is as it was, or its version has moved on with the changes committed since. -/
def Aged (r : Requirement) (changes : List Commit) (r' : Requirement) (changes' : List Commit) : Prop :=
  r' = r ∧ changes' = changes ∨
    r.stateVersion < r'.stateVersion ∧ changes.length < changes'.length

/-- A later world of the same history: rows age, and evidence is only added. -/
structure Later (w w' : World) : Prop where
  rows : ∀ id r, w.db.requirement? id = some r →
    ∃ r', w'.db.requirement? id = some r' ∧ Aged r (w.changesOf id) r' (w'.changesOf id)
  evidence : w.db.assessments <+: w'.db.assessments

theorem Later.refl (w : World) : Later w w :=
  ⟨fun _ r hr => ⟨r,hr,.inl ⟨rfl,rfl⟩⟩,List.prefix_rfl⟩

theorem Later.trans {w w' w'' : World} (h : Later w w') (h' : Later w' w'') : Later w w'' := by
  refine ⟨fun id r hr => ?_,h.evidence.trans h'.evidence⟩
  obtain ⟨r₁,hr₁,haged⟩ := h.rows id r hr
  obtain ⟨r₂,hr₂,haged'⟩ := h'.rows id r₁ hr₁
  refine ⟨r₂,hr₂,?_⟩
  rcases haged with ⟨rfl,hc⟩ | ⟨hv,hc⟩ <;> rcases haged' with ⟨rfl,hc'⟩ | ⟨hv',hc'⟩
  · exact .inl ⟨rfl,hc'.trans hc⟩
  · exact .inr ⟨hv',by rw [← hc]; exact hc'⟩
  · exact .inr ⟨hv,by rw [hc']; exact hc⟩
  · exact .inr ⟨hv.trans hv',hc.trans hc'⟩

theorem changesOf_of_commits {w w' : World} (h : w'.commits = w.commits) (id : String) :
    w'.changesOf id = w.changesOf id := by
  simp only [World.changesOf,World.commitsOf,h]

theorem changesOf_snoc {w w' : World} {c : Commit} (h : w'.commits = w.commits ++ [c]) (id : String) :
    w'.changesOf id = w.changesOf id ++ if c.call.requirementId = id ∧ c.changed = true then [c] else [] := by
  by_cases hid : c.call.requirementId = id <;> by_cases hc : c.changed = true <;>
    simp [World.changesOf,World.commitsOf,h,hid,hc]

theorem Moves.later {w w' : World} (h : Moves w w') : Later w w' := by
  cases h with
  | still same commits =>
    refine ⟨fun id r hr => ⟨r,?_,.inl ⟨rfl,changesOf_of_commits commits id⟩⟩,?_⟩
    · simpa only [Db.requirement?,same.requirements] using hr
    · rw [same.assessments]
  | created q new draft requirements assessments commits =>
    refine ⟨fun id r hr => ⟨r,?_,.inl ⟨rfl,changesOf_of_commits commits id⟩⟩,by rw [assessments]⟩
    rw [requirement?_append new requirements,if_neg]
    · exact hr
    · rintro rfl
      rw [new] at hr
      cases hr
  | refused a requirements fresh outcome added commits =>
    refine ⟨fun id r hr => ⟨r,?_,.inl ⟨rfl,changesOf_of_commits commits id⟩⟩,?_⟩
    · simpa only [Db.requirement?,requirements] using hr
    · rw [added]
      exact List.prefix_append _ _
  | committed c r' found left performs writes evidence commits =>
    refine ⟨fun id r hr => ?_,?_⟩
    · rw [writes.stored,changesOf_snoc commits]
      by_cases hid : id = c.read.id
      · have hcall : c.call.requirementId = id := (requirement?_id found).symm.trans hid.symm
        obtain rfl : c.read = r := by
          rw [← hcall,found] at hr
          exact Option.some.inj hr
        rw [if_pos hid]
        refine ⟨r',rfl,?_⟩
        by_cases hsame : r' = c.read
        · have hunchanged : ¬c.changed = true := by simp [Commit.changed,left,hsame]
          exact .inl ⟨hsame,by simp [hunchanged]⟩
        · have hchanged : c.changed = true := by simp [Commit.changed,left,hsame]
          have hversion := (performs_version performs).resolve_left hsame
          exact .inr ⟨by omega,by simp [hcall,hchanged]⟩
      · have hcall : ¬c.call.requirementId = id := by
          rw [← requirement?_id found]
          exact fun h => hid h.symm
        rw [if_neg hid]
        exact ⟨r,hr,.inl ⟨rfl,by simp [hcall]⟩⟩
    · cases evidence with
      | kept same ready => rw [same]
      | refused a fresh outcome added same =>
        rw [added]
        exact List.prefix_append _ _
      | promoted a request fresh isCall row added operation within =>
        rw [added]
        exact List.prefix_append _ _

theorem Sound.later {d : Digests} {w : World} (h : Sound w) (acts : List Act) : Later w (w.run d acts) := by
  induction acts generalizing w with
  | nil => exact .refl w
  | cons act acts ih => exact (h.moves act).later.trans (ih (h.step act))

/-! ### Where accepted evidence comes from -/

/-- The latest change of the row is the promotion that this assessment caused. -/
structure Produced (w : World) (id : String) (a : AssessmentRow) (r : Requirement) : Prop where
  status : r.status = .ready
  gates : Operation.Gates a.assessment r
  change : ∃ request c, (w.changesOf id).getLast? = some c ∧ c.call = .assess a.id request ∧
    c.left = some r
  within : r.revision ≤ i64Max ∧ r.stateVersion ≤ i64Max

/-- Accepted evidence belongs to a state version its requirement has reached, and every Ready
requirement has the evidence of its own. -/
structure Backed (w : World) : Prop where
  ids : (w.db.assessments.map (·.id)).Nodup
  evidence : ∀ a ∈ w.db.assessments, a.outcome = .accepted → ∃ id version r,
    a.requirementId = some id ∧ a.acceptedStateVersion = some version ∧
    w.db.requirement? id = some r ∧ version ≤ r.stateVersion ∧
    (version = r.stateVersion → Produced w id a r)
  ready : ∀ id r, w.db.requirement? id = some r → r.status = .ready →
    ∃ a ∈ w.db.assessments, a.backs id r.revision r.stateVersion = true

theorem Backed.init : Backed {} := by
  refine ⟨by simp,by simp,?_⟩
  simp [Db.requirement?]

theorem nodup_snoc {rows : List AssessmentRow} {a : AssessmentRow} (h : (rows.map (·.id)).Nodup)
    (fresh : ∀ b ∈ rows, b.id ≠ a.id) : ((rows ++ [a]).map (·.id)).Nodup := by
  rw [List.map_append,List.map_singleton]
  refine List.nodup_append.mpr ⟨h,by simp,?_⟩
  intro x hx y hy
  obtain ⟨b,hb,rfl⟩ := List.mem_map.mp hx
  rw [List.mem_singleton.mp hy]
  exact fresh b hb

theorem Backed.keep {w w' : World} (h : Backed w) (hrows : ∀ id r, w.db.requirement? id = some r →
      w'.db.requirement? id = some r)
    (hready : ∀ id r, w'.db.requirement? id = some r → r.status = .ready →
      w.db.requirement? id = some r)
    (hchanges : ∀ id, w'.changesOf id = w.changesOf id) {more : List AssessmentRow}
    (hmore : ∀ a ∈ more, a.outcome = .rejected) (hadded : w'.db.assessments = w.db.assessments ++ more)
    (hids : (w'.db.assessments.map (·.id)).Nodup) : Backed w' := by
  refine ⟨hids,fun a ha haccepted => ?_,fun id r hr hs => ?_⟩
  · rw [hadded] at ha
    rcases List.mem_append.mp ha with ha | ha
    · obtain ⟨id,version,r,hid,hversion,hr,hle,hproduced⟩ := h.evidence a ha haccepted
      refine ⟨id,version,r,hid,hversion,hrows id r hr,hle,fun heq => ?_⟩
      obtain ⟨status,gates,change,within⟩ := hproduced heq
      exact ⟨status,gates,by rw [hchanges]; exact change,within⟩
    · rw [hmore a ha] at haccepted
      cases haccepted
  · obtain ⟨a,ha,hbacks⟩ := h.ready id r (hready id r hr hs) hs
    exact ⟨a,by rw [hadded]; exact List.mem_append_left _ ha,hbacks⟩

theorem markReady_ok {a : ReadinessAssessment} {r r' : Requirement}
    (h : (Operation.markReady a).apply r = (.ok (),r')) :
    r'.status = .ready ∧ r'.revision = r.revision ∧ Operation.Gates a r' := by
  have heff := apply_effect (.markReady a) r
  rw [h] at heff
  cases heff with
  | noop edit hop => cases hop
  | moved source next at_ edge gates =>
    cases edge
    exact ⟨rfl,rfl,(gates a rfl).congr rfl rfl⟩
  | edited edit _ hop open_ content revision version status => cases hop

theorem Backed.changed {w w' : World} (h : Backed w) {c : Commit} {r' : Requirement}
    (found : w.db.requirement? c.call.requirementId = some c.read) (left : c.left = some r')
    (performs : Performs c.operation c.read r') (writes : Writes w.db c.read r' w'.db)
    (evidence : Evidence c.call c.read r' w.db w'.db) (commits : w'.commits = w.commits ++ [c])
    (hne : r' ≠ c.read) : Backed w' := by
  have hid := requirement?_id found
  have hversion := (performs_version performs).resolve_left hne
  have hchanged : c.changed = true := by simp [Commit.changed,left,hne]
  have hrow : w'.db.requirement? c.read.id = some r' := by rw [writes.stored,if_pos rfl]
  have hother : ∀ id, id ≠ c.read.id → w'.db.requirement? id = w.db.requirement? id ∧
      w'.changesOf id = w.changesOf id := by
    intro id hother
    refine ⟨by rw [writes.stored,if_neg hother],?_⟩
    have hcall : ¬c.call.requirementId = id := by
      rw [← hid]
      exact fun h => hother h.symm
    simp [changesOf_snoc commits,hcall]
  -- the evidence that was there
  have hold : ∀ a ∈ w.db.assessments, a.outcome = .accepted → ∃ id version r,
      a.requirementId = some id ∧ a.acceptedStateVersion = some version ∧
      w'.db.requirement? id = some r ∧ version ≤ r.stateVersion ∧
      (version = r.stateVersion → Produced w' id a r) := by
    intro a ha haccepted
    obtain ⟨id,version,r,ha,hv,hr,hle,hproduced⟩ := h.evidence a ha haccepted
    by_cases hsame : id = c.read.id
    · obtain rfl : c.read = r := by
        rw [hsame,hid,found] at hr
        exact Option.some.inj hr
      refine ⟨id,version,r',ha,hv,by rw [hsame]; exact hrow,by omega,fun heq => ?_⟩
      omega
    · obtain ⟨hrows,hchanges⟩ := hother id hsame
      refine ⟨id,version,r,ha,hv,hrows.trans hr,hle,fun heq => ?_⟩
      obtain ⟨status,gates,change,within⟩ := hproduced heq
      exact ⟨status,gates,by rw [hchanges]; exact change,within⟩
  have hreadyOther : ∀ id r, id ≠ c.read.id → w'.db.requirement? id = some r → r.status = .ready →
      ∃ a ∈ w.db.assessments, a.backs id r.revision r.stateVersion = true := by
    intro id r hsame hr hs
    rw [(hother id hsame).1] at hr
    exact h.ready id r hr hs
  cases evidence with
  | kept same ready =>
    refine ⟨by rw [same]; exact h.ids,by rw [same]; exact hold,fun id r hr hs => ?_⟩
    rw [same]
    by_cases hsame : id = c.read.id
    · rw [hsame,hrow] at hr
      cases hr
      exact absurd (ready hs) hne
    · exact hreadyOther id r hsame hr hs
  | refused a fresh outcome added same => exact absurd same hne
  | promoted a request fresh isCall row added operation within =>
    obtain ⟨hstatus,hrevision,hgates⟩ := markReady_ok operation
    have hrequirement : request.requirementId = c.read.id := by
      rw [hid,isCall]
      rfl
    have hassessment : a.assessment = request.assessment := by rw [row]; rfl
    refine ⟨?_,fun b hb haccepted => ?_,fun id r hr hs => ?_⟩
    · rw [added]
      exact nodup_snoc h.ids fresh
    · rw [added] at hb
      rcases List.mem_append.mp hb with hb | hb
      · exact hold b hb haccepted
      · obtain rfl := List.mem_singleton.mp hb
        refine ⟨c.read.id,r'.stateVersion,r',by rw [row,← hrequirement]; rfl,by rw [row]; rfl,hrow,
          le_rfl,fun _ => ⟨hstatus,by rw [hassessment]; exact hgates,⟨request,c,?_,isCall,left⟩,within⟩⟩
        simp [changesOf_snoc commits,hid,hchanged]
    · rw [added]
      by_cases hsame : id = c.read.id
      · rw [hsame,hrow] at hr
        cases hr
        refine ⟨a,by simp,?_⟩
        have hbacks : (request.record a.id (some request.requirementId) none
            (some r'.stateVersion)).backs id r'.revision r'.stateVersion = true := by
          simp [AssessmentRow.backs,AssessmentRequest.record,hrequirement,hsame,hgates.revision]
        rwa [← row] at hbacks
      · obtain ⟨b,hb,hbacks⟩ := hreadyOther id r hsame hr hs
        exact ⟨b,List.mem_append_left _ hb,hbacks⟩

theorem Moves.backed {w w' : World} (h : Moves w w') (hb : Backed w) : Backed w' := by
  cases h with
  | still same commits =>
    have hrow : ∀ id, w'.db.requirement? id = w.db.requirement? id := by
      intro id
      simp only [Db.requirement?,same.requirements]
    refine hb.keep (fun id r hr => (hrow id).trans hr) (fun id r hr _ => (hrow id).symm.trans hr)
      (changesOf_of_commits commits) (by simp : ∀ a ∈ [], _) (by rw [same.assessments,List.append_nil]) ?_
    rw [same.assessments]
    exact hb.ids
  | created q new draft requirements assessments commits =>
    have hrow := requirement?_append new requirements
    refine hb.keep (fun id r hr => ?_) (fun id r hr hs => ?_) (changesOf_of_commits commits)
      (by simp : ∀ a ∈ [], _) (by rw [assessments,List.append_nil]) (by rw [assessments]; exact hb.ids)
    · rw [hrow,if_neg]
      · exact hr
      · rintro rfl
        rw [new] at hr
        cases hr
    · rw [hrow] at hr
      split_ifs at hr with hid
      · cases hr
        rw [draft] at hs
        cases hs
      · exact hr
  | refused a requirements fresh outcome added commits =>
    have hrow : ∀ id, w'.db.requirement? id = w.db.requirement? id := by
      intro id
      simp only [Db.requirement?,requirements]
    refine hb.keep (fun id r hr => (hrow id).trans hr) (fun id r hr _ => (hrow id).symm.trans hr)
      (changesOf_of_commits commits) (by simp [outcome] : ∀ b ∈ [a], b.outcome = .rejected) added ?_
    rw [added]
    exact nodup_snoc hb.ids fresh
  | committed c r' found left performs writes evidence commits =>
    by_cases hsame : r' = c.read
    · have hid := requirement?_id found
      have hunchanged : ¬c.changed = true := by simp [Commit.changed,left,hsame]
      have hrow : ∀ id, w'.db.requirement? id = w.db.requirement? id := by
        intro id
        rw [writes.stored]
        split_ifs with he
        · rw [he,hid,found,hsame]
        · rfl
      have hkeep : ∀ more : List AssessmentRow, (∀ a ∈ more, a.outcome = .rejected) →
          w'.db.assessments = w.db.assessments ++ more →
          (w'.db.assessments.map (·.id)).Nodup → Backed w' := by
        intro more
        exact hb.keep (fun id r hr => (hrow id).trans hr) (fun id r hr _ => (hrow id).symm.trans hr)
          (fun id => by simp [changesOf_snoc commits,hunchanged])
      cases evidence with
      | kept same ready =>
        exact hkeep [] (by simp) (by rw [same,List.append_nil]) (by rw [same]; exact hb.ids)
      | refused a fresh outcome added same =>
        refine hkeep [a] (by simp [outcome]) added ?_
        rw [added]
        exact nodup_snoc hb.ids fresh
      | promoted a request fresh isCall row added operation within =>
        rcases apply_moves operation with ⟨-,e,he⟩ | ⟨hversion,-⟩
        · cases he
        · rw [hsame] at hversion
          omega
    · exact hb.changed found left performs writes evidence commits hsame

theorem history_append (d : Digests) (acts more : List Act) :
    history d (acts ++ more) = (history d acts).run d more := by
  simp [history,World.run]

theorem history_backed (d : Digests) (acts : List Act) : Backed (history d acts) := by
  induction acts using List.reverseRecOn with
  | nil => exact .init
  | append_singleton acts act ih =>
    rw [history_append]
    exact ((history_sound d acts).moves act).backed ih

/-! ### Decisions -/

theorem backs_iff {a : AssessmentRow} {id : String} {revision version : ℕ} :
    a.backs id revision version = true ↔ a.requirementId = some id ∧
      a.assessment.requirementRevision = revision ∧ a.acceptedStateVersion = some version ∧
      a.outcome = .accepted := by
  simp [AssessmentRow.backs,and_assoc]

theorem currentReviewAssessment_ok {db : Db} {id assessmentId : String} {revision version : ℕ} :
    currentReviewAssessment db id revision version assessmentId = .ok () ↔
      revision ≤ i64Max ∧ version ≤ i64Max ∧
        ∃ a ∈ db.assessments, a.id = assessmentId ∧ a.backs id revision version = true := by
  unfold currentReviewAssessment
  split_ifs with hrevision hversion hany
  · simp [not_le.mpr hrevision]
  · simp [not_le.mpr hversion]
  · simpa [not_lt.mp hrevision,not_lt.mp hversion] using hany
  · simpa [not_lt.mp hrevision,not_lt.mp hversion] using hany

theorem reviewGate_ok {db : Db} {request : TransitionRequest} {r : Requirement}
    (review : request.transition.review = true) (h : reviewGate db request r = .ok ()) :
    ∃ assessmentId, request.assessmentId = some assessmentId ∧ Text.blank assessmentId = false ∧
      currentReviewAssessment db r.id r.revision r.stateVersion assessmentId = .ok () := by
  rw [reviewGate,if_pos review] at h
  split at h
  · cases h
  · rename_i assessmentId hfilter
    obtain ⟨hsome,hblank⟩ := Option.filter_eq_some_iff.mp hfilter
    exact ⟨assessmentId,hsome,by simpa using hblank,h⟩

/-- The row that backs the current version was accepted in the latest change. -/
theorem Backed.produced {w : World} (h : Backed w) {id : String} {r : Requirement} {a : AssessmentRow}
    (found : w.db.requirement? id = some r) (ha : a ∈ w.db.assessments)
    (hbacks : a.backs id r.revision r.stateVersion = true) : Produced w id a r := by
  obtain ⟨hreq,-,hversion,haccepted⟩ := backs_iff.mp hbacks
  obtain ⟨id',version,r',hid',hversion',hr',-,hproduced⟩ := h.evidence a ha haccepted
  obtain rfl : id' = id := Option.some.inj (hid'.symm.trans hreq)
  obtain rfl : r = r' := Option.some.inj (found.symm.trans hr')
  exact hproduced (Option.some.inj (hversion'.symm.trans hversion))

theorem review_apply {t : RequirementTransition} {r : Requirement} (review : t.review = true)
    (ready : r.status = .ready) (hversion : r.stateVersion < i64Max) :
    ∃ r', t.apply r = (.ok (),r') ∧ r'.id = r.id ∧ r'.revision = r.revision ∧
      r'.stateVersion = r.stateVersion+1 := by
  have hsucc : checkedSucc u64Max r.stateVersion = some (r.stateVersion+1) := by
    refine checkedSucc_eq_some.mpr ⟨?_,rfl⟩
    have hmax : i64Max < u64Max := by decide
    omega
  cases t <;> simp [RequirementTransition.review] at review <;>
    simp [RequirementTransition.apply,Requirement.accept,Requirement.reject,Requirement.requestChanges,
      Requirement.transitionFrom,ready,RequirementStatus.canTransitionTo,hsucc]

/-- A decision on valid evidence commits, unless the version counter is exhausted. -/
theorem decision_commits {db : Db} {id assessmentId actorId : String} {t : RequirementTransition}
    {r : Requirement} (review : t.review = true) (valid : decisionValid db id assessmentId)
    (found : db.requirement? id = some r) (hversion : r.stateVersion < i64Max) :
    ∃ reply db', transitionRequirementWithFeedback
      ⟨id,r.stateVersion,actorId,t,none,some assessmentId⟩ db = .ok (reply,db') := by
  obtain ⟨q,hq,ready,hblank,hcurrent⟩ := valid
  obtain rfl : r = q := Option.some.inj (found.symm.trans hq)
  obtain ⟨r',happly,hid',hrevision',hversion'⟩ := review_apply review ready hversion
  have hid := requirement?_id found
  have hmax := (currentReviewAssessment_ok.mp hcurrent).1
  have hgate : reviewGate db ⟨id,r.stateVersion,actorId,t,none,some assessmentId⟩ r = .ok () := by
    have hfilter : (some assessmentId).filter (fun value => !Text.blank value) = some assessmentId := by
      simp [Option.filter,hblank]
    rw [reviewGate,if_pos review,hfilter,hid]
    exact hcurrent
  have hstored : (db.requirements.any fun q => decide (q.id = r'.id) &&
      decide (q.stateVersion = r.stateVersion)) = true :=
    List.any_eq_true.mpr ⟨r,(Table.find?_key found).1,by simp [hid']⟩
  have hwithin : ¬i64Max < r'.revision ∧ ¬(i64Max < r'.stateVersion ∨ i64Max < r.stateVersion) := by
    omega
  have hnext : ¬i64Max < r'.stateVersion := fun h => hwithin.2 (.inl h)
  obtain ⟨db₁,hupdate⟩ : ∃ db₁, updateRequirement db r' r.stateVersion = .ok db₁ := by
    rw [updateRequirement,if_neg hwithin.1,if_neg hwithin.2,if_pos hstored]
    exact ⟨_,rfl⟩
  simp [transitionRequirementWithFeedback,found,orError,bind,Except.bind,transitionLocked,hgate,
    Except.mapError,happly,hupdate,hnext]

theorem reviewPacket_ok {db : Db} {id : String} {packet : ReviewPacket} (h : reviewPacket db id = .ok packet) :
    ∃ r a, db.requirement? id = some r ∧ r.status = .ready ∧ a ∈ db.assessments ∧
      a.backs id r.revision r.stateVersion = true ∧ packet.assessmentId = a.id ∧
      Text.blank a.id = false ∧ r.revision ≤ i64Max ∧ r.stateVersion ≤ i64Max := by
  simp only [reviewPacket,bind_eq_ok,orError_eq_ok] at h
  obtain ⟨r,found,h⟩ := h
  split_ifs at h with hready hrevision hversion
  simp only [bind_eq_ok,orError_eq_ok,mapError_eq_ok] at h
  obtain ⟨a,hfind,version,-,h⟩ := h
  have hbacks : a.backs id r.revision r.stateVersion = true := by simpa using List.find?_some hfind
  unfold ReviewPacket.project at h
  split_ifs at h with hblank
  cases h
  exact ⟨r,a,found,not_not.mp hready,List.mem_of_find?_eq_some hfind,hbacks,rfl,
    by simpa using hblank,not_lt.mp hrevision,not_lt.mp hversion⟩

theorem decisionValid_row {db : Db} {id assessmentId : String} (h : decisionValid db id assessmentId) :
    ∃ r a, db.requirement? id = some r ∧ a ∈ db.assessments ∧ a.id = assessmentId ∧
      a.backs id r.revision r.stateVersion = true := by
  obtain ⟨r,hr,-,-,hcurrent⟩ := h
  obtain ⟨-,-,a,ha,hid,hbacks⟩ := currentReviewAssessment_ok.mp hcurrent
  exact ⟨r,a,hr,ha,hid,hbacks⟩

/-- An assessment that backs two worlds of one history backs one row in one version. -/
theorem Later.same_generation {w w' : World} (h : Later w w') (hb : Backed w') {id id' : String}
    {r r' : Requirement} {a a' : AssessmentRow} (hr : w.db.requirement? id = some r)
    (hr' : w'.db.requirement? id' = some r') (ha : a ∈ w.db.assessments) (ha' : a' ∈ w'.db.assessments)
    (hid : a.id = a'.id) (hbacks : a.backs id r.revision r.stateVersion = true)
    (hbacks' : a'.backs id' r'.revision r'.stateVersion = true) :
    id' = id ∧ r' = r ∧ w'.changesOf id = w.changesOf id := by
  obtain rfl : a = a' := List.inj_on_of_nodup_map hb.ids (h.evidence.subset ha) ha' hid
  obtain ⟨hreq,-,hversion,-⟩ := backs_iff.mp hbacks
  obtain ⟨hreq',-,hversion',-⟩ := backs_iff.mp hbacks'
  obtain rfl : id' = id := Option.some.inj (hreq'.symm.trans hreq)
  have heq : r'.stateVersion = r.stateVersion := Option.some.inj (hversion'.symm.trans hversion)
  obtain ⟨r₂,hr₂,haged⟩ := h.rows id' r hr
  obtain rfl : r' = r₂ := Option.some.inj (hr'.symm.trans hr₂)
  rcases haged with ⟨hsame,hchanges⟩ | ⟨hlt,-⟩
  · exact ⟨rfl,hsame,hchanges⟩
  · omega

/-- Over every history: a review decision commits only on the assessment whose acceptance
made the current Ready state; the id of a review packet stays valid for a decision exactly
while no change of the requirement commits; and no id is valid in two Ready generations. -/
theorem review_decisions_bound (d : Digests) (acts more : List Act) (id : String) :
    (∀ txn o request reply db', (history d acts).txn? txn = some o → o.call = .transition request →
        request.transition.review = true →
        o.call.finish d o.row (history d acts).db = .ok (reply,db') →
      ∃ r a, (history d acts).db.requirement? request.requirementId = some r ∧
        a ∈ (history d acts).db.assessments ∧ request.assessmentId = some a.id ∧
        a.requirementId = some request.requirementId ∧
        a.assessment.requirementRevision = r.revision ∧
        a.acceptedStateVersion = some r.stateVersion ∧
        Produced (history d acts) request.requirementId a r) ∧
      (∀ packet, reviewPacket (history d acts).db id = .ok packet →
        (decisionValid (history d (acts ++ more)).db id packet.assessmentId ↔
          (history d (acts ++ more)).changesOf id = (history d acts).changesOf id)) ∧
      (∀ id' assessmentId, decisionValid (history d acts).db id assessmentId →
        decisionValid (history d (acts ++ more)).db id' assessmentId →
        id' = id ∧ (history d (acts ++ more)).db.requirement? id = (history d acts).db.requirement? id) ∧
      (∀ assessmentId actorId t r, t.review = true → decisionValid (history d acts).db id assessmentId →
        (history d acts).db.requirement? id = some r → r.stateVersion < i64Max →
        ∃ reply db', transitionRequirementWithFeedback
          ⟨id,r.stateVersion,actorId,t,none,some assessmentId⟩ (history d acts).db = .ok (reply,db')) := by
  have hsound := history_sound d acts
  have hlater : Later (history d acts) (history d (acts ++ more)) := by
    rw [history_append]
    exact hsound.later more
  have hbacked' := history_backed d (acts ++ more)
  refine ⟨?_,?_,?_,?_⟩
  · intro txn o request reply db' ho hcall hreview hf
    rw [hcall] at hf
    simp only [RequirementCall.finish,map_eq_ok,mapError_eq_ok,bind_eq_ok,orError_eq_ok] at hf
    obtain ⟨⟨q,db₁⟩,⟨r,hrow,hf⟩,⟨⟩⟩ := hf
    have found := hsound.held o (Table.find?_key ho).1 r hrow
    rw [hcall] at found
    have hid : r.id = request.requirementId := requirement?_id found
    have found' : (history d acts).db.requirement? r.id = some r := by
      rw [hid]
      exact found
    obtain ⟨hgate,-,-,-⟩ := transitionLocked_ok found' hf
    obtain ⟨assessmentId,hgiven,-,hcurrent⟩ := reviewGate_ok hreview hgate
    obtain ⟨-,-,a,ha,haid,hbacks⟩ := currentReviewAssessment_ok.mp hcurrent
    rw [hid] at hbacks
    obtain ⟨hreq,hrevision,hversion,-⟩ := backs_iff.mp hbacks
    exact ⟨r,a,found,ha,by rw [hgiven,haid],hreq,hrevision,hversion,
      (history_backed d acts).produced found ha hbacks⟩
  · intro packet hpacket
    obtain ⟨r,a,hr,hready,ha,hbacks,haid,hblank,hrevision,hversion⟩ := reviewPacket_ok hpacket
    rw [haid]
    constructor
    · intro hvalid
      obtain ⟨r',a',hr',ha',hid',hbacks'⟩ := decisionValid_row hvalid
      exact (hlater.same_generation hbacked' hr hr' ha ha' hid'.symm hbacks hbacks').2.2
    · intro hchanges
      obtain ⟨r',hr',⟨rfl,-⟩ | ⟨-,hlt⟩⟩ := hlater.rows id r hr
      · exact ⟨r',hr',hready,hblank,currentReviewAssessment_ok.mpr
          ⟨hrevision,hversion,a,hlater.evidence.subset ha,rfl,hbacks⟩⟩
      · rw [hchanges] at hlt
        exact absurd hlt (lt_irrefl _)
  · intro id' assessmentId hvalid hvalid'
    obtain ⟨r,a,hr,ha,haid,hbacks⟩ := decisionValid_row hvalid
    obtain ⟨r',a',hr',ha',haid',hbacks'⟩ := decisionValid_row hvalid'
    obtain ⟨rfl,rfl,-⟩ :=
      hlater.same_generation hbacked' hr hr' ha ha' (haid.trans haid'.symm) hbacks hbacks'
    exact ⟨rfl,hr'.trans hr.symm⟩
  · intro assessmentId actorId t r hreview hvalid hr hversion
    exact decision_commits hreview hvalid hr hversion

/-- The requirement of the sample run, made Ready. -/
def readyRun : List Act := startedRun ++
  [.lock 3 (.edit ⟨"req",2,"user",criteria⟩),.commit 3,.lock 4 (assesses "a1" "e1" 1 2),.commit 4]

/-- An edit takes the packet's assessment out of use, and an edit back does not restore it. -/
def editedBack : List Act :=
  [.lock 5 (.edit ⟨"req",4,"user",{ title := some "Other" }⟩),.commit 5,
   .lock 6 (.edit ⟨"req",5,"user",{ title := some "Title" }⟩),.commit 6,
   .lock 7 (assesses "a2" "e2" 2 4),.commit 7]

theorem readyRun_bound :
    (reviewPacket (history Sample.digests readyRun).db "req").map (·.assessmentId) = .ok "a1" ∧
      decisionValid (history Sample.digests readyRun).db "req" "a1" ∧
      (reviewPacket (history Sample.digests (readyRun ++ editedBack)).db "req").map (·.assessmentId) =
        .ok "a2" ∧
      ¬decisionValid (history Sample.digests (readyRun ++ editedBack)).db "req" "a1" := by
  have hpacket : ∃ packet, reviewPacket (history Sample.digests readyRun).db "req" = .ok packet ∧
      packet.assessmentId = "a1" := by
    refine ⟨⟨"a1",2,4,"Title","Text","",["It works"],[],[],[],[],[]⟩,by decide +kernel,rfl⟩
  obtain ⟨packet,hok,hid⟩ := hpacket
  refine ⟨by decide +kernel,?_,by decide +kernel,?_⟩
  · have hbound := (review_decisions_bound Sample.digests readyRun [] "req").2.1 packet hok
    rw [hid,List.append_nil] at hbound
    exact hbound.mpr rfl
  · have hbound := (review_decisions_bound Sample.digests readyRun editedBack "req").2.1 packet hok
    rw [hid] at hbound
    rw [hbound]
    intro hsame
    have hlength := congrArg List.length hsame
    revert hlength
    decide +kernel

end RequirementHistory
end North
