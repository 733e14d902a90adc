import North.RequirementWrites
import Mathlib.Data.List.Pairwise

/-! Interleaved transactions on requirement rows. A transaction takes the row lock and
reads the row, and commits or rolls back later; whatever else the server does goes on in
between. Every committed transaction has read the row its predecessor left, so the
committed history is a serial run of the domain operations, and the audit rows follow it. -/
namespace North
namespace RequirementHistory

open Domain Store

/-- An open transaction with the answer of its `SELECT .. FOR UPDATE`. -/
structure Txn where
  id : ℕ
  call : RequirementCall
  row : Option Requirement

/-- A committed transaction: the row it read, the operation it stands for, and the row it left. -/
structure Commit where
  call : RequirementCall
  read : Requirement
  operation : Option Operation
  left : Option Requirement

structure World where
  db : Db := {}
  opens : List Txn := []
  commits : List Commit := []

inductive Act
  | create (id title description createdBy conversationId : String)
  | lock (txn : ℕ) (call : RequirementCall)
  | commit (txn : ℕ)
  /-- A lost connection, or an error of the database at any point. -/
  | rollback (txn : ℕ)
  /-- Any other transaction of the server: it writes none of the three tables. -/
  | other (tables : Db)

namespace World

/-- Some open transaction holds the lock of the row. -/
def locked (w : World) (requirementId : String) : Bool :=
  w.opens.any fun o => o.row.isSome && decide (o.call.requirementId = requirementId)

def txn? (w : World) (txn : ℕ) : Option Txn := w.opens.find? fun o => decide (o.id = txn)

def close (w : World) (txn : ℕ) : List Txn := w.opens.filter fun o => decide (o.id ≠ txn)

def commitsOf (w : World) (requirementId : String) : List Commit :=
  w.commits.filter fun c => decide (c.call.requirementId = requirementId)

end World

def auditOf (db : Db) (requirementId : String) : List TransitionAudit :=
  db.audit.filter fun a => decide (a.requirementId = requirementId)

/-- A transaction that found no row is no part of a requirement's history. -/
def Txn.record (o : Txn) (reply : RequirementReply) (db : Db) : List Commit :=
  o.row.toList.map fun r => ⟨o.call,r,o.call.operation r reply,db.requirement? o.call.requirementId⟩

/-- `lock` waits while another transaction holds the row; the step is then taken later. -/
def World.step (d : Digests) (w : World) : Act → World
  | .create id title description createdBy conversationId =>
    { w with db := committed w.db (createRequirement id title description createdBy conversationId w.db) }
  | .lock txn call =>
    if (w.txn? txn).isSome || w.locked call.requirementId then w
    else { w with opens := w.opens ++ [⟨txn,call,w.db.requirement? call.requirementId⟩] }
  | .commit txn =>
    match w.txn? txn with
    | none => w
    | some o =>
      match o.call.finish d o.row w.db with
      | .error _ => { w with opens := w.close txn }
      | .ok (reply,db) => {
          db := db
          opens := w.close txn
          commits := w.commits ++ o.record reply db }
  | .rollback txn => { w with opens := w.close txn }
  | .other tables => { w with db := { tables with
      requirements := w.db.requirements
      audit := w.db.audit
      assessments := w.db.assessments } }

def World.run (d : Digests) (w : World) (acts : List Act) : World := acts.foldl (World.step d) w

/-- A history from the empty store. -/
def history (d : Digests) (acts : List Act) : World := World.run d {} acts

/-! ### The order of the committed transactions -/

/-- From `r` to `r'` by the committed transactions one after the other: each has read what
the one before it left, and its operation succeeded on it. -/
def Serial : Requirement → List Commit → Requirement → Prop
  | r, [], r' => r' = r
  | r, c::cs, r' => c.read = r ∧ ∃ next, c.left = some next ∧ Performs c.operation r next ∧
    Serial next cs r'

def Commit.moved (c : Commit) : Bool := c.left.any fun left => decide (left.status ≠ c.read.status)

def Commit.ToldBy (c : Commit) (a : TransitionAudit) : Prop :=
  ∃ left, c.left = some left ∧ a.Tells c.read left

/-- Each row goes on from the status the one before it reached. -/
def Chained : RequirementStatus → List TransitionAudit → RequirementStatus → Prop
  | s, [], s' => s' = s
  | s, a::as, s' => a.fromStatus = s ∧ Chained a.toStatus as s'

theorem Serial.snoc {r r' next : Requirement} {cs : List Commit} (h : Serial r cs r') {c : Commit}
    (hread : c.read = r') (hleft : c.left = some next) (hop : Performs c.operation r' next) :
    Serial r (cs ++ [c]) next := by
  induction cs generalizing r with
  | nil =>
    cases h
    exact ⟨hread,next,hleft,hop,rfl⟩
  | cons e cs ih =>
    obtain ⟨he,mid,hmid,hperforms,hrest⟩ := h
    exact ⟨he,mid,hmid,hperforms,ih hrest⟩

theorem Chained.snoc {s s' : RequirementStatus} {rows : List TransitionAudit} (h : Chained s rows s')
    {a : TransitionAudit} (ha : a.fromStatus = s') : Chained s (rows ++ [a]) a.toStatus := by
  induction rows generalizing s with
  | nil =>
    cases h
    exact ⟨ha,rfl⟩
  | cons b rows ih => exact ⟨h.1,ih h.2⟩

/-- What the tables and the history say about one requirement. -/
structure Recorded (r : Requirement) (commits : List Commit) (audit : List TransitionAudit) : Prop where
  serial : ∃ title description createdBy, Serial (.new r.id title description createdBy) commits r
  told : List.Forall₂ Commit.ToldBy (commits.filter Commit.moved) audit
  chained : Chained .draft audit r.status
  ordered : audit.Pairwise fun a b => a.stateVersion < b.stateVersion
  current : ∀ a ∈ audit, a.stateVersion ≤ r.stateVersion

theorem Recorded.new (id title description createdBy : String) :
    Recorded (.new id title description createdBy) [] [] where
  serial := ⟨title,description,createdBy,rfl⟩
  told := .nil
  chained := rfl
  ordered := .nil
  current := by simp

theorem performs_version {op : Option Operation} {r r' : Requirement} (h : Performs op r r') :
    r' = r ∨ r'.stateVersion = r.stateVersion+1 := by
  cases op with
  | none => exact .inl h
  | some op =>
    rcases apply_moves h with ⟨hkept,-⟩ | ⟨hnext,-⟩
    · exact .inl hkept
    · exact .inr hnext

theorem performs_id {op : Option Operation} {r r' : Requirement} (h : Performs op r r') :
    r'.id = r.id := by
  cases op with
  | none => rw [show r' = r from h]
  | some op =>
    have hid := (apply_identity op r).1
    rwa [show op.apply r = (.ok (),r') from h] at hid

theorem Recorded.snoc {r r' : Requirement} {commits : List Commit} {audit audit' : List TransitionAudit}
    (h : Recorded r commits audit) {c : Commit} (hread : c.read = r) (hleft : c.left = some r')
    (hop : Performs c.operation r r')
    (haudit : r'.status = r.status ∧ audit' = audit ∨
      r'.status ≠ r.status ∧ ∃ a : TransitionAudit, a.Tells r r' ∧ audit' = audit ++ [a]) :
    Recorded r' (commits ++ [c]) audit' := by
  have hversion := performs_version hop
  have hid := performs_id hop
  obtain ⟨title,description,createdBy,hserial⟩ := h.serial
  have hserial' : ∃ title description createdBy,
      Serial (.new r'.id title description createdBy) (commits ++ [c]) r' :=
    ⟨title,description,createdBy,by rw [hid]; exact hserial.snoc hread hleft hop⟩
  have hmoved : Commit.moved c = decide (r'.status ≠ r.status) := by
    simp [Commit.moved,hleft,hread]
  rcases haudit with ⟨hsame,rfl⟩ | ⟨hmoves,a,tells,rfl⟩
  · refine ⟨hserial',?_,by rw [hsame]; exact h.chained,h.ordered,?_⟩
    · simpa [hmoved,hsame] using h.told
    · intro a ha
      have hle := h.current a ha
      rcases hversion with rfl | hnext
      · exact hle
      · omega
  · have hnext : r'.stateVersion = r.stateVersion+1 := by
      rcases hversion with rfl | hnext
      · exact absurd rfl hmoves
      · exact hnext
    refine ⟨hserial',?_,?_,?_,?_⟩
    · have htold : Commit.ToldBy c a := ⟨r',hleft,by rw [hread]; exact tells⟩
      simpa [hmoved,hmoves] using List.rel_append h.told (.cons htold .nil)
    · rw [← tells.target]
      exact h.chained.snoc tells.source
    · refine List.pairwise_append.mpr ⟨h.ordered,by simp,?_⟩
      intro b hb x hx
      rw [List.mem_singleton.mp hx,tells.version,hnext]
      exact Nat.lt_succ_of_le (h.current b hb)
    · intro b hb
      rcases List.mem_append.mp hb with hb | hb
      · have hle := h.current b hb
        omega
      · rw [List.mem_singleton.mp hb,tells.version]

/-! ### The invariant of the interleaving -/

/-- Two transactions that do not hold the same row. -/
def Txn.Apart (o o' : Txn) : Prop := o.id ≠ o'.id ∧ (o.row.isSome = true → o'.row.isSome = true →
  o.call.requirementId ≠ o'.call.requirementId)

instance : Std.Symm Txn.Apart := ⟨fun _ _ h => ⟨h.1.symm,fun ho' ho => (h.2 ho ho').symm⟩⟩

/-- Open transactions hold current rows, no two of them the same one, and every requirement
is recorded. -/
structure Sound (w : World) : Prop where
  held : ∀ o ∈ w.opens, ∀ r, o.row = some r → w.db.requirement? o.call.requirementId = some r
  alone : w.opens.Pairwise Txn.Apart
  recorded : ∀ id r, w.db.requirement? id = some r → Recorded r (w.commitsOf id) (auditOf w.db id)
  unknown : ∀ id, w.db.requirement? id = none → w.commitsOf id = [] ∧ auditOf w.db id = []

theorem Sound.init : Sound {} where
  held := by simp
  alone := .nil
  recorded := by simp [Db.requirement?]
  unknown := by simp [World.commitsOf,auditOf]

theorem Sound.keep {w w' : World} (h : Sound w) (hopens : w'.opens.Sublist w.opens)
    (hcommits : w'.commits = w.commits) (hreq : w'.db.requirements = w.db.requirements)
    (haudit : w'.db.audit = w.db.audit) : Sound w' := by
  have hrow : ∀ id, w'.db.requirement? id = w.db.requirement? id := by
    intro id
    simp only [Db.requirement?,hreq]
  have hof : ∀ id, w'.commitsOf id = w.commitsOf id := by
    intro id
    simp only [World.commitsOf,hcommits]
  have hrows : ∀ id, auditOf w'.db id = auditOf w.db id := by
    intro id
    simp only [auditOf,haudit]
  refine ⟨fun o ho r hr => ?_,h.alone.sublist hopens,fun id r hr => ?_,fun id hn => ?_⟩
  · rw [hrow]
    exact h.held o (hopens.subset ho) r hr
  · rw [hof,hrows]
    rw [hrow] at hr
    exact h.recorded id r hr
  · rw [hof,hrows]
    rw [hrow] at hn
    exact h.unknown id hn

theorem createRequirement_ok {id title description createdBy conversationId : String} {db db' : Db}
    {reply : Requirement}
    (h : createRequirement id title description createdBy conversationId db = .ok (reply,db')) :
    db.requirement? id = none ∧ db'.audit = db.audit ∧ db'.assessments = db.assessments ∧
      db'.requirements = db.requirements ++ [.new id title description createdBy] := by
  unfold createRequirement at h
  split at h
  · cases h
  rename_i hid
  simp only at h
  split_ifs at h
  cases h
  refine ⟨?_,rfl,rfl,rfl⟩
  simpa [Db.requirement?] using hid

theorem requirement?_append {db db' : Db} {r : Requirement} (hnew : db.requirement? r.id = none)
    (h : db'.requirements = db.requirements ++ [r]) (id : String) :
    db'.requirement? id = if id = r.id then some r else db.requirement? id := by
  simp only [Db.requirement?] at hnew ⊢
  rw [h,List.find?_append]
  by_cases hid : id = r.id
  · rw [hid,hnew]
    simp
  · have hne : ¬r.id = id := fun h => hid h.symm
    simp [hid,hne]

theorem Sound.create {w : World} (h : Sound w) {id title description createdBy conversationId : String}
    {reply : Requirement} {db' : Db}
    (hc : createRequirement id title description createdBy conversationId w.db = .ok (reply,db')) :
    Sound { w with db := db' } := by
  obtain ⟨hnew,haudit,-,hreq⟩ := createRequirement_ok hc
  have hrow : ∀ i, db'.requirement? i =
      if i = id then some (.new id title description createdBy) else w.db.requirement? i :=
    requirement?_append (r := .new id title description createdBy) hnew hreq
  have hrows : ∀ id, auditOf db' id = auditOf w.db id := by
    intro id
    simp only [auditOf,haudit]
  refine ⟨fun o ho r hr => ?_,h.alone,fun i r hr => ?_,fun i hn => ?_⟩
  · have hheld := h.held o ho r hr
    have hne : o.call.requirementId ≠ id := by
      intro he
      rw [he,hnew] at hheld
      cases hheld
    exact (hrow _).trans ((if_neg hne).trans hheld)
  · change Recorded r (w.commitsOf i) (auditOf db' i)
    rw [hrows]
    change db'.requirement? i = some r at hr
    rw [hrow] at hr
    by_cases hi : i = id
    · rw [if_pos hi] at hr
      cases hr
      obtain ⟨hcommits,haudits⟩ := h.unknown i (by rw [hi]; exact hnew)
      rw [hcommits,haudits]
      exact .new id title description createdBy
    · rw [if_neg hi] at hr
      exact h.recorded i r hr
  · change w.commitsOf i = [] ∧ auditOf db' i = []
    rw [hrows]
    change db'.requirement? i = none at hn
    rw [hrow] at hn
    by_cases hi : i = id
    · rw [if_pos hi] at hn
      cases hn
    · rw [if_neg hi] at hn
      exact h.unknown i hn

theorem Sound.lock {w : World} (h : Sound w) {txn : ℕ} {call : RequirementCall}
    (hnew : w.txn? txn = none) (hfree : w.locked call.requirementId = false) :
    Sound { w with opens := w.opens ++ [⟨txn,call,w.db.requirement? call.requirementId⟩] } := by
  refine ⟨fun o ho r hr => ?_,?_,h.recorded,h.unknown⟩
  · rcases List.mem_append.mp ho with ho | ho
    · exact h.held o ho r hr
    · obtain rfl := List.mem_singleton.mp ho
      exact hr
  · refine List.pairwise_append.mpr ⟨h.alone,by simp,?_⟩
    intro o ho o' ho'
    obtain rfl := List.mem_singleton.mp ho'
    refine ⟨Table.find?_key_none.mp hnew o ho,fun hs _ hid => ?_⟩
    have hlocked : w.locked call.requirementId = true :=
      List.any_eq_true.mpr ⟨o,ho,by simp [hs,hid]⟩
    rw [hlocked] at hfree
    cases hfree

theorem Sound.others {w : World} (h : Sound w) {txn : ℕ} {o o' : Txn} (ho : w.txn? txn = some o)
    (ho' : o' ∈ w.close txn) (hs : o.row.isSome = true) (hs' : o'.row.isSome = true) :
    o'.call.requirementId ≠ o.call.requirementId := by
  obtain ⟨hmem,hid⟩ := Table.find?_key ho
  simp only [World.close,List.mem_filter,decide_eq_true_eq] at ho'
  have hne : o' ≠ o := by
    rintro rfl
    exact ho'.2 hid
  exact (h.alone.forall ho'.1 hmem hne).2 hs' hs

theorem Sound.commit {d : Digests} {w : World} (h : Sound w) {txn : ℕ} {o : Txn}
    (ho : w.txn? txn = some o) {r : Requirement} (hr : o.row = some r) {reply : RequirementReply}
    {db' : Db} (hf : o.call.finish d o.row w.db = .ok (reply,db')) :
    Sound ⟨db',w.close txn,w.commits ++ o.record reply db'⟩ := by
  have found := h.held o (Table.find?_key ho).1 r hr
  have hid := requirement?_id found
  rw [hr] at hf
  obtain ⟨r',hop,hwrites,-⟩ := RequirementCall.finish_ok found hf
  have hleft : db'.requirement? o.call.requirementId = some r' := by
    rw [hwrites.stored,if_pos hid.symm]
  have hrow : ∀ id, id ≠ o.call.requirementId → db'.requirement? id = w.db.requirement? id := by
    intro id hne
    rw [hwrites.stored,if_neg (by rw [hid]; exact hne)]
  have hcommits : ∀ id, World.commitsOf ⟨db',w.close txn,w.commits ++ o.record reply db'⟩ id =
      w.commitsOf id ++ if id = o.call.requirementId then
        [⟨o.call,r,o.call.operation r reply,some r'⟩] else [] := by
    intro id
    by_cases he : id = o.call.requirementId
    · simp [World.commitsOf,Txn.record,hr,he,hleft]
    · have hne : ¬o.call.requirementId = id := fun h => he h.symm
      simp [World.commitsOf,Txn.record,hr,he,hne]
  have haudit : ∀ id, id ≠ o.call.requirementId → auditOf db' id = auditOf w.db id := by
    intro id hne
    rcases hwrites.audited with ⟨-,ha⟩ | ⟨-,a,tells,ha⟩
    · simp only [auditOf,ha]
    · have hother : ¬a.requirementId = id := by
        rw [tells.requirement,hid]
        exact fun h => hne h.symm
      simp [auditOf,ha,hother]
  refine ⟨fun o' ho' r₂ hr₂ => ?_,h.alone.sublist (List.filter_sublist),fun id r₂ hr₂ => ?_,
    fun id hn => ?_⟩
  · have hne := h.others ho ho' (by simp [hr]) (by simp [hr₂])
    change db'.requirement? o'.call.requirementId = some r₂
    rw [hrow _ hne]
    exact h.held o' (List.mem_of_mem_filter ho') r₂ hr₂
  · change db'.requirement? id = some r₂ at hr₂
    change Recorded r₂ _ (auditOf db' id)
    rw [hcommits]
    by_cases he : id = o.call.requirementId
    · rw [if_pos he]
      rw [he,hleft] at hr₂
      cases hr₂
      rw [he]
      refine (h.recorded _ r found).snoc rfl rfl hop ?_
      rcases hwrites.audited with ⟨hsame,ha⟩ | ⟨hmoves,a,tells,ha⟩
      · exact .inl ⟨hsame,by simp only [auditOf,ha]⟩
      · exact .inr ⟨hmoves,a,tells,by simp [auditOf,ha,tells.requirement,hid]⟩
    · rw [if_neg he,List.append_nil,haudit id he]
      rw [hrow id he] at hr₂
      exact h.recorded id r₂ hr₂
  · change db'.requirement? id = none at hn
    change _ ∧ auditOf db' id = []
    have he : id ≠ o.call.requirementId := by
      rintro rfl
      rw [hleft] at hn
      cases hn
    rw [hcommits,if_neg he,List.append_nil,haudit id he]
    rw [hrow id he] at hn
    exact h.unknown id hn

theorem Sound.step {d : Digests} {w : World} (h : Sound w) (act : Act) : Sound (w.step d act) := by
  cases act with
  | create id title description createdBy conversationId =>
    simp only [World.step]
    cases hc : createRequirement id title description createdBy conversationId w.db with
    | error e => exact h
    | ok result => exact h.create hc
  | lock txn call =>
    simp only [World.step]
    split
    · exact h
    · rename_i hfree
      simp only [Bool.or_eq_true,not_or,Bool.not_eq_true,Option.isSome_eq_false_iff,
        Option.isNone_iff_eq_none] at hfree
      exact h.lock hfree.1 hfree.2
  | commit txn =>
    simp only [World.step]
    split
    · exact h
    rename_i o ho
    split
    · exact h.keep List.filter_sublist rfl rfl rfl
    · rename_i reply db' hf
      cases hr : o.row with
      | some r => exact h.commit ho hr hf
      | none =>
        rw [hr] at hf
        obtain ⟨hreq,haudit,-⟩ := RequirementCall.finish_missing hf
        exact h.keep List.filter_sublist (by simp [Txn.record,hr]) hreq haudit
  | rollback txn => exact h.keep List.filter_sublist rfl rfl rfl
  | other tables => exact h.keep (List.Sublist.refl _) rfl rfl rfl

theorem Sound.run {d : Digests} {w : World} (h : Sound w) (acts : List Act) : Sound (w.run d acts) :=
  List.foldlRecOn acts (World.step d) h (fun _ hw act _ => Sound.step hw act)

theorem history_sound (d : Digests) (acts : List Act) : Sound (history d acts) := Sound.run .init acts

/-- Over every interleaving the committed transactions on a requirement are a serial run of
the domain, an error changes no row, and the audit rows tell exactly the status changes, each
going on where the one before it ended, up to the stored status. -/
theorem requirement_history_serial (d : Digests) (acts : List Act) (id : String) (r : Requirement)
    (found : (history d acts).db.requirement? id = some r) :
    (∃ title description createdBy, Serial (.new id title description createdBy)
        ((history d acts).commitsOf id) r) ∧
      (∀ txn o e, (history d acts).txn? txn = some o →
        o.call.finish d o.row (history d acts).db = .error e →
        ((history d acts).step d (.commit txn)).db = (history d acts).db) ∧
      List.Forall₂ Commit.ToldBy (((history d acts).commitsOf id).filter Commit.moved)
        (auditOf (history d acts).db id) ∧
      Chained .draft (auditOf (history d acts).db id) r.status ∧
      (auditOf (history d acts).db id).Pairwise fun a b => a.stateVersion < b.stateVersion := by
  have hrecorded := (history_sound d acts).recorded id r found
  have hid := requirement?_id found
  refine ⟨by rw [← hid]; exact hid ▸ hrecorded.serial,?_,hrecorded.told,hrecorded.chained,
    hrecorded.ordered⟩
  intro txn o e ho he
  simp only [World.step,ho,he]

def criteria : RequirementEdit := { acceptanceCriteria := some ["It works"] }

def readyAt (revision : ℕ) : ReadinessAssessment := ⟨revision,.ready,[],[],[],0⟩

def assesses (assessmentId eventId : String) (sequence revision : ℕ) : RequirementCall :=
  .assess assessmentId ⟨eventId,"run",sequence,"req",readyAt revision,eventId⟩

/-- A draft with one requester message and one connected daemon, and a run started on it while
an edit of the draft waits for the row. -/
def startedRun : List Act :=
  [.create "req" "Title" "Text" "user" "conv",
   .other {
     registrations := [{ daemonId := "daemon", connected := true, lastSeenAt := some 0
                         capabilities := some ["agent"] }]
     conversations := [⟨"conv","req"⟩]
     messages := [{ id := "m1", conversationId := "conv", kind := .requester, body := "Hello" }] },
   .lock 1 (.start 1 "run" ⟨"c1","1"⟩ Sample.input),
   .lock 2 (.edit ⟨"req",1,"user",criteria⟩),
   .commit 1]

/-- The late edit conflicts and is made again; then an assessment is accepted, an edit is
given up, and a reviewer asks for changes. -/
def reviewedRun : List Act := startedRun ++
  [.lock 2 (.edit ⟨"req",1,"user",criteria⟩),.commit 2,
   .lock 3 (.edit ⟨"req",2,"user",criteria⟩),.commit 3,
   .lock 4 (assesses "a1" "e1" 1 2),.commit 4,
   .lock 5 (.edit ⟨"req",4,"user",{ title := some "Other" }⟩),.rollback 5,
   .lock 6 (.transition ⟨"req",4,"reviewer",.requestChanges,some "More",some "a1"⟩),.commit 6]

theorem reviewedRun_serial : ∃ r, (history Sample.digests reviewedRun).db.requirement? "req" = some r ∧
    r.status = .discussing ∧ r.stateVersion = 5 ∧
    (auditOf (history Sample.digests reviewedRun).db "req").map (·.stateVersion) = [2,4,5] ∧
    Chained .draft (auditOf (history Sample.digests reviewedRun).db "req") r.status := by
  have found : (history Sample.digests reviewedRun).db.requirement? "req" = some {
      Requirement.new "req" "Title" "Text" "user" with
      acceptanceCriteria := ["It works"], status := .discussing, revision := 2, stateVersion := 5 } := by
    decide +kernel
  refine ⟨_,found,rfl,rfl,by decide +kernel,?_⟩
  exact (requirement_history_serial _ _ _ _ found).2.2.2.1

end RequirementHistory
end North
