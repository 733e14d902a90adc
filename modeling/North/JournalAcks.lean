import North.JournalMoves

/-! The event acknowledgements of a session. The journal keeps a watermark and a sparse
list above it; this module says after which steps the two are the canonical picture of
what was acknowledged, and shows a run after which they are not. -/
namespace North
namespace Journal

open Machine Protocol

/-- A step of the daemon that bears on event acknowledgements. An acknowledgement is
followed by the compaction that the coordinator makes after it. -/
inductive AckStep
  | append (eventId sessionId : String) (event : Event) (sentAt : String)
  | acknowledge (ack : EventAck)
  | reconcile (snapshot : ReconcileSnapshot)
  | compact (sessionId : String)
  deriving DecidableEq, Repr

/-- The journal and what it was told: the acknowledgements it took, and the sessions of
the snapshots it took. -/
structure AckLedger where
  file : JournalFile := {}
  direct : List (String × ℕ) := []
  remote : List SessionReconcileState := []
  deriving DecidableEq, Repr

namespace AckLedger

/-- The sequence was acknowledged, directly or by a snapshot. -/
def Acknowledged (l : AckLedger) (sessionId : String) (seq : ℕ) : Prop :=
  (sessionId,seq) ∈ l.direct ∨ ∃ remote ∈ l.remote, remote.sessionId = sessionId ∧
    (seq ≤ remote.eventAckThroughSeq ∨ seq ∈ remote.eventAckSparse)

def reconcile (l : AckLedger) (remote : SessionReconcileState) : AckLedger :=
  { l with file := reconcileSession l.file remote, remote := remote::l.remote }

def compact (J : Handle) (l : AckLedger) (sessionId : String) : AckLedger :=
  { l with file := compactSession J sessionId l.file }

end AckLedger

/-- A refused step leaves the ledger as it is; a step whose loop never ends has no result. -/
def AckStep.run (J : Handle) : AckStep → AckLedger → Option AckLedger
  | .append eventId sessionId event sentAt, l =>
    match appendEvent J eventId sessionId event (fun _ => sentAt) l.file with
    | .ok (_,s) => some { l with file := s }
    | .error _ => some l
  | .acknowledge ack, l =>
    match ack.validate with
    | .error _ => some l
    | .ok _ =>
      match acknowledgeEvent ack l.file with
      | none => none
      | some (.error _) => some l
      | some (.ok (_,s)) =>
        some (AckLedger.compact J ⟨s,(ack.sessionId,ack.daemonEventSeq)::l.direct,l.remote⟩
          ack.sessionId)
  | .reconcile snapshot, l =>
    match snapshot.validate with
    | .error _ => some l
    | .ok _ => some (snapshot.sessions.foldl AckLedger.reconcile l)
  | .compact sessionId, l => some (l.compact J sessionId)

def runAckSteps (J : Handle) : List AckStep → AckLedger → Option AckLedger
  | [], l => some l
  | step::steps, l => (step.run J l).bind (runAckSteps J steps)

/-- The sparse entries that follow `seq` without a gap still have their live record. -/
def BlockLive (s : JournalFile) (sessionId : String) (seq : ℕ) : Prop :=
  ∀ m ∈ (s.session sessionId).eventAckSparse, seq < m →
    (∀ k ∈ List.range m, seq < k → k ∈ (s.session sessionId).eventAckSparse) →
    s.acknowledgedAt sessionId m = true

instance (s : JournalFile) (sessionId : String) (seq : ℕ) : Decidable (BlockLive s sessionId seq) :=
  inferInstanceAs (Decidable (∀ m ∈ (s.session sessionId).eventAckSparse, _ → _ → _))

/-- The snapshot leaves no sparse entry right above the raised watermark. -/
def LeavesGap (s : JournalFile) (remote : SessionReconcileState) : Prop :=
  max (s.session remote.sessionId).eventAckThroughSeq remote.eventAckThroughSeq+1 ∉
    (s.session remote.sessionId).eventAckSparse ++ remote.eventAckSparse

instance (s : JournalFile) (remote : SessionReconcileState) : Decidable (LeavesGap s remote) :=
  inferInstanceAs (Decidable (_ ∉ _))

/-- The acknowledgement is the first one of a live record right above the watermark. -/
def FillsGap (s : JournalFile) (ack : EventAck) : Prop :=
  ack.validate.isOk = true ∧
    (s.events.find? fun r => decide (r.envelope.eventId = ack.eventId)).any (fun r =>
      r.envelope.sessionId == ack.sessionId && r.envelope.daemonEventSeq == ack.daemonEventSeq &&
        !r.acknowledged) = true ∧
    ack.daemonEventSeq = (s.session ack.sessionId).eventAckThroughSeq+1

instance (s : JournalFile) (ack : EventAck) : Decidable (FillsGap s ack) :=
  inferInstanceAs (Decidable (_ ∧ _ ∧ _))

/-- The condition on a step and the journal before it. -/
def AckStep.Safe (s : JournalFile) : AckStep → Prop
  | .append _ _ _ _ => True
  | .acknowledge ack => FillsGap s ack → BlockLive s ack.sessionId ack.daemonEventSeq
  | .reconcile snapshot => snapshot.validate.isOk = true →
    ∀ remote ∈ snapshot.sessions, LeavesGap s remote
  | .compact _ => True

instance (s : JournalFile) : (step : AckStep) → Decidable (step.Safe s)
  | .append _ _ _ _ => inferInstanceAs (Decidable True)
  | .acknowledge _ => inferInstanceAs (Decidable (_ → _))
  | .reconcile _ => inferInstanceAs (Decidable (_ → ∀ remote ∈ _, _))
  | .compact _ => inferInstanceAs (Decidable True)

/-- The sequence numbers of a step are 64-bit integers. -/
def AckStep.InRange : AckStep → Prop
  | .append _ _ _ _ => True
  | .acknowledge ack => ack.daemonEventSeq ≤ u64Max
  | .reconcile snapshot => ∀ remote ∈ snapshot.sessions,
    remote.eventAckThroughSeq ≤ u64Max ∧ ∀ m ∈ remote.eventAckSparse, m ≤ u64Max
  | .compact _ => True

instance : (step : AckStep) → Decidable step.InRange
  | .append _ _ _ _ => inferInstanceAs (Decidable True)
  | .acknowledge _ => inferInstanceAs (Decidable (_ ≤ _))
  | .reconcile _ => inferInstanceAs (Decidable (∀ remote ∈ _, _ ∧ _))
  | .compact _ => inferInstanceAs (Decidable True)

/-- Every step of the run meets the condition in the journal it finds. -/
def SafeAckRun (J : Handle) : List AckStep → AckLedger → Prop
  | [], _ => True
  | step::steps, l => step.InRange ∧ step.Safe l.file ∧
    ∀ l' ∈ step.run J l, SafeAckRun J steps l'

instance (J : Handle) : (steps : List AckStep) → (l : AckLedger) → Decidable (SafeAckRun J steps l)
  | [], _ => inferInstanceAs (Decidable True)
  | step::steps, l =>
    have (l' : AckLedger) : Decidable (SafeAckRun J steps l') := instDecidableSafeAckRun J steps l'
    inferInstanceAs (Decidable (_ ∧ _ ∧ ∀ l' ∈ step.run J l, _))

/-- The session's cursor is the canonical picture of its acknowledged sequences, and the
acknowledged records and tombstones are among them. -/
structure AckLedger.Faithful (l : AckLedger) : Prop where
  canonical : ∀ id, Canonical (l.Acknowledged id) (l.file.session id).eventAckThroughSeq
    (l.file.session id).eventAckSparse
  live : ∀ r ∈ l.file.events, r.acknowledged = true →
    l.Acknowledged r.envelope.sessionId r.envelope.daemonEventSeq
  buried : ∀ t ∈ l.file.eventTombstones, l.Acknowledged t.sessionId t.daemonEventSeq
  bound : ∀ id m, l.Acknowledged id m → m ≤ u64Max

section

variable {J : Handle} {l l' : AckLedger}

theorem acknowledgedAt_iff (s : JournalFile) (id : String) (seq : ℕ) :
    s.acknowledgedAt id seq = true ↔ ∃ r ∈ s.events, r.acknowledged = true ∧
      r.envelope.sessionId = id ∧ r.envelope.daemonEventSeq = seq := by
  simp only [JournalFile.acknowledgedAt,List.any_eq_true,Bool.and_eq_true,beq_iff_eq]
  constructor
  · rintro ⟨r,hr,⟨hs,hq⟩,ha⟩
    exact ⟨r,hr,ha,hs,hq⟩
  · rintro ⟨r,hr,ha,hs,hq⟩
    exact ⟨r,hr,⟨hs,hq⟩,ha⟩

theorem AckLedger.Faithful.through_le (h : l.Faithful) (id : String) :
    (l.file.session id).eventAckThroughSeq ≤ u64Max := by
  rcases Nat.eq_zero_or_pos (l.file.session id).eventAckThroughSeq with hz | hpos
  · omega
  · exact h.bound id _ ((h.canonical id).watermark.all hpos le_rfl)

theorem faithful_fresh : ({} : AckLedger).Faithful where
  canonical id := by
    refine ⟨Watermark.iff_next.mpr ⟨fun m hm hle => ?_,?_⟩,List.Pairwise.nil,fun m => ?_⟩
    · have : m ≤ 0 := hle
      omega
    · simp [AckLedger.Acknowledged]
    · simp [AckLedger.Acknowledged,JournalFile.session,OrdMap.get,OrdMap.find]
  live := by simp
  buried := by simp
  bound := by simp [AckLedger.Acknowledged]

theorem AckLedger.Faithful.compact (h : l.Faithful) (sessionId : String) :
    (l.compact J sessionId).Faithful where
  canonical := h.canonical
  live r hr ha := h.live r (List.mem_of_mem_filter hr) ha
  buried t ht := by
    rcases List.mem_append.mp ht with ht | ht
    · exact h.buried t ht
    · obtain ⟨r,hr,rfl⟩ := List.mem_map.mp ht
      obtain ⟨hmem,hc⟩ := List.mem_filter.mp hr
      simp only [compactableEvent,Bool.and_eq_true] at hc
      exact h.live r hmem hc.1.2
  bound := h.bound

theorem AckLedger.Faithful.append (h : l.Faithful) {eventId sessionId : String} {event : Event}
    {now : Clock} {a : AppendedEvent} {s : JournalFile}
    (ha : appendEvent J eventId sessionId event now l.file = .ok (a,s)) :
    ({ l with file := s } : AckLedger).Faithful := by
  obtain rfl | ⟨-,-,-,rfl⟩ := appendEvent_cases ha
  · exact h
  · refine ⟨h.canonical,fun r hr hack => ?_,h.buried,h.bound⟩
    rcases List.mem_append.mp hr with hr | hr
    · exact h.live r hr hack
    · rw [List.mem_singleton.mp hr] at hack
      simp [eventRecord] at hack

theorem acknowledged_reconcile (l : AckLedger) (remote : SessionReconcileState) (id : String)
    (m : ℕ) : (l.reconcile remote).Acknowledged id m ↔ l.Acknowledged id m ∨
      (remote.sessionId = id ∧ (m ≤ remote.eventAckThroughSeq ∨ m ∈ remote.eventAckSparse)) := by
  simp only [AckLedger.Acknowledged,AckLedger.reconcile,List.mem_cons,or_and_right,exists_or,
    exists_eq_left]
  rw [or_assoc]
  exact or_congr_right or_comm

theorem covers_iff (x : SessionJournal) (m : ℕ) :
    x.covers m = true ↔ m ≤ x.eventAckThroughSeq ∨ m ∈ x.eventAckSparse := by
  simp [SessionJournal.covers]

theorem mem_mergeWatermarks_sparse (remote : SessionReconcileState) (x : SessionJournal) (m : ℕ) :
    m ∈ (mergeWatermarks remote x).eventAckSparse ↔
      m ∈ x.eventAckSparse ++ remote.eventAckSparse ∧
        max x.eventAckThroughSeq remote.eventAckThroughSeq < m := by
  simp only [mergeWatermarks,mergeSparse,List.mem_filter,mem_sortDedup,decide_eq_true_eq]

theorem reconcile_session (s : JournalFile) (remote : SessionReconcileState) (id : String) :
    (reconcileSession s remote).session id =
      if id = remote.sessionId then mergeWatermarks remote (s.session id) else s.session id := by
  have h := s.session_modify remote.sessionId id (mergeWatermarks remote)
  split_ifs at h ⊢ with hid
  · rw [hid] at h ⊢
    exact h
  · exact h

/-- What the merged session covers is what is acknowledged after the snapshot. -/
theorem covers_merge (h : l.Faithful) (remote : SessionReconcileState) {m : ℕ} (hm : 0 < m) :
    (mergeWatermarks remote (l.file.session remote.sessionId)).covers m = true ↔
      (l.reconcile remote).Acknowledged remote.sessionId m := by
  rw [acknowledged_reconcile,(h.canonical remote.sessionId).iff_covered hm,covers_iff,
    mem_mergeWatermarks_sparse,List.mem_append]
  change m ≤ max (l.file.session remote.sessionId).eventAckThroughSeq remote.eventAckThroughSeq ∨ _ ↔ _
  constructor
  · rintro (hle | ⟨hmem | hmem,-⟩)
    · rcases Nat.le_total (l.file.session remote.sessionId).eventAckThroughSeq
        remote.eventAckThroughSeq with hmax | hmax
      · exact .inr ⟨rfl,.inl (by omega)⟩
      · exact .inl (.inl (by omega))
    · exact .inl (.inr hmem)
    · exact .inr ⟨rfl,.inr hmem⟩
  · intro hack
    by_cases hle : m ≤ max (l.file.session remote.sessionId).eventAckThroughSeq
        remote.eventAckThroughSeq
    · exact .inl hle
    · refine .inr ⟨?_,by omega⟩
      rcases hack with (hle' | hmem) | ⟨-,hle' | hmem⟩
      · omega
      · exact .inl hmem
      · omega
      · exact .inr hmem

/-- A snapshot that leaves a gap above the raised watermark keeps the picture canonical. -/
theorem AckLedger.Faithful.reconcile (h : l.Faithful) {remote : SessionReconcileState}
    (hgap : LeavesGap l.file remote) (hrange : remote.eventAckThroughSeq ≤ u64Max ∧
      ∀ m ∈ remote.eventAckSparse, m ≤ u64Max) : (l.reconcile remote).Faithful := by
  have hold : ∀ id m, l.Acknowledged id m → (l.reconcile remote).Acknowledged id m :=
    fun id m hm => (acknowledged_reconcile l remote id m).mpr (.inl hm)
  refine ⟨fun id => ?_,fun r hr hack => ?_,fun t ht => hold _ _ (h.buried t ht),fun id m hm => ?_⟩
  · rw [show (l.reconcile remote).file.session id = _ from reconcile_session l.file remote id]
    split_ifs with hid
    · subst hid
      refine Canonical.of_sortDedup (Watermark.iff_next.mpr ⟨fun m hm hle => ?_,fun hnext => ?_⟩)
        fun m hlt => ?_
      · exact (covers_merge h remote hm).mp ((covers_iff _ _).mpr (.inl hle))
      · have hcov := (covers_iff _ _).mp ((covers_merge h remote (by omega)).mpr hnext)
        rcases hcov with hcov | hcov
        · exact absurd hcov (by omega)
        · exact hgap ((mem_mergeWatermarks_sparse _ _ _).mp hcov).1
      · have hpos : 0 < m := by omega
        rw [← covers_merge h remote hpos,covers_iff,mem_mergeWatermarks_sparse]
        constructor
        · exact fun hmem => .inr ⟨hmem,hlt⟩
        · rintro (hle | hmem)
          · exact absurd hle (Nat.not_le.mpr hlt)
          · exact hmem.1
    · refine (h.canonical id).congr fun m _ => ?_
      rw [acknowledged_reconcile]
      have hne : ¬ remote.sessionId = id := fun heq => hid heq.symm
      simp [hne]
  · obtain ⟨x,hx,rfl⟩ := List.mem_map.mp hr
    split_ifs at hack ⊢ with hcov
    · rw [hcov.1]
      rcases Nat.eq_zero_or_pos x.envelope.daemonEventSeq with hz | hpos
      · rw [hz]
        exact (acknowledged_reconcile _ _ _ _).mpr (.inr ⟨rfl,.inl (Nat.zero_le _)⟩)
      · exact (covers_merge h remote hpos).mp hcov.2
    · exact hold _ _ (h.live x hx hack)
  · rcases (acknowledged_reconcile l remote id m).mp hm with hm | ⟨-,hm | hm⟩
    · exact h.bound id m hm
    · exact hm.trans hrange.1
    · exact hrange.2 m hm

theorem AckLedger.Faithful.reconcileAll (h : l.Faithful) (sessions : List SessionReconcileState)
    (hids : (sessions.map (·.sessionId)).Nodup) (hgap : ∀ r ∈ sessions, LeavesGap l.file r)
    (hrange : ∀ r ∈ sessions, r.eventAckThroughSeq ≤ u64Max ∧ ∀ m ∈ r.eventAckSparse, m ≤ u64Max) :
    (sessions.foldl AckLedger.reconcile l).Faithful := by
  induction sessions generalizing l with
  | nil => exact h
  | cons remote rest ih =>
    rw [List.map_cons,List.nodup_cons] at hids
    refine ih (h.reconcile (hgap remote (by simp)) (hrange remote (by simp))) hids.2 (fun r hr => ?_)
      fun r hr => hrange r (by simp [hr])
    -- the sessions are distinct, so the snapshot of one leaves the others as they were
    have hne : r.sessionId ≠ remote.sessionId :=
      fun heq => hids.1 (List.mem_map.mpr ⟨r,hr,heq⟩)
    have hsession : (l.reconcile remote).file.session r.sessionId = l.file.session r.sessionId := by
      simp only [AckLedger.reconcile,reconcile_session,hne,if_false]
    simp only [LeavesGap,hsession]
    exact hgap r (by simp [hr])

/-- The ledger after an acknowledgement that it took. -/
def AckLedger.take (l : AckLedger) (s : JournalFile) (ack : EventAck) : AckLedger :=
  ⟨s,(ack.sessionId,ack.daemonEventSeq)::l.direct,l.remote⟩

theorem acknowledged_take (l : AckLedger) (s : JournalFile) (ack : EventAck) (id : String) (m : ℕ) :
    (l.take s ack).Acknowledged id m ↔
      l.Acknowledged id m ∨ (id = ack.sessionId ∧ m = ack.daemonEventSeq) := by
  simp only [AckLedger.Acknowledged,AckLedger.take,List.mem_cons,Prod.mk.injEq]
  rw [or_assoc,or_comm]

theorem AckLedger.Faithful.take_known (h : l.Faithful) {s : JournalFile} {ack : EventAck}
    (hknown : l.Acknowledged ack.sessionId ack.daemonEventSeq)
    (hsessions : s.sessions = l.file.sessions)
    (hlive : ∀ r ∈ s.events, r.acknowledged = true → l.Acknowledged r.envelope.sessionId
      r.envelope.daemonEventSeq)
    (hburied : ∀ t ∈ s.eventTombstones, l.Acknowledged t.sessionId t.daemonEventSeq) :
    (l.take s ack).Faithful := by
  have hsame : ∀ id m, (l.take s ack).Acknowledged id m ↔ l.Acknowledged id m := by
    intro id m
    rw [acknowledged_take]
    constructor
    · rintro (hm | ⟨rfl,rfl⟩)
      · exact hm
      · exact hknown
    · exact .inl
  have hsession : ∀ id, s.session id = l.file.session id := fun id => by
    simp [JournalFile.session,hsessions]
  refine ⟨fun id => ?_,fun r hr ha => (hsame _ _).mpr (hlive r hr ha),
    fun t ht => (hsame _ _).mpr (hburied t ht),fun id m hm => h.bound id m ((hsame _ _).mp hm)⟩
  change Canonical _ (s.session id).eventAckThroughSeq (s.session id).eventAckSparse
  rw [hsession]
  exact (h.canonical id).congr fun m _ => (hsame id m).symm

/-- The watermark after a new acknowledgement `n`: the loop over the live marks stops
where the acknowledged sequences have their first gap. -/
theorem advance_watermark {p q : ℕ → Prop} {through n fuel cursor : ℕ} {sparse : List ℕ}
    {marked : ℕ → Bool} (h : Canonical p through sparse) (hle : through ≤ u64Max) (hn : 0 < n)
    (hnle : n ≤ u64Max) (hq : ∀ m, q m ↔ p m ∨ m = n) (hmark : ∀ m, marked m = true → q m)
    (hself : marked n = true)
    (hblock : n = through+1 → ∀ m ∈ sparse, n < m → (∀ k ∈ List.range m, n < k → k ∈ sparse) →
      marked m = true)
    (hadvance : Watermark.advance u64Max marked fuel through = some cursor) :
    through ≤ cursor ∧ Watermark q cursor := by
  rcases Nat.lt_or_ge through u64Max with hlt | hge
  · obtain ⟨hup,hbound,hall,hnext⟩ := Watermark.advance_spec hlt hadvance
    refine ⟨hup,Watermark.iff_next.mpr ⟨fun m hm hmc => ?_,fun hgap => ?_⟩⟩
    · rcases Nat.lt_or_ge through m with hgt | hge
      · exact hmark m (hall m hgt hmc)
      · exact (hq m).mpr (.inl (h.watermark.all hm hge))
    · -- the next sequence is acknowledged but has no live mark
      have hstop : ∀ m, marked m = true → m ≠ cursor+1 := by
        rintro m hm rfl
        simp [hm] at hnext
      have hp : p (cursor+1) := by
        rcases (hq _).mp hgap with hp | hself'
        · exact hp
        · exact absurd hself'.symm (hstop n hself)
      have hmoved : through < cursor := by
        rcases Nat.lt_or_ge through cursor with hlt' | hge'
        · exact hlt'
        · obtain rfl : cursor = through := by omega
          exact absurd hp h.watermark.next
      have hfill : n = through+1 := by
        rcases (hq _).mp (hmark _ (hall (through+1) (by omega) (by omega))) with hp' | hn'
        · exact absurd hp' h.watermark.next
        · exact hn'.symm
      refine hstop _ (hblock hfill (cursor+1) ((h.above _).mpr ⟨by omega,hp⟩) (by omega)
        fun k hk hnk => ?_) rfl
      rw [List.mem_range] at hk
      rw [h.above]
      refine ⟨by omega,?_⟩
      rcases (hq k).mp (hmark k (hall k (by omega) (by omega))) with hp' | hk'
      · exact hp'
      · omega
  · obtain rfl : through = u64Max := by omega
    obtain ⟨rfl,hfree⟩ := Watermark.advance_bound hadvance
    refine ⟨le_rfl,h.watermark.congr fun m hm => ?_⟩
    rw [hq]
    constructor
    · exact .inl
    · rintro (hp | rfl)
      · exact hp
      · exact h.watermark.all hn hnle

theorem noteAcknowledged_mem (ack : EventAck) (x : SessionJournal) (m : ℕ) :
    m ∈ (noteAcknowledged ack x).eventAckSparse ↔ m ∈ x.eventAckSparse ∨
      (m = ack.daemonEventSeq ∧ x.eventAckThroughSeq < m) := by
  unfold noteAcknowledged
  split_ifs with hlt
  · simp only [mem_sortDedup,List.mem_append,List.mem_singleton]
    constructor
    · rintro (hm | rfl)
      · exact .inl hm
      · exact .inr ⟨rfl,hlt⟩
    · rintro (hm | hm)
      · exact .inl hm
      · exact .inr hm.1
  · constructor
    · exact .inl
    · rintro (hm | ⟨rfl,hm⟩)
      · exact hm
      · exact absurd hm hlt

theorem noteAcknowledged_through (ack : EventAck) (x : SessionJournal) :
    (noteAcknowledged ack x).eventAckThroughSeq = x.eventAckThroughSeq := by
  unfold noteAcknowledged
  split_ifs <;> rfl

theorem noteAcknowledged_ascending (ack : EventAck) {x : SessionJournal}
    (hx : x.eventAckSparse.Pairwise (· < ·)) :
    (noteAcknowledged ack x).eventAckSparse.Pairwise (· < ·) := by
  unfold noteAcknowledged
  split_ifs
  · exact sortDedup_ascending _
  · exact hx

theorem canonical_raise {p q : ℕ → Prop} {x : SessionJournal} {ack : EventAck} {cursor : ℕ}
    (h : Canonical p x.eventAckThroughSeq x.eventAckSparse)
    (hq : ∀ m, q m ↔ p m ∨ m = ack.daemonEventSeq) (hle : x.eventAckThroughSeq ≤ cursor)
    (hw : Watermark q cursor) :
    Canonical q ((noteAcknowledged ack x).raiseEventAck cursor).eventAckThroughSeq
      ((noteAcknowledged ack x).raiseEventAck cursor).eventAckSparse := by
  have hmem : ∀ m, m ∈ (noteAcknowledged ack x).eventAckSparse ↔ x.eventAckThroughSeq < m ∧ q m := by
    intro m
    rw [noteAcknowledged_mem,h.above,hq]
    constructor
    · rintro (⟨hlt,hp⟩ | ⟨rfl,hlt⟩)
      · exact ⟨hlt,.inl hp⟩
      · exact ⟨hlt,.inr rfl⟩
    · rintro ⟨hlt,hp | hm⟩
      · exact .inl ⟨hlt,hp⟩
      · exact .inr ⟨hm,hlt⟩
  have hasc := noteAcknowledged_ascending ack h.ascending
  unfold SessionJournal.raiseEventAck
  rw [noteAcknowledged_through]
  split_ifs with hlt
  · refine ⟨hw,hasc.filter _,fun m => ?_⟩
    simp only [List.mem_filter,decide_eq_true_eq,hmem]
    constructor
    · exact fun hm => ⟨hm.2,hm.1.2⟩
    · exact fun hm => ⟨⟨by omega,hm.2⟩,hm.1⟩
  · obtain rfl : cursor = x.eventAckThroughSeq := by omega
    rw [noteAcknowledged_through]
    exact ⟨hw,hasc,hmem⟩

theorem markAcknowledged_live {s : JournalFile} {ack : EventAck} {r x : EventRecord}
    (hfind : s.events.find? (fun r => decide (r.envelope.eventId = ack.eventId)) = some r)
    (hx : x ∈ (markAcknowledged s ack).events) (hack : x.acknowledged = true) :
    (x ∈ s.events ∧ x.acknowledged = true) ∨ x = acknowledge ack.status r := by
  rcases Table.mem_updateFirst hx with hx | ⟨y,hy,rfl⟩
  · exact .inl ⟨hx,hack⟩
  · rw [Option.some.inj (hfind.symm.trans hy)]
    exact .inr rfl

theorem markAcknowledged_session (s : JournalFile) (ack : EventAck) (id : String) :
    (markAcknowledged s ack).session id = if id = ack.sessionId then
      noteAcknowledged ack (s.session ack.sessionId) else s.session id :=
  s.session_modify ack.sessionId id (noteAcknowledged ack)

/-- A new acknowledgement keeps the picture canonical if the block above it is live. -/
theorem AckLedger.Faithful.take_new (h : l.Faithful) {s : JournalFile} {ack : EventAck}
    {r : EventRecord} (hpos : 0 < ack.daemonEventSeq) (hrange : ack.daemonEventSeq ≤ u64Max)
    (hfind : l.file.events.find? (fun r => decide (r.envelope.eventId = ack.eventId)) = some r)
    (hsession : r.envelope.sessionId = ack.sessionId)
    (hseq : r.envelope.daemonEventSeq = ack.daemonEventSeq)
    (hsafe : ack.daemonEventSeq = (l.file.session ack.sessionId).eventAckThroughSeq+1 →
      BlockLive l.file ack.sessionId ack.daemonEventSeq)
    (hadvance : advanceEventAck (markAcknowledged l.file ack) ack.sessionId = some s) :
    (l.take s ack).Faithful := by
  have hsame := acknowledged_take l s ack
  obtain ⟨cursor,hcursor,hs⟩ := advanceEventAck_cases hadvance
  have hevents : s.events = (markAcknowledged l.file ack).events := by rw [hs]
  have hlive : ∀ x ∈ s.events, x.acknowledged = true →
      (l.take s ack).Acknowledged x.envelope.sessionId x.envelope.daemonEventSeq := by
    intro x hx hack
    rw [hsame]
    rcases markAcknowledged_live hfind (hevents ▸ hx) hack with ⟨hx,hack⟩ | rfl
    · exact .inl (h.live x hx hack)
    · exact .inr ⟨hsession,hseq⟩
  have hstart : ((markAcknowledged l.file ack).session ack.sessionId).eventAckThroughSeq =
      (l.file.session ack.sessionId).eventAckThroughSeq := by
    rw [markAcknowledged_session,if_pos rfl,noteAcknowledged_through]
  rw [hstart] at hcursor
  have hmarks : ∀ m, (markAcknowledged l.file ack).acknowledgedAt ack.sessionId m = true →
      (l.take s ack).Acknowledged ack.sessionId m := by
    intro m hm
    obtain ⟨x,hx,hack,hxs,rfl⟩ := (acknowledgedAt_iff _ _ _).mp hm
    rw [← hxs]
    exact hlive x (hevents ▸ hx) hack
  have hself : (markAcknowledged l.file ack).acknowledgedAt ack.sessionId ack.daemonEventSeq =
      true :=
    (acknowledgedAt_iff _ _ _).mpr ⟨acknowledge ack.status r,Table.updated_mem hfind,rfl,hsession,
      hseq⟩
  have hkeep : ∀ m, l.file.acknowledgedAt ack.sessionId m = true →
      (markAcknowledged l.file ack).acknowledgedAt ack.sessionId m = true := by
    intro m hm
    exact (acknowledgedAt_iff _ _ _).mpr (Table.exists_updateFirst
      (fun x hx => ⟨rfl,hx.2⟩) ((acknowledgedAt_iff _ _ _).mp hm))
  have hq : ∀ m, (l.take s ack).Acknowledged ack.sessionId m ↔
      l.Acknowledged ack.sessionId m ∨ m = ack.daemonEventSeq := fun m => by
    rw [hsame]
    simp
  obtain ⟨hup,hwater⟩ := advance_watermark (h.canonical ack.sessionId) (h.through_le _) hpos hrange
    hq hmarks hself (fun hfill m hm hlt hall => hkeep m (hsafe hfill m hm hlt hall)) hcursor
  refine ⟨fun id => ?_,hlive,fun t ht => ?_,fun id m hm => ?_⟩
  · have hsess : s.session id = if id = ack.sessionId then
        (noteAcknowledged ack (l.file.session ack.sessionId)).raiseEventAck cursor
        else l.file.session id := by
      rw [hs,(markAcknowledged l.file ack).session_modify ack.sessionId id (·.raiseEventAck cursor),
        markAcknowledged_session,markAcknowledged_session,if_pos rfl]
      split_ifs <;> rfl
    change Canonical _ (s.session id).eventAckThroughSeq (s.session id).eventAckSparse
    rw [hsess]
    split_ifs with hid
    · subst hid
      exact canonical_raise (h.canonical ack.sessionId) hq hup hwater
    · refine (h.canonical id).congr fun m _ => ?_
      rw [hsame]
      simp [hid]
  · have htomb : s.eventTombstones = l.file.eventTombstones := by rw [hs]; rfl
    exact (hsame _ _).mpr (.inl (h.buried t (htomb ▸ ht)))
  · rcases (hsame id m).mp hm with hm | ⟨-,rfl⟩
    · exact h.bound id m hm
    · exact hrange

theorem AckStep.run_faithful {step : AckStep} (h : l.Faithful) (hrange : step.InRange)
    (hsafe : step.Safe l.file) (hrun : step.run J l = some l') : l'.Faithful := by
  cases step with
  | append eventId sessionId event sentAt =>
    simp only [AckStep.run] at hrun
    split at hrun
    · rename_i a s happend
      obtain rfl := Option.some.inj hrun
      exact h.append happend
    · obtain rfl := Option.some.inj hrun
      exact h
  | acknowledge ack =>
    simp only [AckStep.run] at hrun
    split at hrun
    · obtain rfl := Option.some.inj hrun
      exact h
    · rename_i hvalid
      split at hrun
      · simp at hrun
      · obtain rfl := Option.some.inj hrun
        exact h
      · rename_i s hack
        obtain rfl := Option.some.inj hrun
        apply AckLedger.Faithful.compact
        change (l.take s ack).Faithful
        obtain ⟨t,ht,-,hsession,hseq,rfl⟩ | ⟨r,hfind,hsession,hseq,⟨hr,rfl⟩ | ⟨hr,hadvance⟩⟩ :=
          acknowledgeEvent_cases hack
        · refine h.take_known (hsession ▸ hseq ▸ h.buried t ht) rfl h.live ?_
          exact Table.forall_updateFirst (f := fillTombstoneStatus ack.status) (fun x hx => hx) h.buried
        · refine h.take_known (hsession ▸ hseq ▸ h.live r (List.mem_of_find?_eq_some hfind) hr)
            rfl ?_ h.buried
          exact Table.forall_updateFirst (f := fillStatus ack.status) (fun x hx => hx) h.live
        · exact h.take_new (EventAck.validate_ok hvalid) hrange hfind hsession hseq
            (fun hnext => hsafe ⟨by rw [hvalid]; rfl,by simp [hfind,hr,hsession,hseq],hnext⟩)
            hadvance
  | reconcile snapshot =>
    simp only [AckStep.run] at hrun
    split at hrun
    · obtain rfl := Option.some.inj hrun
      exact h
    · rename_i hvalid
      obtain rfl := Option.some.inj hrun
      exact h.reconcileAll snapshot.sessions (ReconcileSnapshot.validate_ok hvalid)
        (hsafe (by rw [hvalid]; rfl)) hrange
  | compact sessionId =>
    obtain rfl := Option.some.inj hrun
    exact h.compact sessionId

theorem runAckSteps_faithful {steps : List AckStep} (h : l.Faithful) (hsafe : SafeAckRun J steps l)
    (hrun : runAckSteps J steps l = some l') : l'.Faithful := by
  induction steps generalizing l with
  | nil =>
    obtain rfl := Option.some.inj hrun
    exact h
  | cons step steps ih =>
    obtain ⟨l₁,hstep,hrest⟩ := Option.bind_eq_some_iff.mp hrun
    exact ih (AckStep.run_faithful h hsafe.1 hsafe.2.1 hstep) (hsafe.2.2 l₁ hstep) hrest

/-- In a run whose steps all meet the condition, the acknowledged part of every session is
shown by its watermark and sparse list, and by nothing less. -/
theorem acknowledgements_canonical (J : Handle) (steps : List AckStep)
    (hsafe : SafeAckRun J steps {}) (l : AckLedger) (hrun : runAckSteps J steps {} = some l)
    (id : String) : Canonical (l.Acknowledged id) (l.file.session id).eventAckThroughSeq
      (l.file.session id).eventAckSparse :=
  (runAckSteps_faithful faithful_fresh hsafe hrun).canonical id

end

def activityStep (eventId : String) : AckStep :=
  .append eventId "session-1" (.agentActivity "working") "1"

def acceptedAck (eventId : String) (seq : ℕ) : EventAck :=
  ⟨eventId,"session-1",seq,1,.accepted,none⟩

/-- The first and the third of three events, then a snapshot that knows the first. -/
def orderlyAcks : List AckStep :=
  [activityStep "e1",activityStep "e2",activityStep "e3",.acknowledge (acceptedAck "e1" 1),
    .acknowledge (acceptedAck "e3" 3),.reconcile ⟨1,[⟨"session-1",0,1,[]⟩]⟩]

theorem orderlyAcks_canonical : ∃ l, runAckSteps plainHandle orderlyAcks {} = some l ∧
    ((l.file.session "session-1").eventAckThroughSeq = 1 ∧
      (l.file.session "session-1").eventAckSparse = [3]) ∧
    Canonical (l.Acknowledged "session-1") (l.file.session "session-1").eventAckThroughSeq
      (l.file.session "session-1").eventAckSparse := by
  have hcursor : (runAckSteps plainHandle orderlyAcks {}).map (fun l =>
      ((l.file.session "session-1").eventAckThroughSeq,
        (l.file.session "session-1").eventAckSparse)) = some (1,[3]) := by decide +kernel
  obtain ⟨l,hrun,hl⟩ := Option.map_eq_some_iff.mp hcursor
  exact ⟨l,hrun,Prod.mk.inj hl,acknowledgements_canonical plainHandle orderlyAcks
    (by decide +kernel) l hrun "session-1"⟩

/-- The second of two events is acknowledged, and so compacted, before the first. -/
def crossedAcks : List AckStep :=
  [activityStep "e1",activityStep "e2",.acknowledge (acceptedAck "e2" 2),
    .acknowledge (acceptedAck "e1" 1)]

/-- Both events are acknowledged, but the watermark stays at the first for good. -/
theorem crossedAcks_not_canonical : ∃ l, runAckSteps plainHandle crossedAcks {} = some l ∧
    ((l.file.session "session-1").eventAckThroughSeq = 1 ∧
      (l.file.session "session-1").eventAckSparse = [2]) ∧
    l.Acknowledged "session-1" 1 ∧ l.Acknowledged "session-1" 2 ∧
    ¬ Canonical (l.Acknowledged "session-1") (l.file.session "session-1").eventAckThroughSeq
      (l.file.session "session-1").eventAckSparse := by
  have hcursor : (runAckSteps plainHandle crossedAcks {}).map (fun l =>
      (((l.file.session "session-1").eventAckThroughSeq,
        (l.file.session "session-1").eventAckSparse),l.direct)) =
      some ((1,[2]),[("session-1",1),("session-1",2)]) := by decide +kernel
  obtain ⟨l,hrun,hl⟩ := Option.map_eq_some_iff.mp hcursor
  obtain ⟨hl,hdirect⟩ := Prod.mk.inj hl
  obtain ⟨hthrough,hsparse⟩ := Prod.mk.inj hl
  have hone : l.Acknowledged "session-1" 1 := .inl (by simp [hdirect])
  have htwo : l.Acknowledged "session-1" 2 := .inl (by simp [hdirect])
  refine ⟨l,hrun,⟨hthrough,hsparse⟩,hone,htwo,fun hcanonical => ?_⟩
  rw [hthrough] at hcanonical
  exact hcanonical.watermark.next htwo

end Journal
end North
