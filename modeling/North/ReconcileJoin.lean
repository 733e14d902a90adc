import North.JournalAcks
import North.JournalResults
import Mathlib.Order.ConditionallyCompleteLattice.Basic
import Mathlib.Data.Set.Lattice

/-! Reconciliation as a join. What a journal has acknowledged is one set of sequences for
each session; a snapshot is another such family, and taking it in is their union. The
flags of the live events and the replay are read off that union. -/
namespace North
namespace Journal

open Machine Protocol Prog

/-- A family of acknowledged sequences, one set for each session. -/
abbrev AckSets := String → Set ℕ

def JournalFile.acked (s : JournalFile) : AckSets := fun id => {m | (s.session id).covers m = true}

def remoteAcked (remote : SessionReconcileState) : AckSets := fun id =>
  {m | id = remote.sessionId ∧ (m ≤ remote.eventAckThroughSeq ∨ m ∈ remote.eventAckSparse)}

def remotesAcked (sessions : List SessionReconcileState) : AckSets := fun id =>
  {m | ∃ remote ∈ sessions, m ∈ remoteAcked remote id}

/-- The events of the named sessions whose sequence is acknowledged. -/
def ackedEvents (sessions : List SessionReconcileState) (acked : AckSets) : Set EventEnvelope :=
  {e | (∃ remote ∈ sessions, e.sessionId = remote.sessionId) ∧ e.daemonEventSeq ∈ acked e.sessionId}

open Classical in
/-- The record with its flag set when its event is in the set. -/
noncomputable def flagged (P : Set EventEnvelope) (r : EventRecord) : EventRecord :=
  if r.envelope ∈ P then { r with acknowledged := true } else r

/-- The sparse list is strictly ascending and lies above the watermark. -/
structure SessionJournal.Orderly (session : SessionJournal) : Prop where
  ascending : session.eventAckSparse.Pairwise (· < ·)
  above : ∀ m ∈ session.eventAckSparse, session.eventAckThroughSeq < m

/-- The events of a session whose flag is not set, in the order of the file. -/
def unacknowledged (s : JournalFile) (sessionId : String) : List EventEnvelope :=
  (s.events.filter fun r => r.envelope.sessionId == sessionId && !r.acknowledged).map (·.envelope)

section

variable {s : JournalFile} {remote : SessionReconcileState} {sessions : List SessionReconcileState}

/-! ### The sets -/

theorem covers_mergeWatermarks (remote : SessionReconcileState) (x : SessionJournal) (m : ℕ) :
    (mergeWatermarks remote x).covers m = true ↔
      x.covers m = true ∨ m ≤ remote.eventAckThroughSeq ∨ m ∈ remote.eventAckSparse := by
  rw [covers_iff,covers_iff,mem_mergeWatermarks_sparse,List.mem_append]
  change m ≤ max x.eventAckThroughSeq remote.eventAckThroughSeq ∨ _ ↔ _
  rcases Nat.lt_or_ge (max x.eventAckThroughSeq remote.eventAckThroughSeq) m with hlt | hge
  · have hx : ¬ m ≤ x.eventAckThroughSeq := by omega
    have hr : ¬ m ≤ remote.eventAckThroughSeq := by omega
    have hmax : ¬ m ≤ max x.eventAckThroughSeq remote.eventAckThroughSeq := by omega
    simp only [hx,hr,hmax,hlt,false_or,and_true]
  · have hone : m ≤ x.eventAckThroughSeq ∨ m ≤ remote.eventAckThroughSeq := by omega
    simp only [hge,true_or,true_iff]
    tauto

theorem acked_reconcileSession (s : JournalFile) (remote : SessionReconcileState) :
    (reconcileSession s remote).acked = s.acked ⊔ remoteAcked remote := by
  funext id
  ext m
  change ((reconcileSession s remote).session id).covers m = true ↔
    (s.session id).covers m = true ∨ m ∈ remoteAcked remote id
  rw [reconcile_session]
  split_ifs with hid
  · rw [covers_mergeWatermarks]
    simp [remoteAcked,hid]
  · simp [remoteAcked,hid]

theorem remotesAcked_cons (remote : SessionReconcileState) (rest : List SessionReconcileState) :
    remotesAcked (remote::rest) = remoteAcked remote ⊔ remotesAcked rest := by
  funext id
  ext m
  simp [remotesAcked]

/-- Taking sessions in is the union of what they acknowledge. -/
theorem acked_foldl (sessions : List SessionReconcileState) (s : JournalFile) :
    (sessions.foldl reconcileSession s).acked = s.acked ⊔ remotesAcked sessions := by
  induction sessions generalizing s with
  | nil =>
    funext id
    ext m
    simp [remotesAcked]
  | cons remote rest ih =>
    rw [List.foldl_cons,ih,acked_reconcileSession,remotesAcked_cons,sup_assoc]

/-! ### The flags -/

theorem flagged_flagged (P Q : Set EventEnvelope) (r : EventRecord) :
    flagged Q (flagged P r) = flagged (P ∪ Q) r := by
  by_cases hp : r.envelope ∈ P <;> by_cases hq : r.envelope ∈ Q <;> simp [flagged,hp,hq]

theorem flagged_envelope (P : Set EventEnvelope) (r : EventRecord) :
    (flagged P r).envelope = r.envelope := by
  unfold flagged
  split_ifs <;> rfl

theorem flagged_of_acknowledged (P : Set EventEnvelope) {r : EventRecord}
    (h : r.acknowledged = true) : flagged P r = r := by
  unfold flagged
  split_ifs
  · rw [← h]
  · rfl

theorem events_reconcileSession (s : JournalFile) (remote : SessionReconcileState) :
    (reconcileSession s remote).events =
      s.events.map (flagged (ackedEvents [remote] (reconcileSession s remote).acked)) := by
  apply List.map_congr_left
  intro r _
  have hiff : (r.envelope.sessionId = remote.sessionId ∧
      (mergeWatermarks remote (s.session remote.sessionId)).covers r.envelope.daemonEventSeq = true) ↔
      r.envelope ∈ ackedEvents [remote] (reconcileSession s remote).acked := by
    simp only [ackedEvents,List.mem_singleton,exists_eq_left,Set.mem_ofPred_eq,JournalFile.acked,
      reconcile_session]
    apply and_congr_right
    intro hid
    rw [if_pos hid,hid]
  by_cases hmem : r.envelope ∈ ackedEvents [remote] (reconcileSession s remote).acked
  · rw [flagged,if_pos hmem,if_pos (hiff.mpr hmem)]
  · rw [flagged,if_neg hmem,if_neg fun h => hmem (hiff.mp h)]

/-- What later sessions acknowledge reaches the events of earlier ones only where it names
them again. -/
theorem ackedEvents_append (earlier later : List SessionReconcileState) (acked : AckSets) :
    ackedEvents earlier acked ∪ ackedEvents later (acked ⊔ remotesAcked later) =
      ackedEvents (earlier ++ later) (acked ⊔ remotesAcked later) := by
  ext e
  simp only [ackedEvents,Set.mem_union,Set.mem_ofPred_eq,List.mem_append,Pi.sup_apply,
    Set.sup_eq_union]
  constructor
  · rintro (⟨⟨r,hr,hid⟩,hacked⟩ | ⟨⟨r,hr,hid⟩,hacked⟩)
    · exact ⟨⟨r,.inl hr,hid⟩,.inl hacked⟩
    · exact ⟨⟨r,.inr hr,hid⟩,hacked⟩
  · rintro ⟨⟨r,hr | hr,hid⟩,hacked⟩
    · rcases hacked with hacked | ⟨x,hx,hmem⟩
      · exact .inl ⟨⟨r,hr,hid⟩,hacked⟩
      · exact .inr ⟨⟨x,hx,hmem.1⟩,.inr ⟨x,hx,hmem⟩⟩
    · exact .inr ⟨⟨r,hr,hid⟩,hacked⟩

theorem ackedEvents_comm (earlier later : List SessionReconcileState) (acked : AckSets) :
    ackedEvents (earlier ++ later) acked = ackedEvents (later ++ earlier) acked := by
  ext e
  simp only [ackedEvents,Set.mem_ofPred_eq,List.mem_append,or_comm]

/-- The flags follow the merged sets, not those of either side. -/
theorem events_foldl (sessions : List SessionReconcileState) (s : JournalFile) :
    (sessions.foldl reconcileSession s).events =
      s.events.map (flagged (ackedEvents sessions (s.acked ⊔ remotesAcked sessions))) := by
  induction sessions generalizing s with
  | nil =>
    conv_lhs => rw [List.foldl_nil,← List.map_id s.events]
    apply List.map_congr_left
    intro r _
    simp [flagged,ackedEvents]
  | cons remote rest ih =>
    rw [List.foldl_cons,ih,events_reconcileSession,List.map_map,acked_reconcileSession,
      remotesAcked_cons,← sup_assoc]
    have happend := ackedEvents_append [remote] rest (s.acked ⊔ remoteAcked remote)
    rw [List.singleton_append] at happend
    rw [← happend]
    exact List.map_congr_left fun r _ => flagged_flagged _ _ r

/-! ### Taking a snapshot in again -/

theorem mergeWatermarks_orderly (remote : SessionReconcileState) (x : SessionJournal) :
    (mergeWatermarks remote x).Orderly where
  ascending := (sortDedup_ascending _).filter _
  above m hm := ((mem_mergeWatermarks_sparse remote x m).mp hm).2

theorem mergeWatermarks_idem (remote : SessionReconcileState) (x : SessionJournal) :
    mergeWatermarks remote (mergeWatermarks remote x) = mergeWatermarks remote x := by
  have hthrough : max (max x.eventAckThroughSeq remote.eventAckThroughSeq)
      remote.eventAckThroughSeq = max x.eventAckThroughSeq remote.eventAckThroughSeq := by omega
  have hcommand : max (max x.serverCommandAckThroughSeq remote.commandAckThroughSeq)
      remote.commandAckThroughSeq = max x.serverCommandAckThroughSeq remote.commandAckThroughSeq := by
    omega
  -- both lists are ascending, so it is enough that they have the same members
  have hsparse : (mergeWatermarks remote (mergeWatermarks remote x)).eventAckSparse =
      (mergeWatermarks remote x).eventAckSparse := by
    apply List.Pairwise.eq_of_mem_iff (mergeWatermarks_orderly _ _).ascending
      (mergeWatermarks_orderly _ _).ascending
    intro m
    rw [mem_mergeWatermarks_sparse,mem_mergeWatermarks_sparse,List.mem_append,
      mem_mergeWatermarks_sparse,List.mem_append]
    change _ ∧ max (max x.eventAckThroughSeq _) _ < m ↔ _
    rw [hthrough]
    tauto
  rw [SessionJournal.mk.injEq]
  exact ⟨rfl,hthrough,hsparse,hcommand⟩

/-- The journal has nothing to learn from this session of a snapshot. -/
structure Absorbed (s : JournalFile) (remote : SessionReconcileState) : Prop where
  present : (s.sessions.get remote.sessionId).isSome = true
  merged : ∀ e ∈ s.sessions.entries, e.1 = remote.sessionId → mergeWatermarks remote e.2 = e.2
  flags : ∀ r ∈ s.events, r.envelope.sessionId = remote.sessionId →
    r.envelope.daemonEventSeq ∈ s.acked remote.sessionId → r.acknowledged = true

theorem absorbed_reconcileSession (s : JournalFile) (remote : SessionReconcileState) :
    Absorbed (reconcileSession s remote) remote where
  present := by simp [reconcileSession]
  merged e he hid := by
    rcases OrdMap.mem_modify he with ⟨-,hne⟩ | ⟨-,v,hv⟩
    · exact absurd hid hne
    · rw [hv,mergeWatermarks_idem]
  flags r hr hid hacked := by
    rw [events_reconcileSession] at hr
    obtain ⟨x,-,rfl⟩ := List.mem_map.mp hr
    rw [flagged_envelope] at hid hacked
    rw [flagged,if_pos ⟨⟨remote,by simp,hid⟩,by rwa [hid]⟩]

theorem Absorbed.reconcileSession_eq (h : Absorbed s remote) : reconcileSession s remote = s := by
  have hsessions : s.sessions.modify remote.sessionId {} (mergeWatermarks remote) = s.sessions :=
    OrdMap.modify_eq_self h.present h.merged
  have hacked : (reconcileSession s remote).acked = s.acked := by
    funext id
    simp only [JournalFile.acked,JournalFile.session,reconcileSession,hsessions]
  have hevents : (reconcileSession s remote).events = s.events := by
    rw [events_reconcileSession,hacked]
    conv_rhs => rw [← List.map_id s.events]
    apply List.map_congr_left
    intro r hr
    by_cases hmem : r.envelope ∈ ackedEvents [remote] s.acked
    · obtain ⟨⟨x,hx,hid⟩,hseq⟩ := hmem
      rw [List.mem_singleton.mp hx] at hid
      exact flagged_of_acknowledged _ (h.flags r hr hid (hid ▸ hseq))
    · rw [flagged,if_neg hmem]
      rfl
  rw [JournalFile.mk.injEq]
  exact ⟨rfl,hsessions,rfl,rfl,hevents,rfl⟩

theorem Absorbed.other (h : Absorbed s remote) {x : SessionReconcileState}
    (hne : x.sessionId ≠ remote.sessionId) : Absorbed (reconcileSession s x) remote where
  present := by
    rw [reconcileSession,OrdMap.get_modify_ne _ _ _ hne.symm]
    exact h.present
  merged e he hid := by
    rcases OrdMap.mem_modify he with ⟨hold,-⟩ | ⟨hx,-⟩
    · exact h.merged e hold hid
    · exact absurd (hx.symm.trans hid) hne
  flags r hr hid hacked := by
    rw [events_reconcileSession] at hr
    obtain ⟨y,hy,rfl⟩ := List.mem_map.mp hr
    rw [flagged_envelope] at hid hacked
    have hsame : (reconcileSession s x).acked remote.sessionId = s.acked remote.sessionId := by
      simp only [JournalFile.acked,reconcile_session,hne.symm,if_false]
    have hflag := h.flags y hy hid (hsame ▸ hacked)
    rw [flagged_of_acknowledged _ hflag]
    exact hflag

theorem Absorbed.foldl (h : Absorbed s remote) (hout : remote.sessionId ∉ sessions.map (·.sessionId)) :
    Absorbed (sessions.foldl reconcileSession s) remote := by
  induction sessions generalizing s with
  | nil => exact h
  | cons x rest ih =>
    rw [List.map_cons,List.mem_cons,not_or] at hout
    exact ih (h.other fun heq => hout.1 heq.symm) hout.2

theorem absorbed_foldl (hids : (sessions.map (·.sessionId)).Nodup) (s : JournalFile) :
    ∀ remote ∈ sessions, Absorbed (sessions.foldl reconcileSession s) remote := by
  induction sessions generalizing s with
  | nil => simp
  | cons x rest ih =>
    rw [List.map_cons,List.nodup_cons] at hids
    intro remote hmem
    rcases List.mem_cons.mp hmem with rfl | hrest
    · exact (absorbed_reconcileSession s remote).foldl hids.1
    · exact ih hids.2 _ remote hrest

theorem foldl_of_absorbed (h : ∀ remote ∈ sessions, Absorbed s remote) :
    sessions.foldl reconcileSession s = s := by
  induction sessions with
  | nil => rfl
  | cons x rest ih =>
    rw [List.foldl_cons,(h x (by simp)).reconcileSession_eq]
    exact ih fun remote hmem => h remote (by simp [hmem])

/-! ### The cursors -/

/-- What taking sessions in does to the cursor of one session. -/
structure Raised (x y : SessionJournal) : Prop where
  through : x.eventAckThroughSeq ≤ y.eventAckThroughSeq
  commands : x.serverCommandAckThroughSeq ≤ y.serverCommandAckThroughSeq
  processed : y.processedThroughSeq = x.processedThroughSeq
  orderly : x.Orderly → y.Orderly

theorem raised_foldl (sessions : List SessionReconcileState) (s : JournalFile) (id : String) :
    Raised (s.session id) ((sessions.foldl reconcileSession s).session id) := by
  induction sessions generalizing s with
  | nil => exact ⟨le_rfl,le_rfl,rfl,fun h => h⟩
  | cons remote rest ih =>
    have hone : Raised (s.session id) ((reconcileSession s remote).session id) := by
      rw [reconcile_session]
      split_ifs
      · exact ⟨le_max_left _ _,le_max_left _ _,rfl,fun _ => mergeWatermarks_orderly _ _⟩
      · exact ⟨le_rfl,le_rfl,rfl,fun h => h⟩
    have hrest := ih (reconcileSession s remote)
    exact ⟨hone.through.trans hrest.through,hone.commands.trans hrest.commands,
      hrest.processed.trans hone.processed,fun h => hrest.orderly (hone.orderly h)⟩

/-- Record by record, the event stays and a flag that is set stays. -/
theorem flags_kept (sessions : List SessionReconcileState) (s : JournalFile) :
    List.Forall₂ (fun r r' => r'.envelope = r.envelope ∧ (r.acknowledged = true → r' = r)) s.events
      (sessions.foldl reconcileSession s).events := by
  rw [events_foldl,List.forall₂_map_right_iff]
  exact List.forall₂_same.mpr fun r _ => ⟨flagged_envelope _ r,flagged_of_acknowledged _⟩

/-! ### The replay -/

/-- The replay of a settled session is its unacknowledged events, sorted. -/
theorem Absorbed.replayEvents_eq (h : Absorbed s remote)
    (hacked : remoteAcked remote remote.sessionId ⊆ s.acked remote.sessionId) :
    replayEvents s remote.sessionId remote =
      (unacknowledged s remote.sessionId).insertionSort fun a b => a.daemonEventSeq ≤ b.daemonEventSeq := by
  have hfilter : ∀ r ∈ s.events, (r.envelope.sessionId == remote.sessionId &&
      decide (remote.eventAckThroughSeq < r.envelope.daemonEventSeq) &&
      !remote.eventAckSparse.contains r.envelope.daemonEventSeq && !r.acknowledged) =
      (r.envelope.sessionId == remote.sessionId && !r.acknowledged) := by
    intro r hr
    by_cases hid : r.envelope.sessionId = remote.sessionId
    · cases hflag : r.acknowledged with
      | true => simp
      | false =>
        have hfree : r.envelope.daemonEventSeq ∉ remoteAcked remote remote.sessionId := by
          intro hmem
          have htrue := h.flags r hr hid (hacked hmem)
          rw [hflag] at htrue
          exact absurd htrue (by decide)
        simp only [remoteAcked,Set.mem_ofPred_eq,true_and,not_or,not_le] at hfree
        simp [hid,hfree.1,hfree.2]
    · rw [beq_eq_false_iff_ne.mpr hid]
      simp
  unfold replayEvents unacknowledged
  simp only [List.filter_congr hfilter]

theorem unacknowledged_sublist (sessions : List SessionReconcileState) (s : JournalFile) (id : String) :
    (unacknowledged (sessions.foldl reconcileSession s) id).Sublist
      ((s.events.map (·.envelope)).filter fun e => e.sessionId == id) := by
  have hsame : (sessions.foldl reconcileSession s).events.map (·.envelope) =
      s.events.map (·.envelope) := by
    rw [events_foldl,List.map_map]
    exact List.map_congr_left fun r _ => flagged_envelope _ r
  rw [← hsame,List.filter_map]
  apply List.Sublist.map
  apply List.monotone_filter_right
  intro r hr
  simp only [Bool.and_eq_true] at hr
  exact hr.1

variable {σ : Type} {W : World σ}

/-- The frames of the replay loop, one session after the other. -/
theorem replaySessions_exec (sessions : List SessionReconcileState) (replay : List DaemonFrame)
    (h : Host σ) : (Coordinator.replaySessions sessions replay : CoordOp σ _).exec h =
      some (.ok (replay ++ sessions.flatMap fun remote =>
        (replayEvents h.state remote.sessionId remote).map .event),h) := by
  induction sessions generalizing replay with
  | nil => simp [Coordinator.replaySessions,exec_pure]
  | cons remote rest ih =>
    rw [Coordinator.replaySessions,exec_bind,exec_look]
    simp only
    rw [ih,List.append_assoc,List.flatMap_cons]

theorem applyReconciliationOp_returns {snapshot : ReconcileSnapshot} (hvalid : snapshot.validate = .ok ())
    {h h' : Host σ} : (applyReconciliationOp W snapshot).exec h = some (.ok (),h') ↔
      (W.weather h.tick).1 = .done ∧
        h' = h.settle (applyReconciliation snapshot h.state) (applyReconciliation snapshot h.state) := by
  have hexec : (applyReconciliationOp W snapshot).exec h =
      (update W fun _ s => some (.ok ((),applyReconciliation snapshot s))).exec h := by
    rw [applyReconciliationOp,hvalid]
    rfl
  rw [hexec]
  simp only [exec,update]
  cases (W.weather h.tick).1 with
  | done => simp [eq_comm]
  | lost reason readable => simp
  | late reason readable => simp

/-- When `reconcile` returns, its replay is read off the journal it has just updated. -/
theorem reconcile_returns {snapshot : ReconcileSnapshot} (hvalid : snapshot.validate = .ok ())
    {h h' : Host σ} {frames : List DaemonFrame} :
    (Coordinator.reconcile W snapshot).exec h = some (.ok frames,h') ↔
      (W.weather h.tick).1 = .done ∧
        h' = h.settle (applyReconciliation snapshot h.state) (applyReconciliation snapshot h.state) ∧
        frames = snapshot.sessions.flatMap fun remote =>
          (replayEvents h'.state remote.sessionId remote).map .event := by
  rw [Coordinator.reconcile,bind_returns]
  constructor
  · rintro ⟨u,h₁,happly,hreplay⟩
    obtain ⟨hdone,rfl⟩ := (applyReconciliationOp_returns hvalid).mp (journaled_ok.mp happly)
    rw [replaySessions_exec] at hreplay
    obtain ⟨hframes,rfl⟩ := Prod.mk.inj (Option.some.inj hreplay)
    exact ⟨hdone,rfl,(Except.ok.inj hframes).symm⟩
  · rintro ⟨hdone,rfl,rfl⟩
    refine ⟨(),_,journaled_ok.mpr ((applyReconciliationOp_returns hvalid).mpr ⟨hdone,rfl⟩),?_⟩
    rw [replaySessions_exec]
    rfl

/-- The live events of a session carry distinct sequences. -/
def DistinctSequences (s : JournalFile) (sessionId : String) : Prop :=
  (((s.events.map (·.envelope)).filter fun e => e.sessionId == sessionId).map
    (·.daemonEventSeq)).Nodup

instance (s : JournalFile) (sessionId : String) : Decidable (DistinctSequences s sessionId) :=
  inferInstanceAs (Decidable (List.Nodup _))

theorem applyReconciliation_comm (A B : ReconcileSnapshot) (s : JournalFile) :
    (applyReconciliation B (applyReconciliation A s)).acked =
        (applyReconciliation A (applyReconciliation B s)).acked ∧
      (applyReconciliation B (applyReconciliation A s)).events =
        (applyReconciliation A (applyReconciliation B s)).events := by
  have hsets : s.acked ⊔ remotesAcked A.sessions ⊔ remotesAcked B.sessions =
      s.acked ⊔ remotesAcked B.sessions ⊔ remotesAcked A.sessions := sup_right_comm _ _ _
  have hevents : ∀ C D : ReconcileSnapshot, (applyReconciliation D (applyReconciliation C s)).events =
      s.events.map (flagged (ackedEvents (C.sessions ++ D.sessions)
        (s.acked ⊔ remotesAcked C.sessions ⊔ remotesAcked D.sessions))) := by
    intro C D
    rw [applyReconciliation,applyReconciliation,events_foldl,events_foldl,acked_foldl,List.map_map,
      ← ackedEvents_append]
    exact List.map_congr_left fun r _ => flagged_flagged _ _ r
  constructor
  · simp only [applyReconciliation,acked_foldl,hsets]
  · rw [hevents A B,hevents B A,hsets,ackedEvents_comm]

theorem pairwise_lt_of_sorted {es : List EventEnvelope} (hdistinct : (es.map (·.daemonEventSeq)).Nodup) :
    (es.insertionSort fun a b => a.daemonEventSeq ≤ b.daemonEventSeq).Pairwise fun a b =>
      a.daemonEventSeq < b.daemonEventSeq := by
  have hsorted := List.pairwise_insertionSort
    (fun a b : EventEnvelope => a.daemonEventSeq ≤ b.daemonEventSeq) es
  have hne : (es.insertionSort fun a b => a.daemonEventSeq ≤ b.daemonEventSeq).Pairwise fun a b =>
      a.daemonEventSeq ≠ b.daemonEventSeq :=
    List.pairwise_map.mp (((List.perm_insertionSort _ es).map _).nodup_iff.mpr hdistinct)
  exact (hsorted.and hne).imp fun h => lt_of_le_of_ne h.1 h.2

/-- Reconciliation is a join: in either order and however often two snapshots are taken in,
the acknowledged sequences and the flags are the same; nothing acknowledged and no cursor
goes back; the lists stay in order; and the replay is what is left unacknowledged. -/
theorem reconciliation_join (W : World σ) (h : Host σ) (A B : ReconcileSnapshot)
    (horderly : ∀ id, (h.state.session id).Orderly) (hA : A.validate = .ok ()) :
    ((applyReconciliation B (applyReconciliation A h.state)).acked =
        (applyReconciliation A (applyReconciliation B h.state)).acked ∧
      (applyReconciliation B (applyReconciliation A h.state)).events =
        (applyReconciliation A (applyReconciliation B h.state)).events) ∧
    applyReconciliation A (applyReconciliation A h.state) = applyReconciliation A h.state ∧
    (h.state.acked ≤ (applyReconciliation A h.state).acked ∧
      List.Forall₂ (fun r r' => r'.envelope = r.envelope ∧ (r.acknowledged = true → r' = r))
        h.state.events (applyReconciliation A h.state).events) ∧
    (∀ id, (h.state.session id).eventAckThroughSeq ≤
        ((applyReconciliation A h.state).session id).eventAckThroughSeq ∧
      (h.state.session id).serverCommandAckThroughSeq ≤
        ((applyReconciliation A h.state).session id).serverCommandAckThroughSeq) ∧
    (∀ id, ((applyReconciliation A h.state).session id).Orderly) ∧
    ((W.weather h.tick).1 = .done →
      ∃ frames h', (Coordinator.reconcile W A).exec h = some (.ok frames,h')) ∧
    ∀ frames h', (Coordinator.reconcile W A).exec h = some (.ok frames,h') →
      h'.state = applyReconciliation A h.state ∧
      ∃ replay : SessionReconcileState → List EventEnvelope,
        frames = A.sessions.flatMap (fun remote => (replay remote).map .event) ∧
        ∀ remote ∈ A.sessions,
          (replay remote).Perm (unacknowledged h'.state remote.sessionId) ∧
          (replay remote).Pairwise (fun a b => a.daemonEventSeq ≤ b.daemonEventSeq) ∧
          (DistinctSequences h.state remote.sessionId →
            (replay remote).Pairwise fun a b => a.daemonEventSeq < b.daemonEventSeq) := by
  have habsorbed := absorbed_foldl (ReconcileSnapshot.validate_ok hA) h.state
  refine ⟨applyReconciliation_comm A B h.state,foldl_of_absorbed habsorbed,
    ⟨?_,flags_kept A.sessions h.state⟩,fun id => ?_,fun id => ?_,fun hdone => ?_,
    fun frames h' hexec => ?_⟩
  · rw [applyReconciliation,acked_foldl]
    exact le_sup_left
  · have hraised := raised_foldl A.sessions h.state id
    exact ⟨hraised.through,hraised.commands⟩
  · exact (raised_foldl A.sessions h.state id).orderly (horderly id)
  · exact ⟨_,_,(reconcile_returns hA).mpr ⟨hdone,rfl,rfl⟩⟩
  · obtain ⟨-,rfl,rfl⟩ := (reconcile_returns hA).mp hexec
    refine ⟨rfl,_,rfl,fun remote hremote => ?_⟩
    have hacked : remoteAcked remote remote.sessionId ⊆
        (applyReconciliation A h.state).acked remote.sessionId := by
      rw [applyReconciliation,acked_foldl]
      exact fun m hm => .inr ⟨remote,hremote,hm⟩
    have hreplay : replayEvents (applyReconciliation A h.state) remote.sessionId remote = _ :=
      (habsorbed remote hremote).replayEvents_eq hacked
    change (replayEvents (applyReconciliation A h.state) _ _).Perm _ ∧ List.Pairwise _
      (replayEvents (applyReconciliation A h.state) _ _) ∧ (_ → List.Pairwise _
      (replayEvents (applyReconciliation A h.state) _ _))
    rw [hreplay]
    refine ⟨List.perm_insertionSort _ _,List.pairwise_insertionSort _ _,fun hdistinct => ?_⟩
    apply pairwise_lt_of_sorted
    exact hdistinct.sublist ((unacknowledged_sublist A.sessions h.state remote.sessionId).map _)

end

theorem orderly_of_entries {s : JournalFile}
    (h : ∀ e ∈ s.sessions.entries, e.2.eventAckSparse = []) (id : String) : (s.session id).Orderly := by
  have hsparse : (s.session id).eventAckSparse = [] := by
    cases hget : s.sessions.get id with
    | none => rw [JournalFile.session,hget]; rfl
    | some x =>
      obtain ⟨e,he,rfl⟩ := Option.map_eq_some_iff.mp hget
      rw [JournalFile.session,hget]
      exact h e (List.mem_of_find?_eq_some he)
  exact ⟨by simp [hsparse],by simp [hsparse]⟩

/-- Three events, none of them acknowledged. -/
def openRun : List Call :=
  [.appendEvent "e1" "session-1" (.agentActivity "one"),
    .appendEvent "e2" "session-1" (.agentActivity "two"),
    .appendEvent "e3" "session-1" (.agentActivity "three")]

/-- Two snapshots that each know one of the first two events. -/
def firstKnown : ReconcileSnapshot := ⟨1,[⟨"session-1",0,1,[]⟩]⟩

def secondKnown : ReconcileSnapshot := ⟨1,[⟨"session-1",0,0,[2]⟩]⟩

theorem openRun_joined : ∃ h : Host Unit, runCalls calmWorld openRun { runtime := () } = some h ∧
    (∀ id, (h.state.session id).Orderly) ∧ firstKnown.validate = .ok () ∧
    (applyReconciliation secondKnown (applyReconciliation firstKnown h.state)).acked =
      (applyReconciliation firstKnown (applyReconciliation secondKnown h.state)).acked ∧
    DistinctSequences h.state "session-1" ∧
    ∃ frames h', (Coordinator.reconcile calmWorld firstKnown).exec h = some (.ok frames,h') ∧
      ∃ replay : SessionReconcileState → List EventEnvelope,
        frames = firstKnown.sessions.flatMap (fun remote => (replay remote).map .event) ∧
        ∀ remote ∈ firstKnown.sessions, (replay remote).Pairwise fun a b =>
          a.daemonEventSeq < b.daemonEventSeq := by
  have hfacts : (runCalls calmWorld openRun { runtime := () }).any (fun h =>
      decide (h.state.sessions.entries.all fun e => decide (e.2.eventAckSparse = [])) &&
        decide (DistinctSequences h.state "session-1")) = true := by decide +kernel
  obtain ⟨h,hrun,hh⟩ := (Option.any_eq_true _ _).mp hfacts
  simp only [Bool.and_eq_true,decide_eq_true_eq,List.all_eq_true] at hh
  have horderly := orderly_of_entries hh.1
  have hvalid : firstKnown.validate = .ok () := by decide
  obtain ⟨⟨hacked,-⟩,-,-,-,-,hreturns,hreplay⟩ :=
    reconciliation_join calmWorld h firstKnown secondKnown horderly hvalid
  obtain ⟨frames,h',hexec⟩ := hreturns rfl
  obtain ⟨-,replay,hframes,hsessions⟩ := hreplay frames h' hexec
  refine ⟨h,hrun,horderly,hvalid,hacked,hh.2,frames,h',hexec,replay,hframes,fun remote hremote => ?_⟩
  have hid : remote.sessionId = "session-1" := by
    simp only [firstKnown,List.mem_singleton] at hremote
    rw [hremote]
  exact (hsessions remote hremote).2.2 (hid ▸ hh.2)

/-- A snapshot puts the watermark right below the largest integer, and one command then
finishes with two events. -/
def topRun : List Call :=
  [.acceptCommand (resumeEnvelope 1 "a"),
    .applyReconciliation ⟨1,[⟨"session-1",0,u64Max-1,[]⟩]⟩,
    .completeCommand "a" .dispatchSucceeded [.agentActivity "one",.agentActivity "two"]]

def sequencesOf (frames : List DaemonFrame) : List ℕ :=
  frames.filterMap fun
    | .event e => some e.daemonEventSeq
    | _ => none

/-- The two events share the largest integer as their sequence, and the replay sends both. -/
theorem topRun_replay_repeats : ∃ (h : Host Unit) (snapshot : ReconcileSnapshot)
    (frames : List DaemonFrame) (h' : Host Unit),
    runCalls calmWorld topRun { runtime := () } = some h ∧ (∀ id, (h.state.session id).Orderly) ∧
    snapshot.validate = .ok () ∧
    (Coordinator.reconcile calmWorld snapshot).exec h = some (.ok frames,h') ∧
    sequencesOf frames = [u64Max,u64Max] ∧ ¬ (sequencesOf frames).Pairwise (· < ·) := by
  have hfacts : (runCalls calmWorld topRun { runtime := () }).any (fun h =>
      decide (h.state.sessions.entries.all fun e => decide (e.2.eventAckSparse = [])) &&
        ((Coordinator.reconcile calmWorld firstKnown).exec h).any (fun p =>
          match p.1 with
          | .ok frames => decide (sequencesOf frames = [u64Max,u64Max])
          | .error _ => false)) = true := by decide +kernel
  obtain ⟨h,hrun,hh⟩ := (Option.any_eq_true _ _).mp hfacts
  simp only [Bool.and_eq_true,decide_eq_true_eq,List.all_eq_true] at hh
  obtain ⟨⟨r,h'⟩,hexec,hr⟩ := (Option.any_eq_true _ _).mp hh.2
  cases r with
  | error e => simp at hr
  | ok frames =>
    have hseq : sequencesOf frames = [u64Max,u64Max] := by simpa using hr
    exact ⟨h,firstKnown,frames,h',hrun,orderly_of_entries hh.1,by decide,hexec,hseq,by simp [hseq]⟩

end Journal
end North
