import North.CommandSteps
import North.Lib.Numbered

/-! The command tables as the image of the history. The commands issued and the ids
acknowledged determine the outbox, the tombstones and the watermark of every session;
insertions keep the tables at that image, and the watermark that an acknowledgement
computes from the outbox is the one of the whole history. -/
namespace North
namespace Store

open Machine Protocol Domain

variable {ev : Bool}

/-- The command is above the watermark of its session. -/
def Db.aboveAck (db : Db) (r : OutboxRow) : Bool :=
  decide (db.commandAck r.sessionId < r.serverCommandSeq)

def stamp (acked : List String) (r : OutboxRow) : OutboxRow :=
  { r with acknowledged := decide (r.commandId ∈ acked) }

/-- A command row as it was inserted. -/
structure AsInserted (d : Digests) (r : OutboxRow) : Prop where
  pending : r.acknowledged = false
  digests : r.payloadDigest = d.payload r.payload ∧ r.commandIdentityDigest = d.identity r.payload
  names : Text.blank r.commandId = false ∧ Text.blank r.sessionId = false
  range : r.serverCommandSeq ≤ i64Max

def AckedSeq (issued : List OutboxRow) (acked : List String) (sid : String) (n : ℕ) : Prop :=
  ∃ r ∈ issuedFor issued sid, r.serverCommandSeq = n ∧ r.commandId ∈ acked

/-- The command tables are the image of the history: the commands above the watermarks are
in the outbox, in the order of their insertion, and all others are tombstones. -/
structure CommandLedger (d : Digests) (db : Db) (issued : List OutboxRow) (acked : List String) :
    Prop where
  keyed : db.Keyed
  ids : (issued.map (·.commandId)).Nodup
  numbered : ∀ sid, Numbered (·.serverCommandSeq) (issuedFor issued sid)
  owned : ∀ r ∈ issued, (db.session? r.sessionId).isSome = true
  inserted : ∀ r ∈ issued, AsInserted d r
  known : ∀ id ∈ acked, ∃ r ∈ issued, r.commandId = id
  watermark : ∀ sid, Watermark (AckedSeq issued acked sid) (db.commandAck sid)
  outbox : db.outbox = (issued.filter db.aboveAck).map (stamp acked)
  tombstones : db.tombstones.Perm ((issued.filter fun r => !db.aboveAck r).map OutboxRow.tombstone)

@[simp] theorem stamp_acknowledged (acked : List String) (r : OutboxRow) :
    (stamp acked r).acknowledged = decide (r.commandId ∈ acked) := rfl

@[simp] theorem aboveAck_eq_true {db : Db} {r : OutboxRow} :
    db.aboveAck r = true ↔ db.commandAck r.sessionId < r.serverCommandSeq :=
  decide_eq_true_iff

@[simp] theorem aboveAck_eq_false {db : Db} {r : OutboxRow} :
    db.aboveAck r = false ↔ r.serverCommandSeq ≤ db.commandAck r.sessionId := by
  simp [Db.aboveAck]

theorem commandAck_of_session {db : Db} {sid : String} {s : Session} (h : db.session? sid = some s) :
    db.commandAck sid = s.commandAckThroughSeq := by
  simp [Db.commandAck,h]

theorem mem_issuedFor {issued : List OutboxRow} {sid : String} {r : OutboxRow} :
    r ∈ issuedFor issued sid ↔ r ∈ issued ∧ r.sessionId = sid := by
  simp [issuedFor]

theorem le_maxSeq {xs : List ℕ} {n : ℕ} (h : n ∈ xs) : n ≤ Db.maxSeq xs := by
  induction xs with
  | nil => simp at h
  | cons x xs ih =>
    simp only [Db.maxSeq,List.foldr_cons] at *
    rcases List.mem_cons.mp h with rfl | h
    · exact le_max_left ..
    · exact (ih h).trans (le_max_right ..)

theorem maxSeq_le {xs : List ℕ} {n : ℕ} (h : ∀ m ∈ xs, m ≤ n) : Db.maxSeq xs ≤ n := by
  induction xs with
  | nil => exact Nat.zero_le n
  | cons x xs ih =>
    simp only [Db.maxSeq,List.foldr_cons] at *
    exact max_le (h x (by simp)) (ih fun m hm => h m (by simp [hm]))

namespace CommandLedger

variable {d : Digests} {db db' : Db} {issued : List OutboxRow} {acked : List String}

theorem mem_outbox (h : CommandLedger d db issued acked) {q : OutboxRow} (hq : q ∈ db.outbox) :
    ∃ r ∈ issued, db.aboveAck r = true ∧ q = stamp acked r := by
  rw [h.outbox] at hq
  obtain ⟨r,hr,rfl⟩ := List.mem_map.mp hq
  obtain ⟨hr,habove⟩ := List.mem_filter.mp hr
  exact ⟨r,hr,habove,rfl⟩

theorem mem_tombstones (h : CommandLedger d db issued acked) {t : CommandTombstone}
    (ht : t ∈ db.tombstones) : ∃ r ∈ issued, db.aboveAck r = false ∧ t = r.tombstone := by
  obtain ⟨r,hr,rfl⟩ := List.mem_map.mp (h.tombstones.mem_iff.mp ht)
  obtain ⟨hr,hbelow⟩ := List.mem_filter.mp hr
  exact ⟨r,hr,by simpa using hbelow,rfl⟩

theorem stamp_mem (h : CommandLedger d db issued acked) {r : OutboxRow} (hr : r ∈ issued)
    (habove : db.aboveAck r = true) : stamp acked r ∈ db.outbox := by
  rw [h.outbox]
  exact List.mem_map_of_mem (List.mem_filter.mpr ⟨hr,habove⟩)

theorem tombstone_mem (h : CommandLedger d db issued acked) {r : OutboxRow} (hr : r ∈ issued)
    (hbelow : db.aboveAck r = false) : r.tombstone ∈ db.tombstones :=
  h.tombstones.mem_iff.mpr (List.mem_map_of_mem (List.mem_filter.mpr ⟨hr,by simp [hbelow]⟩))

theorem acked_of_below (h : CommandLedger d db issued acked) {r : OutboxRow} (hr : r ∈ issued)
    (hle : r.serverCommandSeq ≤ db.commandAck r.sessionId) : r.commandId ∈ acked :=
  (h.numbered r.sessionId).done_of_le (h.watermark r.sessionId) (mem_issuedFor.mpr ⟨hr,rfl⟩) hle

theorem commandAck_le (h : CommandLedger d db issued acked) (sid : String) :
    db.commandAck sid ≤ (issuedFor issued sid).length :=
  (h.numbered sid).watermark_le (h.watermark sid)

theorem eq_of_commandId (h : CommandLedger d db issued acked) {r q : OutboxRow} (hr : r ∈ issued)
    (hq : q ∈ issued) (hid : r.commandId = q.commandId) : r = q :=
  List.inj_on_of_nodup_map h.ids hr hq hid

theorem nextCommandSequence_eq (h : CommandLedger d db issued acked) {sid : String} {n : ℕ}
    (hn : nextCommandSequence db sid = some n) :
    n = (issuedFor issued sid).length+1 ∧ n ≤ i64Max := by
  unfold nextCommandSequence at hn
  split at hn
  · cases hn
  rename_i s hs
  obtain ⟨hlt,rfl⟩ := checkedSucc_eq_some.mp hn
  have hout : ∀ m ∈ (db.outboxOf sid).map (·.serverCommandSeq), m ≤ (issuedFor issued sid).length := by
    intro m hm
    obtain ⟨q,hq,rfl⟩ := List.mem_map.mp hm
    obtain ⟨hq,hsid⟩ := List.mem_filter.mp hq
    obtain ⟨r,hr,-,rfl⟩ := h.mem_outbox hq
    have hmem : r ∈ issuedFor issued sid := mem_issuedFor.mpr ⟨hr,of_decide_eq_true hsid⟩
    show r.serverCommandSeq ≤ _
    exact (h.numbered sid).le_length hmem
  have htomb : ∀ m ∈ (db.tombstonesOf sid).map (·.serverCommandSeq),
      m ≤ (issuedFor issued sid).length := by
    intro m hm
    obtain ⟨t,ht,rfl⟩ := List.mem_map.mp hm
    obtain ⟨ht,hsid⟩ := List.mem_filter.mp ht
    obtain ⟨r,hr,-,rfl⟩ := h.mem_tombstones ht
    have hmem : r ∈ issuedFor issued sid := mem_issuedFor.mpr ⟨hr,of_decide_eq_true hsid⟩
    exact (h.numbered sid).le_length hmem
  have hack := h.commandAck_le sid
  rw [commandAck_of_session hs] at hack
  have hupper := max_le (max_le (maxSeq_le hout) (maxSeq_le htomb)) hack
  -- the last command is in the outbox, or the watermark has reached it
  have hlower : (issuedFor issued sid).length ≤
      max (max (Db.maxSeq ((db.outboxOf sid).map (·.serverCommandSeq)))
        (Db.maxSeq ((db.tombstonesOf sid).map (·.serverCommandSeq)))) s.commandAckThroughSeq := by
    rcases Nat.eq_zero_or_pos (issuedFor issued sid).length with hzero | hpos
    · rw [hzero]
      exact Nat.zero_le _
    obtain ⟨r,hmem,hlast⟩ := (h.numbered sid).exists_seq hpos le_rfl
    obtain ⟨hr,hsid⟩ := mem_issuedFor.mp hmem
    by_cases habove : db.aboveAck r = true
    · have hseq : r.serverCommandSeq ∈ (db.outboxOf sid).map (·.serverCommandSeq) :=
        List.mem_map.mpr ⟨stamp acked r,List.mem_filter.mpr ⟨h.stamp_mem hr habove,by simp [stamp,hsid]⟩,rfl⟩
      have hle := le_maxSeq hseq
      omega
    · have hle := aboveAck_eq_false.mp (Bool.eq_false_iff.mpr habove)
      rw [hsid,commandAck_of_session hs] at hle
      omega
  omega

theorem keep (h : CommandLedger d db issued acked) (frame : CommandFrame db db')
    (outbox : db'.outbox = db.outbox) : CommandLedger d db' issued acked := by
  have habove : db'.aboveAck = db.aboveAck := by
    funext r
    simp only [Db.aboveAck,frame.acks]
  refine ⟨frame.keyed h.keyed,h.ids,h.numbered,fun r hr => frame.sessions _ (h.owned r hr),h.inserted,
    h.known,fun sid => ?_,?_,?_⟩
  · rw [frame.acks]
    exact h.watermark sid
  · rw [outbox,habove]
    exact h.outbox
  · rw [frame.tombstones,habove]
    exact h.tombstones

theorem fresh_id (h : CommandLedger d db issued acked) {commandId : String}
    (hout : ∀ q ∈ db.outbox, q.commandId ≠ commandId)
    (htomb : ∀ t ∈ db.tombstones, t.commandId ≠ commandId) : ∀ r ∈ issued, r.commandId ≠ commandId := by
  intro r hr
  by_cases habove : db.aboveAck r = true
  · exact hout (stamp acked r) (h.stamp_mem hr habove)
  · exact htomb _ (h.tombstone_mem hr (Bool.eq_false_iff.mpr habove))

theorem inserts_sequence (h : CommandLedger d db issued acked) {row : OutboxRow}
    (inserts : Inserts d db row) :
    row.serverCommandSeq = (issuedFor issued row.sessionId).length+1 ∧ row.serverCommandSeq ≤ i64Max := by
  rcases inserts.sequence with hnext | ⟨hnone,hone⟩
  · exact h.nextCommandSequence_eq hnext
  · have hempty : issuedFor issued row.sessionId = [] := by
      apply List.filter_eq_nil_iff.mpr
      intro r hr heq
      have hsome := h.owned r hr
      rw [of_decide_eq_true heq,hnone] at hsome
      cases hsome
    rw [hempty,hone]
    exact ⟨rfl,by decide⟩

theorem asInserted {row : OutboxRow} (inserts : Inserts d db row)
    (hrange : row.serverCommandSeq ≤ i64Max) : AsInserted d row := by
  obtain ⟨hcommand,hsession,-⟩ := inserts.identity
  have hnames := CommandEnvelope.validate_names inserts.valid
  rw [hcommand,hsession] at hnames
  exact ⟨inserts.pending,inserts.digests,hnames,hrange⟩

theorem insert (h : CommandLedger d db issued acked) (frame : CommandFrame db db') {row : OutboxRow}
    (outbox : db'.outbox = db.outbox ++ [row]) (inserts : Inserts d db row)
    (owned : (db'.session? row.sessionId).isSome = true)
    (htomb : ∀ t ∈ db.tombstones, t.commandId ≠ row.commandId) :
    CommandLedger d db' (issued ++ [row]) acked := by
  have hfresh := h.fresh_id inserts.unused htomb
  obtain ⟨hseq,hrange⟩ := h.inserts_sequence inserts
  have hnot : row.commandId ∉ acked := by
    intro hmem
    obtain ⟨r,hr,hid⟩ := h.known _ hmem
    exact hfresh r hr hid
  have habove : db'.aboveAck = db.aboveAck := by
    funext r
    simp only [Db.aboveAck,frame.acks]
  have hrow : db.aboveAck row = true := by
    rw [aboveAck_eq_true,hseq]
    exact Nat.lt_succ_of_le (h.commandAck_le _)
  have hstamp : stamp acked row = row := by
    simp [stamp,hnot,← inserts.pending]
  refine ⟨frame.keyed h.keyed,?_,fun sid => ?_,fun r hr => ?_,fun r hr => ?_,fun id hid => ?_,
    fun sid => ?_,?_,?_⟩
  · rw [List.map_append,List.nodup_append]
    refine ⟨h.ids,by simp,?_⟩
    intro a ha b hb
    obtain ⟨r,hr,rfl⟩ := List.mem_map.mp ha
    obtain rfl : b = row.commandId := by simpa using hb
    exact hfresh r hr
  · rw [issuedFor_append]
    by_cases hsid : sid = row.sessionId
    · rw [hsid,issuedFor_single]
      exact (h.numbered _).snoc hseq
    · rw [issuedFor_other hsid,List.append_nil]
      exact h.numbered sid
  · rcases List.mem_append.mp hr with hr | hr
    · exact frame.sessions _ (h.owned r hr)
    · obtain rfl := List.mem_singleton.mp hr
      exact owned
  · rcases List.mem_append.mp hr with hr | hr
    · exact h.inserted r hr
    · obtain rfl := List.mem_singleton.mp hr
      exact asInserted inserts hrange
  · obtain ⟨r,hr,hid⟩ := h.known id hid
    exact ⟨r,List.mem_append_left _ hr,hid⟩
  · rw [frame.acks]
    apply (h.watermark sid).congr
    intro n _
    unfold AckedSeq
    rw [issuedFor_append]
    constructor
    · rintro ⟨r,hr,hdone⟩
      exact ⟨r,List.mem_append_left _ hr,hdone⟩
    · rintro ⟨r,hr,hn,hdone⟩
      rcases List.mem_append.mp hr with hr | hr
      · exact ⟨r,hr,hn,hdone⟩
      · obtain rfl := List.mem_singleton.mp (mem_issuedFor.mp hr).1
        exact absurd hdone hnot
  · rw [outbox,habove,h.outbox]
    simp [hrow,hstamp]
  · rw [frame.tombstones,habove]
    simpa [hrow] using h.tombstones

theorem step {rows : List OutboxRow} (h : CommandLedger d db issued acked)
    (hstep : CommandStep d db rows db')
    (htomb : ∀ r ∈ rows, ∀ t ∈ db.tombstones, t.commandId ≠ r.commandId) :
    CommandLedger d db' (issued ++ rows) acked := by
  cases hstep with
  | keep frame outbox =>
    rw [List.append_nil]
    exact h.keep frame outbox
  | insert frame outbox inserts owned => exact h.insert frame outbox inserts owned (htomb _ (by simp))

theorem changes {rows : List OutboxRow} (h : CommandLedger d db issued acked)
    (hchanges : Changes ev d db rows db')
    (htomb : ∀ r ∈ rows, ∀ t ∈ db.tombstones, t.commandId ≠ r.commandId) :
    CommandLedger d db' (issued ++ rows) acked := by
  induction hchanges generalizing issued with
  | refl db => simpa using h
  | @step db db₁ db₂ rows rows' head tail ih =>
    have hstep := head.commandStep
    have hkept : db₁.tombstones = db.tombstones := by
      cases hstep with
      | keep frame => exact frame.tombstones
      | insert frame => exact frame.tombstones
    rw [← List.append_assoc]
    apply ih (h.step hstep fun r hr => htomb r (List.mem_append_left _ hr))
    intro r hr t ht
    rw [hkept] at ht
    exact htomb r (List.mem_append_right _ hr) t ht

/-! ### Acknowledgement -/

theorem mem_list_iff (h : CommandLedger d db issued acked) {acked' : List String}
    (hmem : ∀ id, id ∈ acked' ↔ id ∈ acked) : CommandLedger d db issued acked' := by
  have hstamp : stamp acked' = stamp acked := by
    funext r
    simp only [stamp,hmem]
  refine ⟨h.keyed,h.ids,h.numbered,h.owned,h.inserted,fun id hid => h.known id ((hmem id).mp hid),
    fun sid => ?_,?_,h.tombstones⟩
  · apply (h.watermark sid).congr
    intro n _
    simp only [AckedSeq,hmem]
  · rw [hstamp]
    exact h.outbox

section

variable {acked' : List String} {db₁ : Db}

/-- The outbox rows of a session, once the rows above the watermark carry their stamps. -/
theorem mem_stampedOutbox (hout : db₁.outbox = (issued.filter db.aboveAck).map (stamp acked')) {sid : String}
    {q : OutboxRow} : q ∈ db₁.outboxOf sid ↔
      ∃ p ∈ issuedFor issued sid, db.aboveAck p = true ∧ stamp acked' p = q := by
  rw [Db.outboxOf,hout,List.mem_filter,List.mem_map]
  constructor
  · rintro ⟨⟨p,hp,rfl⟩,hsid⟩
    obtain ⟨hp,hpa⟩ := List.mem_filter.mp hp
    exact ⟨p,mem_issuedFor.mpr ⟨hp,of_decide_eq_true hsid⟩,hpa,rfl⟩
  · rintro ⟨p,hp,hpa,rfl⟩
    obtain ⟨hp,hsid⟩ := mem_issuedFor.mp hp
    exact ⟨⟨p,List.mem_filter.mpr ⟨hp,hpa⟩,rfl⟩,by simp [stamp,hsid]⟩

/-- A command that has no acknowledgement is among the open rows of the outbox. -/
theorem open_of_unacked (h : CommandLedger d db issued acked) (hsub : ∀ id ∈ acked, id ∈ acked')
    (hout : db₁.outbox = (issued.filter db.aboveAck).map (stamp acked')) {sid : String} {q : OutboxRow}
    (hq : q ∈ issuedFor issued sid) (hnot : q.commandId ∉ acked') : q.serverCommandSeq ∈
      ((db₁.outboxOf sid).filter fun q => decide (db.commandAck sid < q.serverCommandSeq) &&
        !q.acknowledged).map (·.serverCommandSeq) := by
  have hqa : db.aboveAck q = true := by
    by_contra hqa
    apply hnot (hsub _ (h.acked_of_below (mem_issuedFor.mp hq).1 _))
    exact aboveAck_eq_false.mp (Bool.eq_false_iff.mpr hqa)
  have hlt := aboveAck_eq_true.mp hqa
  rw [(mem_issuedFor.mp hq).2] at hlt
  refine List.mem_map.mpr ⟨stamp acked' q,List.mem_filter.mpr ⟨(mem_stampedOutbox hout).mpr ⟨q,hq,hqa,rfl⟩,?_⟩,rfl⟩
  simp [stamp,hlt,hnot]

/-- The largest sequence of the outbox is the last one of the history, as long as a row is above the
watermark. -/
theorem maxSeq_stampedOutbox (h : CommandLedger d db issued acked) {r : OutboxRow} (hr : r ∈ issued)
    (habove : db.aboveAck r = true)
    (hout : db₁.outbox = (issued.filter db.aboveAck).map (stamp acked')) :
    max (Db.maxSeq ((db₁.outboxOf r.sessionId).map (·.serverCommandSeq))) (db.commandAck r.sessionId) =
      (issuedFor issued r.sessionId).length := by
  have hnum := h.numbered r.sessionId
  have hrmem : r ∈ issuedFor issued r.sessionId := mem_issuedFor.mpr ⟨hr,rfl⟩
  have hlt := aboveAck_eq_true.mp habove
  have hle := hnum.le_length hrmem
  obtain ⟨q,hq,hlast⟩ := hnum.exists_seq (Nat.lt_of_lt_of_le (hnum.positive hrmem) hle) le_rfl
  have hqa : db.aboveAck q = true := by
    rw [aboveAck_eq_true,(mem_issuedFor.mp hq).2,hlast]
    omega
  have hlower : q.serverCommandSeq ≤ Db.maxSeq ((db₁.outboxOf r.sessionId).map (·.serverCommandSeq)) :=
    le_maxSeq (List.mem_map.mpr ⟨_,(mem_stampedOutbox hout).mpr ⟨q,hq,hqa,rfl⟩,rfl⟩)
  have hupper : Db.maxSeq ((db₁.outboxOf r.sessionId).map (·.serverCommandSeq)) ≤
      (issuedFor issued r.sessionId).length := by
    apply maxSeq_le
    intro m hm
    obtain ⟨q,hq,rfl⟩ := List.mem_map.mp hm
    obtain ⟨p,hp,-,rfl⟩ := (mem_stampedOutbox hout).mp hq
    show p.serverCommandSeq ≤ _
    exact hnum.le_length hp
  omega

end

/-- The watermark that an acknowledgement computes from the outbox alone is the one of the
whole history. -/
theorem commandWatermark_spec (h : CommandLedger d db issued acked) {acked' : List String}
    (hsub : ∀ id ∈ acked, id ∈ acked') {r : OutboxRow} (hr : r ∈ issued)
    (habove : db.aboveAck r = true) {db₁ : Db}
    (hout : db₁.outbox = (issued.filter db.aboveAck).map (stamp acked')) :
    Watermark (AckedSeq issued acked' r.sessionId)
        (commandWatermark db₁ r.sessionId (db.commandAck r.sessionId)) ∧
      db.commandAck r.sessionId ≤ commandWatermark db₁ r.sessionId (db.commandAck r.sessionId) := by
  refine ⟨?_,le_max_right ..⟩
  have hnum := h.numbered r.sessionId
  unfold commandWatermark
  cases hmin : (((db₁.outboxOf r.sessionId).filter fun q =>
    decide (db.commandAck r.sessionId < q.serverCommandSeq) && !q.acknowledged).map
      (·.serverCommandSeq)).min? with
  | none =>
    rw [List.min?_eq_none_iff] at hmin
    have hdone : ∀ q ∈ issuedFor issued r.sessionId, q.commandId ∈ acked' := by
      intro q hq
      by_contra hnot
      have hmem := h.open_of_unacked hsub hout hq hnot
      rw [hmin] at hmem
      cases hmem
    simp only [h.maxSeq_stampedOutbox hr habove hout]
    exact hnum.watermark_of_done hdone
  | some n =>
    obtain ⟨hmem,hleast⟩ := List.min?_eq_some_iff.mp hmin
    obtain ⟨q,hq,rfl⟩ := List.mem_map.mp hmem
    obtain ⟨hq,hcond⟩ := List.mem_filter.mp hq
    obtain ⟨p,hp,-,rfl⟩ := (mem_stampedOutbox hout).mp hq
    rw [Bool.and_eq_true] at hcond
    have hlt : db.commandAck r.sessionId < p.serverCommandSeq := of_decide_eq_true hcond.1
    have hnot : p.commandId ∉ acked' := by simpa using hcond.2
    have hfirst := hnum.watermark_of_first hp hnot fun y hy hyn =>
      hleast _ (h.open_of_unacked hsub hout hy hyn)
    have heq : max (p.serverCommandSeq-1) (db.commandAck r.sessionId) = p.serverCommandSeq-1 := by
      omega
    show Watermark _ (max (p.serverCommandSeq-1) (db.commandAck r.sessionId))
    rw [heq]
    exact hfirst

end CommandLedger

end Store
end North
