import North.CommandLedger

/-! The command outbox over whole runs: acknowledgements, in any order and repeated, keep
the tables at the image of the history, and so does every other transaction. -/
namespace North
namespace Store

open Machine Protocol Domain

/-! ### Compaction -/

/-- Neither the primary key nor the unique index of the tombstones is shared. -/
def Apart (t u : CommandTombstone) : Prop :=
  t.commandId ≠ u.commandId ∧ ¬(t.sessionId = u.sessionId ∧ t.serverCommandSeq = u.serverCommandSeq)

theorem insertTombstone_apart {tombstones : List CommandTombstone} {t : CommandTombstone}
    (h : ∀ u ∈ tombstones, Apart u t) : insertTombstone tombstones t = tombstones ++ [t] := by
  unfold insertTombstone
  rw [if_neg]
  simp only [List.any_eq_true,Bool.or_eq_true,Bool.and_eq_true,decide_eq_true_eq,not_exists,not_and]
  intro u hu hor
  rcases hor with hid | hseq
  · exact (h u hu).1 hid
  · exact (h u hu).2 hseq

theorem foldl_insertTombstone {tombstones rows : List CommandTombstone}
    (hold : ∀ t ∈ rows, ∀ u ∈ tombstones, Apart u t) (hnew : rows.Pairwise Apart) :
    rows.foldl insertTombstone tombstones = tombstones ++ rows := by
  induction rows generalizing tombstones with
  | nil => simp
  | cons t rows ih =>
    rw [List.pairwise_cons] at hnew
    rw [List.foldl_cons,insertTombstone_apart (hold t (by simp)),ih _ hnew.2]
    · simp
    · intro v hv u hu
      rcases List.mem_append.mp hu with hu | hu
      · exact hold v (by simp [hv]) u hu
      · obtain rfl := List.mem_singleton.mp hu
        exact hnew.1 v hv

theorem setCommandAck_id (watermark : ℕ) (s : Session) : (setCommandAck watermark s).id = s.id := rfl

theorem compactable_stamp (sid : String) (watermark : ℕ) (acked : List String) (r : OutboxRow) :
    compactable sid watermark (stamp acked r) = (decide (r.sessionId = sid) &&
      decide (r.serverCommandSeq ≤ watermark) && decide (r.commandId ∈ acked)) := rfl

namespace CommandLedger

variable {d : Digests} {db db' : Db} {issued : List OutboxRow} {acked : List String}

theorem apart (h : CommandLedger d db issued acked) {r q : OutboxRow} (hr : r ∈ issued)
    (hq : q ∈ issued) (hne : r ≠ q) : Apart r.tombstone q.tombstone := by
  refine ⟨fun hid => hne (h.eq_of_commandId hr hq hid),?_⟩
  rintro ⟨hsid,hseq⟩
  have hqs : q ∈ issuedFor issued r.sessionId := mem_issuedFor.mpr ⟨hq,hsid.symm⟩
  exact hne ((h.numbered r.sessionId).injective (mem_issuedFor.mpr ⟨hr,rfl⟩) hqs hseq)

/-- Between transactions there is nothing to compact. -/
theorem compact_nothing (h : CommandLedger d db issued acked) {sid : String} {s : Session}
    (hs : db.session? sid = some s) : compactServerCommandsInTransaction db sid = some (0,db) := by
  have hnone : ∀ q ∈ db.outbox, compactable sid s.commandAckThroughSeq q = false := by
    intro q hq
    obtain ⟨r,-,habove,rfl⟩ := h.mem_outbox hq
    rw [aboveAck_eq_true] at habove
    by_contra hc
    simp only [compactable_stamp,Bool.and_eq_true,decide_eq_true_eq,Bool.not_eq_false] at hc
    rw [hc.1.1,commandAck_of_session hs] at habove
    omega
  have hempty : db.outbox.filter (compactable sid s.commandAckThroughSeq) = [] := by
    apply List.filter_eq_nil_iff.mpr
    intro q hq
    simp [hnone q hq]
  have hall : (db.outbox.filter fun q => !compactable sid s.commandAckThroughSeq q) = db.outbox := by
    apply List.filter_eq_self.mpr
    intro q hq
    simp [hnone q hq]
  simp [compactServerCommandsInTransaction,hs,hempty,hall]

/-- The tables between the acknowledgement of a row and the compaction: the watermark of
its session has moved, and the outbox and the tombstones are split at the old one. -/
structure Advanced (db : Db) (issued : List OutboxRow) (acked' : List String) (sid : String)
    (watermark : ℕ) (db₁ : Db) : Prop where
  keyed : db₁.Keyed
  session : ∃ s, db.session? sid = some s ∧ ∀ other,
    db₁.session? other = if other = sid then some (setCommandAck watermark s) else db.session? other
  greatest : Watermark (AckedSeq issued acked' sid) watermark
  grows : db.commandAck sid ≤ watermark
  outbox : db₁.outbox = (issued.filter db.aboveAck).map (stamp acked')
  tombstones : db₁.tombstones = db.tombstones

theorem Advanced.commandAck {db₁ : Db} {acked' : List String} {sid : String} {watermark : ℕ}
    (h : Advanced db issued acked' sid watermark db₁) (other : String) :
    db₁.commandAck other = if other = sid then watermark else db.commandAck other := by
  obtain ⟨s,-,hs⟩ := h.session
  unfold Db.commandAck
  rw [hs]
  split_ifs <;> rfl

theorem Advanced.aboveAck_of_below {db₁ : Db} {acked' : List String} {sid : String} {watermark : ℕ}
    (h : Advanced db issued acked' sid watermark db₁) {r : OutboxRow} (hbelow : db.aboveAck r = false) :
    db₁.aboveAck r = false := by
  rw [aboveAck_eq_false] at *
  rw [h.commandAck]
  split_ifs with hsid
  · rw [hsid] at hbelow
    exact hbelow.trans h.grows
  · exact hbelow

theorem Advanced.split_perm {db₁ : Db} {acked' : List String} {sid : String} {watermark : ℕ}
    (h : Advanced db issued acked' sid watermark db₁) (rows : List OutboxRow) :
    ((rows.filter fun r => !db.aboveAck r) ++
      (rows.filter db.aboveAck).filter fun r => !db₁.aboveAck r).Perm
        (rows.filter fun r => !db₁.aboveAck r) := by
  have hsplit := List.filter_append_perm (fun r => !db.aboveAck r) (rows.filter fun r => !db₁.aboveAck r)
  have hold : ((rows.filter fun r => !db₁.aboveAck r).filter fun r => !db.aboveAck r) =
      rows.filter fun r => !db.aboveAck r := by
    rw [List.filter_filter]
    apply List.filter_congr
    intro r _
    cases habove : db.aboveAck r with
    | true => simp
    | false => simp [h.aboveAck_of_below habove]
  have hnew : ((rows.filter fun r => !db₁.aboveAck r).filter fun r => !!db.aboveAck r) =
      (rows.filter db.aboveAck).filter fun r => !db₁.aboveAck r := by
    rw [List.filter_filter,List.filter_filter]
    apply List.filter_congr
    intro r _
    cases db.aboveAck r <;> simp
  rw [hold,hnew] at hsplit
  exact hsplit

/-- A row of the old outbox is compacted when the new watermark has reached it. -/
theorem compactable_advanced (h : CommandLedger d db issued acked) {db₁ : Db}
    {acked' : List String} {sid : String} {watermark : ℕ}
    (hadv : Advanced db issued acked' sid watermark db₁) {r : OutboxRow} (hr : r ∈ issued)
    (habove : db.aboveAck r = true) :
    compactable sid watermark (stamp acked' r) = !db₁.aboveAck r := by
  rw [compactable_stamp,Bool.eq_iff_iff,Bool.not_eq_true',aboveAck_eq_false,hadv.commandAck]
  simp only [Bool.and_eq_true,decide_eq_true_eq]
  rw [aboveAck_eq_true] at habove
  constructor
  · rintro ⟨⟨rfl,hle⟩,-⟩
    simpa using hle
  · intro hle
    split_ifs at hle with hsid
    · subst hsid
      refine ⟨⟨rfl,hle⟩,?_⟩
      exact (h.numbered r.sessionId).done_of_le hadv.greatest (mem_issuedFor.mpr ⟨hr,rfl⟩) hle
    · omega

theorem moved_apart (h : CommandLedger d db issued acked) (p : OutboxRow → Bool) :
    (∀ t ∈ ((issued.filter db.aboveAck).filter p).map OutboxRow.tombstone, ∀ u ∈ db.tombstones,
      Apart u t) ∧ (((issued.filter db.aboveAck).filter p).map OutboxRow.tombstone).Pairwise Apart := by
  constructor
  · intro t ht u hu
    obtain ⟨r,hr,rfl⟩ := List.mem_map.mp ht
    obtain ⟨hr,habove⟩ := List.mem_filter.mp (List.mem_of_mem_filter hr)
    obtain ⟨q,hq,hbelow,rfl⟩ := h.mem_tombstones hu
    apply h.apart hq hr
    rintro rfl
    rw [habove] at hbelow
    cases hbelow
  · rw [List.pairwise_map]
    have hnodup : issued.Nodup := h.ids.of_map
    apply ((hnodup.filter _).filter p).imp_of_mem
    intro r q hr hq hne
    exact h.apart (List.mem_of_mem_filter (List.mem_of_mem_filter hr))
      (List.mem_of_mem_filter (List.mem_of_mem_filter hq)) hne

theorem compact_advanced (h : CommandLedger d db issued acked) {db₁ : Db} {acked' : List String}
    {sid : String} {watermark count : ℕ} (hadv : Advanced db issued acked' sid watermark db₁)
    (hknown : ∀ id ∈ acked', ∃ r ∈ issued, r.commandId = id)
    (hother : ∀ other, other ≠ sid → ∀ n, AckedSeq issued acked' other n ↔ AckedSeq issued acked other n)
    (hcompact : compactServerCommandsInTransaction db₁ sid = some (count,db')) :
    CommandLedger d db' issued acked' := by
  obtain ⟨s,hs,hsession⟩ := hadv.session
  unfold compactServerCommandsInTransaction at hcompact
  simp only [hsession,if_true,Option.some.injEq,Prod.mk.injEq,setCommandAck] at hcompact
  obtain ⟨-,rfl⟩ := hcompact
  have hrows : db₁.outbox.filter (compactable sid watermark) =
      ((issued.filter db.aboveAck).filter fun r => !db₁.aboveAck r).map (stamp acked') := by
    rw [hadv.outbox,List.filter_map]
    congr 1
    apply List.filter_congr
    intro r hr
    obtain ⟨hr,habove⟩ := List.mem_filter.mp hr
    exact h.compactable_advanced hadv hr habove
  have hkept : (db₁.outbox.filter fun r => !compactable sid watermark r) =
      (issued.filter db₁.aboveAck).map (stamp acked') := by
    rw [hadv.outbox,List.filter_map]
    congr 1
    rw [List.filter_filter]
    apply List.filter_congr
    intro r hr
    show (!compactable sid watermark (stamp acked' r) && db.aboveAck r) = db₁.aboveAck r
    cases habove : db.aboveAck r with
    | true => simp [h.compactable_advanced hadv hr habove]
    | false => simp [hadv.aboveAck_of_below habove]
  refine ⟨hadv.keyed,h.ids,h.numbered,fun r hr => ?_,h.inserted,hknown,fun other => ?_,hkept,?_⟩
  · show (db₁.session? r.sessionId).isSome = true
    rw [hsession]
    split_ifs
    · rfl
    · exact h.owned r hr
  · show Watermark _ (db₁.commandAck other)
    rw [hadv.commandAck]
    split_ifs with heq
    · rw [heq]
      exact hadv.greatest
    · exact (h.watermark other).congr fun n _ => (hother other heq n).symm
  · show (List.foldl insertTombstone db₁.tombstones _).Perm
      ((issued.filter fun r => !db₁.aboveAck r).map OutboxRow.tombstone)
    obtain ⟨hold,hnew⟩ := h.moved_apart fun r => !db₁.aboveAck r
    have htomb : OutboxRow.tombstone ∘ stamp acked' = OutboxRow.tombstone := rfl
    rw [hrows,List.map_map,htomb,hadv.tombstones,foldl_insertTombstone hold hnew]
    calc db.tombstones ++ ((issued.filter db.aboveAck).filter fun r => !db₁.aboveAck r).map
          OutboxRow.tombstone
        _ |>.Perm (((issued.filter fun r => !db.aboveAck r) ++
            (issued.filter db.aboveAck).filter fun r => !db₁.aboveAck r).map OutboxRow.tombstone) := by
          rw [List.map_append]
          exact h.tombstones.append_right _
        _ |>.Perm _ := (hadv.split_perm issued).map _

/-! ### Acknowledgement -/

theorem marked_outbox (h : CommandLedger d db issued acked) (r : OutboxRow) :
    (if (stamp acked r).acknowledged then db else markAcknowledged db r.commandId) =
      { db with outbox := (issued.filter db.aboveAck).map (stamp (acked ++ [r.commandId])) } := by
  by_cases hmem : r.commandId ∈ acked
  · have hstamp : stamp (acked ++ [r.commandId]) = stamp acked := by
      funext q
      by_cases hq : q.commandId = r.commandId <;> simp [stamp,hq,hmem]
    rw [if_pos (by simpa using hmem),hstamp,← h.outbox]
  · rw [if_neg (by simpa using hmem)]
    have hids : (db.outbox.map (·.commandId)).Nodup := by
      rw [h.outbox,List.map_map]
      exact h.ids.sublist (List.filter_sublist.map _)
    unfold markAcknowledged
    rw [Table.updateFirst_eq_map (·.commandId) r.commandId _ db.outbox hids,h.outbox,List.map_map]
    congr 2
    funext q
    by_cases hq : q.commandId = r.commandId <;> simp [stamp,hq]

theorem acknowledgeOutboxRow_ledger (h : CommandLedger d db issued acked) {r : OutboxRow}
    (hr : r ∈ issued) (habove : db.aboveAck r = true) {sid : String} {sequence watermark count : ℕ}
    {db₁ : Db} (hack : acknowledgeOutboxRow d db (stamp acked r) sid sequence = .ok (watermark,db₁))
    (hcompact : compactServerCommandsInTransaction db₁ sid = some (count,db')) :
    CommandLedger d db' issued (acked ++ [r.commandId]) := by
  unfold acknowledgeOutboxRow at hack
  split at hack
  · cases hack
  rename_i hident
  split at hack
  · cases hack
  obtain ⟨hsid,-⟩ : r.sessionId = sid ∧ r.serverCommandSeq = sequence := by
    simpa [not_or,stamp] using hident
  subst hsid
  rw [orError_eq_ok] at hack
  obtain ⟨db₀,hmarked,hsessions,houtbox,htombstones⟩ : ∃ db₀ : Db,
      (if (stamp acked r).acknowledged then db else markAcknowledged db r.commandId) = db₀ ∧
      db₀.sessions = db.sessions ∧
      db₀.outbox = (issued.filter db.aboveAck).map (stamp (acked ++ [r.commandId])) ∧
      db₀.tombstones = db.tombstones := ⟨_,h.marked_outbox r,rfl,rfl,rfl⟩
  change advanceCommandWatermark (if (stamp acked r).acknowledged then db
    else markAcknowledged db r.commandId) r.sessionId = _ at hack
  rw [hmarked] at hack
  have hsub : ∀ id ∈ acked, id ∈ acked ++ [r.commandId] := fun id hid => List.mem_append_left _ hid
  have hsession : ∀ other, db₀.session? other = db.session? other := by
    intro other
    unfold Db.session?
    rw [hsessions]
  obtain ⟨s,hs⟩ := Option.isSome_iff_exists.mp (h.owned r hr)
  have hspec := h.commandWatermark_spec hsub hr habove houtbox
  rw [commandAck_of_session hs] at hspec
  simp only [advanceCommandWatermark,hsession,hs,Option.some.injEq,Prod.mk.injEq] at hack
  obtain ⟨rfl,rfl⟩ := hack
  have hkeyed : db₀.Keyed := by
    unfold Db.Keyed
    rw [hsessions]
    exact h.keyed
  have hadv : Advanced db issued (acked ++ [r.commandId]) r.sessionId
      (commandWatermark db₀ r.sessionId s.commandAckThroughSeq)
      (db₀.updateSession r.sessionId
        (setCommandAck (commandWatermark db₀ r.sessionId s.commandAckThroughSeq))) := by
    refine ⟨keyed_updateSession hkeyed _ _ fun _ => rfl,⟨s,hs,fun other => ?_⟩,hspec.1,?_,houtbox,
      htombstones⟩
    · rw [session?_updateSession _ _ _ _ (setCommandAck_id _),hsession,hsession,hs]
      rfl
    · rw [commandAck_of_session hs]
      exact hspec.2
  refine h.compact_advanced hadv ?_ ?_ hcompact
  · intro id hid
    rcases List.mem_append.mp hid with hid | hid
    · exact h.known id hid
    · exact ⟨r,hr,(List.mem_singleton.mp hid).symm⟩
  · intro other hne n
    constructor
    · rintro ⟨q,hq,hn,hmem⟩
      refine ⟨q,hq,hn,?_⟩
      rcases List.mem_append.mp hmem with hmem | hmem
      · exact hmem
      · obtain ⟨hq,hsid⟩ := mem_issuedFor.mp hq
        have hqr := h.eq_of_commandId hq hr (List.mem_singleton.mp hmem)
        exact absurd (hqr ▸ hsid).symm hne
    · rintro ⟨q,hq,hn,hmem⟩
      exact ⟨q,hq,hn,hsub _ hmem⟩

/-- An acknowledgement is committed for a command in the outbox, or repeats one that was
compacted and then changes nothing. -/
theorem acknowledge (h : CommandLedger d db issued acked) {commandId sid : String}
    {sequence watermark : ℕ}
    (hack : acknowledgeCommand d commandId sid sequence db = .ok (watermark,db')) :
    CommandLedger d db' issued (acked ++ [commandId]) := by
  unfold acknowledgeCommand at hack
  split at hack
  · cases hack
  split at hack
  · cases hack
  simp only [bind_eq_ok,orError_eq_ok] at hack
  obtain ⟨⟨w,db₁⟩,hrow,⟨count,db₂⟩,hcompact,hack⟩ := hack
  cases hack
  split at hrow
  · rename_i row hfind
    obtain ⟨hmem,rfl⟩ := Table.find?_key hfind
    obtain ⟨r,hr,habove,rfl⟩ := h.mem_outbox hmem
    exact h.acknowledgeOutboxRow_ledger (r := r) hr habove hrow hcompact
  · split at hrow
    · cases hrow
    rename_i t hfind
    obtain ⟨hmem,rfl⟩ := Table.find?_key hfind
    obtain ⟨r,hr,hbelow,rfl⟩ := h.mem_tombstones hmem
    unfold acknowledgeTombstone at hrow
    split at hrow
    · cases hrow
    rw [orError_eq_ok,Option.map_eq_some_iff] at hrow
    obtain ⟨s,hs,heq⟩ := hrow
    cases heq
    rw [h.compact_nothing hs] at hcompact
    cases hcompact
    have hacked : r.commandId ∈ acked := h.acked_of_below hr (aboveAck_eq_false.mp hbelow)
    apply h.mem_list_iff
    intro id
    rw [List.mem_append,List.mem_singleton]
    constructor
    · rintro (hid | rfl)
      · exact hid
      · exact hacked
    · exact .inl

end CommandLedger

/-! ### Runs -/

/-- The ids that `random_hex` draws for a transaction are none of the compacted commands'. The
unique columns of the outbox reject the others that are in use. -/
def FreshIds (w : World) (act : Act) : Prop :=
  ∀ id ∈ act.drawn w.db, ∀ t ∈ w.db.tombstones, t.commandId ≠ id

instance (w : World) (act : Act) : Decidable (FreshIds w act) :=
  inferInstanceAs (Decidable (∀ id ∈ act.drawn w.db, ∀ t ∈ w.db.tombstones, t.commandId ≠ id))

theorem Act.acknowledges_some {d : Digests} {db : Db} {act : Act} {id : String}
    (h : act.acknowledges d db = some id) : ∃ sid sequence watermark db',
      act = .run (.acknowledge id sid sequence) ∧
      acknowledgeCommand d id sid sequence db = .ok (watermark,db') := by
  unfold Act.acknowledges at h
  split at h
  · split at h
    · rename_i hok
      cases h
      exact ⟨_,_,_,_,rfl,hok⟩
    · cases h
  · cases h

def World.Ledger (d : Digests) (w : World) : Prop := CommandLedger d w.db w.issued w.acked

theorem World.ledger_empty (d : Digests) : World.Ledger d {} := by
  refine ⟨by simp [Db.Keyed],by simp,fun sid => rfl,by simp,by simp,by simp,fun sid => ?_,rfl,by simp⟩
  rw [Watermark.iff_next]
  refine ⟨fun m hm hle => ?_,?_⟩
  · have hzero : m ≤ 0 := hle
    omega
  · rintro ⟨r,hr,-⟩
    simp [issuedFor] at hr

theorem command_ledger {d : Digests} {w : World} (h : w.Ledger d) {now : ℕ} {sentAt : String}
    {request : CommandRequest} : (w.step d (.command now sentAt request)).Ledger d := by
  have hacked : (w.step d (.command now sentAt request)).acked = w.acked := List.append_nil _
  unfold World.Ledger
  rw [hacked]
  have hsame : newCommands w.db w.db = [] := (Grows.mk (by simp) (by simp)).newCommands_eq
  cases hstart : startSessionWithCommand d now sentAt request w.db with
  | error e =>
    have hdb : (Act.command now sentAt request).apply d w.db = w.db := by
      simp [Act.apply,hstart,committed]
    simp only [World.step,hdb,hsame,List.append_nil]
    exact h
  | ok p =>
    obtain ⟨command,db'⟩ := p
    have hdb : (Act.command now sentAt request).apply d w.db = db' := by
      simp [Act.apply,hstart,committed]
    simp only [World.step,hdb]
    rcases startSessionWithCommand_cases hstart with rfl | ⟨db₁,row,hbinds,hstep,-,hout,htomb⟩
    · rw [hsame,List.append_nil]
      exact h
    · have hgrows : Grows w.db [row] db' := by
        cases hstep with
        | insert frame outbox => exact ⟨by rw [outbox,hbinds.outbox],by simpa using hout⟩
      rw [hgrows.newCommands_eq]
      refine (h.keep hbinds.frame hbinds.outbox).step hstep ?_
      intro r hr t ht
      rw [hbinds.frame.tombstones] at ht
      obtain rfl := List.mem_singleton.mp hr
      exact htomb t ht

theorem World.step_ledger {d : Digests} {w : World} {act : Act} (h : w.Ledger d)
    (hfresh : FreshIds w act) : (w.step d act).Ledger d := by
  cases hack : act.acknowledges d w.db with
  | some id =>
    obtain ⟨sid,sequence,watermark,db',rfl,hok⟩ := Act.acknowledges_some hack
    have hdb : Act.apply d w.db (.run (.acknowledge id sid sequence)) = db' := by
      simp [Act.apply,RunAct.apply,hok,committed]
    unfold World.Ledger World.step
    rw [hdb,hack,(acknowledge_delivers hok).newCommands_eq,List.append_nil]
    exact h.acknowledge hok
  | none =>
    cases act with
    | command now sentAt request => exact command_ledger h
    | run act =>
      unfold World.Ledger World.step
      rw [hack,Option.toList_none,List.append_nil]
      rcases act.apply_cases h.keyed with ⟨rows,hchanges,hdrawn⟩ | ⟨id,sid,sequence,watermark,rfl,hok⟩ |
        ⟨sid,count,rfl,hok⟩
      · show CommandLedger d (act.apply d w.db) (w.issued ++ newCommands w.db (act.apply d w.db)) w.acked
        rw [hchanges.grows.newCommands_eq]
        exact h.changes hchanges fun r hr => hfresh r.commandId (hdrawn r hr)
      · simp [Act.acknowledges,hok] at hack
      · unfold compactServerCommands at hok
        rw [orError_eq_ok] at hok
        have hs : ∃ s, w.db.session? sid = some s := by
          unfold compactServerCommandsInTransaction at hok
          split at hok
          · cases hok
          · exact ⟨_,‹_›⟩
        obtain ⟨s,hs⟩ := hs
        rw [h.compact_nothing hs] at hok
        have hdb : Act.apply d w.db (.run (.compact sid)) = w.db := by
          simp only [Option.some.injEq,Prod.mk.injEq] at hok
          exact hok.2.symm
        have hsame : newCommands w.db w.db = [] := (Grows.mk (by simp) (by simp)).newCommands_eq
        rw [hdb,hsame,List.append_nil]
        exact h

/-! ### What the outbox promises -/

theorem mapM_ok {ε α β : Type} {f : α → Except ε β} {g : α → β} {xs : List α}
    (h : ∀ x ∈ xs, f x = .ok (g x)) : xs.mapM f = .ok (xs.map g) := by
  induction xs with
  | nil => rfl
  | cons x xs ih =>
    rw [List.mapM_cons,h x (by simp),ih fun y hy => h y (by simp [hy])]
    rfl

instance : Std.Total replayOrder where
  total a b := by
    unfold replayOrder
    by_cases h : a.sessionId = b.sessionId
    · rcases Nat.le_total a.serverCommandSeq b.serverCommandSeq with hle | hle
      · exact .inl (.inr ⟨h,hle⟩)
      · exact .inr (.inr ⟨h.symm,hle⟩)
    · by_cases hlt : a.sessionId < b.sessionId
      · exact .inl (.inl hlt)
      · refine .inr (.inl (String.not_le.mp fun hle => h ?_))
        exact String.le_antisymm hle (String.not_lt.mp hlt)

instance : IsTrans OutboxRow replayOrder where
  trans a b c := by
    rintro (h | ⟨h,hle⟩) (h' | ⟨h',hle'⟩)
    · exact .inl (String.lt_trans h h')
    · exact .inl (h' ▸ h)
    · exact .inl (h ▸ h')
    · exact .inr ⟨h.trans h',hle.trans hle'⟩

/-- The commands of a daemon that are committed and not acknowledged. -/
def outstanding (w : World) (daemonId : String) : List OutboxRow :=
  w.issued.filter fun r => decide (r.daemonId = daemonId) && !decide (r.commandId ∈ w.acked)

theorem replayed_rows {d : Digests} {w : World} (h : w.Ledger d) (daemonId : String) :
    (w.db.outbox.filter fun r => decide (r.daemonId = daemonId) && !r.acknowledged) =
      outstanding w daemonId := by
  rw [h.outbox,List.filter_map,List.filter_filter]
  have hstamp : ∀ r ∈ outstanding w daemonId, stamp w.acked r = r := by
    intro r hr
    obtain ⟨hr,hcond⟩ := List.mem_filter.mp hr
    have hpending := (h.inserted r hr).pending
    have hnot : r.commandId ∉ w.acked := by
      rw [Bool.and_eq_true] at hcond
      simpa using hcond.2
    simp [stamp,hnot,← hpending]
  have hfilter : (w.issued.filter fun r =>
      ((fun q : OutboxRow => decide (q.daemonId = daemonId) && !q.acknowledged) ∘ stamp w.acked) r &&
        w.db.aboveAck r) = outstanding w daemonId := by
    apply List.filter_congr
    intro r hr
    show (decide (r.daemonId = daemonId) && !decide (r.commandId ∈ w.acked) && w.db.aboveAck r) =
      (decide (r.daemonId = daemonId) && !decide (r.commandId ∈ w.acked))
    by_cases hmem : r.commandId ∈ w.acked
    · simp [hmem]
    · have habove : w.db.aboveAck r = true := by
        by_contra hbelow
        exact hmem (h.acked_of_below hr (aboveAck_eq_false.mp (Bool.eq_false_iff.mpr hbelow)))
      simp [habove]
  rw [hfilter]
  exact (List.map_congr_left hstamp).trans (List.map_id _)

/-- Replay returns the outstanding commands of the daemon, each session's in order. -/
theorem unacknowledgedCommands_ok {d : Digests} {w : World} (h : w.Ledger d) (daemonId : String) :
    ∃ commands, unacknowledgedCommands d w.db daemonId = .ok commands ∧
      commands.Perm ((outstanding w daemonId).map OutboxRow.pinned) ∧
      commands.Pairwise fun a b => a.sessionId = b.sessionId → a.serverCommandSeq < b.serverCommandSeq := by
  unfold unacknowledgedCommands
  rw [replayed_rows h]
  have hsorted := List.perm_insertionSort replayOrder (outstanding w daemonId)
  have hissued : ∀ r ∈ (outstanding w daemonId).insertionSort replayOrder, r ∈ w.issued :=
    fun r hr => List.mem_of_mem_filter (hsorted.mem_iff.mp hr)
  have hpinned : ∀ r ∈ (outstanding w daemonId).insertionSort replayOrder,
      pinnedFromRow d r = .ok r.pinned := by
    intro r hr
    obtain ⟨hpayload,hidentity⟩ := (h.inserted r (hissued r hr)).digests
    simp [pinnedFromRow,digestsValid,commandIdentityDigestValid,hpayload,hidentity]
  refine ⟨_,mapM_ok hpinned,hsorted.map _,?_⟩
  rw [List.pairwise_map]
  have hnodup : ((outstanding w daemonId).insertionSort replayOrder).Nodup :=
    hsorted.nodup_iff.mpr ((List.Nodup.of_map _ h.ids).filter _)
  have hordered := (List.pairwise_insertionSort replayOrder (outstanding w daemonId)).and hnodup
  apply hordered.imp_of_mem
  rintro a b ha hb ⟨horder,hne⟩ hsid
  rcases horder with hlt | ⟨-,hle⟩
  · exact absurd hsid (String.ne_of_lt hlt)
  · apply lt_of_le_of_ne hle
    intro hseq
    have hbs : b ∈ issuedFor w.issued a.sessionId := mem_issuedFor.mpr ⟨hissued b hb,hsid.symm⟩
    have has : a ∈ issuedFor w.issued a.sessionId := mem_issuedFor.mpr ⟨hissued a ha,rfl⟩
    exact hne ((h.numbered a.sessionId).injective has hbs hseq)

/-- The command a row stands for, whichever table holds it. -/
structure CommandKey where
  commandId : String
  sessionId : String
  daemonId : String
  serverCommandSeq : ℕ
  payloadDigest : String
  commandIdentityDigest : String

def OutboxRow.key (r : OutboxRow) : CommandKey :=
  ⟨r.commandId,r.sessionId,r.daemonId,r.serverCommandSeq,r.payloadDigest,r.commandIdentityDigest⟩

def CommandTombstone.key (t : CommandTombstone) : CommandKey :=
  ⟨t.commandId,t.sessionId,t.daemonId,t.serverCommandSeq,t.payloadDigest,t.commandIdentityDigest⟩

/-- The promises of the command outbox in one state. -/
structure OutboxContract (d : Digests) (w : World) : Prop where
  /-- The sequences of a session are `1, 2, 3, ..` in the order of issue. -/
  numbered : ∀ sid, Numbered (·.serverCommandSeq) (issuedFor w.issued sid)
  ids : (w.issued.map (·.commandId)).Nodup
  /-- The two tables together hold every issued command once. -/
  stored : (w.db.outbox.map (·.key) ++ w.db.tombstones.map (·.key)).Perm (w.issued.map (·.key))
  /-- No command is in both tables. -/
  apart : ∀ q ∈ w.db.outbox, ∀ t ∈ w.db.tombstones, q.commandId ≠ t.commandId
  watermark : ∀ s ∈ w.db.sessions, Watermark (fun n => ∃ r ∈ w.issued, r.sessionId = s.id ∧
    r.serverCommandSeq = n ∧ r.commandId ∈ w.acked) s.commandAckThroughSeq
  replay : ∀ daemonId, ∃ commands, unacknowledgedCommands d w.db daemonId = .ok commands ∧
    commands.Perm ((outstanding w daemonId).map OutboxRow.pinned) ∧
    commands.Pairwise fun a b => a.sessionId = b.sessionId → a.serverCommandSeq < b.serverCommandSeq
  /-- A late acknowledgement of a compacted command repeats the watermark. -/
  late : ∀ t ∈ w.db.tombstones, ∃ watermark,
    acknowledgeCommand d t.commandId t.sessionId t.serverCommandSeq w.db = .ok (watermark,w.db)
  refused : ∀ t ∈ w.db.tombstones, ∀ sid sequence,
    (sid ≠ t.sessionId ∨ sequence ≠ t.serverCommandSeq) →
      (∃ e, acknowledgeCommand d t.commandId sid sequence w.db = .error e) ∧
      (w.step d (.run (.acknowledge t.commandId sid sequence))).db = w.db

theorem World.Ledger.apart {d : Digests} {w : World} (h : w.Ledger d) {q : OutboxRow}
    (hq : q ∈ w.db.outbox) {t : CommandTombstone} (ht : t ∈ w.db.tombstones) :
    q.commandId ≠ t.commandId := by
  obtain ⟨r,hr,habove,rfl⟩ := h.mem_outbox hq
  obtain ⟨p,hp,hbelow,rfl⟩ := h.mem_tombstones ht
  intro hid
  rw [h.eq_of_commandId hr hp hid,hbelow] at habove
  cases habove

theorem World.Ledger.stored {d : Digests} {w : World} (h : w.Ledger d) :
    (w.db.outbox.map (·.key) ++ w.db.tombstones.map (·.key)).Perm (w.issued.map (·.key)) := by
  have hout : w.db.outbox.map (·.key) = (w.issued.filter w.db.aboveAck).map (·.key) := by
    rw [h.outbox,List.map_map]
    rfl
  have htomb : (w.db.tombstones.map (·.key)).Perm
      ((w.issued.filter fun r => !w.db.aboveAck r).map (·.key)) := by
    have hmap := h.tombstones.map (·.key)
    rw [List.map_map] at hmap
    exact hmap
  rw [hout]
  calc (w.issued.filter w.db.aboveAck).map (·.key) ++ w.db.tombstones.map (·.key)
      _ |>.Perm ((w.issued.filter w.db.aboveAck ++ w.issued.filter fun r => !w.db.aboveAck r).map
          (·.key)) := by
        rw [List.map_append]
        exact htomb.append_left _
      _ |>.Perm _ := (List.filter_append_perm _ _).map _

theorem World.Ledger.find_tombstone {d : Digests} {w : World} (h : w.Ledger d) {t : CommandTombstone}
    (ht : t ∈ w.db.tombstones) :
    (w.db.outbox.find? fun r => decide (r.commandId = t.commandId)) = none ∧
      (w.db.tombstones.find? fun u => decide (u.commandId = t.commandId)) = some t := by
  have hids : (w.db.tombstones.map (·.commandId)).Nodup := by
    have hperm := h.tombstones.map (·.commandId)
    rw [List.map_map] at hperm
    exact hperm.nodup_iff.mpr (h.ids.sublist (List.filter_sublist.map _))
  exact ⟨Table.find?_key_none.mpr fun r hr => h.apart hr ht,Table.find?_key_of_mem hids ht⟩

theorem World.Ledger.late {d : Digests} {w : World} (h : w.Ledger d) {t : CommandTombstone}
    (ht : t ∈ w.db.tombstones) : ∃ watermark,
      acknowledgeCommand d t.commandId t.sessionId t.serverCommandSeq w.db = .ok (watermark,w.db) := by
  obtain ⟨hout,htomb⟩ := h.find_tombstone ht
  obtain ⟨r,hr,-,heq⟩ := h.mem_tombstones ht
  have hins := h.inserted r hr
  have hpos := (h.numbered r.sessionId).positive (mem_issuedFor.mpr ⟨hr,rfl⟩)
  obtain ⟨s,hs⟩ : ∃ s, w.db.session? t.sessionId = some s := by
    rw [heq]
    exact Option.isSome_iff_exists.mp (h.owned r hr)
  have hvalid : (Text.blank t.commandId || Text.blank t.sessionId || decide (t.serverCommandSeq = 0)) =
      false := by
    have hne : r.serverCommandSeq ≠ 0 := by omega
    simp [heq,OutboxRow.tombstone,hins.names,hne]
  have hrange : ¬ i64Max < t.serverCommandSeq := by
    rw [heq]
    exact Nat.not_lt.mpr hins.range
  have hack : acknowledgeTombstone w.db t t.sessionId t.serverCommandSeq =
      .ok (s.commandAckThroughSeq,w.db) := by
    simp [acknowledgeTombstone,hs,orError]
  refine ⟨s.commandAckThroughSeq,?_⟩
  unfold acknowledgeCommand
  rw [hvalid,if_neg (by simp),if_neg hrange]
  simp only [hout,htomb,hack,bind_eq_ok,orError_eq_ok]
  exact ⟨_,rfl,_,h.compact_nothing hs,rfl⟩

theorem World.Ledger.refused {d : Digests} {w : World} (h : w.Ledger d) {t : CommandTombstone}
    (ht : t ∈ w.db.tombstones) {sid : String} {sequence : ℕ}
    (hne : sid ≠ t.sessionId ∨ sequence ≠ t.serverCommandSeq) :
    ∃ e, acknowledgeCommand d t.commandId sid sequence w.db = .error e := by
  obtain ⟨hout,htomb⟩ := h.find_tombstone ht
  have hmismatch : t.sessionId ≠ sid ∨ t.serverCommandSeq ≠ sequence :=
    hne.imp (fun h heq => h heq.symm) fun h heq => h heq.symm
  unfold acknowledgeCommand
  split_ifs
  · exact ⟨_,rfl⟩
  · exact ⟨_,rfl⟩
  · simp only [hout,htomb,acknowledgeTombstone,if_pos hmismatch]
    exact ⟨_,rfl⟩

/-- In every run, in any order of its transactions, the command outbox keeps its promises:
sequences without gap or reuse, each command in one table, the watermark at the largest
acknowledged prefix, replay of what is outstanding, and late acknowledgements without
effect. -/
theorem command_outbox (d : Digests) (acts : List Act) (hfresh : World.Along d FreshIds {} acts) :
    OutboxContract d (runActs d acts) := by
  have h : (runActs d acts).Ledger d :=
    World.run_induction (fun w act hw hok => World.step_ledger hw hok) (World.ledger_empty d) hfresh
  generalize runActs d acts = w at h
  refine ⟨h.numbered,h.ids,h.stored,fun q hq t ht => h.apart hq ht,fun s hs => ?_,
    unacknowledgedCommands_ok h,fun t ht => h.late ht,fun t ht sid sequence hne => ?_⟩
  · have hw := h.watermark s.id
    rw [commandAck_of_session (session?_of_mem h.keyed hs)] at hw
    apply hw.congr
    intro n _
    simp only [AckedSeq,mem_issuedFor,and_assoc]
  · obtain ⟨e,he⟩ := h.refused ht hne
    exact ⟨⟨e,he⟩,by simp [World.step,Act.apply,RunAct.apply,he,committed]⟩

namespace Sample

def sends (commandId : String) : Act :=
  .command 1 "1" ⟨"run",commandId,[],none,none,.messageSend commandId "More"⟩

/-- Three commands, two of them acknowledged out of order, one of these once more, and a
fourth command after the compaction. -/
def delivered : List Act :=
  started.map .run ++ [sends "c2",.run (.acknowledge "c2" "run" 2),.run (.acknowledge "c1" "run" 1),
    .run (.acknowledge "c2" "run" 2),sends "c3"]

end Sample

theorem delivered_outbox : (runActs Sample.digests Sample.delivered).db.outbox.map
      (fun r => (r.commandId,r.serverCommandSeq)) = [("c3",3)] ∧
    (runActs Sample.digests Sample.delivered).db.tombstones.map
      (fun t => (t.commandId,t.serverCommandSeq)) = [("c1",1),("c2",2)] ∧
    OutboxContract Sample.digests (runActs Sample.digests Sample.delivered) :=
  ⟨by decide +kernel,by decide +kernel,
    command_outbox Sample.digests Sample.delivered (by decide +kernel)⟩

end Store
end North
