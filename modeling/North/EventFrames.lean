import North.StoreRuns

/-! What the transactions that ingest no event leave alone: the event ledger, the rows that
events wrote, and the event cursor of every session. -/
namespace North
namespace Store

open Machine Protocol Domain

/-- The event cursor of a session stays, and what binds it stays bound. -/
structure CursorKept (s s' : Session) : Prop where
  through : s'.eventAckThroughSeq = s.eventAckThroughSeq
  sparse : s'.eventAckSparse = s.eventAckSparse
  requirement : ∀ id, s.requirementId = some id → s'.requirementId = some id
  start : s.startMessageId.isSome = true → s'.startMessageId.isSome = true
  owner : ∀ id, s.daemonId = some id → s'.daemonId = some id

/-- The fate of one session: it stays absent, appears with an empty cursor, or keeps its own. -/
inductive SessionKept : Option Session → Option Session → Prop
  | absent : SessionKept none none
  | added {s : Session} (through : s.eventAckThroughSeq = 0) (sparse : s.eventAckSparse = []) :
      SessionKept none (some s)
  | kept {s s' : Session} (cursor : CursorKept s s') : SessionKept (some s) (some s')

theorem CursorKept.refl (s : Session) : CursorKept s s := ⟨rfl,rfl,fun _ => id,id,fun _ => id⟩

theorem CursorKept.of_eq {s s' : Session} (through : s'.eventAckThroughSeq = s.eventAckThroughSeq)
    (sparse : s'.eventAckSparse = s.eventAckSparse) (requirement : s'.requirementId = s.requirementId)
    (start : s'.startMessageId = s.startMessageId) (owner : s'.daemonId = s.daemonId) : CursorKept s s' :=
  ⟨through,sparse,fun _ hid => requirement.trans hid,fun hs => start ▸ hs,fun _ hid => owner.trans hid⟩

theorem CursorKept.trans {s s' s'' : Session} (h : CursorKept s s') (h' : CursorKept s' s'') :
    CursorKept s s'' where
  through := h'.through.trans h.through
  sparse := h'.sparse.trans h.sparse
  requirement id hid := h'.requirement id (h.requirement id hid)
  start hs := h'.start (h.start hs)
  owner id hid := h'.owner id (h.owner id hid)

theorem SessionKept.refl (s : Option Session) : SessionKept s s := by
  cases s with
  | none => exact .absent
  | some s => exact .kept (.refl s)

theorem SessionKept.trans {s s' s'' : Option Session} (h : SessionKept s s') (h' : SessionKept s' s'') :
    SessionKept s s'' := by
  cases h with
  | absent => exact h'
  | added through sparse =>
    cases h' with
    | kept cursor => exact .added (cursor.through.trans through) (cursor.sparse.trans sparse)
  | kept cursor =>
    cases h' with
    | kept cursor' => exact .kept (cursor.trans cursor')

theorem SessionKept.forward {o o' : Option Session} (h : SessionKept o o') {s : Session}
    (hs : o = some s) : ∃ s', o' = some s' ∧ CursorKept s s' := by
  cases h with
  | absent => cases hs
  | added => cases hs
  | kept cursor =>
    cases hs
    exact ⟨_,rfl,cursor⟩

theorem SessionKept.backward {o o' : Option Session} (h : SessionKept o o') {s' : Session}
    (hs : o' = some s') : (∃ s, o = some s ∧ CursorKept s s') ∨
      o = none ∧ s'.eventAckThroughSeq = 0 ∧ s'.eventAckSparse = [] := by
  cases h with
  | absent => cases hs
  | added through sparse =>
    cases hs
    exact .inr ⟨rfl,through,sparse⟩
  | kept cursor =>
    cases hs
    exact .inl ⟨_,rfl,cursor⟩

theorem EffectsKept.trans {db db₁ db₂ : Db} (h : EffectsKept db db₁) (h' : EffectsKept db₁ db₂) :
    EffectsKept db db₂ :=
  ⟨h'.messages.trans h.messages,h'.activities.trans h.activities,h'.assessments.trans h.assessments,
    h'.promoted.trans h.promoted⟩

structure LedgerKept (db db' : Db) : Prop where
  keyed : db.Keyed → db'.Keyed
  dedupe : db'.dedupe = db.dedupe
  effects : EffectsKept db db'
  sessions : ∀ sid, SessionKept (db.session? sid) (db'.session? sid)

namespace LedgerKept

theorem trans {db db₁ db₂ : Db} (h : LedgerKept db db₁) (h' : LedgerKept db₁ db₂) : LedgerKept db db₂ where
  keyed hk := h'.keyed (h.keyed hk)
  dedupe := h'.dedupe.trans h.dedupe
  effects := h.effects.trans h'.effects
  sessions sid := (h.sessions sid).trans (h'.sessions sid)

theorem same {db db' : Db} (hs : db'.sessions = db.sessions) (hd : db'.dedupe = db.dedupe)
    (he : EffectsKept db db') : LedgerKept db db' := by
  refine ⟨fun hk => ?_,hd,he,fun sid => ?_⟩
  · unfold Db.Keyed
    rw [hs]
    exact hk
  · have hsession : db'.session? sid = db.session? sid := by
      unfold Db.session?
      rw [hs]
    rw [hsession]
    exact .refl _

theorem refl (db : Db) : LedgerKept db db := same rfl rfl ⟨rfl,rfl,rfl,rfl⟩

theorem update {db db₁ : Db} {sid : String} {f : Session → Session} (hs : db₁.sessions = db.sessions)
    (hd : db₁.dedupe = db.dedupe) (he : EffectsKept db db₁) (hid : ∀ s, (f s).id = s.id)
    (hf : ∀ s, db₁.session? sid = some s → CursorKept s (f s)) :
    LedgerKept db (db₁.updateSession sid f) := by
  have h := same hs hd he
  refine h.trans ⟨fun hk => keyed_updateSession hk _ _ hid,rfl,⟨rfl,rfl,rfl,rfl⟩,fun other => ?_⟩
  rw [session?_updateSession _ _ _ _ hid]
  split_ifs with heq
  · subst heq
    cases hs : db₁.session? other with
    | none => exact .absent
    | some s => exact .kept (hf s hs)
  · exact .refl _

theorem add {db db' : Db} {s : Session} (fresh : db.session? s.id = none)
    (hthrough : s.eventAckThroughSeq = 0) (hsparse : s.eventAckSparse = [])
    (hs : db'.sessions = (db.addSession s).sessions) (hd : db'.dedupe = db.dedupe)
    (he : EffectsKept db db') : LedgerKept db db' := by
  refine ⟨fun hk => ?_,hd,he,fun other => ?_⟩
  · have hk' := keyed_addSession hk fresh
    unfold Db.Keyed at *
    rw [hs]
    exact hk'
  · have hsession : db'.session? other = if other = s.id then some s else db.session? other := by
      have h := session?_addSession fresh other
      unfold Db.session? at h ⊢
      rw [hs,h]
    rw [hsession]
    split_ifs with heq
    · rw [heq,fresh]
      exact .added hthrough hsparse
    · exact .refl _

end LedgerKept

theorem markCancelled_cursor (s : Session) : CursorKept s (markCancelled s) := by
  unfold markCancelled
  split <;> exact .of_eq rfl rfl rfl rfl rfl

theorem Change.ledgerKept {d : Digests} {db db' : Db} {rows : List OutboxRow}
    (h : Change false d db rows db') : LedgerKept db db' := by
  have none : ∀ {db : Db}, EffectsKept db db := ⟨rfl,rfl,rfl,rfl⟩
  cases h with
  | outer sessions _ _ _ dedupe effects => exact .same sessions dedupe (by simpa using effects)
  | newRun fresh => exact .add fresh rfl rfl rfl rfl ⟨rfl,rfl,rfl,rfl⟩
  | newStartedRun fresh => exact .add fresh rfl rfl rfl rfl ⟨rfl,rfl,rfl,rfl⟩
  | send => exact .same rfl rfl ⟨rfl,rfl,rfl,rfl⟩
  | cancelMark => exact .update rfl rfl none markCancelled_id fun s _ => markCancelled_cursor s
  | completed _ _ _ closes =>
    rw [(closeAttempt_some closes).2.1]
    exact .update rfl rfl ⟨rfl,rfl,rfl,rfl⟩ (fun _ => rfl) fun _ _ => .of_eq rfl rfl rfl rfl rfl
  | failed _ _ _ closes =>
    rw [(closeAttempt_some closes).2.1]
    exact .update rfl rfl ⟨rfl,rfl,rfl,rfl⟩ (fun _ => rfl) fun _ _ => .of_eq rfl rfl rfl rfl rfl
  | assign found _ _ unassigned =>
    refine .update rfl rfl ⟨rfl,rfl,rfl,rfl⟩ (fun _ => rfl) fun s hs => ⟨rfl,rfl,fun _ h => h,id,?_⟩
    -- the daemon is set only where there was none
    intro id hid
    have heq := found.symm.trans hs
    rw [Option.some.injEq] at heq
    rw [← heq,unassigned] at hid
    cases hid
  | cancelSend | giveUp | resume | started =>
    exact .update rfl rfl ⟨rfl,rfl,rfl,rfl⟩ (fun _ => rfl) fun _ _ => .of_eq rfl rfl rfl rfl rfl
  | recorded ingests => cases ingests

theorem Changes.ledgerKept {d : Digests} {db db' : Db} {rows : List OutboxRow}
    (h : Changes false d db rows db') : LedgerKept db db' := by
  induction h with
  | refl db => exact .refl db
  | step head tail ih => exact head.ledgerKept.trans ih

theorem setCommandAck_cursor (watermark : ℕ) (s : Session) : CursorKept s (setCommandAck watermark s) :=
  .of_eq rfl rfl rfl rfl rfl

theorem Delivers.ledgerKept {db db' : Db} (h : Delivers db db') : LedgerKept db db' := by
  have hframe := h.frame
  have heffects : EffectsKept db db' := by
    rw [hframe]
    exact ⟨rfl,rfl,rfl,rfl⟩
  have hdedupe : db'.dedupe = db.dedupe := by rw [hframe]
  rcases h.sessions with hs | ⟨sid,watermark,hs⟩
  · exact .same hs hdedupe heffects
  · have hupdate : LedgerKept db (db.updateSession sid (setCommandAck watermark)) :=
      .update rfl rfl ⟨rfl,rfl,rfl,rfl⟩ (fun _ => rfl) fun s _ => setCommandAck_cursor watermark s
    exact hupdate.trans (.same hs hdedupe
      ⟨heffects.messages,heffects.activities,heffects.assessments,heffects.promoted⟩)

theorem RunAct.ledgerKept {d : Digests} {db : Db} (hk : db.Keyed) {act : RunAct}
    (h : act.ingests = false) : LedgerKept db (act.apply d db) := by
  rcases act.apply_cases (d := d) hk with ⟨rows,hchanges,-⟩ | ⟨_,_,_,_,-,hok⟩ | ⟨_,_,-,hok⟩
  · rw [h] at hchanges
    exact hchanges.ledgerKept
  · exact (acknowledge_delivers hok).ledgerKept
  · exact (compactCommand_delivers hok).ledgerKept

end Store
end North
