import North.EventFrames

/-! What the transactions of the store do to the command tables: they leave them alone, or
they insert one command at the next sequence of its session. -/
namespace North
namespace Store

open Machine Protocol Domain

variable {ev : Bool}

def Db.commandAck (db : Db) (sessionId : String) : ℕ :=
  ((db.session? sessionId).map (·.commandAckThroughSeq)).getD 0

/-- The command watermarks and the tombstones stay, and no session goes away. -/
structure CommandFrame (db db' : Db) : Prop where
  keyed : db.Keyed → db'.Keyed
  acks : ∀ sid, db'.commandAck sid = db.commandAck sid
  sessions : ∀ sid, (db.session? sid).isSome = true → (db'.session? sid).isSome = true
  tombstones : db'.tombstones = db.tombstones

theorem CommandFrame.same {db db' : Db} (hs : db'.sessions = db.sessions)
    (ht : db'.tombstones = db.tombstones) : CommandFrame db db' := by
  have hsession : ∀ sid, db'.session? sid = db.session? sid := by
    intro sid
    unfold Db.session?
    rw [hs]
  refine ⟨fun hk => ?_,fun sid => ?_,fun sid h => ?_,ht⟩
  · unfold Db.Keyed
    rw [hs]
    exact hk
  · unfold Db.commandAck
    rw [hsession]
  · rwa [hsession]

theorem CommandFrame.update {db db₁ : Db} {sid : String} {f : Session → Session}
    (hs : db₁.sessions = db.sessions) (ht : db₁.tombstones = db.tombstones)
    (hid : ∀ s, (f s).id = s.id) (hack : ∀ s, (f s).commandAckThroughSeq = s.commandAckThroughSeq) :
    CommandFrame db (db₁.updateSession sid f) := by
  have hsession : ∀ other, (db₁.updateSession sid f).session? other =
      if other = sid then (db.session? sid).map f else db.session? other := by
    intro other
    rw [session?_updateSession _ _ _ _ hid]
    unfold Db.session?
    rw [hs]
  refine ⟨fun hk => ?_,fun other => ?_,fun other h => ?_,ht⟩
  · apply keyed_updateSession _ _ _ hid
    unfold Db.Keyed
    rw [hs]
    exact hk
  · unfold Db.commandAck
    rw [hsession]
    split_ifs with heq
    · subst heq
      cases db.session? other <;> simp [hack]
    · rfl
  · rw [hsession]
    split_ifs with heq
    · subst heq
      simpa using h
    · exact h

theorem CommandFrame.add {db db' : Db} {s : Session} (fresh : db.session? s.id = none)
    (hzero : s.commandAckThroughSeq = 0) (hs : db'.sessions = (db.addSession s).sessions)
    (ht : db'.tombstones = db.tombstones) :
    CommandFrame db db' ∧ (db'.session? s.id).isSome = true := by
  have hsession : ∀ other, db'.session? other = if other = s.id then some s else db.session? other := by
    intro other
    have h := session?_addSession fresh other
    unfold Db.session? at h ⊢
    rw [hs,h]
  refine ⟨⟨fun hk => ?_,fun other => ?_,fun other h => ?_,ht⟩,by simp [hsession]⟩
  · have hk' := keyed_addSession hk fresh
    unfold Db.Keyed at *
    rw [hs]
    exact hk'
  · unfold Db.commandAck
    rw [hsession]
    split_ifs with heq
    · subst heq
      simp [fresh,hzero]
    · rfl
  · rw [hsession]
    split_ifs with heq
    · rfl
    · exact h

theorem CommandFrame.trans {db db₁ db₂ : Db} (h : CommandFrame db db₁) (h' : CommandFrame db₁ db₂) :
    CommandFrame db db₂ where
  keyed hk := h'.keyed (h.keyed hk)
  acks sid := (h'.acks sid).trans (h.acks sid)
  sessions sid hs := h'.sessions sid (h.sessions sid hs)
  tombstones := h'.tombstones.trans h.tombstones

/-- The command tables stay, or one command is inserted. -/
inductive CommandStep (d : Digests) : Db → List OutboxRow → Db → Prop
  | keep {db db' : Db} (frame : CommandFrame db db') (outbox : db'.outbox = db.outbox) :
      CommandStep d db [] db'
  | insert {db db' : Db} {row : OutboxRow} (frame : CommandFrame db db')
      (outbox : db'.outbox = db.outbox ++ [row]) (inserts : Inserts d db row)
      (owned : (db'.session? row.sessionId).isSome = true) : CommandStep d db [row] db'

theorem markCancelled_ack (s : Session) :
    (markCancelled s).commandAckThroughSeq = s.commandAckThroughSeq := by
  unfold markCancelled
  split <;> rfl

theorem CommandStep.insert_update {d : Digests} {db db₁ : Db} {row : OutboxRow} {s : Session}
    {f : Session → Session} (found : db.session? row.sessionId = some s) (inserts : Inserts d db row)
    (hs : db₁.sessions = db.sessions) (ht : db₁.tombstones = db.tombstones)
    (outbox : db₁.outbox = db.outbox ++ [row]) (hid : ∀ s, (f s).id = s.id)
    (hack : ∀ s, (f s).commandAckThroughSeq = s.commandAckThroughSeq) :
    CommandStep d db [row] (db₁.updateSession row.sessionId f) := by
  have frame : CommandFrame db (db₁.updateSession row.sessionId f) := .update hs ht hid hack
  exact .insert frame outbox inserts (frame.sessions _ (by simp [found]))

theorem Change.commandStep {d : Digests} {db db' : Db} {rows : List OutboxRow}
    (h : Change ev d db rows db') : CommandStep d db rows db' := by
  cases h with
  | outer sessions _ outbox tombstones _ => exact .keep (.same sessions tombstones) outbox
  | newRun fresh => exact .keep (CommandFrame.add fresh rfl rfl rfl).1 rfl
  | @newStartedRun input row a fresh inserts =>
    have hadd := @CommandFrame.add db (((db.addSession (beginRun a.id (freshRun input row.sessionId
      (some row.daemonId) (some row.commandId)))).addCommand row).addAttempt a) _ fresh rfl rfl rfl
    exact .insert hadd.1 rfl inserts hadd.2
  | @send s row _ _ found _ _ inserts =>
    have frame : CommandFrame db (db.addCommand row) := .same rfl rfl
    exact .insert frame rfl inserts (frame.sessions _ (by simp [found]))
  | assign found _ _ _ _ inserts =>
    exact .insert_update found inserts rfl rfl rfl (fun _ => rfl) fun _ => rfl
  | cancelSend found _ _ inserts =>
    exact .insert_update found inserts rfl rfl rfl (fun _ => rfl) fun _ => rfl
  | resume found _ _ _ _ inserts =>
    exact .insert_update found inserts rfl rfl rfl (fun _ => rfl) fun _ => rfl
  | cancelMark => exact .keep (.update rfl rfl markCancelled_id markCancelled_ack) rfl
  | completed _ _ _ closes =>
    rw [(closeAttempt_some closes).2.1]
    exact .keep (.update rfl rfl (fun _ => rfl) fun _ => rfl) rfl
  | failed _ _ _ closes =>
    rw [(closeAttempt_some closes).2.1]
    exact .keep (.update rfl rfl (fun _ => rfl) fun _ => rfl) rfl
  | giveUp | started | recorded => exact .keep (.update rfl rfl (fun _ => rfl) fun _ => rfl) rfl

/-- Binding a session to a request: no command and no event moves, and the session is there
after it. -/
structure Binds (db : Db) (sessionId : String) (db' : Db) : Prop where
  frame : CommandFrame db db'
  ledger : LedgerKept db db'
  outbox : db'.outbox = db.outbox
  bound : (db'.session? sessionId).isSome = true

theorem Binds.refl {db : Db} {sessionId : String} (h : (db.session? sessionId).isSome = true) :
    Binds db sessionId db :=
  ⟨.same rfl rfl,.refl db,rfl,h⟩

theorem Binds.update {db db₁ : Db} {sessionId : String} (h : Binds db sessionId db₁)
    (f : Session → Session) (hid : ∀ s, (f s).id = s.id)
    (hack : ∀ s, (f s).commandAckThroughSeq = s.commandAckThroughSeq)
    (hcursor : ∀ s, db₁.session? sessionId = some s → CursorKept s (f s)) :
    Binds db sessionId (db₁.updateSession sessionId f) := by
  have frame : CommandFrame db₁ (db₁.updateSession sessionId f) := .update rfl rfl hid hack
  have ledger : LedgerKept db₁ (db₁.updateSession sessionId f) :=
    .update rfl rfl ⟨rfl,rfl,rfl,rfl⟩ hid hcursor
  exact ⟨h.frame.trans frame,h.ledger.trans ledger,h.outbox,frame.sessions _ h.bound⟩

theorem bindSession_binds {db db' : Db} {now : ℕ} {request : CommandRequest} {existing : Session}
    {daemonId : String} (found : db.session? request.sessionId = some existing)
    (h : bindSession db now request existing = .ok (daemonId,db')) :
    Binds db request.sessionId db' := by
  unfold bindSession at h
  split at h
  · cases h
  simp only [bind_eq_ok] at h
  obtain ⟨db₁,h₁,h⟩ := h
  have hrefl : Binds db request.sessionId db := .refl (by simp [found])
  have hrepositories : Binds db request.sessionId db₁ ∧ ∃ s, db₁.session? request.sessionId = some s ∧
      s.requirementId = existing.requirementId ∧ s.daemonId = existing.daemonId := by
    split at h₁
    · cases h₁
      exact ⟨hrefl,existing,found,rfl,rfl⟩
    · split_ifs at h₁
      · simp only [bind_eq_ok] at h₁
        obtain ⟨_,-,h₁⟩ := h₁
        cases h₁
        refine ⟨hrefl.update _ (fun _ => rfl) (fun _ => rfl) fun _ _ => .of_eq rfl rfl rfl rfl rfl,?_⟩
        rw [session?_updateSession _ _ _ _ (by exact fun _ => rfl),if_pos rfl,found]
        exact ⟨_,rfl,rfl,rfl⟩
      · cases h₁
        exact ⟨hrefl,existing,found,rfl,rfl⟩
  have hrequirement : ∀ db₂, db₂ = (if existing.requirementId.isNone && request.requirementId.isSome then
        db₁.updateSession request.sessionId fun s => { s with requirementId := request.requirementId }
      else db₁) → Binds db request.sessionId db₂ ∧
      ∃ s, db₂.session? request.sessionId = some s ∧ s.daemonId = existing.daemonId := by
    rintro db₂ rfl
    obtain ⟨hbinds,s₁,hs₁,hsame,howner⟩ := hrepositories
    split_ifs with hunbound
    · refine ⟨hbinds.update _ (fun _ => rfl) (fun _ => rfl)
        fun s hs => ⟨rfl,rfl,?_,fun h => h,fun _ h => h⟩,?_⟩
      · intro id hid
        rw [hs₁,Option.some.injEq] at hs
        rw [← hs,hsame] at hid
        simp [hid] at hunbound
      · rw [session?_updateSession _ _ _ _ (by exact fun _ => rfl),if_pos rfl,hs₁]
        exact ⟨_,rfl,howner⟩
    · exact ⟨hbinds,s₁,hs₁,howner⟩
  obtain ⟨hbinds,s₂,hs₂,howner⟩ := hrequirement _ rfl
  split at h
  · cases h
    exact hbinds
  · rename_i hunowned
    simp only [bind_eq_ok] at h
    obtain ⟨chosen,-,h⟩ := h
    cases h
    refine hbinds.update _ (fun _ => rfl) (fun _ => rfl) fun s hs => ⟨rfl,rfl,fun _ h => h,fun h => h,?_⟩
    intro id hid
    rw [hs₂,Option.some.injEq] at hs
    rw [← hs,howner,hunowned] at hid
    cases hid

theorem newSession_binds {db db' : Db} {now : ℕ} {request : CommandRequest} {daemonId : String}
    (fresh : db.session? request.sessionId = none)
    (h : newSession db now request = .ok (daemonId,db')) : Binds db request.sessionId db' := by
  simp only [newSession,bind_eq_ok] at h
  obtain ⟨_,-,chosen,-,h⟩ := h
  cases h
  obtain ⟨frame,bound⟩ := @CommandFrame.add db _ {
    id := request.sessionId
    daemonId := some daemonId
    requirementId := request.requirementId
    repositoryIds := request.repositoryIds.getD []
    repositoryContextInitialized := request.repositoryIds.isSome } fresh rfl rfl rfl
  exact ⟨frame,.add fresh rfl rfl rfl rfl ⟨rfl,rfl,rfl,rfl⟩,rfl,bound⟩

theorem bindMessage_frame {d : Digests} {db db' : Db} {request : CommandRequest}
    {payload : CommandEnvelope} (h : bindMessage d db request payload = .ok db') :
    db' = { db with messageCommands := db'.messageCommands } := by
  unfold bindMessage at h
  split at h
  · cases h
    rfl
  · split_ifs at h
    · split at h
      · cases h
      · split_ifs at h
        cases h
        rfl
    · cases h
      rfl

/-- The insertion of a command under the caller's id repeats one that is there, or binds
the session and inserts the command under an id that no table holds. -/
theorem startSessionWithCommand_cases {d : Digests} {now : ℕ} {sentAt : String}
    {request : CommandRequest} {db db' : Db} {command : PinnedCommand}
    (h : startSessionWithCommand d now sentAt request db = .ok (command,db')) :
    db' = db ∨ ∃ db₁ row, Binds db request.sessionId db₁ ∧ CommandStep d db₁ [row] db' ∧
      LedgerKept db₁ db' ∧ (∀ r ∈ db.outbox, r.commandId ≠ row.commandId) ∧
      ∀ t ∈ db.tombstones, t.commandId ≠ row.commandId := by
  unfold startSessionWithCommand at h
  split at h
  · simp only [bind_eq_ok] at h
    obtain ⟨pinned,-,h⟩ := h
    cases h
    exact .inl rfl
  · rename_i hnone
    simp only [bind_eq_ok,orError_eq_ok] at h
    obtain ⟨⟨daemonId,db₁⟩,hbind,sequence,hseq,payload,hpayload,db₂,hmessage,db₃,hinsert,h⟩ := h
    have hids : (∀ r ∈ db.outbox, r.commandId ≠ request.commandId) ∧
        ∀ t ∈ db.tombstones, t.commandId ≠ request.commandId := by
      unfold existingCommand? at hnone
      split at hnone
      · cases hnone
      · rename_i hout
        rw [Option.map_eq_none_iff] at hnone
        exact ⟨Table.find?_key_none.mp hout,Table.find?_key_none.mp hnone⟩
    have hbinds : Binds db request.sessionId db₁ := by
      split at hbind
      · rename_i existing hs
        exact bindSession_binds hs hbind
      · rename_i hs
        exact newSession_binds hs hbind
    have hframe := bindMessage_frame hmessage
    obtain ⟨unused,rfl⟩ := insertCommand_some hinsert
    cases h
    have inserts : Inserts d db₁ (commandRow d request.commandId request.sessionId daemonId sequence
        payload) := by
      rw [hframe] at unused
      exact @inserts_commandRow d db₁ ⟨request.commandId,sentAt⟩ _ _ _ _ _ hpayload unused (.inl hseq)
    have frame : CommandFrame db₁ (db₂.addCommand (commandRow d request.commandId request.sessionId
        daemonId sequence payload)) := by
      rw [hframe]
      exact .same rfl rfl
    refine .inr ⟨db₁,_,hbinds,.insert frame ?_ inserts (frame.sessions _ hbinds.bound),?_,hids⟩
    · rw [hframe]
      rfl
    · rw [hframe]
      exact .same rfl rfl ⟨rfl,rfl,rfl,rfl⟩

/-- The event that an act ingests, if it does. -/
def Act.call? : Act → Option EventCall
  | .run act => act.call?
  | .command _ _ _ => none

theorem Act.ledgerKept {d : Digests} {db : Db} (hk : db.Keyed) {act : Act} (h : act.call? = none) :
    LedgerKept db (act.apply d db) := by
  cases act with
  | run act => exact act.ledgerKept hk (RunAct.call?_none h)
  | command now sentAt request =>
    simp only [Act.apply]
    cases hstart : startSessionWithCommand d now sentAt request db with
    | error e => exact .refl db
    | ok p =>
      rcases startSessionWithCommand_cases hstart with heq | ⟨db₁,row,hbinds,-,hkept,-⟩
      · simp only [committed,heq]
        exact .refl db
      · exact hbinds.ledger.trans hkept

end Store
end North
