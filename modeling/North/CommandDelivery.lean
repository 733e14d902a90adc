import North.CommandAcks
import North.CommandRetry
import North.EventDelivery
import North.JournalKeeps

/-! Command delivery from the outbox of the server to the journals of the daemons, over
the wire of the event delivery. A command that is stored is sent at once or replayed at
the next connection, as often as it takes, and its acknowledgement is committed only when
it came from a journal that has the command. Whatever the order, a command is executed at
most once and by its own daemon, and none is given up before the journal has it. -/
namespace North

namespace Store

/-- A command whose payload is a valid frame under the names of its row. -/
structure Dispatchable (r : OutboxRow) : Prop where
  named : Server.Named r
  valid : r.payload.validate = .ok ()

theorem Inserts.framed {d : Digests} {db : Db} {row : OutboxRow} (h : Inserts d db row) : Dispatchable row :=
  ⟨h.identity,h.valid⟩

theorem CommandStep.framed {d : Digests} {db db' : Db} {rows : List OutboxRow}
    (h : CommandStep d db rows db') : ∀ r ∈ rows, Dispatchable r := by
  cases h with
  | keep => simp
  | insert frame outbox inserts => simpa using inserts.framed

theorem Changes.framed {ev : Bool} {d : Digests} {db db' : Db} {rows : List OutboxRow}
    (h : Changes ev d db rows db') : ∀ r ∈ rows, Dispatchable r := by
  induction h with
  | refl => simp
  | step head tail ih =>
    intro r hr
    rcases List.mem_append.mp hr with hr | hr
    · exact head.commandStep.framed r hr
    · exact ih r hr

theorem newCommands_framed {d : Digests} {db : Db} (hk : db.Keyed) (act : Act) :
    ∀ r ∈ newCommands db (act.apply d db), Dispatchable r := by
  cases act with
  | command now sentAt request =>
    cases hstart : startSessionWithCommand d now sentAt request db with
    | error e =>
      have hdb : (Act.command now sentAt request).apply d db = db := by
        simp [Act.apply,hstart,committed]
      rw [hdb,(Grows.mk (by simp) (by simp) : Grows db [] db).newCommands_eq]
      simp
    | ok p =>
      have hdb : (Act.command now sentAt request).apply d db = p.2 := by
        simp [Act.apply,hstart,committed]
      rw [hdb]
      rcases startSessionWithCommand_cases hstart with hsame | ⟨db₁,row,hbinds,hstep,-,hout,-⟩
      · rw [hsame,(Grows.mk (by simp) (by simp) : Grows db [] db).newCommands_eq]
        simp
      · have hgrows : Grows db [row] p.2 := by
          cases hstep with
          | insert frame outbox => exact ⟨by rw [outbox,hbinds.outbox],by simpa using hout⟩
        rw [hgrows.newCommands_eq]
        exact hstep.framed
  | run act =>
    show ∀ r ∈ newCommands db (act.apply d db), Dispatchable r
    rcases act.apply_cases hk with ⟨rows,hchanges,-⟩ | ⟨_,_,_,_,-,hok⟩ | ⟨_,_,-,hok⟩
    · rw [hchanges.grows.newCommands_eq]
      exact hchanges.framed
    · simp [(acknowledge_delivers hok).newCommands_eq]
    · simp [(compactCommand_delivers hok).newCommands_eq]

def OutboxRow.ack (r : OutboxRow) : Protocol.CommandAck :=
  ⟨r.commandId,r.sessionId,r.serverCommandSeq,Protocol.schemaVersion⟩

theorem CommandLedger.acknowledged {d : Digests} {db db' : Db} {issued : List OutboxRow}
    {acked : List String} (h : CommandLedger d db issued acked) {commandId sid : String}
    {sequence watermark : ℕ}
    (hack : acknowledgeCommand d commandId sid sequence db = .ok (watermark,db')) :
    ∃ r ∈ issued, r.commandId = commandId ∧ r.sessionId = sid ∧ r.serverCommandSeq = sequence := by
  unfold acknowledgeCommand at hack
  split at hack
  · cases hack
  split at hack
  · cases hack
  simp only [bind_eq_ok] at hack
  obtain ⟨_,hrow,-⟩ := hack
  split at hrow
  · rename_i row hfind
    obtain ⟨hmem,rfl⟩ := Table.find?_key hfind
    obtain ⟨r,hr,-,rfl⟩ := h.mem_outbox hmem
    unfold acknowledgeOutboxRow at hrow
    split at hrow
    · cases hrow
    rename_i hident
    exact ⟨r,hr,rfl,by simpa [not_or,stamp] using hident⟩
  · split at hrow
    · cases hrow
    rename_i t hfind
    obtain ⟨hmem,rfl⟩ := Table.find?_key hfind
    obtain ⟨r,hr,-,rfl⟩ := h.mem_tombstones hmem
    unfold acknowledgeTombstone at hrow
    split at hrow
    · cases hrow
    rename_i hident
    exact ⟨r,hr,rfl,by simpa [not_or,OutboxRow.tombstone] using hident⟩

end Store

namespace Journal

open Protocol

section

variable {σ : Type} {W : World σ} {E : Set CommandEnvelope} {h : Host σ}

theorem Sound.known (hs : Sound W E h) : (∀ s ∈ h.history, s.view.Known W.handle E) ∧
    h.state.view.Known W.handle E ∧ h.file.view.Known W.handle E :=
  hs.views (P := fun v => v.Known W.handle E) (by simp [CommandView.Known,CommandView.identities])
    fun _ _ hv hmove => hmove.known hv

/-- What was acknowledged is a command of `E` that the journal has, in memory and in its file. -/
theorem Sound.took (hs : Sound W E h) {ack : CommandAck} (htook : h.Took ack) :
    ∃ e ∈ E, (identityOf W.handle e).ack = ack ∧ identityOf W.handle e ∈ h.state.view.identities ∧
      identityOf W.handle e ∈ h.file.view.identities := by
  obtain ⟨s,hs',i,hi,rfl⟩ := htook
  obtain ⟨e,he,rfl⟩ := hs.known.1 s hs' i hi
  exact ⟨e,he,rfl,(hs.identities hs').1 _ hi,(hs.identities hs').2 _ hi⟩

end

end Journal

namespace Delivery

open Machine Protocol Journal Store

/-- The frame of a pending command on a new connection, if its payload is the command of
its row. -/
def replayFrame (pending : PinnedCommand) : Option CommandEnvelope :=
  (Server.parsePayload pending.payload).toOption.filter fun e =>
    decide (e.commandId = pending.commandId ∧ e.sessionId = pending.sessionId ∧
      e.serverCommandSeq = pending.serverCommandSeq)

/-- The loop of `serve_authenticated` over the pending commands, which closes the
connection at the first payload that it refuses. -/
def replayFrames : List PinnedCommand → List CommandEnvelope
  | [] => []
  | pending::rest =>
    match replayFrame pending with
    | none => []
    | some e => e::replayFrames rest

inductive CommandMove
  /-- A move of the event delivery. The daemon may take a command with it. -/
  | event (move : Move)
  /-- A connection is served what is pending. -/
  | replay (id : String)
  /-- A stored command goes to the live connection of its daemon. -/
  | dispatch (call : Server.Call) (row : OutboxRow)
  /-- An acknowledgement arrives and its owner is checked. -/
  | acknowledge (id : String) (ack : CommandAck)

namespace System

variable {σ : Type}

/-- A daemon takes the commands that are on its wire, and acknowledgements of commands
come from there as well. -/
def takes (S : System σ) : Move → Bool
  | .daemon id op =>
    match op.takes with
    | some (.command e) => S.down.contains (id,.command e)
    | _ => true
  | .transact (.run (.acknowledge _ _ _)) => false
  | _ => true

def commandStep (D : Deployment σ) (S : System σ) : CommandMove → System σ
  | .event move => if S.takes move then S.step D move else S
  | .replay id =>
    match unacknowledgedCommands D.digests S.server.db id with
    | .error _ => S
    | .ok pending => { S with
        down := S.down ++ (replayFrames pending).map fun e => (id,.command e) }
  | .dispatch call row =>
    -- the row may have been read before the state changed
    if row ∈ S.server.issued then
      match Server.parsePayload row.pinned.payload with
      | .error _ => S
      | .ok e =>
        match Server.dispatchPersistedCommand call S.server.db row.pinned e with
        | .error _ => S
        | .ok _ => { S with down := S.down ++ [(row.daemonId,.command e)] }
    else S
  | .acknowledge id ack =>
    if S.up.contains (id,.commandAck ack) ∧ sessionOwner S.server.db ack.sessionId = some id then
      S.transact D (.run (.acknowledge ack.commandId ack.sessionId ack.serverCommandSeq))
    else S

def commandRun (D : Deployment σ) (S : System σ) (moves : List CommandMove) : System σ :=
  moves.foldl (commandStep D) S

/-- The random ids of the move are none of the compacted commands'. -/
def FreshMove (S : System σ) : CommandMove → Prop
  | .event (.transact act) => FreshIds S.server act
  | _ => True

instance (S : System σ) (move : CommandMove) : Decidable (S.FreshMove move) := by
  unfold FreshMove
  split <;> infer_instance

def FreshAlong (D : Deployment σ) : System σ → List CommandMove → Prop
  | _, [] => True
  | S, move::moves => S.FreshMove move ∧ FreshAlong D (S.commandStep D move) moves

instance decidableFreshAlong (D : Deployment σ) :
    ∀ (S : System σ) (moves : List CommandMove), Decidable (FreshAlong D S moves)
  | _, [] => .isTrue trivial
  | S, move::moves =>
    have := decidableFreshAlong D (S.commandStep D move) moves
    inferInstanceAs (Decidable (S.FreshMove move ∧ FreshAlong D (S.commandStep D move) moves))

def issuedTo (S : System σ) (id : String) : Set CommandEnvelope :=
  {e | ∃ r ∈ S.server.issued, r.daemonId = id ∧ r.payload = e}

end System

/-- The invariant: the hosts are sound for the commands issued to them, only these are on
the wire to them, and an acknowledgement, on the wire or committed, stands for a command
that the journal took. -/
structure CommandInv {σ : Type} (D : Deployment σ) (S : System σ) : Prop where
  ledger : S.server.Ledger D.digests
  framed : ∀ r ∈ S.server.issued, Dispatchable r
  hosts : ∀ id, Sound (D.daemons id) (S.issuedTo id) (S.hosts id)
  sent : ∀ id e, (id,.command e) ∈ S.down → e ∈ S.issuedTo id
  acks : ∀ id ack, (id,.commandAck ack) ∈ S.up → (S.hosts id).Took ack
  acked : ∀ r ∈ S.server.issued, r.commandId ∈ S.server.acked → (S.hosts r.daemonId).Took r.ack

section

variable {σ : Type} {D : Deployment σ} {S S' : System σ}

theorem CommandInv.init (D : Deployment σ) (runtimes : String → σ) :
    CommandInv D (System.init runtimes) where
  ledger := World.ledger_empty _
  framed := by simp [System.init]
  hosts _ := .init _
  sent := by simp [System.init]
  acks := by simp [System.init]
  acked := by simp [System.init]

theorem CommandInv.wire (h : CommandInv D S) (hhosts : S'.hosts = S.hosts) (hserver : S'.server = S.server)
    (hup : ∀ id ack, (id,.commandAck ack) ∈ S'.up → (id,.commandAck ack) ∈ S.up)
    (hdown : ∀ id e, (id,.command e) ∈ S'.down → (id,.command e) ∈ S.down ∨ e ∈ S.issuedTo id) :
    CommandInv D S' := by
  have hissued : ∀ id, S'.issuedTo id = S.issuedTo id := by
    intro id
    unfold System.issuedTo
    rw [hserver]
  refine ⟨?_,?_,fun id => ?_,fun id e he => ?_,fun id ack hack => ?_,?_⟩
  · rw [hserver]
    exact h.ledger
  · rw [hserver]
    exact h.framed
  · rw [hissued,hhosts]
    exact h.hosts id
  · rw [hissued]
    exact (hdown id e he).elim (h.sent id e) fun h => h
  · rw [hhosts]
    exact h.acks id ack (hup id ack hack)
  · rw [hserver,hhosts]
    exact h.acked

theorem System.issuedTo_step (act : Act) (id : String) :
    S.issuedTo id ⊆ (S.transact D act).issuedTo id := by
  rintro e ⟨r,hr,hid⟩
  exact ⟨r,List.mem_append_left _ hr,hid⟩

theorem CommandInv.transact (h : CommandInv D S) {act : Act} (hfresh : FreshIds S.server act)
    (hacked : ∀ commandId, act.acknowledges D.digests S.server.db = some commandId →
      ∀ r ∈ S.server.issued, r.commandId = commandId → (S.hosts r.daemonId).Took r.ack) :
    CommandInv D (S.transact D act) := by
  have hledger : (S.transact D act).server.Ledger D.digests := World.step_ledger h.ledger hfresh
  refine ⟨hledger,fun r hr => ?_,fun id => (h.hosts id).mono (System.issuedTo_step act id),
    fun id e he => System.issuedTo_step act id (h.sent id e he),h.acks,fun r hr hmem => ?_⟩
  · rcases List.mem_append.mp hr with hr | hr
    · exact h.framed r hr
    · exact newCommands_framed h.ledger.keyed act r hr
  · -- an id that is acknowledged was issued before, so a new command does not have it
    have hold : r.commandId ∈ S.server.acked ∨ act.acknowledges D.digests S.server.db = some r.commandId := by
      rcases List.mem_append.mp hmem with hmem | hmem
      · exact .inl hmem
      · exact .inr (Option.mem_toList.mp hmem)
    have hissued : ∃ q ∈ S.server.issued, q.commandId = r.commandId := by
      rcases hold with hold | hack
      · exact h.ledger.known _ hold
      · obtain ⟨sid,sequence,watermark,db',rfl,hok⟩ := Act.acknowledges_some hack
        obtain ⟨q,hq,hid,-⟩ := h.ledger.acknowledged hok
        exact ⟨q,hq,hid⟩
    obtain ⟨q,hq,hid⟩ := hissued
    obtain rfl : q = r := hledger.eq_of_commandId (List.mem_append_left _ hq) hr hid
    rcases hold with hold | hack
    · exact h.acked q hq hold
    · exact hacked _ hack q hq rfl

theorem freshIds_call (w : Store.World) (call : EventCall) : FreshIds w (.run call.act) := by
  cases call <;> simp [FreshIds,EventCall.act,Act.drawn,RunAct.drawn]

theorem acknowledges_call (d : Digests) (db : Db) (call : EventCall) :
    (Act.run call.act).acknowledges d db = none := by
  cases call <;> rfl

/-! ### Moves of a daemon -/

theorem CommandInv.current (h : CommandInv D S) (id : String) : (S.hosts id).Current := by
  obtain ⟨past,hpast,-⟩ := (h.hosts id).trail
  unfold Host.Current
  rw [hpast]
  simp

theorem CommandInv.moveHost (h : CommandInv D S) {id : String} {host : Host σ} {frames : List DaemonFrame}
    (hhost : Sound (D.daemons id) (S.issuedTo id) host)
    (htook : ∀ ack, (S.hosts id).Took ack ∨ ack ∈ commandAcksOf frames → host.Took ack) :
    CommandInv D { S with
      hosts := Function.update S.hosts id host
      up := S.up ++ frames.map (id,·) } := by
  have hgrown : ∀ id' ack, (S.hosts id').Took ack → (Function.update S.hosts id host id').Took ack := by
    intro id' ack hack
    by_cases hid : id' = id
    · subst hid
      rw [Function.update_self]
      exact htook ack (.inl hack)
    · rwa [Function.update_of_ne hid]
  refine ⟨h.ledger,h.framed,fun id' => ?_,h.sent,fun id' ack hack => ?_,
    fun r hr hacked => hgrown _ _ (h.acked r hr hacked)⟩
  · show Sound (D.daemons id') (S.issuedTo id') (Function.update S.hosts id host id')
    by_cases hid : id' = id
    · subst hid
      rwa [Function.update_self]
    · rw [Function.update_of_ne hid]
      exact h.hosts id'
  · rcases List.mem_append.mp hack with hack | hack
    · exact hgrown _ _ (h.acks id' ack hack)
    · obtain ⟨frame,hframe,heq⟩ := List.mem_map.mp hack
      obtain ⟨rfl,rfl⟩ := Prod.mk.inj heq
      show (Function.update S.hosts id host id).Took ack
      rw [Function.update_self]
      exact htook ack (.inr (List.mem_filterMap.mpr ⟨_,hframe,rfl⟩))

theorem CommandInv.daemon (h : CommandInv D S) {id : String} {op : DaemonOp}
    (htakes : S.takes (.daemon id op) = true) : CommandInv D (S.step D (.daemon id op)) := by
  have hknown : ∀ e, op.takes = some (.command e) → e ∈ S.issuedTo id := by
    intro e he
    simp only [System.takes,he] at htakes
    exact h.sent id e (List.contains_iff_mem.mp htakes)
  have hkeeps := DaemonOp.keepsSound (W := D.daemons id) hknown
  have hacks := DaemonOp.acks (W := D.daemons id) (K := {ack | (S.hosts id).Took ack}) op
  have hstart : (S.hosts id).Current ∧ ∀ ack ∈ {ack | (S.hosts id).Took ack}, (S.hosts id).Took ack :=
    ⟨h.current id,fun _ hack => hack⟩
  simp only [System.step]
  split_ifs with hdeliver
  · split
    · exact h
    · rename_i frames host hexec
      exact h.moveHost (hkeeps.ok (h.hosts id) hexec) (hacks.ok hstart hexec).2
    · rename_i error host hexec
      have htook : ∀ ack, (S.hosts id).Took ack ∨ ack ∈ commandAcksOf [] → host.Took ack := fun ack hack =>
        (hacks.error hstart hexec).2 ack (by simpa [commandAcksOf] using hack)
      simpa using h.moveHost (hkeeps.error (h.hosts id) hexec) htook
  · exact h

/-! ### Moves of the server and of the wire -/

theorem CommandInv.handle (h : CommandInv D S) (job : Job) (readings : Readings) :
    CommandInv D (S.step D (.handle job readings)) := by
  simp only [System.step]
  split_ifs
  · split
    · exact h
    · rename_i call hcall
      have hmoved : CommandInv D (S.transact D (.run call.act)) :=
        h.transact (freshIds_call S.server call) (by simp [acknowledges_call])
      cases handled (call.exec D.digests S.server.db) with
      | acknowledged ack =>
        refine hmoved.wire rfl rfl (fun _ _ hack => hack) fun id e he => .inl ?_
        rcases List.mem_append.mp he with he | he
        · exact he
        · simp at he
      | unprojected => exact hmoved.wire rfl rfl (fun _ _ hack => hack) fun _ _ he => .inl he
      | failed error => exact hmoved
  · exact h

theorem CommandInv.event (h : CommandInv D S) {move : Move} (htakes : S.takes move = true)
    (hfresh : S.FreshMove (.event move)) : CommandInv D (S.step D move) := by
  cases move with
  | daemon id op => exact h.daemon htakes
  | connect id =>
    refine h.wire rfl rfl (fun _ _ hack => hack) fun id' e he => .inl ?_
    rcases List.mem_append.mp he with he | he
    · exact he
    · simp at he
  | intake id event =>
    simp only [System.step]
    split_ifs
    · exact h.wire rfl rfl (fun _ _ hack => hack) fun _ _ he => .inl he
    · exact h
  | handle job readings => exact h.handle job readings
  | transact act =>
    simp only [System.step]
    split_ifs
    · refine h.transact hfresh fun commandId hack => ?_
      obtain ⟨sid,sequence,watermark,db',rfl,-⟩ := Act.acknowledges_some hack
      simp [System.takes] at htakes
    · exact h
  | loseUp id frame =>
    exact h.wire rfl rfl (fun _ _ hack => List.mem_of_mem_erase hack) fun _ _ he => .inl he
  | loseDown id frame =>
    exact h.wire rfl rfl (fun _ _ hack => hack) fun _ _ he => .inl (List.mem_of_mem_erase he)
  | drop id =>
    exact h.wire rfl rfl (fun _ _ hack => List.mem_of_mem_filter hack) fun _ _ he =>
      .inl (List.mem_of_mem_filter he)

theorem replayFrame_some {p : PinnedCommand} {e : CommandEnvelope} (h : replayFrame p = some e) :
    p.payload = some e := by
  unfold replayFrame at h
  obtain ⟨hparse,-⟩ := Option.filter_eq_some_iff.mp h
  cases hp : Server.parsePayload p.payload with
  | error err => simp [hp,Except.toOption] at hparse
  | ok x =>
    obtain rfl : x = e := by simpa [hp,Except.toOption] using hparse
    exact (Server.parsePayload_ok hp).1

theorem mem_replayFrames {pending : List PinnedCommand} {e : CommandEnvelope} (h : e ∈ replayFrames pending) :
    ∃ p ∈ pending, p.payload = some e := by
  induction pending with
  | nil => cases h
  | cons p pending ih =>
    unfold replayFrames at h
    cases hp : replayFrame p with
    | none => simp [hp] at h
    | some x =>
      rw [hp] at h
      rcases List.mem_cons.mp h with rfl | h
      · exact ⟨p,by simp,replayFrame_some hp⟩
      · obtain ⟨q,hq,hpayload⟩ := ih h
        exact ⟨q,by simp [hq],hpayload⟩

/-- The replay refuses none of the commands it loads. -/
theorem replayFrames_framed {pending : List PinnedCommand}
    (h : ∀ p ∈ pending, ∃ r, Dispatchable r ∧ p = r.pinned) :
    ∀ p ∈ pending, ∀ e, p.payload = some e → e ∈ replayFrames pending := by
  induction pending with
  | nil => simp
  | cons q pending ih =>
    obtain ⟨r,hr,rfl⟩ := h q (by simp)
    have hframe : replayFrame r.pinned = some r.payload := by
      show ((Server.parsePayload (some r.payload)).toOption.filter _) = _
      rw [Server.parsePayload_valid hr.valid]
      exact Option.filter_eq_some_iff.mpr ⟨rfl,decide_eq_true hr.named⟩
    intro p hp e he
    rw [replayFrames,hframe]
    rcases List.mem_cons.mp hp with rfl | hp
    · obtain rfl : r.payload = e := Option.some.inj he
      exact List.mem_cons_self
    · exact List.mem_cons_of_mem _ (ih (fun p hp => h p (by simp [hp])) p hp e he)

theorem CommandInv.pending (h : CommandInv D S) (id : String) :
    ∃ pending, unacknowledgedCommands D.digests S.server.db id = .ok pending ∧
      ∀ p, p ∈ pending ↔ ∃ r ∈ outstanding S.server id, r.pinned = p := by
  obtain ⟨pending,hok,hperm,-⟩ := unacknowledgedCommands_ok h.ledger id
  exact ⟨pending,hok,fun p => hperm.mem_iff.trans List.mem_map⟩

theorem mem_outstanding {w : Store.World} {id : String} {r : OutboxRow} :
    r ∈ outstanding w id ↔ r ∈ w.issued ∧ r.daemonId = id ∧ r.commandId ∉ w.acked := by
  simp [outstanding]

theorem CommandInv.step (h : CommandInv D S) {move : CommandMove} (hfresh : S.FreshMove move) :
    CommandInv D (S.commandStep D move) := by
  cases move with
  | event move =>
    simp only [System.commandStep]
    split_ifs with htakes
    · exact h.event htakes hfresh
    · exact h
  | replay id =>
    obtain ⟨pending,hok,hpending⟩ := h.pending id
    simp only [System.commandStep,hok]
    refine h.wire rfl rfl (fun _ _ hack => hack) fun id' e he => ?_
    rcases List.mem_append.mp he with he | he
    · exact .inl he
    · obtain ⟨x,hx,heq⟩ := List.mem_map.mp he
      obtain ⟨rfl,hframe⟩ := Prod.mk.inj heq
      obtain rfl : x = e := ServerFrame.command.inj hframe
      obtain ⟨p,hp,hpayload⟩ := mem_replayFrames hx
      obtain ⟨r,hr,rfl⟩ := (hpending p).mp hp
      obtain ⟨hr,hid,-⟩ := mem_outstanding.mp hr
      exact .inr ⟨r,hr,hid,Option.some.inj hpayload⟩
  | dispatch call row =>
    simp only [System.commandStep]
    split_ifs with hrow
    · split
      · exact h
      · rename_i e hparse
        split
        · exact h
        · refine h.wire rfl rfl (fun _ _ hack => hack) fun id' x hx => ?_
          rcases List.mem_append.mp hx with hx | hx
          · exact .inl hx
          · obtain ⟨rfl,hframe⟩ := Prod.mk.inj (List.mem_singleton.mp hx)
            obtain rfl : x = e := ServerFrame.command.inj hframe
            exact .inr ⟨row,hrow,rfl,Option.some.inj (Server.parsePayload_ok hparse).1⟩
    · exact h
  | acknowledge id ack =>
    simp only [System.commandStep]
    split_ifs with hadmit
    · refine h.transact (by simp [FreshIds,Act.drawn,RunAct.drawn]) fun commandId hack r hr hid => ?_
      obtain ⟨sid,sequence,watermark,db',hact,hok⟩ := Act.acknowledges_some hack
      cases hact
      obtain ⟨q,hq,hqid,hsession,hsequence⟩ := h.ledger.acknowledged hok
      obtain rfl : r = q := h.ledger.eq_of_commandId hr hq (hid.trans hqid.symm)
      -- the acknowledgement is of a journal, so its command was issued to this daemon
      have htook := h.acks id ack (List.contains_iff_mem.mp hadmit.1)
      obtain ⟨e,⟨q,hq,hdaemon,rfl⟩,hack,-⟩ := (h.hosts id).took htook
      have hsame : q.commandId = r.commandId := by
        rw [← (h.framed q hq).named.1,hid]
        exact congrArg CommandAck.commandId hack
      obtain rfl : q = r := h.ledger.eq_of_commandId hq hr hsame
      rw [hdaemon]
      convert htook using 1
      rw [← hack]
      obtain ⟨hc,hs,hn⟩ := (h.framed q hq).named
      simp [OutboxRow.ack,CommandIdentity.ack,identityOf,hc,hs,hn]
    · exact h

theorem CommandInv.run (h : CommandInv D S) {moves : List CommandMove} (hfresh : S.FreshAlong D moves) :
    CommandInv D (S.commandRun D moves) := by
  induction moves generalizing S with
  | nil => exact h
  | cons move moves ih => exact ih (h.step hfresh.1) hfresh.2

/-! ### What delivery promises -/

/-- The command of this row is in the journal, as a record or as a tombstone. -/
def Has (D : Deployment σ) (r : OutboxRow) (s : JournalFile) : Prop :=
  identityOf (D.daemons r.daemonId).handle r.payload ∈ s.view.identities

structure CommandContract {σ : Type} (D : Deployment σ) (S : System σ) : Prop where
  /-- A daemon executes a command at most once, and only commands that were issued to it. -/
  once : ∀ id, (S.hosts id).handed.Nodup
  executed : ∀ id, ∀ commandId ∈ (S.hosts id).handed,
    ∃ r ∈ S.server.issued, r.daemonId = id ∧ r.commandId = commandId
  /-- A journal records the commands as they were issued. -/
  genuine : ∀ id, ∀ s ∈ S.journals id, ∀ q ∈ s.commands, recordToEnvelope q ∈ S.issuedTo id
  /-- What the server has as acknowledged is in the journal of its daemon, in memory and in
  the file, and the server compacts nothing else. -/
  acknowledged : ∀ r ∈ S.server.issued, r.commandId ∈ S.server.acked →
    ∀ s ∈ S.journals r.daemonId, Has D r s
  compacted : ∀ t ∈ S.server.db.tombstones,
    ∃ r ∈ S.server.issued, r.tombstone = t ∧ r.commandId ∈ S.server.acked
  /-- What a journal does not have is on the wire after the next replay. -/
  replayed : ∀ r ∈ S.server.issued, ∀ s ∈ S.journals r.daemonId, ¬ Has D r s →
    (r.daemonId,.command r.payload) ∈ (S.commandStep D (.replay r.daemonId)).down
  /-- With digests that tell the commands apart, all commands of a session up to its
  processed boundary were issued to this daemon and are Terminal. -/
  inOrder : ∀ id, Set.InjOn (D.daemons id).handle.commandDigest (S.issuedTo id) →
    ∀ s ∈ S.journals id, ∀ sessionId n, 0 < n → n ≤ (s.session sessionId).processedThroughSeq →
      s.view.Terminal sessionId n ∧ ∃ r ∈ S.server.issued, r.daemonId = id ∧
        r.sessionId = sessionId ∧ r.serverCommandSeq = n ∧ Has D r s

theorem CommandInv.journals (h : CommandInv D S) (id : String) {P : CommandView → Prop} (hfresh : P {})
    (hstep : ∀ v v', P v → Moves (D.daemons id).handle (S.issuedTo id) v v' → P v') :
    ∀ s ∈ S.journals id, P s.view := by
  obtain ⟨-,hstate,hfile⟩ := (h.hosts id).views hfresh hstep
  intro s hs
  simp only [System.journals,List.mem_cons,List.not_mem_nil,or_false] at hs
  rcases hs with rfl | rfl
  · exact hstate
  · exact hfile

theorem CommandInv.has (h : CommandInv D S) {r : OutboxRow} (hr : r ∈ S.server.issued)
    (hacked : r.commandId ∈ S.server.acked) {s : JournalFile} (hs : s ∈ S.journals r.daemonId) :
    Has D r s := by
  obtain ⟨e,⟨q,hq,hdaemon,rfl⟩,hack,hstate,hfile⟩ := (h.hosts r.daemonId).took (h.acked r hr hacked)
  have hsame : q.commandId = r.commandId := by
    rw [← (h.framed q hq).named.1]
    exact congrArg CommandAck.commandId hack
  obtain rfl : q = r := h.ledger.eq_of_commandId hq hr hsame
  simp only [System.journals,List.mem_cons,List.not_mem_nil,or_false] at hs
  rcases hs with rfl | rfl
  · exact hstate
  · exact hfile

theorem CommandInv.replayed (h : CommandInv D S) {r : OutboxRow} (hr : r ∈ S.server.issued)
    (hopen : r.commandId ∉ S.server.acked) :
    (r.daemonId,.command r.payload) ∈ (S.commandStep D (.replay r.daemonId)).down := by
  obtain ⟨pending,hok,hpending⟩ := h.pending r.daemonId
  have hframed : ∀ p ∈ pending, ∃ q, Dispatchable q ∧ p = q.pinned := by
    intro p hp
    obtain ⟨q,hq,rfl⟩ := (hpending p).mp hp
    exact ⟨q,h.framed q (mem_outstanding.mp hq).1,rfl⟩
  have hmem : r.pinned ∈ pending := (hpending _).mpr ⟨r,mem_outstanding.mpr ⟨hr,rfl,hopen⟩,rfl⟩
  simp only [System.commandStep,hok]
  exact List.mem_append_right _ (List.mem_map_of_mem (replayFrames_framed hframed _ hmem _ rfl))

theorem CommandInv.issued (h : CommandInv D S) {id : String} {s : JournalFile} (hs : s ∈ S.journals id)
    {i : CommandIdentity} (hi : i ∈ s.view.identities) :
    ∃ r ∈ S.server.issued, r.daemonId = id ∧ identityOf (D.daemons id).handle r.payload = i ∧ Has D r s := by
  have hknown := h.journals id (P := fun v => v.Known (D.daemons id).handle (S.issuedTo id))
    (by simp [CommandView.Known,CommandView.identities]) (fun _ _ hv hmove => hmove.known hv) s hs
  obtain ⟨e,⟨r,hr,hid,rfl⟩,rfl⟩ := hknown i hi
  refine ⟨r,hr,hid,rfl,?_⟩
  unfold Has
  rwa [hid]

theorem CommandInv.executed (h : CommandInv D S) {id commandId : String}
    (hc : commandId ∈ (S.hosts id).handed) :
    ∃ r ∈ S.server.issued, r.daemonId = id ∧ r.commandId = commandId := by
  have hrank := (h.hosts id).started commandId hc
  obtain ⟨i,hi,rfl⟩ := CommandView.identity_of_stage (lt_of_lt_of_le (by decide) hrank)
  have hmem : (S.hosts id).state ∈ S.journals id := by simp [System.journals]
  obtain ⟨r,hr,hid,rfl,-⟩ := h.issued hmem hi
  exact ⟨r,hr,hid,(h.framed r hr).named.1.symm⟩

theorem CommandInv.inOrder (h : CommandInv D S) {id : String}
    (hdigest : Set.InjOn (D.daemons id).handle.commandDigest (S.issuedTo id)) {s : JournalFile}
    (hs : s ∈ S.journals id) {sessionId : String} {n : ℕ} (hn : 0 < n)
    (hle : n ≤ (s.session sessionId).processedThroughSeq) :
    s.view.Terminal sessionId n ∧ ∃ r ∈ S.server.issued, r.daemonId = id ∧
      r.sessionId = sessionId ∧ r.serverCommandSeq = n ∧ Has D r s := by
  have horder := h.journals id (P := fun v => v.DistinctIds ∧
      (∀ r ∈ v.commands, Genuine (D.daemons id).handle (S.issuedTo id) r) ∧ v.InOrder)
    ⟨by simp [CommandView.DistinctIds],by simp,inOrder_fresh⟩ (fun _ _ hv hmove =>
      ⟨hmove.distinctIds hv.1,hmove.genuine hv.2.1,hmove.inOrder hdigest hv.1 hv.2.1 hv.2.2⟩) s hs
  have hterminal := (horder.2.2.watermark sessionId).all hn hle
  obtain ⟨i,hi,hsession,hseq⟩ : ∃ i ∈ s.view.identities, i.sessionId = sessionId ∧
      i.serverCommandSeq = n := by
    rcases hterminal with ⟨q,hq,hsession,hseq,-⟩ | ⟨t,ht,hsession,hseq⟩
    · exact ⟨q.identity,CommandView.mem_identities.mpr (.inl ⟨q,hq,rfl⟩),hsession,hseq⟩
    · exact ⟨t.identity,CommandView.mem_identities.mpr (.inr ⟨t,ht,rfl⟩),hsession,hseq⟩
  obtain ⟨r,hr,hid,rfl,hhas⟩ := h.issued hs hi
  obtain ⟨-,hs',hn'⟩ := (h.framed r hr).named
  exact ⟨hterminal,r,hr,hid,hs'.symm.trans hsession,hn'.symm.trans hseq,hhas⟩

/-- Over any run of the server and its daemons, with frames lost, repeated and reordered,
connections that drop and daemons that crash: a command is executed at most once, by the
daemon it was issued to and as it was issued; an acknowledgement is committed only for a
command that the journal of that daemon has; and a command that a journal lacks is sent
to it again by the next connection. -/
theorem command_delivery (D : Deployment σ) (runtimes : String → σ) (moves : List CommandMove)
    (hfresh : (System.init runtimes).FreshAlong D moves) :
    CommandContract D ((System.init runtimes).commandRun D moves) := by
  have h := (CommandInv.init D runtimes).run hfresh
  generalize (System.init runtimes).commandRun D moves = S at h
  refine ⟨fun id => (h.hosts id).once,fun id commandId hc => h.executed hc,fun id s hs q hq => ?_,
    fun r hr hacked s hs => h.has hr hacked hs,fun t ht => ?_,fun r hr s hs hlacks => ?_,
    fun id hdigest s hs sessionId n hn hle => h.inOrder hdigest hs hn hle⟩
  · have hgenuine := h.journals id (P := fun v =>
        ∀ r ∈ v.commands, Genuine (D.daemons id).handle (S.issuedTo id) r) (by simp)
      (fun _ _ hv hmove => hmove.genuine hv) s hs
    exact (hgenuine q hq).known
  · obtain ⟨r,hr,hbelow,rfl⟩ := h.ledger.mem_tombstones ht
    exact ⟨r,hr,rfl,h.ledger.acked_of_below hr (aboveAck_eq_false.mp hbelow)⟩
  · exact h.replayed hr fun hacked => hlacks (h.has hr hacked hs)

end

namespace Sample

def startEnvelope : CommandEnvelope := ⟨"c1","run",1,"1",1,.sessionStart Store.Sample.context⟩

def takesStart : CommandMove := .event (.daemon "daemon" (.acceptServerFrame (.command startEnvelope)))

/-- The first replay is lost with its connection. The second is taken, acknowledged, and
taken once more after a crash. -/
def resent : List CommandMove :=
  Store.Sample.started.map (fun act => .event (.transact (.run act))) ++
  [.replay "daemon",.event (.drop "daemon"),.replay "daemon",takesStart,
   .acknowledge "daemon" ⟨"c1","run",1,1⟩,.event (.daemon "daemon" .reopen),takesStart]

end Sample

/-- The command is executed once, and its acknowledgement has compacted it. -/
theorem resent_delivered :
    (((System.init fun _ => ()).commandRun Sample.deployment Sample.resent).hosts "daemon").handed = ["c1"] ∧
    ((System.init fun _ => ()).commandRun Sample.deployment Sample.resent).server.db.tombstones.map
      (fun t => t.commandId) = ["c1"] ∧
    CommandContract Sample.deployment ((System.init fun _ => ()).commandRun Sample.deployment Sample.resent) :=
  ⟨by decide +kernel,by decide +kernel,
    command_delivery Sample.deployment (fun _ => ()) Sample.resent (by decide +kernel)⟩

end Delivery
end North
