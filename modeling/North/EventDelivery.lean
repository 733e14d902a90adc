import North.JournalEmits
import North.EventHandler

/-! Event delivery from the journals of the daemons to the ledger of the server, over a wire
that may lose, repeat and reorder frames, with connections that drop and daemons that
crash. Whatever the order, a journal shows an event as handled only when the ledger has
it, and gives none up before that. -/
namespace North
namespace Delivery

open Machine Protocol Journal Store

structure Deployment (σ : Type) where
  daemons : String → Journal.World σ
  digests : Digests
  codec : EventCodec

structure Job where
  daemonId : String
  event : EventEnvelope
  stage : HandlerStage
  deriving DecidableEq, Repr

structure System (σ : Type) where
  hosts : String → Host σ
  server : Store.World := {}
  /-- The frames from the daemons, each with its sender; one that arrives stays. -/
  up : List (String × DaemonFrame) := []
  /-- The frames to the daemons. -/
  down : List (String × ServerFrame) := []
  jobs : List Job := []
  /-- The committed events, each with the database before it. -/
  log : List (Db × Committed) := []

inductive Move
  | daemon (id : String) (op : DaemonOp)
  /-- A connection starts with a snapshot. -/
  | connect (id : String)
  /-- An event frame arrives and its owner is checked. -/
  | intake (id : String) (event : EventEnvelope)
  | handle (job : Job) (readings : Readings)
  /-- Any transaction of the server that ingests no event. -/
  | transact (act : Act)
  | loseUp (id : String) (frame : DaemonFrame)
  | loseDown (id : String) (frame : ServerFrame)
  /-- A connection drops, with its frames and its handlers. -/
  | drop (id : String)

variable {σ : Type}

namespace System

def init (runtimes : String → σ) : System σ where
  hosts id := { runtime := runtimes id }

/-- Acknowledgements and snapshots come from the server; commands and protocol errors may
come at any time. -/
def deliverable (S : System σ) (id : String) (op : DaemonOp) : Bool :=
  match op.takes with
  | some (.eventAck ack) => decide ((id,.eventAck ack) ∈ S.down)
  | some (.reconcile snapshot) => decide ((id,.reconcile snapshot) ∈ S.down)
  | _ => true

def transact (D : Deployment σ) (S : System σ) (act : Act) : System σ :=
  { S with
    server := S.server.step D.digests act
    log := S.log ++ act.logged D.digests S.server.db }

def answer (S : System σ) (job : Job) : Handled → System σ
  | .acknowledged ack => { S with down := S.down ++ [(job.daemonId,.eventAck ack)] }
  | .unprojected => { S with jobs := S.jobs ++ [{ job with stage := .unprojected }] }
  | .failed _ => S

def step (D : Deployment σ) (S : System σ) : Move → System σ
  | .daemon id op =>
    if S.deliverable id op then
      match (op.run (D.daemons id)).exec (S.hosts id) with
      | none => S
      | some (.ok frames,h) => { S with
          hosts := Function.update S.hosts id h
          up := S.up ++ frames.map (id,·) }
      | some (.error _,h) => { S with hosts := Function.update S.hosts id h }
    else S
  | .connect id => { S with down := S.down ++ [(id,.reconcile (reconcileSnapshot S.server.db id))] }
  | .intake id event =>
    if (id,.event event) ∈ S.up ∧ event.validate.isOk ∧
        sessionOwner S.server.db event.sessionId = some id then
      { S with jobs := S.jobs ++ [⟨id,event,.admitted⟩] }
    else S
  | .handle job readings =>
    if job ∈ S.jobs then
      match handlerCall D.codec readings job.event job.stage with
      | .error _ => S
      | .ok call =>
        (S.transact D (.run call.act)).answer job (handled (call.exec D.digests S.server.db))
    else S
  | .transact act => if act.call?.isNone then S.transact D act else S
  | .loseUp id frame => { S with up := S.up.erase (id,frame) }
  | .loseDown id frame => { S with down := S.down.erase (id,frame) }
  | .drop id => { S with
      up := S.up.filter (·.1 ≠ id)
      down := S.down.filter (·.1 ≠ id)
      jobs := S.jobs.filter (·.daemonId ≠ id) }

def run (D : Deployment σ) (S : System σ) (moves : List Move) : System σ := moves.foldl (step D) S

/-- The ledger has a row for exactly this event, session and sequence. -/
def Committed (S : System σ) (x : EventRef) : Prop := ∃ row ∈ S.server.db.dedupe, row.ref = x

/-- The committed events of the sessions that a daemon owns. -/
def committedFor (S : System σ) (id : String) : Set EventRef :=
  {x | ∃ row ∈ S.server.db.dedupe, row.ref = x ∧ sessionOwner S.server.db row.sessionId = some id}

def pending (S : System σ) (id : String) : Set EventEnvelope :=
  {e | (id,.event e) ∈ S.up ∨ ∃ job ∈ S.jobs, job.daemonId = id ∧ job.event = e}

end System

/-- The invariant: the journals are sound for what the ledger has of their sessions, and so
is every frame that speaks of events. -/
structure Inv (D : Deployment σ) (S : System σ) : Prop where
  ledger : LogInv D.digests S.server.db S.log
  owned : ∀ row ∈ S.server.db.dedupe, ∃ id, sessionOwner S.server.db row.sessionId = some id
  hosts : ∀ id, HostSound (D.daemons id) (S.committedFor id) ∅ (S.pending id) (S.hosts id)
  jobs : ∀ job ∈ S.jobs, sessionOwner S.server.db job.event.sessionId = some job.daemonId
  acks : ∀ id ack, (id,.eventAck ack) ∈ S.down → ack.ref ∈ S.committedFor id
  snapshots : ∀ id snapshot, (id,.reconcile snapshot) ∈ S.down →
    ∀ remote ∈ snapshot.sessions, Backed (S.committedFor id) remote
  sources : ∀ entry ∈ S.log, ∃ id e, sessionOwner S.server.db entry.2.row.sessionId = some id ∧
    MadeOf D.codec e entry.2.call ∧ (S.hosts id).Recorded e

section

variable {D : Deployment σ} {S S' : System σ}

theorem Inv.init (D : Deployment σ) (runtimes : String → σ) : Inv D (System.init runtimes) := by
  have hnone : ∀ id, (System.init runtimes).committedFor id = ∅ := by
    intro id
    simp [System.committedFor,System.init]
  have hpending : ∀ id, (System.init runtimes).pending id = ∅ := by
    intro id
    simp [System.pending,System.init]
  refine ⟨.empty _,by simp [System.init],fun id => ?_,by simp [System.init],by simp [System.init],
    by simp [System.init],by simp [System.init]⟩
  rw [hnone,hpending]
  exact .init (D.daemons id) (runtimes id)

/-! ### Moves of the wire -/

theorem Inv.shrink (h : Inv D S) (hhosts : S'.hosts = S.hosts) (hserver : S'.server = S.server)
    (hlog : S'.log = S.log) (hup : S'.up ⊆ S.up) (hdown : S'.down ⊆ S.down) (hjobs : S'.jobs ⊆ S.jobs) :
    Inv D S' := by
  have hcommitted : ∀ id, S'.committedFor id = S.committedFor id := by
    intro id
    unfold System.committedFor
    rw [hserver]
  refine ⟨?_,?_,fun id => ?_,fun job hjob => ?_,fun id ack hack => ?_,fun id snapshot hsnapshot => ?_,?_⟩
  · rw [hserver,hlog]
    exact h.ledger
  · rw [hserver]
    exact h.owned
  · rw [hcommitted,hhosts]
    refine (h.hosts id).mono ?_
    rintro e (he | ⟨job,hjob,hid⟩)
    · exact .inl (hup he)
    · exact .inr ⟨job,hjobs hjob,hid⟩
  · rw [hserver]
    exact h.jobs job (hjobs hjob)
  · rw [hcommitted]
    exact h.acks id ack (hdown hack)
  · rw [hcommitted]
    exact h.snapshots id snapshot (hdown hsnapshot)
  · rw [hserver,hlog,hhosts]
    exact h.sources

theorem Inv.send (h : Inv D S) {id : String} {frame : ServerFrame}
    (hack : ∀ ack, frame = .eventAck ack → ack.ref ∈ S.committedFor id)
    (hsnapshot : ∀ snapshot, frame = .reconcile snapshot →
      ∀ remote ∈ snapshot.sessions, Backed (S.committedFor id) remote) :
    Inv D { S with down := S.down ++ [(id,frame)] } := by
  refine ⟨h.ledger,h.owned,h.hosts,h.jobs,fun id' ack hmem => ?_,fun id' snapshot hmem => ?_,h.sources⟩
  · rcases List.mem_append.mp hmem with hmem | hmem
    · exact h.acks id' ack hmem
    · obtain ⟨rfl,hframe⟩ := Prod.mk.inj (List.mem_singleton.mp hmem)
      exact hack ack hframe.symm
  · rcases List.mem_append.mp hmem with hmem | hmem
    · exact h.snapshots id' snapshot hmem
    · obtain ⟨rfl,hframe⟩ := Prod.mk.inj (List.mem_singleton.mp hmem)
      exact hsnapshot snapshot hframe.symm

theorem Inv.connect (h : Inv D S) (id : String) : Inv D (S.step D (.connect id)) := by
  refine h.send (fun ack hack => by cases hack) fun snapshot hsnapshot remote hremote m hm hcov => ?_
  cases hsnapshot
  obtain ⟨howner,row,hrow,hsession,hseq⟩ := h.ledger.inv.snapshot_rows hremote hm hcov
  exact ⟨row.ref,⟨row,hrow,rfl,hsession ▸ howner⟩,hsession,hseq⟩

theorem Inv.addJob (h : Inv D S) (job : Job) (hpending : job.event ∈ S.pending job.daemonId)
    (howner : sessionOwner S.server.db job.event.sessionId = some job.daemonId) :
    Inv D { S with jobs := S.jobs ++ [job] } := by
  refine ⟨h.ledger,h.owned,fun id => (h.hosts id).mono ?_,fun job' hjob' => ?_,h.acks,h.snapshots,h.sources⟩
  · rintro e (he | ⟨job',hjob',rfl,rfl⟩)
    · exact .inl he
    · rcases List.mem_append.mp hjob' with hjob' | hjob'
      · exact .inr ⟨job',hjob',rfl,rfl⟩
      · rw [List.mem_singleton.mp hjob']
        exact hpending
  · rcases List.mem_append.mp hjob' with hjob' | hjob'
    · exact h.jobs job' hjob'
    · rw [List.mem_singleton.mp hjob']
      exact howner

/-! ### Moves of a daemon -/

theorem Inv.backed (h : Inv D S) {id : String} {op : DaemonOp} (hop : S.deliverable id op = true) :
    op.Backed (S.committedFor id) := by
  refine ⟨fun ack hack => ?_,fun snapshot hsnapshot => ?_⟩
  · rw [System.deliverable,hack] at hop
    exact h.acks id ack (of_decide_eq_true hop)
  · rw [System.deliverable,hsnapshot] at hop
    exact h.snapshots id snapshot (of_decide_eq_true hop)

theorem Inv.moveHost (h : Inv D S) {id : String} {host : Host σ} {frames : List DaemonFrame}
    (hhost : HostSound (D.daemons id) (S.committedFor id) {e | (S.hosts id).Recorded e}
      (S.pending id ∪ {e | e ∈ eventsOf frames}) host) :
    Inv D { S with
      hosts := Function.update S.hosts id host
      up := S.up ++ frames.map (id,·) } := by
  refine ⟨h.ledger,h.owned,fun id' => ?_,h.jobs,h.acks,h.snapshots,fun entry hentry => ?_⟩
  · by_cases hid : id' = id
    · subst hid
      have hsound : HostSound (D.daemons id') (S.committedFor id') ∅ (S.pending id' ∪
          {e | e ∈ eventsOf frames}) host := { hhost with recorded := by simp }
      simp only [Function.update_self]
      refine hsound.mono ?_
      rintro e (he | hjob)
      · rcases List.mem_append.mp he with he | he
        · exact .inl (.inl he)
        · obtain ⟨frame,hframe,heq⟩ := List.mem_map.mp he
          obtain rfl : frame = .event e := (Prod.mk.inj heq).2
          exact .inr (List.mem_filterMap.mpr ⟨_,hframe,rfl⟩)
      · exact .inl (.inr hjob)
    · simp only [Function.update_of_ne hid]
      refine (h.hosts id').mono ?_
      rintro e (he | hjob)
      · rcases List.mem_append.mp he with he | he
        · exact .inl he
        · obtain ⟨frame,-,heq⟩ := List.mem_map.mp he
          exact absurd (Prod.mk.inj heq).1.symm hid
      · exact .inr hjob
  · obtain ⟨id',e,howner,hmade,hrecorded⟩ := h.sources entry hentry
    refine ⟨id',e,howner,hmade,?_⟩
    by_cases hid : id' = id
    · subst hid
      simp only [Function.update_self]
      exact hhost.recorded e hrecorded
    · simp only [Function.update_of_ne hid]
      exact hrecorded

theorem Inv.daemon (h : Inv D S) (id : String) (op : DaemonOp) : Inv D (S.step D (.daemon id op)) := by
  simp only [System.step]
  split_ifs with hop
  · have hsound : HostSound (D.daemons id) (S.committedFor id) {e | (S.hosts id).Recorded e}
        (S.pending id) (S.hosts id) := { h.hosts id with recorded := fun _ he => he }
    have hemits := DaemonOp.emits (W := D.daemons id) (P := {e | (S.hosts id).Recorded e})
      (K := S.pending id) (h.backed hop)
    split
    · exact h
    · rename_i frames host hexec
      exact h.moveHost (hemits.ok hsound hexec)
    · rename_i error host hexec
      have hkept : HostSound (D.daemons id) (S.committedFor id) {e | (S.hosts id).Recorded e}
          (S.pending id ∪ {e | e ∈ eventsOf []}) host :=
        (hemits.error hsound hexec).mono (by simp [eventsOf])
      have hmoved := h.moveHost hkept
      simpa using hmoved
  · exact h

/-! ### Moves of the server -/

/-- A transaction keeps the owners, and adds these rows to the ledger. -/
structure Adds (db db' : Db) (rows : List EventDedupe) : Prop where
  dedupe : db'.dedupe = db.dedupe ++ rows
  owners : ∀ sessionId id, sessionOwner db sessionId = some id → sessionOwner db' sessionId = some id

theorem Adds.committedFor {S' : System σ} {rows : List EventDedupe} (h : Inv D S)
    (hadds : Adds S.server.db S'.server.db rows) {x : EventRef} {id : String} :
    x ∈ S'.committedFor id ↔ x ∈ S.committedFor id ∨
      ∃ row ∈ rows, row.ref = x ∧ sessionOwner S'.server.db row.sessionId = some id := by
  simp only [System.committedFor,Set.mem_ofPred_eq,hadds.dedupe,List.mem_append,or_and_right,exists_or]
  refine or_congr_left (exists_congr fun row => and_congr_right fun hrow => and_congr_right fun _ => ?_)
  obtain ⟨owner,howner⟩ := h.owned row hrow
  rw [howner,hadds.owners _ _ howner]

theorem Inv.adds (h : Inv D S) {server : Store.World} {log : List (Db × Store.Committed)}
    {rows : List EventDedupe} (hadds : Adds S.server.db server.db rows)
    (hledger : LogInv D.digests server.db (S.log ++ log))
    (hrows : ∀ row ∈ rows, ∃ id, sessionOwner server.db row.sessionId = some id)
    (hheld : ∀ row ∈ rows, ∀ id, sessionOwner server.db row.sessionId = some id →
      row.daemonEventSeq ≤ i64Max ∧ ∃ e ∈ S.pending id, e.ref = row.ref)
    (hsingle : rows.length ≤ 1)
    (hsources : ∀ entry ∈ log, ∃ id e, sessionOwner server.db entry.2.row.sessionId = some id ∧
      MadeOf D.codec e entry.2.call ∧ (S.hosts id).Recorded e) :
    Inv D { S with server := server, log := S.log ++ log } := by
  have hcommitted : ∀ id x, x ∈ System.committedFor { S with server := server, log := S.log ++ log } id ↔
      x ∈ S.committedFor id ∨ ∃ row ∈ rows, row.ref = x ∧
        sessionOwner server.db row.sessionId = some id :=
    fun id x => @Adds.committedFor _ D S { S with server := server, log := S.log ++ log } rows h hadds x id
  refine ⟨hledger,fun row hrow => ?_,fun id => ?_,fun job hjob => hadds.owners _ _ (h.jobs job hjob),
    fun id ack hack => (hcommitted id _).mpr (.inl (h.acks id ack hack)),
    fun id snapshot hsnapshot remote hremote m hm hcov => ?_,fun entry hentry => ?_⟩
  · change row ∈ server.db.dedupe at hrow
    rw [hadds.dedupe] at hrow
    rcases List.mem_append.mp hrow with hrow | hrow
    · obtain ⟨id,howner⟩ := h.owned row hrow
      exact ⟨id,hadds.owners _ _ howner⟩
    · exact hrows row hrow
  · have hhost := h.hosts id
    show HostSound (D.daemons id) (System.committedFor { S with server := server, log := S.log ++ log } id)
      ∅ (S.pending id) (S.hosts id)
    have hold : (∀ row ∈ rows, sessionOwner server.db row.sessionId ≠ some id) →
        System.committedFor { S with server := server, log := S.log ++ log } id = S.committedFor id := by
      intro hnone
      ext x
      rw [hcommitted]
      constructor
      · rintro (hx | ⟨row,hrow,-,howner⟩)
        · exact hx
        · exact absurd howner (hnone row hrow)
      · exact .inl
    rcases rows with _ | ⟨row,_ | ⟨row',rest⟩⟩
    · rw [hold (by simp)]
      exact hhost
    · by_cases howner : sessionOwner server.db row.sessionId = some id
      · obtain ⟨hbound,e,he,href⟩ := hheld row (by simp) id howner
        have hnew : System.committedFor { S with server := server, log := S.log ++ log } id =
            insert row.ref (S.committedFor id) := by
          ext x
          rw [hcommitted,Set.mem_insert_iff,or_comm]
          simp [howner,eq_comm]
        have hlt : row.ref.daemonEventSeq < u64Max := lt_of_le_of_lt hbound (by decide)
        have hstate := (hhost.kept e he).mem_refs
        have hfile := (hhost.ahead e (hhost.kept e he)).mem_refs
        rw [href] at hstate hfile
        rw [hnew]
        exact { hhost with
          state := hhost.state.commit hstate hlt
          file := hhost.file.commit hfile hlt }
      · rw [hold (by simpa using howner)]
        exact hhost
    · simp at hsingle
  · obtain ⟨c,hc,hc'⟩ := h.snapshots id snapshot hsnapshot remote hremote m hm hcov
    exact ⟨c,(hcommitted id c).mpr (.inl hc),hc'⟩
  · rcases List.mem_append.mp hentry with hentry | hentry
    · obtain ⟨id,e,howner,hmade,hrecorded⟩ := h.sources entry hentry
      exact ⟨id,e,hadds.owners _ _ howner,hmade,hrecorded⟩
    · exact hsources entry hentry

theorem Inv.owners (h : Inv D S) (act : Act) (sessionId id : String)
    (howner : sessionOwner S.server.db sessionId = some id) :
    sessionOwner (S.server.step D.digests act).db sessionId = some id :=
  h.ledger.owner_kept act howner

/-- A transaction that ingests no event adds no row. -/
theorem Inv.transact (h : Inv D S) {act : Act} (hact : act.call? = none) : Inv D (S.transact D act) := by
  have hdedupe : (S.server.step D.digests act).db.dedupe = S.server.db.dedupe :=
    (act.ledgerKept h.ledger.inv.keyed hact).dedupe
  have hlogged : act.logged D.digests S.server.db = [] := by simp [Act.logged,hact]
  have hadds : Adds S.server.db (S.server.step D.digests act).db [] :=
    ⟨by rw [hdedupe,List.append_nil],h.owners act⟩
  refine h.adds hadds (h.ledger.step act) (by simp) (by simp) (by simp) ?_
  rw [hlogged]
  simp

/-- The transaction of a handler commits the event of its job, or changes nothing. -/
theorem Inv.call (h : Inv D S) {job : Job} (hjob : job ∈ S.jobs) {call : EventCall}
    (hmade : MadeOf D.codec job.event call) : Inv D (S.transact D (.run call.act)) := by
  have howner := h.jobs job hjob
  have hpending : job.event ∈ S.pending job.daemonId := .inr ⟨job,hjob,rfl,rfl⟩
  have howners := h.owners (.run call.act)
  have hledger := h.ledger.step (.run call.act)
  have hstep : (S.server.step D.digests (.run call.act)).db = call.act.apply D.digests S.server.db := rfl
  rcases call.commits_or_same D.digests S.server.db with ⟨row,hcommits⟩ | hsame
  · obtain ⟨hdedupe,hnew⟩ := EventInv.commits_dedupe hcommits
    have href : row.ref = job.event.ref := hmade.ref hcommits.key
    have hsession : row.sessionId = job.event.sessionId := congrArg EventRef.sessionId href
    have hrowner : sessionOwner (S.server.step D.digests (.run call.act)).db row.sessionId =
        some job.daemonId := by
      rw [hsession]
      exact howners _ _ howner
    have hlogged : (Act.run call.act).logged D.digests S.server.db = [(S.server.db,⟨call,row⟩)] := by
      have hcall : (Act.run call.act).call? = some call := call.call?_act
      have hrows : newEvents S.server.db ((Act.run call.act).apply D.digests S.server.db) = [row] := by
        show newEvents S.server.db (call.act.apply D.digests S.server.db) = [row]
        simp [newEvents,hdedupe]
      simp only [Act.logged,hcall,hrows,List.map_cons,List.map_nil]
    -- the row is new, so the journal of the owner cannot have buried the event
    have hrecorded : (S.hosts job.daemonId).Recorded job.event := by
      rcases (h.hosts job.daemonId).kept _ hpending with ⟨r,hr,heq⟩ | ⟨t,ht,heq⟩
      · exact ⟨_,(h.hosts job.daemonId).current,r,hr,heq⟩
      · obtain ⟨row',hrow',href',-⟩ := (h.hosts job.daemonId).state.buried t ht
        have hid : row'.ref = row.ref := href'.trans (heq.trans href.symm)
        exact absurd (congrArg EventRef.eventId hid) (hnew row' hrow')
    have hadds : Adds S.server.db (S.server.step D.digests (.run call.act)).db [row] :=
      ⟨by rw [hstep,hdedupe],howners⟩
    refine h.adds hadds hledger ?_ ?_ (by simp) ?_
    · simpa using ⟨_,hrowner⟩
    · intro r hr id hid
      obtain rfl := List.mem_singleton.mp hr
      obtain rfl : job.daemonId = id := Option.some.inj (hrowner.symm.trans hid)
      exact ⟨hcommits.bounded,job.event,hpending,href.symm⟩
    · intro entry hentry
      rw [hlogged] at hentry
      obtain rfl := List.mem_singleton.mp hentry
      exact ⟨job.daemonId,job.event,hrowner,hmade,hrecorded⟩
  · have hlogged : (Act.run call.act).logged D.digests S.server.db = [] := by
      have hcall : (Act.run call.act).call? = some call := call.call?_act
      have hrows : newEvents S.server.db ((Act.run call.act).apply D.digests S.server.db) = [] := by
        show newEvents S.server.db (call.act.apply D.digests S.server.db) = []
        simp [newEvents,hsame]
      simp only [Act.logged,hcall,hrows,List.map_nil]
    have hadds : Adds S.server.db (S.server.step D.digests (.run call.act)).db [] :=
      ⟨by rw [hstep,hsame,List.append_nil],howners⟩
    refine h.adds hadds hledger (by simp) (by simp) (by simp) ?_
    rw [hlogged]
    simp

theorem Inv.handle (h : Inv D S) (job : Job) (readings : Readings) :
    Inv D (S.step D (.handle job readings)) := by
  simp only [System.step]
  split_ifs with hjob
  · split
    · exact h
    · rename_i call hcall
      have hmade := handlerCall_madeOf hcall
      have hcalled := h.call hjob hmade
      cases hexec : call.exec D.digests S.server.db with
      | ok result =>
        obtain ⟨receipt,db'⟩ := result
        refine hcalled.send (fun ack hack => ?_) fun snapshot hsnapshot => by cases hsnapshot
        cases hack
        obtain ⟨row,hrow,hkey,href⟩ := h.ledger.inv.exec_committed hexec
        have hdb : (S.server.step D.digests (.run call.act)).db = db' := EventCall.apply_of_ok hexec
        refine ⟨row,?_,href.symm,?_⟩
        · show row ∈ (S.server.step D.digests (.run call.act)).db.dedupe
          rw [hdb]
          exact hrow
        · have hsession : row.sessionId = job.event.sessionId :=
            congrArg EventRef.sessionId (hmade.ref hkey)
          rw [hsession]
          exact hcalled.jobs job hjob
      | error error =>
        simp only [handled]
        split
        · exact absurd ‹_› (by simp)
        · exact hcalled.addJob { job with stage := .unprojected }
            (.inr ⟨job,hjob,rfl,rfl⟩) (hcalled.jobs job hjob)
        · exact hcalled
  · exact h

theorem Inv.step (h : Inv D S) (move : Move) : Inv D (S.step D move) := by
  cases move with
  | daemon id op => exact h.daemon id op
  | connect id => exact h.connect id
  | intake id event =>
    simp only [System.step]
    split_ifs with hadmit
    · exact h.addJob ⟨id,event,.admitted⟩ (.inl hadmit.1) hadmit.2.2
    · exact h
  | handle job readings => exact h.handle job readings
  | transact act =>
    simp only [System.step]
    split_ifs with hact
    · exact h.transact (by simpa using hact)
    · exact h
  | loseUp id frame =>
    exact h.shrink rfl rfl rfl List.erase_subset (List.Subset.refl _) (List.Subset.refl _)
  | loseDown id frame =>
    exact h.shrink rfl rfl rfl (List.Subset.refl _) List.erase_subset (List.Subset.refl _)
  | drop id =>
    exact h.shrink rfl rfl rfl (List.filter_subset_self _) (List.filter_subset_self _) (List.filter_subset_self _)

theorem Inv.run (h : Inv D S) (moves : List Move) : Inv D (S.run D moves) := by
  induction moves generalizing S with
  | nil => exact h
  | cons move moves ih => exact ih (h.step move)

end

/-! ### What delivery promises -/

def System.journals (S : System σ) (id : String) : List JournalFile :=
  [(S.hosts id).state,(S.hosts id).file]

structure Contract (D : Deployment σ) (S : System σ) : Prop where
  /-- What a journal shows as handled is in the ledger. -/
  acknowledged : ∀ id, ∀ s ∈ S.journals id, ∀ r ∈ s.events, r.acknowledged = true →
    S.Committed r.envelope.ref
  tombstoned : ∀ id, ∀ s ∈ S.journals id, ∀ t ∈ s.eventTombstones, S.Committed t.ref
  /-- A replay, after any snapshot that is on its way, leaves out only such events. -/
  excluded : ∀ id snapshot, (id,.reconcile snapshot) ∈ S.down → ∀ remote ∈ snapshot.sessions,
    ∀ r ∈ (S.hosts id).state.events, r.envelope.sessionId = remote.sessionId →
      r.envelope ∉ replayEvents (S.hosts id).state remote.sessionId remote → S.Committed r.envelope.ref
  /-- A snapshot names every session of its daemon, so a replay reaches all of them. -/
  replayed : ∀ id, ∀ r ∈ (S.hosts id).state.events,
    sessionOwner S.server.db r.envelope.sessionId = some id → S.Committed r.envelope.ref ∨
      ∃ remote ∈ (reconcileSnapshot S.server.db id).sessions,
        r.envelope ∈ replayEvents (S.hosts id).state remote.sessionId remote
  /-- The ledger is the log of the committed events; the rows of a session are in order. -/
  logged : S.server.db.dedupe = S.log.map (·.2.row)
  once : (S.server.db.dedupe.map (·.eventId)).Nodup
  ordered : ∀ s ∈ S.server.db.sessions,
    (S.server.db.dedupeOf s.id).map (·.daemonEventSeq) = List.range' 1 s.eventAckThroughSeq
  /-- Each committed event was recorded by the journal of the owner of its session, its
  effect was applied when it was committed, and all rows of effects come from the log. -/
  sources : ∀ entry ∈ S.log, ∃ id e, sessionOwner S.server.db entry.2.row.sessionId = some id ∧
    MadeOf D.codec e entry.2.call ∧ (S.hosts id).Recorded e
  applied : ∀ entry ∈ S.log, Commits D.digests entry.1 entry.2.call entry.2.row
    (entry.2.call.act.apply D.digests entry.1)
  effects : S.server.db.effects = Effects.all (S.log.map (·.2))
  /-- An event that is in the ledger changes nothing when it comes again. -/
  redelivered : ∀ call : EventCall, (∃ row ∈ S.server.db.dedupe, row.eventId = call.key.eventId) →
    call.act.apply D.digests S.server.db = S.server.db
  /-- What a journal has recorded and the ledger does not have is still there, open. -/
  retained : ∀ id e, (S.hosts id).Recorded e → ¬ S.Committed e.ref →
    ∀ s ∈ S.journals id, ∃ r ∈ s.events, r.envelope = e ∧ r.acknowledged = false

section

variable {D : Deployment σ} {S : System σ}

theorem System.committed_of_mem {x : EventRef} {id : String} (h : x ∈ S.committedFor id) :
    S.Committed x := by
  obtain ⟨row,hrow,href,-⟩ := h
  exact ⟨row,hrow,href⟩

theorem Inv.journal_sound (h : Inv D S) (id : String) : ∀ s ∈ S.journals id,
    EventsSound (D.daemons id).handle (S.committedFor id) s ∧ Retains (S.hosts id).state s := by
  intro s hs
  simp only [System.journals,List.mem_cons,List.not_mem_nil,or_false] at hs
  rcases hs with rfl | rfl
  · exact ⟨(h.hosts id).state,.refl _⟩
  · exact ⟨(h.hosts id).file,(h.hosts id).ahead⟩

theorem Inv.retained (h : Inv D S) {id : String} {e : EventEnvelope} (he : (S.hosts id).Recorded e)
    (hopen : ¬ S.Committed e.ref) {s : JournalFile} (hs : s ∈ S.journals id) :
    ∃ r ∈ s.events, r.envelope = e ∧ r.acknowledged = false := by
  obtain ⟨hsound,hretains⟩ := h.journal_sound id s hs
  rcases hretains e ((h.hosts id).past e he) with ⟨r,hr,rfl⟩ | ⟨t,ht,heq⟩
  · refine ⟨r,hr,rfl,?_⟩
    by_contra hack
    exact hopen (System.committed_of_mem (hsound.acknowledged r hr (by simpa using hack)))
  · exact absurd (heq ▸ System.committed_of_mem (hsound.buried t ht)) hopen

theorem Inv.replayed (h : Inv D S) {id : String} {r : EventRecord} (hr : r ∈ (S.hosts id).state.events)
    (howner : sessionOwner S.server.db r.envelope.sessionId = some id) :
    S.Committed r.envelope.ref ∨ ∃ remote ∈ (reconcileSnapshot S.server.db id).sessions,
      r.envelope ∈ replayEvents (S.hosts id).state remote.sessionId remote := by
  obtain ⟨s,hs,hid⟩ := Option.bind_eq_some_iff.mp howner
  obtain ⟨hmem,hsession⟩ := session?_some hs
  have hremote : sessionReconcileState s ∈ (reconcileSnapshot S.server.db id).sessions :=
    mem_reconciliation.mpr ⟨s,hmem,hid,rfl⟩
  -- the snapshot of this moment would be sound on the wire
  have hbacked := (h.connect id).snapshots id _ (List.mem_append_right _ List.mem_cons_self) _ hremote
  by_cases hout : r.envelope ∈ replayEvents (S.hosts id).state (sessionReconcileState s).sessionId
      (sessionReconcileState s)
  · exact .inr ⟨_,hremote,hout⟩
  · exact .inl (System.committed_of_mem
      (replayEvents_leaves (h.hosts id).state hbacked hr hsession.symm hout))

/-- Over any run, an event is marked as handled only when the ledger has it, the ledger has
the effect of every event it has exactly once and in the order of its session, and what it
does not have yet is still open in the journal. -/
theorem event_delivery (D : Deployment σ) (runtimes : String → σ) (moves : List Move) :
    Contract D ((System.init runtimes).run D moves) := by
  have h := (Inv.init D runtimes).run moves
  generalize (System.init runtimes).run D moves = S at h
  refine ⟨fun id s hs r hr ha => ?_,fun id s hs t ht => ?_,
    fun id snapshot hsnapshot remote hremote r hr hsession hout => ?_,fun id r hr howner => h.replayed hr howner,
    h.ledger.logged,h.ledger.inv.ids,fun s hs => ?_,h.sources,h.ledger.applied,h.ledger.effects,
    fun call hknown => ?_,fun id e he hopen s hs => h.retained he hopen hs⟩
  · exact System.committed_of_mem ((h.journal_sound id s hs).1.acknowledged r hr ha)
  · exact System.committed_of_mem ((h.journal_sound id s hs).1.buried t ht)
  · exact System.committed_of_mem (replayEvents_leaves (h.hosts id).state
      (h.snapshots id snapshot hsnapshot remote hremote) hr hsession hout)
  · rw [← h.ledger.inv.cursor s.id s (session?_of_mem h.ledger.inv.keyed hs)]
    exact h.ledger.inv.numbered s.id
  · obtain ⟨row,hrow,hid⟩ := hknown
    rcases call.commits_or_same D.digests S.server.db with ⟨row',hcommits⟩ | hsame
    · have hkey : row'.eventId = call.key.eventId := congrArg EventKey.eventId hcommits.key
      exact absurd (hid.trans hkey.symm) ((EventInv.commits_dedupe hcommits).2 row hrow)
    · exact hsame

end

namespace Sample

def deployment : Deployment Unit where
  daemons id := { calmWorld with handle := { plainHandle with daemonId := id } }
  digests := Store.Sample.digests
  codec := ⟨(·.eventId),(·.eventId)⟩

def started : EventEnvelope := ⟨"e1","run",1,"1",1,.sessionStarted "runtime"⟩

def working : EventEnvelope := ⟨"e2","run",2,"1",1,.agentActivity "working"⟩

/-- Of two events the first is committed, its acknowledgement is lost with the connection,
and the daemon restarts before it reconnects. -/
def reconnected : List Move :=
  Store.Sample.started.map (fun act => .transact (.run act)) ++
  [.daemon "daemon" (.appendEvent "e1" "run" started.event),
   .daemon "daemon" (.appendEvent "e2" "run" working.event),
   .intake "daemon" started,.handle ⟨"daemon",started,.admitted⟩ ⟨2,2,Store.Sample.noJitter,"a1"⟩,.drop "daemon",
   .daemon "daemon" .reopen,.connect "daemon",.daemon "daemon" (.reconcile ⟨1,[⟨"run",0,1,[]⟩]⟩)]

/-- The snapshot acknowledges the first event and the replay has only the second. -/
example : (((System.init fun _ => ()).run deployment reconnected).hosts "daemon").state.events.map
      (fun r => (r.envelope.eventId,r.acknowledged)) = [("e1",true),("e2",false)] ∧
    ((System.init fun _ => ()).run deployment reconnected).up = [("daemon",.event working)] := by
  decide +kernel

end Sample

end Delivery
end North
