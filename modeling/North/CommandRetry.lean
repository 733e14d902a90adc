import North.CommandOutbox

/-! A command request that is made again. The server answers a known command id from the
outbox row or from the tombstone, and compares the requested command with what it finds
there; only an unknown id assembles a new command. The answer to a repeat is computed in
every state that acknowledgements and compaction lead to. -/
namespace North
namespace Server

open Machine Protocol Store

inductive DaemonDispatchError
  | invalidCommand | sessionNotFound | daemonUnavailable | internal
  deriving DecidableEq, Repr

structure CommandRequest where
  commandId : String
  sessionId : String
  command : Command
  deriving DecidableEq, Repr

structure LiveConnection where
  connectionId : String
  ready : Bool := false
  /-- The receiver of the outbound channel exists. -/
  receiving : Bool := true
  deriving DecidableEq, Repr

structure RepositoryRecord where
  id : String
  name : String
  url : String
  description : String
  deriving DecidableEq, Repr

/-- What one call reads besides the tables: the clock, the live connections, and the
active repositories in the order of the query. -/
structure Call where
  now : ℕ
  sentAt : String
  live : String → Option LiveConnection
  repositories : List RepositoryRecord
  requiredCapabilities : List String

/-- A retry does not name the repositories that the server chose for the first call. -/
def sameRetryCommand (requested persisted : Command) : Bool :=
  match requested,persisted with
  | .sessionStart requested,.sessionStart persisted =>
    decide ({ requested with repositories := persisted.repositories } = persisted)
  | requested,persisted => decide (requested = persisted)

def commandById (d : Digests) (db : Db) (commandId : String) :
    Except PersistenceError (Option PinnedCommand) :=
  match db.outbox.find? fun r => decide (r.commandId = commandId) with
  | some r => (pinnedFromRow d r).map some
  | none =>
    .ok ((db.tombstones.find? fun t => decide (t.commandId = commandId)).map CommandTombstone.pinned)

/-- `ServerFrame::from_json` of a stored payload, which may be the empty text. -/
def parsePayload (payload : Option CommandEnvelope) : Except DaemonDispatchError CommandEnvelope :=
  orError .invalidCommand (payload.filter fun e => decide (e.validate = .ok ()))

def assembleSessionRepositories (start : SessionStart) (repositories : List RepositoryRecord) :
    Except DaemonDispatchError Command :=
  let requestedIds := start.repositories.map (·.repositoryId)
  if ¬ requestedIds.Nodup ∨ (requestedIds.any fun id => !repositories.any fun r => decide (r.id = id)) then
    .error .invalidCommand
  else .ok (.sessionStart { start with
    repositories := (repositories.filter fun r => requestedIds.isEmpty || requestedIds.contains r.id).map
      fun r => ⟨r.id,r.name,r.url,r.description⟩ })

def assembleSessionCommand (command : Command) (repositories : List RepositoryRecord) :
    Except DaemonDispatchError Command :=
  match command with
  | .sessionStart start => assembleSessionRepositories start repositories
  | command => .ok command

def dispatchPersistedCommand (call : Call) (db : Db) (pinned : PinnedCommand)
    (envelope : CommandEnvelope) : Except DaemonDispatchError Unit :=
  if envelope.commandId ≠ pinned.commandId ∨ envelope.sessionId ≠ pinned.sessionId ∨
      envelope.serverCommandSeq ≠ pinned.serverCommandSeq then .error .invalidCommand
  else match db.registration? pinned.daemonId with
    | none => .error .sessionNotFound
    | some r =>
      if r.capabilities.isNone then .error .internal
      else if !db.daemonConnected call.now (some pinned.daemonId) then .error .daemonUnavailable
      else if (call.live pinned.daemonId).any fun c => c.ready && c.receiving then .ok ()
      else .error .daemonUnavailable

/-- The part of `persist_and_dispatch_command` for a command id that is stored. -/
def repeatStoredCommand (d : Digests) (call : Call) (request : CommandRequest) (db : Db)
    (pinned : PinnedCommand) : Except DaemonDispatchError PinnedCommand :=
  if pinned.sessionId ≠ request.sessionId then .error .invalidCommand
  else if pinned.compacted then do
    let same ← (match pinned.payload with
      | none => do
        -- the frame is rebuilt without a send time
        let candidate ← orError .invalidCommand (commandFrame "" pinned.sessionId pinned.commandId
          pinned.serverCommandSeq request.command)
        .ok (decide (d.identity candidate = pinned.commandIdentityDigest))
      | some payload => do
        let envelope ← parsePayload (some payload)
        .ok (sameRetryCommand request.command envelope.command))
    if same then .ok pinned else .error .invalidCommand
  else do
    let envelope ← parsePayload pinned.payload
    if sameRetryCommand request.command envelope.command then do
      dispatchPersistedCommand call db pinned envelope
      .ok pinned
    else .error .invalidCommand

def storeError : PersistenceError → DaemonDispatchError
  | .noEligibleDaemon => .daemonUnavailable
  | .invalidCommandPayload => .invalidCommand
  | _ => .internal

/-- The request to the store for an assembled command. -/
def storeRequest (request : CommandRequest) (requiredCapabilities : List String)
    (command : Command) : Store.CommandRequest where
  sessionId := request.sessionId
  commandId := request.commandId
  requiredCapabilities := requiredCapabilities
  requirementId := match command with
    | .sessionStart start => some start.requirement.id
    | _ => none
  repositoryIds := match command with
    | .sessionStart start => some (start.repositories.map (·.repositoryId))
    | _ => none
  command := command

/-- The end of `persist_and_dispatch_command` for a command that it has just stored. -/
def dispatchStoredCommand (call : Call) (db : Db) (pinned : PinnedCommand) :
    Except DaemonDispatchError PinnedCommand :=
  if pinned.compacted then .ok pinned
  else do
    let envelope ← parsePayload pinned.payload
    dispatchPersistedCommand call db pinned envelope
    .ok pinned

/-- A failed dispatch leaves the stored command. -/
def persistAndDispatchCommand (d : Digests) (call : Call) (request : CommandRequest) (db : Db) :
    Except DaemonDispatchError PinnedCommand × Db :=
  match commandById d db request.commandId with
  | .error _ => (.error .internal,db)
  | .ok (some pinned) => (repeatStoredCommand d call request db pinned,db)
  | .ok none =>
    match assembleSessionCommand request.command call.repositories with
    | .error e => (.error e,db)
    | .ok command =>
      match startSessionWithCommand d call.now call.sentAt
          (storeRequest request call.requiredCapabilities command) db with
      | .error e => (.error (storeError e),db)
      | .ok (pinned,db') => (dispatchStoredCommand call db' pinned,db')

/-! ### Commands up to their repositories -/

def withoutRepositories : Command → Command
  | .sessionStart start => .sessionStart { start with repositories := [] }
  | command => command

theorem sameRetryCommand_iff {a b : Command} :
    sameRetryCommand a b = true ↔ withoutRepositories a = withoutRepositories b := by
  cases a <;> cases b <;> simp [sameRetryCommand,withoutRepositories]
  rename_i a b
  cases a
  cases b
  simp

theorem assembleSessionCommand_same {command assembled : Command} {repositories : List RepositoryRecord}
    (h : assembleSessionCommand command repositories = .ok assembled) :
    sameRetryCommand command assembled = true := by
  rw [sameRetryCommand_iff]
  unfold assembleSessionCommand at h
  split at h
  · unfold assembleSessionRepositories at h
    dsimp only at h
    split at h
    · cases h
    · cases h
      rfl
  · cases h
    rfl

/-! ### Frames and dispatch -/

/-- No frame is valid without its send time. -/
theorem commandFrame_unsent (sessionId commandId : String) (sequence : ℕ) (command : Command) :
    commandFrame "" sessionId commandId sequence command = none := by
  unfold commandFrame
  dsimp only
  split
  · rename_i h
    simp only [CommandEnvelope.validate,bind_eq_ok] at h
    obtain ⟨_,-,_,-,_,-,_,hsent,-⟩ := h
    have hblank := nonEmpty_ok hsent
    exact absurd hblank (by decide)
  · rfl

theorem parsePayload_ok {payload : Option CommandEnvelope} {e : CommandEnvelope}
    (h : parsePayload payload = .ok e) : payload = some e ∧ e.validate = .ok () := by
  unfold parsePayload at h
  rw [orError_eq_ok,Option.filter_eq_some_iff] at h
  exact ⟨h.1,of_decide_eq_true h.2⟩

theorem parsePayload_valid {e : CommandEnvelope} (h : e.validate = .ok ()) :
    parsePayload (some e) = .ok e := by
  unfold parsePayload
  rw [orError_eq_ok,Option.filter_eq_some_iff]
  exact ⟨rfl,decide_eq_true h⟩

/-- A dispatch to the daemon goes through. -/
def reachable (call : Call) (db : Db) (daemonId : String) : Bool :=
  (db.registration? daemonId).any (·.capabilities.isSome) &&
    db.daemonConnected call.now (some daemonId) &&
    (call.live daemonId).any fun c => c.ready && c.receiving

theorem dispatchPersistedCommand_ok {call : Call} {db : Db} {pinned : PinnedCommand}
    {envelope : CommandEnvelope} :
    dispatchPersistedCommand call db pinned envelope = .ok () ↔
      (envelope.commandId = pinned.commandId ∧ envelope.sessionId = pinned.sessionId ∧
        envelope.serverCommandSeq = pinned.serverCommandSeq) ∧
      reachable call db pinned.daemonId = true := by
  unfold dispatchPersistedCommand reachable
  split
  · rename_i h
    simp only [reduceCtorEq,false_iff]
    rintro ⟨⟨hc,hs,hn⟩,-⟩
    simp [hc,hs,hn] at h
  · rename_i h
    have hids : envelope.commandId = pinned.commandId ∧ envelope.sessionId = pinned.sessionId ∧
        envelope.serverCommandSeq = pinned.serverCommandSeq := by
      simpa [not_or] using h
    cases hr : db.registration? pinned.daemonId with
    | none => simp
    | some r =>
      cases hcap : r.capabilities <;> cases hcon : db.daemonConnected call.now (some pinned.daemonId) <;>
        simp [hids,hcap]

/-! ### The command that is stored -/

def pinnedKey (p : PinnedCommand) : CommandKey :=
  ⟨p.commandId,p.sessionId,p.daemonId,p.serverCommandSeq,p.payloadDigest,p.commandIdentityDigest⟩

def stored (db : Db) (r : OutboxRow) : PinnedCommand :=
  if db.aboveAck r then r.pinned else r.tombstone.pinned

theorem stored_key (db : Db) (r : OutboxRow) : pinnedKey (stored db r) = pinnedKey r.pinned := by
  unfold stored
  split <;> rfl

@[simp] theorem stored_sessionId (db : Db) (r : OutboxRow) : (stored db r).sessionId = r.sessionId := by
  unfold stored
  split <;> rfl

theorem stored_above {db : Db} {r : OutboxRow} (h : db.aboveAck r = true) : stored db r = r.pinned :=
  if_pos h

theorem stored_below {db : Db} {r : OutboxRow} (h : db.aboveAck r = false) :
    stored db r = r.tombstone.pinned :=
  if_neg (by simp [h])

def Named (r : OutboxRow) : Prop :=
  r.payload.commandId = r.commandId ∧ r.payload.sessionId = r.sessionId ∧
    r.payload.serverCommandSeq = r.serverCommandSeq

/-- When the stored command answers a request. -/
structure Answers (call : Call) (request : CommandRequest) (db : Db) (r : OutboxRow) : Prop where
  session : r.sessionId = request.sessionId
  valid : r.payload.validate = .ok ()
  same : sameRetryCommand request.command r.payload.command = true
  sent : db.aboveAck r = true → Named r ∧ reachable call db r.daemonId = true
  kept : db.aboveAck r = false → r.tombstone.payload.isSome = true

theorem tombstone_payload {r : OutboxRow} {e : CommandEnvelope} (h : r.tombstone.payload = some e) :
    e = r.payload := by
  simp only [OutboxRow.tombstone] at h
  split at h
  · exact (Option.some.inj h).symm
  · cases h

theorem repeatStoredCommand_ok {d : Digests} {call : Call} {request : CommandRequest} {db : Db}
    {r : OutboxRow} {p : PinnedCommand} :
    repeatStoredCommand d call request db (stored db r) = .ok p ↔
      p = stored db r ∧ Answers call request db r := by
  unfold repeatStoredCommand
  rw [stored_sessionId]
  by_cases hsession : r.sessionId = request.sessionId
  swap
  · rw [if_pos hsession]
    simp only [reduceCtorEq,false_iff]
    exact fun h => hsession h.2.session
  rw [if_neg (not_not.mpr hsession)]
  cases habove : db.aboveAck r with
  | true =>
    rw [stored_above habove,if_neg (by simp [OutboxRow.pinned])]
    constructor
    · intro h
      obtain ⟨e,hparse,h⟩ := bind_eq_ok.mp h
      obtain ⟨he,hvalid⟩ := parsePayload_ok hparse
      cases he
      split at h
      · rename_i hsame
        obtain ⟨_,hdispatch,h⟩ := bind_eq_ok.mp h
        obtain ⟨hnames,hreach⟩ := dispatchPersistedCommand_ok.mp hdispatch
        cases h
        exact ⟨rfl,hsession,hvalid,hsame,fun _ => ⟨hnames,hreach⟩,fun h => by simp [habove] at h⟩
      · cases h
    · rintro ⟨rfl,-,hvalid,hsame,hsent,-⟩
      obtain ⟨hnames,hreach⟩ := hsent habove
      refine bind_eq_ok.mpr ⟨r.payload,parsePayload_valid hvalid,?_⟩
      rw [if_pos hsame]
      exact bind_eq_ok.mpr ⟨(),dispatchPersistedCommand_ok.mpr ⟨hnames,hreach⟩,rfl⟩
  | false =>
    rw [stored_below habove,if_pos (by rfl)]
    cases hpayload : r.tombstone.payload with
    | none =>
      have hpinned : r.tombstone.pinned.payload = none := hpayload
      simp only [hpinned,commandFrame_unsent,orError]
      constructor
      · intro h
        cases h
      · rintro ⟨-,-,-,-,-,hkept⟩
        simpa [hpayload] using hkept habove
    | some e =>
      obtain rfl := tombstone_payload hpayload
      have hpinned : r.tombstone.pinned.payload = some r.payload := hpayload
      simp only [hpinned]
      constructor
      · intro h
        obtain ⟨same,hsame,h⟩ := bind_eq_ok.mp h
        obtain ⟨e,hparse,heq⟩ := bind_eq_ok.mp hsame
        obtain ⟨he,hvalid⟩ := parsePayload_ok hparse
        cases he
        cases heq
        split at h
        · rename_i hsame
          cases h
          exact ⟨rfl,hsession,hvalid,hsame,fun h => by simp [habove] at h,fun _ => by simp [hpayload]⟩
        · cases h
      · rintro ⟨rfl,-,hvalid,hsame,-,-⟩
        simp [parsePayload_valid hvalid,hsame,bind,Except.bind]

/-- A stored command does not answer for another one, whichever table holds it. -/
theorem repeatStoredCommand_refused {d : Digests} {call : Call} {request : CommandRequest} {db : Db}
    {r : OutboxRow} (hvalid : r.payload.validate = .ok ())
    (hother : sameRetryCommand request.command r.payload.command = false) :
    repeatStoredCommand d call request db (stored db r) = .error .invalidCommand := by
  unfold repeatStoredCommand
  split
  · rfl
  cases habove : db.aboveAck r with
  | true =>
    have hpinned : r.pinned.payload = some r.payload := rfl
    rw [stored_above habove,if_neg (by simp [OutboxRow.pinned]),hpinned]
    simp [parsePayload_valid hvalid,hother,bind,Except.bind]
  | false =>
    rw [stored_below habove,if_pos (by rfl)]
    cases hpayload : r.tombstone.payload with
    | none =>
      have hpinned : r.tombstone.pinned.payload = none := hpayload
      simp only [hpinned,commandFrame_unsent,orError]
      rfl
    | some e =>
      obtain rfl := tombstone_payload hpayload
      have hpinned : r.tombstone.pinned.payload = some r.payload := hpayload
      simp [hpinned,parsePayload_valid hvalid,hother,bind,Except.bind]

section Ledger

variable {d : Digests} {db : Db} {issued : List OutboxRow} {acked : List String} {r : OutboxRow}

theorem commandById_issued (h : CommandLedger d db issued acked) (hr : r ∈ issued) :
    commandById d db r.commandId = .ok (some (stored db r)) := by
  unfold commandById
  cases habove : db.aboveAck r with
  | true =>
    have hids : (db.outbox.map (·.commandId)).Nodup := by
      rw [h.outbox,List.map_map]
      exact h.ids.sublist (List.filter_sublist.map _)
    have hfind : (db.outbox.find? fun q => decide (q.commandId = r.commandId)) = some (stamp acked r) :=
      Table.find?_key_of_mem hids (h.stamp_mem hr habove)
    obtain ⟨hpayload,hidentity⟩ := (h.inserted r hr).digests
    rw [hfind,stored_above habove]
    simp [pinnedFromRow,digestsValid,commandIdentityDigestValid,stamp,hpayload,hidentity,Except.map,
      OutboxRow.pinned]
  | false =>
    have hledger : World.Ledger d ⟨db,issued,acked⟩ := h
    obtain ⟨hout,htomb⟩ := hledger.find_tombstone (h.tombstone_mem hr habove)
    have hid : r.tombstone.commandId = r.commandId := rfl
    rw [hid] at hout htomb
    rw [hout,htomb,stored_below habove]
    rfl

theorem persistAndDispatchCommand_issued (h : CommandLedger d db issued acked) (hr : r ∈ issued)
    {request : CommandRequest} (hid : request.commandId = r.commandId) (call : Call) :
    persistAndDispatchCommand d call request db =
      (repeatStoredCommand d call request db (stored db r),db) := by
  unfold persistAndDispatchCommand
  rw [hid,commandById_issued h hr]

end Ledger

/-! ### Acceptance -/

theorem startSessionWithCommand_stored {d : Digests} {now : ℕ} {sentAt : String}
    {request : Store.CommandRequest} {db db' : Db} {pinned : PinnedCommand}
    (hnone : existingCommand? db request.commandId = none)
    (h : startSessionWithCommand d now sentAt request db = .ok (pinned,db')) :
    ∃ q ∈ db'.outbox, pinned = q.pinned ∧ q.sessionId = request.sessionId ∧
      q.commandId = request.commandId ∧ q.payload.command = request.command := by
  unfold startSessionWithCommand at h
  rw [hnone] at h
  simp only [bind_eq_ok,orError_eq_ok] at h
  obtain ⟨⟨daemonId,db₁⟩,-,sequence,-,payload,hpayload,db₂,-,db₃,hinsert,h⟩ := h
  obtain ⟨-,rfl⟩ := insertCommand_some hinsert
  cases h
  refine ⟨_,List.mem_append_right _ (List.mem_singleton.mpr rfl),rfl,rfl,rfl,?_⟩
  unfold commandFrame at hpayload
  dsimp only at hpayload
  split at hpayload
  · cases hpayload
    rfl
  · cases hpayload

theorem existingCommand?_none {d : Digests} {db : Db} {commandId : String}
    (h : commandById d db commandId = .ok none) : existingCommand? db commandId = none := by
  unfold commandById at h
  unfold existingCommand?
  cases hout : db.outbox.find? fun r => decide (r.commandId = commandId) with
  | some q =>
    simp only [hout] at h
    cases hp : pinnedFromRow d q <;> simp [hp,Except.map] at h
  | none =>
    simp only [hout] at h
    simpa using h

/-- An accepted request has an issued command that answers it in the state it leaves. -/
theorem accepted_answers {d : Digests} {call : Call} {request : CommandRequest} {w : World}
    {pinned : PinnedCommand} {db₁ : Db} (h : w.Ledger d)
    (haccepted : persistAndDispatchCommand d call request w.db = (.ok pinned,db₁)) :
    ∃ w₁ : World, w₁.db = db₁ ∧ w₁.Ledger d ∧ ∃ r ∈ w₁.issued, r.commandId = request.commandId ∧
      pinnedKey pinned = pinnedKey r.pinned ∧ Answers call request db₁ r := by
  cases hby : commandById d w.db request.commandId with
  | error e => simp [persistAndDispatchCommand,hby] at haccepted
  | ok found =>
    cases found with
    | some p =>
      obtain ⟨r,hr,hid⟩ : ∃ r ∈ w.issued, r.commandId = request.commandId := by
        unfold commandById at hby
        split at hby
        · rename_i q hq
          obtain ⟨hmem,hkey⟩ := Table.find?_key hq
          obtain ⟨r,hr,-,rfl⟩ := h.mem_outbox hmem
          exact ⟨r,hr,hkey⟩
        · simp only [Except.ok.injEq,Option.map_eq_some_iff] at hby
          obtain ⟨t,ht,-⟩ := hby
          obtain ⟨hmem,hkey⟩ := Table.find?_key ht
          obtain ⟨r,hr,-,rfl⟩ := h.mem_tombstones hmem
          exact ⟨r,hr,hkey⟩
      rw [persistAndDispatchCommand_issued h hr hid.symm] at haccepted
      obtain ⟨hrep,rfl⟩ := Prod.mk.inj haccepted
      obtain ⟨rfl,hanswers⟩ := repeatStoredCommand_ok.mp hrep
      exact ⟨w,rfl,h,r,hr,hid,stored_key _ _,hanswers⟩
    | none =>
      unfold persistAndDispatchCommand at haccepted
      rw [hby] at haccepted
      dsimp only at haccepted
      split at haccepted
      · cases haccepted
      rename_i command hassembled
      split at haccepted
      · cases haccepted
      rename_i p db' hstart
      obtain ⟨hdispatch,rfl⟩ := Prod.mk.inj haccepted
      obtain ⟨q,hq,rfl,hsession,hid,hcommand⟩ :=
        startSessionWithCommand_stored (existingCommand?_none hby) hstart
      have hdb : (w.step d (.command call.now call.sentAt
          (storeRequest request call.requiredCapabilities command))).db = db' := by
        simp [World.step,Act.apply,hstart,committed]
      have h₁ : (w.step d (.command call.now call.sentAt
          (storeRequest request call.requiredCapabilities command))).Ledger d := command_ledger h
      refine ⟨_,hdb,h₁,?_⟩
      rw [← hdb] at hq
      obtain ⟨r,hr,habove,rfl⟩ := h₁.mem_outbox hq
      rw [hdb] at habove
      unfold dispatchStoredCommand at hdispatch
      rw [if_neg (by simp [OutboxRow.pinned])] at hdispatch
      obtain ⟨e,hparse,hdispatch⟩ := bind_eq_ok.mp hdispatch
      obtain ⟨_,hsend,hdispatch⟩ := bind_eq_ok.mp hdispatch
      cases hdispatch
      obtain ⟨he,hvalid⟩ := parsePayload_ok hparse
      cases he
      have hsame : sameRetryCommand request.command r.payload.command = true := by
        rw [show r.payload.command = command from hcommand]
        exact assembleSessionCommand_same hassembled
      exact ⟨r,hr,hid,rfl,hsession,hvalid,hsame,fun _ => dispatchPersistedCommand_ok.mp hsend,
        fun hbelow => by simp [habove] at hbelow⟩

/-! ### Acknowledgements and compaction -/

inductive Delivery
  | acknowledge (commandId sessionId : String) (serverCommandSeq : ℕ)
  | compact (sessionId : String)
  deriving DecidableEq, Repr

def Delivery.act : Delivery → RunAct
  | .acknowledge commandId sessionId serverCommandSeq =>
    .acknowledge commandId sessionId serverCommandSeq
  | .compact sessionId => .compact sessionId

def deliver (d : Digests) (db : Db) (deliveries : List Delivery) : Db :=
  deliveries.foldl (fun db delivery => delivery.act.apply d db) db

structure Delivered (d : Digests) (issued : List OutboxRow) (acked : List String)
    (registrations : List DaemonRegistration) (db : Db) : Prop where
  ledger : ∃ acked', CommandLedger d db issued acked' ∧ ∀ id ∈ acked, id ∈ acked'
  daemons : db.registrations = registrations

theorem Delivered.step {d : Digests} {issued : List OutboxRow} {acked : List String}
    {registrations : List DaemonRegistration} {db : Db}
    (h : Delivered d issued acked registrations db) (delivery : Delivery) :
    Delivered d issued acked registrations (delivery.act.apply d db) := by
  obtain ⟨acked',hledger,hsub⟩ := h.ledger
  cases delivery with
  | acknowledge commandId sessionId sequence =>
    simp only [Delivery.act,RunAct.apply]
    cases hack : acknowledgeCommand d commandId sessionId sequence db with
    | error e => exact h
    | ok p =>
      obtain ⟨watermark,db'⟩ := p
      refine ⟨⟨_,hledger.acknowledge hack,fun id hid => List.mem_append_left _ (hsub id hid)⟩,?_⟩
      show db'.registrations = registrations
      rw [(acknowledge_delivers hack).frame]
      exact h.daemons
  | compact sessionId =>
    simp only [Delivery.act,RunAct.apply]
    cases hs : db.session? sessionId with
    | none =>
      simp only [compactServerCommands,compactServerCommandsInTransaction,hs,orError,committed]
      exact h
    | some s =>
      simp only [compactServerCommands,hledger.compact_nothing hs,orError,committed]
      exact h

theorem Delivered.deliver {d : Digests} {issued : List OutboxRow} {acked : List String}
    {registrations : List DaemonRegistration} {db : Db}
    (h : Delivered d issued acked registrations db) (deliveries : List Delivery) :
    Delivered d issued acked registrations (deliver d db deliveries) := by
  induction deliveries generalizing db with
  | nil => exact h
  | cons delivery deliveries ih => exact ih (h.step delivery)

theorem below_after {d : Digests} {db db' : Db} {issued : List OutboxRow}
    {acked acked' : List String} (h : CommandLedger d db issued acked)
    (h' : CommandLedger d db' issued acked') (hsub : ∀ id ∈ acked, id ∈ acked') {r : OutboxRow}
    (hbelow : db.aboveAck r = false) : db'.aboveAck r = false := by
  rw [aboveAck_eq_false] at *
  refine hbelow.trans ((h'.watermark r.sessionId).2 fun n hn hle => ?_)
  obtain ⟨q,hq,hseq,hacked⟩ := (h.watermark r.sessionId).all hn hle
  exact ⟨q,hq,hseq,hsub _ hacked⟩

theorem reachable_congr {call : Call} {db db' : Db} (h : db'.registrations = db.registrations)
    (daemonId : String) : reachable call db' daemonId = reachable call db daemonId := by
  simp [reachable,Db.daemonConnected,Db.registration?,h]

/-! ### The answer to a repeat -/

/-- The request is answered by the command that the first call returned, and no table changes. -/
def Repeats (d : Digests) (call : Call) (request : CommandRequest) (pinned : PinnedCommand)
    (db : Db) : Prop :=
  ∃ again, persistAndDispatchCommand d call request db = (.ok again,db) ∧
    pinnedKey again = pinnedKey pinned

/-- Another command under the same id is refused, and no table changes. -/
def Refuses (d : Digests) (call : Call) (request : CommandRequest) (db : Db) : Prop :=
  ∀ other : CommandRequest, other.commandId = request.commandId →
    sameRetryCommand other.command request.command = false →
    persistAndDispatchCommand d call other db = (.error .invalidCommand,db)

/-- A tombstone of the command keeps its payload. -/
def PayloadKept (db : Db) (commandId : String) : Prop :=
  ∀ t ∈ db.tombstones, t.commandId = commandId → t.payload.isSome = true

/-- While the command is in the outbox, its daemon is there to take it. -/
def Deliverable (call : Call) (accepted db : Db) (pinned : PinnedCommand) : Prop :=
  ∀ q ∈ db.outbox, q.commandId = pinned.commandId → reachable call accepted pinned.daemonId = true

/-- After any acknowledgements and compactions, a repeat of an accepted request is answered
exactly when the command is still in the outbox, with its daemon there, or its tombstone
kept the payload: without the payload the frame is rebuilt without a send time, which no
valid frame is. Another command under the id is refused in all these states. -/
theorem command_retry (d : Digests) (acts : List Act) (hfresh : World.Along d FreshIds {} acts)
    (first : Call) (request : CommandRequest) (pinned : PinnedCommand) (db₁ : Db)
    (haccepted : persistAndDispatchCommand d first request (runActs d acts).db = (.ok pinned,db₁))
    (deliveries : List Delivery) (call : Call) :
    (Repeats d call request pinned (deliver d db₁ deliveries) ∧
        Refuses d call request (deliver d db₁ deliveries) ↔
      Deliverable call db₁ (deliver d db₁ deliveries) pinned ∧
        PayloadKept (deliver d db₁ deliveries) request.commandId) ∧
    Refuses d call request (deliver d db₁ deliveries) := by
  have h : (runActs d acts).Ledger d :=
    World.run_induction (fun w act hw hok => World.step_ledger hw hok) (World.ledger_empty d) hfresh
  obtain ⟨w₁,rfl,h₁,r,hr,hid,hkey,hanswers⟩ := accepted_answers h haccepted
  have hdelivered : Delivered d w₁.issued w₁.acked w₁.db.registrations (deliver d w₁.db deliveries) :=
    Delivered.deliver ⟨⟨w₁.acked,h₁,fun _ hid => hid⟩,rfl⟩ deliveries
  generalize deliver d w₁.db deliveries = db₂ at hdelivered
  obtain ⟨acked₂,h₂,hsub⟩ := hdelivered.ledger
  have hdaemon : pinned.daemonId = r.daemonId := congrArg CommandKey.daemonId hkey
  have hcommand : pinned.commandId = r.commandId := congrArg CommandKey.commandId hkey
  have hrefuses : Refuses d call request db₂ := by
    intro other hother hdiff
    rw [persistAndDispatchCommand_issued h₂ hr (hother.trans hid.symm),
      repeatStoredCommand_refused hanswers.valid]
    rw [Bool.eq_false_iff,ne_eq,sameRetryCommand_iff] at hdiff ⊢
    rwa [← sameRetryCommand_iff.mp hanswers.same]
  refine ⟨?_,hrefuses⟩
  rw [and_iff_left hrefuses]
  have hrepeats : Repeats d call request pinned db₂ ↔ Answers call request db₂ r := by
    unfold Repeats
    rw [persistAndDispatchCommand_issued h₂ hr hid.symm]
    constructor
    · rintro ⟨again,heq,-⟩
      exact (repeatStoredCommand_ok.mp (Prod.mk.inj heq).1).2
    · intro h
      exact ⟨stored db₂ r,by rw [repeatStoredCommand_ok.mpr ⟨rfl,h⟩],(stored_key _ _).trans hkey.symm⟩
  rw [hrepeats]
  have hledger : World.Ledger d ⟨db₂,w₁.issued,acked₂⟩ := h₂
  cases habove : db₂.aboveAck r with
  | true =>
    have hbefore : w₁.db.aboveAck r = true := by
      by_contra hbelow
      rw [below_after h₁ h₂ hsub (Bool.eq_false_iff.mpr hbelow)] at habove
      cases habove
    have hrow : stamp acked₂ r ∈ db₂.outbox := h₂.stamp_mem hr habove
    constructor
    · intro hans
      refine ⟨fun q _ _ => ?_,fun t ht htid => absurd (hid.trans htid.symm) (hledger.apart hrow ht)⟩
      rw [hdaemon,← reachable_congr hdelivered.daemons]
      exact (hans.sent habove).2
    · rintro ⟨hreach,-⟩
      have hhere := hreach _ hrow hcommand.symm
      rw [hdaemon,← reachable_congr hdelivered.daemons] at hhere
      exact ⟨hanswers.session,hanswers.valid,hanswers.same,
        fun _ => ⟨(hanswers.sent hbefore).1,hhere⟩,fun h => by simp [habove] at h⟩
  | false =>
    have hmem : r.tombstone ∈ db₂.tombstones := h₂.tombstone_mem hr habove
    constructor
    · intro hans
      refine ⟨fun q hq hqid => ?_,fun t ht htid => ?_⟩
      · exact absurd (hqid.trans hcommand) (hledger.apart hq hmem)
      · obtain ⟨q,hq,-,rfl⟩ := h₂.mem_tombstones ht
        rw [h₂.eq_of_commandId hq hr (htid.trans hid.symm)]
        exact hans.kept habove
    · rintro ⟨-,hkept⟩
      exact ⟨hanswers.session,hanswers.valid,hanswers.same,fun h => by simp [habove] at h,
        fun _ => hkept _ hmem hid⟩

namespace Sample

def acts : List Act :=
  [.run (.outside [{ daemonId := "daemon", connected := true, lastSeenAt := some 0
                     capabilities := some ["agent"] }] [] [] [])]

def request : CommandRequest := ⟨"c1","session",.messageSend "m1" "Hello"⟩

def call : Call where
  now := 1
  sentAt := "1"
  live := fun daemonId => if daemonId = "daemon" then some { connectionId := "w1", ready := true } else none
  repositories := []
  requiredCapabilities := ["agent"]

def accepted : Option PinnedCommand × Db :=
  let answer := persistAndDispatchCommand Store.Sample.digests call request
    (runActs Store.Sample.digests acts).db
  (answer.1.toOption,answer.2)

def pinned : PinnedCommand where
  commandId := "c1"
  sessionId := "session"
  daemonId := "daemon"
  serverCommandSeq := 1
  payload := some ⟨"c1","session",1,"1",1,.messageSend "m1" "Hello"⟩
  payloadDigest := "c1@1"
  commandIdentityDigest := "c1"
  compacted := false

theorem accepted_eq : persistAndDispatchCommand Store.Sample.digests call request
    (runActs Store.Sample.digests acts).db = (.ok pinned,accepted.2) := by
  have hpinned : persistAndDispatchCommand Store.Sample.digests call request
      (runActs Store.Sample.digests acts).db |>.1.toOption = some pinned := by decide +kernel
  unfold accepted
  cases h : persistAndDispatchCommand Store.Sample.digests call request
    (runActs Store.Sample.digests acts).db with
  | mk answer db₁ =>
    rw [h] at hpinned
    cases answer with
    | error e => cases hpinned
    | ok p =>
      cases hpinned
      rfl

end Sample

theorem command_retry_pending :
    Repeats Store.Sample.digests Sample.call Sample.request Sample.pinned Sample.accepted.2 ∧
      Refuses Store.Sample.digests Sample.call Sample.request Sample.accepted.2 :=
  (command_retry Store.Sample.digests Sample.acts (by decide +kernel) Sample.call Sample.request
    Sample.pinned Sample.accepted.2 Sample.accepted_eq [] Sample.call).1.mpr
      ⟨fun _ _ _ => by decide +kernel,by
        have hempty : Sample.accepted.2.tombstones = [] := by decide +kernel
        intro t ht
        rw [deliver,List.foldl_nil,hempty] at ht
        cases ht⟩

theorem compacted_retry_refused :
    persistAndDispatchCommand Store.Sample.digests Sample.call Sample.request
      (runActs Store.Sample.digests Sample.acts).db = (.ok Sample.pinned,Sample.accepted.2) ∧
    ¬ Repeats Store.Sample.digests Sample.call Sample.request Sample.pinned
      (deliver Store.Sample.digests Sample.accepted.2 [.acknowledge "c1" "session" 1]) := by
  refine ⟨Sample.accepted_eq,?_⟩
  rintro ⟨again,hagain,-⟩
  have hrefused : (persistAndDispatchCommand Store.Sample.digests Sample.call Sample.request
      (deliver Store.Sample.digests Sample.accepted.2 [.acknowledge "c1" "session" 1])).1.toOption =
        none := by decide +kernel
  rw [hagain] at hrefused
  cases hrefused

end Server
end North
