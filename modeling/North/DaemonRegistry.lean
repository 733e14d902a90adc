import North.Lib.Steps
import North.Lib.Text
import Mathlib.Data.List.Sort

/-! Setup and registration of daemons, at the level of the statements that others can
notice. A transaction is open from its first statement on, keeps the row or the advisory
lock that it has taken, and writes all it writes when it commits. -/
namespace North
namespace DaemonRegistry

/-- Time in microseconds, as PostgreSQL keeps it. -/
abbrev Time := ℤ

def second : Time := 1000000

def daemonSetupTtl : Time := 10*60*second

def daemonSetupRetention : Time := 24*60*60*second

def daemonSetupCleanupBatchSize : ℕ := 100

def daemonSetupPendingLimit : ℕ := 3

/-- What the code takes from outside: SHA-256 in `hash_secret`, and the function of
PostgreSQL that turns a network key into a lock key. -/
structure Secrets where
  hashSecret : String → String
  hashtextextended : String → ℕ

structure SetupRow where
  /-- The number of the insert that made the row; the table has no such column. -/
  serial : ℕ
  id : String
  requestTokenHash : String
  label : String
  /-- Canonical text, so that equal networks are equal keys. -/
  clientNetworkKey : String
  createdAt : Time
  expiresAt : Time
  createdBy : Option String := none
  approvedAt : Option Time := none
  claimedAt : Option Time := none
  daemonId : Option String := none
  deriving DecidableEq, Repr

structure Registration where
  daemonId : String
  credentialHash : String
  label : String
  createdBy : String
  createdAt : Time
  revokedAt : Option Time := none
  lastSeenAt : Option Time := none
  connectedAt : Option Time := none
  connectionId : Option String := none
  protocolVersion : String := "0.1"
  capabilities : List String := []
  /-- The serial of the setup request that it came from; the table has no such column. -/
  request : ℕ
  deriving DecidableEq, Repr

structure Hello where
  daemonId : String
  credential : String
  protocolVersion : String
  capabilities : List String
  deriving DecidableEq, Repr

structure Approval where
  serial : ℕ
  userId : String
  approvedAt : Time
  deriving DecidableEq, Repr

/-- A `connect_daemon` or `touch_daemon` that answered `Ok`. -/
inductive Answer
  | connected (daemonId connectionId : String)
  | touched (daemonId connectionId : String)
  deriving DecidableEq, Repr

def Answer.daemonId : Answer → String
  | .connected daemonId _ => daemonId
  | .touched daemonId _ => daemonId

/-- The committed tables, and a record of what was inserted, approved and answered. -/
structure Tables where
  requests : List SetupRow := []
  registrations : List Registration := []
  users : List String := []
  created : List SetupRow := []
  approvals : List Approval := []
  answers : List Answer := []
  deriving DecidableEq, Repr

/-- What an open cleanup goes on with: `create_daemon_setup_request` and
`claim_daemon_setup_request` clean up first. -/
inductive Job
  | cleanup
  | create (label clientNetworkKey : String)
  | claim (requestToken : String)
  deriving DecidableEq, Repr

/-- Where an open transaction stands. -/
inductive Phase
  /-- The `DELETE` has selected these rows. -/
  | cleaning (ids : List String) (next : Job)
  | createBegun (label key : String)
  | createLocked (label key : String)
  | createCounted (label key : String)
  | claimBegun (requestToken : String)
  | claimLocked (row : SetupRow) (createdBy : String)
  | connectBegun (hello : Hello)
  | connectLocked (hello : Hello)
  | revokeBegun (daemonId : String)
  | revokeLocked (daemonId : String)
  deriving DecidableEq, Repr

/-- What the caller of the cleanup begins after it. -/
def Job.begun : Job → Option Phase
  | .cleanup => none
  | .create label key => some (.createBegun label key)
  | .claim requestToken => some (.claimBegun requestToken)

/-- `now` is `CURRENT_TIMESTAMP`, the start of the transaction. -/
structure Txn where
  id : ℕ
  now : Time
  phase : Phase
  deriving DecidableEq, Repr

namespace Txn

/-- The setup request whose row it has locked. -/
def setup? (x : Txn) : Option String :=
  match x.phase with
  | .claimLocked row _ => some row.id
  | _ => none

/-- The daemon whose row it has locked. -/
def daemon? (x : Txn) : Option String :=
  match x.phase with
  | .connectLocked hello => some hello.daemonId
  | .revokeLocked daemonId => some daemonId
  | _ => none

/-- The network key whose advisory lock it has taken. -/
def key? (x : Txn) : Option String :=
  match x.phase with
  | .createLocked _ key => some key
  | .createCounted _ key => some key
  | _ => none

end Txn

structure World where
  tables : Tables := {}
  opens : List Txn := []
  deriving DecidableEq, Repr

/-- The random values that a statement draws. -/
structure Draw where
  id : String
  secret : String
  deriving DecidableEq, Repr

/-- `btrim` of PostgreSQL takes blanks off, and nothing else. -/
def btrim (s : String) : List Char :=
  ((s.toList.dropWhile (· == ' ')).reverse.dropWhile (· == ' ')).reverse

/-- The check on the label column. -/
def labelAllowed (label : String) : Bool :=
  decide (1 ≤ (btrim label).length) && decide ((btrim label).length ≤ 100)

/-- The row counts as pending for its network at this time. -/
def SetupRow.pending (key : String) (now : Time) (r : SetupRow) : Bool :=
  r.clientNetworkKey == key && r.claimedAt.isNone && decide (now < r.expiresAt)

namespace Tables

variable (S : Secrets) (t : Tables)

/-- The rows that `cleanup_expired_daemon_setup_requests` selects. -/
def cleanupBatch (now : Time) : List String :=
  (((t.requests.filter fun r => decide (r.expiresAt < now-daemonSetupRetention)).insertionSort
    fun a b => a.expiresAt ≤ b.expiresAt).take daemonSetupCleanupBatchSize).map (·.id)

def delete (ids : List String) : Tables :=
  { t with requests := t.requests.filter fun r => !ids.contains r.id }

def newRequest (label key : String) (now : Time) (draw : Draw) : SetupRow where
  serial := t.created.length
  id := draw.id
  requestTokenHash := S.hashSecret draw.secret
  label := label
  clientNetworkKey := key
  createdAt := now
  expiresAt := now+daemonSetupTtl

/-- The constraints of the table let the row in. -/
def admitsRequest (row : SetupRow) : Bool :=
  labelAllowed row.label &&
    t.requests.all fun r => r.id != row.id && r.requestTokenHash != row.requestTokenHash

def insertRequest (row : SetupRow) : Tables :=
  { t with
    requests := t.requests ++ [row]
    created := t.created ++ [row] }

/-- The row that the `UPDATE` of an approval finds. -/
def approvable (tokenHash : String) (now : Time) : Option SetupRow :=
  t.requests.find? fun r => r.requestTokenHash == tokenHash && decide (now < r.expiresAt) &&
    r.approvedAt.isNone && r.claimedAt.isNone

def approve (row : SetupRow) (userId : String) (now : Time) : Tables :=
  { t with
    requests := t.requests.map fun r =>
      if r.id = row.id then { r with createdBy := some userId, approvedAt := some now } else r
    approvals := ⟨row.serial,userId,now⟩::t.approvals }

def newRegistration (row : SetupRow) (createdBy : String) (now : Time) (draw : Draw) : Registration where
  daemonId := draw.id
  credentialHash := S.hashSecret draw.secret
  label := row.label
  createdBy := createdBy
  createdAt := now
  request := row.serial

def admitsRegistration (g : Registration) : Bool :=
  labelAllowed g.label && t.users.contains g.createdBy &&
    t.registrations.all fun x => x.daemonId != g.daemonId && x.credentialHash != g.credentialHash

def claim (row : SetupRow) (g : Registration) : Tables :=
  { t with
    registrations := t.registrations ++ [g]
    requests := t.requests.map fun r =>
      if r.requestTokenHash = row.requestTokenHash then
        { r with claimedAt := some g.createdAt, daemonId := some g.daemonId } else r }

def updateDaemon (p : Registration → Bool) (f : Registration → Registration) : Tables :=
  { t with registrations := t.registrations.map fun g => if p g then f g else g }

/-- The constraints of the table let the connection in. -/
def admitsConnection (hello : Hello) (connectionId : String) : Bool :=
  !(btrim hello.protocolVersion).isEmpty &&
    t.registrations.all fun g => g.connectionId != some connectionId || g.daemonId == hello.daemonId

def lease (hello : Hello) (connectionId : String) (now : Time) (g : Registration) : Registration :=
  { g with
    protocolVersion := hello.protocolVersion
    capabilities := hello.capabilities
    connectedAt := some now
    lastSeenAt := some now
    connectionId := some connectionId }

def connect (hello : Hello) (connectionId : String) (now : Time) : Tables :=
  { t.updateDaemon (fun g => g.daemonId == hello.daemonId && g.revokedAt.isNone)
      (lease hello connectionId now) with
    answers := .connected hello.daemonId connectionId::t.answers }

def leased (daemonId connectionId : String) (g : Registration) : Bool :=
  g.daemonId == daemonId && g.connectionId == some connectionId

def touch (daemonId connectionId : String) (now : Time) : Tables :=
  let p := fun g => leased daemonId connectionId g && g.revokedAt.isNone
  let t' := t.updateDaemon p fun g => { g with lastSeenAt := some now }
  if t.registrations.countP p = 1 then { t' with answers := .touched daemonId connectionId::t.answers }
  else t'

def release (g : Registration) : Registration := { g with connectedAt := none, connectionId := none }

def disconnect (daemonId connectionId : String) : Tables :=
  t.updateDaemon (leased daemonId connectionId) release

/-- The daemon revoked, at the earlier time if it was revoked before. -/
def withdraw (now : Time) (g : Registration) : Registration :=
  { release g with revokedAt := some (g.revokedAt.getD now) }

def revoke (daemonId : String) (now : Time) : Tables :=
  t.updateDaemon (fun g => g.daemonId == daemonId) (withdraw now)

end Tables

namespace World

variable (S : Secrets) (w : World) (o : Txn)

def others : List Txn := w.opens.filter fun x => decide (x.id ≠ o.id)

/-- The transaction goes on. -/
def put (o : Txn) : World := { w with opens := o::w.others o }

def finish (t : Tables) : World := ⟨t,w.others o⟩

def close : World := w.finish o w.tables

/-- Another transaction has locked the row of the setup request, or the one of the daemon. -/
def setupLocked (id : String) : Bool := (w.others o).any fun x => x.setup? == some id

def daemonLocked (daemonId : String) : Bool := (w.others o).any fun x => x.daemon? == some daemonId

def keyLocked (key : String) : Bool :=
  (w.others o).any fun x => x.key?.any fun k => S.hashtextextended k == S.hashtextextended key

/-- The `DELETE` takes effect, and the caller goes on in a transaction of its own. -/
def cleaned (ids : List String) (next : Job) (now : Time) : Option World :=
  if w.tables.requests.any (fun r => ids.contains r.id && w.setupLocked o r.id) then none
  else
    let w' : World := ⟨w.tables.delete ids,w.opens⟩
    match next.begun with
    | none => some (w'.close o)
    | some phase => some (w'.put ⟨o.id,now,phase⟩)

def countPending (label key : String) : World :=
  if daemonSetupPendingLimit ≤ w.tables.requests.countP (·.pending key o.now) then w.close o
  else w.put { o with phase := .createCounted label key }

def commitCreate (label key : String) (draw : Draw) : World :=
  let row := w.tables.newRequest S label key o.now draw
  if w.tables.admitsRequest row then w.finish o (w.tables.insertRequest row) else w.close o

/-- `SELECT .. FOR UPDATE` of a claim, and the tests on the row. -/
def lockRequest (requestToken : String) : Option World :=
  match w.tables.requests.find? (fun r => r.requestTokenHash == S.hashSecret requestToken) with
  | none => some (w.close o)
  | some row =>
    if w.setupLocked o row.id then none
    else if row.claimedAt.isSome then some (w.close o)
    else if row.expiresAt ≤ o.now then some (w.close o)
    else if row.approvedAt.isNone then some (w.close o)
    else match row.createdBy with
      | none => some (w.close o)
      | some createdBy => some (w.put { o with phase := .claimLocked row createdBy })

def commitClaim (row : SetupRow) (createdBy : String) (draw : Draw) : World :=
  let g := Tables.newRegistration S row createdBy o.now draw
  if w.tables.admitsRegistration g then w.finish o (w.tables.claim row g) else w.close o

/-- `SELECT .. FOR UPDATE` of a daemon; the transaction goes on in `phase` if `test` lets it. -/
def lockDaemon (daemonId : String) (test : Registration → Bool) (phase : Phase) : Option World :=
  match w.tables.registrations.find? (fun g => g.daemonId == daemonId) with
  | none => some (w.close o)
  | some g =>
    if w.daemonLocked o daemonId then none
    else if test g then some (w.put { o with phase })
    else some (w.close o)

def commitConnect (hello : Hello) (connectionId : String) : World :=
  if w.tables.admitsConnection hello connectionId then
    w.finish o (w.tables.connect hello connectionId o.now)
  else w.close o

/-- The next statement of a transaction; `none` while it waits for a lock. The clock is
read and the random values are drawn should the statement need them. -/
def advance (now : Time) (draw : Draw) : Option World :=
  match o.phase with
  | .cleaning ids next => w.cleaned o ids next now
  | .createBegun label key =>
    if w.keyLocked S o key then none else some (w.put { o with phase := .createLocked label key })
  | .createLocked label key => some (w.countPending o label key)
  | .createCounted label key => some (w.commitCreate S o label key draw)
  | .claimBegun requestToken => w.lockRequest S o requestToken
  | .claimLocked row createdBy => some (w.commitClaim S o row createdBy draw)
  | .connectBegun hello =>
    w.lockDaemon o hello.daemonId
      (fun g => g.revokedAt.isNone && g.credentialHash == S.hashSecret hello.credential)
      (.connectLocked hello)
  | .connectLocked hello => some (w.commitConnect o hello draw.id)
  | .revokeBegun daemonId => w.lockDaemon o daemonId (fun _ => true) (.revokeLocked daemonId)
  | .revokeLocked daemonId => some (w.finish o (w.tables.revoke daemonId o.now))

def txn? (txn : ℕ) : Option Txn := w.opens.find? fun o => decide (o.id = txn)

def start : Option World :=
  if (w.txn? o.id).isSome then none else some { w with opens := o::w.opens }

def startJob (txn : ℕ) (now : Time) (job : Job) : Option World :=
  match job with
  | .create _ key =>
    if Text.blank key then none else w.start ⟨txn,now,.cleaning (w.tables.cleanupBatch now) job⟩
  | _ => w.start ⟨txn,now,.cleaning (w.tables.cleanupBatch now) job⟩

/-- `UPDATE` of an approval; the user must exist, and a locked row is waited for. -/
def approve (requestToken userId : String) (now : Time) : Option World :=
  match w.tables.approvable (S.hashSecret requestToken) now with
  | none => some w
  | some row =>
    if w.opens.any fun x => x.setup? == some row.id then none
    else if w.tables.users.contains userId then some { w with tables := w.tables.approve row userId now }
    else some w

/-- The row of the lease exists and is locked. -/
def leaseLocked (daemonId connectionId : String) : Bool :=
  w.tables.registrations.any (Tables.leased daemonId connectionId) &&
    w.opens.any fun x => x.daemon? == some daemonId

end World

inductive Act
  | start (txn : ℕ) (now : Time) (job : Job)
  | connect (txn : ℕ) (now : Time) (hello : Hello)
  | revoke (txn : ℕ) (now : Time) (daemonId : String)
  | advance (txn : ℕ) (now : Time) (draw : Draw)
  /-- A lost connection, or an error of the database at any point. -/
  | rollback (txn : ℕ)
  | approve (requestToken userId : String) (now : Time)
  | touch (daemonId connectionId : String) (now : Time)
  | disconnect (daemonId connectionId : String)
  deriving DecidableEq, Repr

/-- `none` when the act cannot be taken now. -/
def World.step (S : Secrets) (w : World) : Act → Option World
  | .start txn now job => w.startJob txn now job
  | .connect txn now hello => w.start ⟨txn,now,.connectBegun hello⟩
  | .revoke txn now daemonId => w.start ⟨txn,now,.revokeBegun daemonId⟩
  | .advance txn now draw => (w.txn? txn).bind fun o => w.advance S o now draw
  | .rollback txn => (w.txn? txn).map w.close
  | .approve requestToken userId now => w.approve S requestToken userId now
  | .touch daemonId connectionId now =>
    if w.leaseLocked daemonId connectionId then none
    else some { w with tables := w.tables.touch daemonId connectionId now }
  | .disconnect daemonId connectionId =>
    if w.leaseLocked daemonId connectionId then none
    else some { w with tables := w.tables.disconnect daemonId connectionId }

abbrev World.run (S : Secrets) : World → List Act → Option World := Steps.run (World.step S)

end DaemonRegistry
end North
