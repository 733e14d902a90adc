import North.Lib.Machine
import Mathlib.Data.List.Sort

/-! Sign-in by emailed code, at the level of single SQL statements. The transactions of
`issue_code` and `verify_code` run interleaved: what one writes is seen by the others when
it commits, and a row that it has locked or written is waited for until it ends. -/
namespace North
namespace EmailAuth

open Machine

abbrev Time := ℤ

def second : Time := 1000000

def verificationCodeTtl : Time := 10*60*second

def verificationCodeMaxAttempts : ℕ := 5

def codeRequestCooldown : Time := 60*second

def sessionTtl : Time := 30*24*60*60*second

/-- What the code takes from outside: HMAC-SHA256 under the server's key, and the function
of PostgreSQL that turns an email into a lock key. -/
structure Auth where
  hmac : List UInt8 → List UInt8
  hashtext : String → ℕ

def utf8 (s : String) : List UInt8 := s.toUTF8.data.toList

def toBeBytes (n value : ℕ) : List UInt8 :=
  (List.range n).map fun i => UInt8.ofNat (value / 256^(n-1-i))

def appendLenPrefixed (output value : List UInt8) : List UInt8 :=
  output ++ toBeBytes 4 value.length ++ value

def otpDigest (A : Auth) (canonicalEmail : String) (id : ℕ) (code : String) : List UInt8 :=
  let message := appendLenPrefixed (utf8 "north/otp/verification-code/v1\x00") (utf8 canonicalEmail)
  A.hmac (appendLenPrefixed (message ++ toBeBytes 8 id) (utf8 code))

inductive Role
  | owner | admin | requirementManager | requester
  deriving DecidableEq, Repr

def i32Max : ℕ := 2^31-1

structure CodeRow where
  id : ℕ
  email : String
  codeHash : List UInt8
  createdAt : Time
  expiresAt : Time
  usedAt : Option Time := none
  failedAttempts : ℕ := 0
  deriving DecidableEq

structure User where
  id : String
  email : String
  role : Role := .requester
  deriving DecidableEq

structure Session where
  userId : String
  expiresAt : Time
  deriving DecidableEq

/-- Where a transaction stands: what its statements have read and written so far. -/
inductive Phase
  | issueBegun
  | issueLocked
  | issueChecked
  /-- The `UPDATE` has these rows of its snapshot before it, and has marked those. -/
  | superseding (todo held : List ℕ)
  | inserted (held : List ℕ) (row : CodeRow)
  | verifyBegun
  /-- The `SELECT .. FOR UPDATE` has these rows of its snapshot before it. -/
  | choosing (todo : List ℕ)
  | mismatched (row : CodeRow)
  | matched (row : CodeRow)
  | consumed (row : CodeRow)
  | signedIn (row : CodeRow) (user : User) (fresh : Bool)
  | ownerAsked (row : CodeRow) (user : User) (fresh ownerClaimed : Bool)
  deriving DecidableEq

/-- An open transaction with its clock reading and its arguments. -/
structure Txn where
  id : ℕ
  now : Time
  email : String
  code : String
  phase : Phase
  deriving DecidableEq

namespace Txn

/-- The code rows that the transaction has locked. -/
def rows (x : Txn) : List ℕ :=
  match x.phase with
  | .superseding _ held => held
  | .inserted held _ => held
  | .mismatched row => [row.id]
  | .matched row => [row.id]
  | .consumed row => [row.id]
  | .signedIn row _ _ => [row.id]
  | .ownerAsked row _ _ _ => [row.id]
  | _ => []

/-- The advisory lock of its email is held. -/
def advisory (x : Txn) : Bool :=
  match x.phase with
  | .issueLocked => true
  | .issueChecked => true
  | .superseding _ _ => true
  | .inserted _ _ => true
  | _ => false

/-- The user whose row it has written or locked. -/
def user? (x : Txn) : Option User :=
  match x.phase with
  | .signedIn _ user _ => some user
  | .ownerAsked _ user _ _ => some user
  | _ => none

/-- It has written the owner into the settings row. -/
def ownerClaimed (x : Txn) : Bool :=
  match x.phase with
  | .ownerAsked _ _ _ claimed => claimed
  | _ => false

/-- It belongs to `verify_code`. -/
def verifies (x : Txn) : Bool :=
  match x.phase with
  | .issueBegun => false
  | .issueLocked => false
  | .issueChecked => false
  | .superseding _ _ => false
  | .inserted _ _ => false
  | _ => true

/-- The row that `verify_code` selects: an unused code of the email that has not expired. -/
def selects (x : Txn) (r : CodeRow) : Bool :=
  r.email == x.email && r.usedAt.isNone && decide (x.now < r.expiresAt)

end Txn

/-- A code that was issued, an attempt on a code row that was refused, and one that succeeded. -/
structure Issued where
  rowId : ℕ
  email : String
  code : String
  now : Time

structure Refusal where
  rowId : ℕ
  code : String

structure Success where
  rowId : ℕ
  email : String
  code : String
  now : Time

/-- The committed tables, the open transactions, and a record of what was answered. -/
structure World where
  codes : List CodeRow := []
  users : List User := []
  sessions : List Session := []
  ownerUserId : Option String := none
  nextId : ℕ := 1
  opens : List Txn := []
  issued : List Issued := []
  refusals : List Refusal := []
  successes : List Success := []
  owners : List String := []

namespace World

variable (A : Auth) (w : World) (o : Txn)

def others : List Txn := w.opens.filter fun x => decide (x.id ≠ o.id)

def put (phase : Phase) : World := { w with opens := { o with phase }::w.others o }

def close : World := { w with opens := w.others o }

/-- Another transaction has locked the code row. -/
def rowLocked (id : ℕ) : Bool := (w.others o).any fun x => x.rows.contains id

def active (id : ℕ) : Bool := w.codes.any fun r => decide (r.id = id) && r.usedAt.isNone

def recentlyRequested : Bool :=
  w.codes.any fun r => r.email == o.email && decide (o.now-codeRequestCooldown < r.createdAt)

def newRow : CodeRow where
  id := w.nextId
  email := o.email
  codeHash := otpDigest A o.email w.nextId o.code
  createdAt := o.now
  expiresAt := o.now+verificationCodeTtl

/-- The unique index on the active codes refuses the new row. -/
def activeConflict (held : List ℕ) : Bool :=
  w.codes.any fun r => r.email == o.email && r.usedAt.isNone && !held.contains r.id

def markUsed (now : Time) (held : List ℕ) : List CodeRow :=
  w.codes.map fun r => if held.contains r.id then { r with usedAt := some now } else r

def commitIssue (held : List ℕ) (row : CodeRow) : World :=
  { w.close o with
    codes := w.markUsed o.now held ++ [row]
    issued := ⟨row.id,o.email,o.code,o.now⟩::w.issued }

/-- The rows of the snapshot, the newest first. -/
def candidates : List ℕ :=
  ((w.codes.filter o.selects).insertionSort fun a b => b.createdAt ≤ a.createdAt).map (·.id)

/-- A failed attempt is counted, and the last one uses the code up. -/
def refused (row : CodeRow) (r : CodeRow) : CodeRow :=
  let failedAttempts := saturatingSucc i32Max row.failedAttempts
  if r.id = row.id ∧ r.usedAt = none then
    { r with
      failedAttempts := failedAttempts
      usedAt := if verificationCodeMaxAttempts ≤ failedAttempts then some o.now else r.usedAt }
  else r

def commitRefusal (row : CodeRow) : World :=
  { w.close o with
    codes := w.codes.map (refused o row)
    refusals := ⟨row.id,o.code⟩::w.refusals }

def userLocked (email userId : String) : Bool :=
  (w.others o).any fun x => x.user?.any fun u => u.email == email || u.id == userId

/-- The user of the email; a new one is inserted under a random id. -/
def signIn (row : CodeRow) (userId : String) : Option World :=
  if w.userLocked o o.email userId then none
  else match w.users.find? (fun u => decide (u.email = o.email)) with
    | some user => some (w.put o (.signedIn row user false))
    | none =>
      if w.users.any (fun u => decide (u.id = userId)) then some (w.close o)
      else some (w.put o (.signedIn row ⟨userId,o.email,.requester⟩ true))

def commitSuccess (row : CodeRow) (user : User) (fresh ownerClaimed : Bool) : World :=
  let users := if fresh then w.users ++ [user] else w.users
  { w.close o with
    codes := w.markUsed o.now [row.id]
    users := if ownerClaimed then users.map fun u => if u.id = user.id then { u with role := .owner } else u
      else users
    sessions := w.sessions ++ [⟨user.id,o.now+sessionTtl⟩]
    ownerUserId := if ownerClaimed then some user.id else w.ownerUserId
    successes := ⟨row.id,o.email,o.code,o.now⟩::w.successes
    owners := if ownerClaimed then user.id::w.owners else w.owners }

/-- The next statement of a transaction; `none` while it waits for a lock. The user id is
the one drawn at random should the statement need it. -/
def advance (userId : String) : Option World :=
  match o.phase with
  | .issueBegun =>
    if (w.others o).any (fun x => x.advisory && A.hashtext x.email == A.hashtext o.email) then none
    else some (w.put o .issueLocked)
  | .issueLocked => some (if w.recentlyRequested o then w.close o else w.put o .issueChecked)
  | .issueChecked =>
    let todo := (w.codes.filter fun r => r.email == o.email && r.usedAt.isNone).map (·.id)
    some (w.put o (.superseding todo []))
  | .superseding (id::todo) held =>
    if w.rowLocked o id then none
    else some (w.put o (.superseding todo (if w.active id then id::held else held)))
  | .superseding [] held =>
    -- the sequence moves on even when the insert is refused
    let next := { w with nextId := w.nextId+1 }
    some (if w.activeConflict o held then next.close o else next.put o (.inserted held (w.newRow A o)))
  | .inserted held row => some (w.commitIssue o held row)
  | .verifyBegun => some (w.put o (.choosing (w.candidates o)))
  | .choosing [] => some (w.close o)
  | .choosing (id::todo) =>
    if w.rowLocked o id then none
    else match w.codes.find? (fun r => decide (r.id = id) && o.selects r) with
      | none => some (w.put o (.choosing todo))
      | some row =>
        if row.codeHash = otpDigest A row.email row.id o.code then some (w.put o (.matched row))
        else some (w.put o (.mismatched row))
  | .mismatched row => some (w.commitRefusal o row)
  | .matched row => some (if w.active row.id then w.put o (.consumed row) else w.close o)
  | .consumed row => w.signIn o row userId
  | .signedIn row user fresh =>
    if (w.others o).any (·.ownerClaimed) then none
    else some (w.put o (.ownerAsked row user fresh w.ownerUserId.isNone))
  | .ownerAsked row user fresh ownerClaimed => some (w.commitSuccess o row user fresh ownerClaimed)

end World

inductive Act
  | issueCode (txn : ℕ) (now : Time) (email code : String)
  | verifyCode (txn : ℕ) (now : Time) (email code : String)
  | advance (txn : ℕ) (userId : String)
  /-- A lost connection, or an error of the database at any point. -/
  | rollback (txn : ℕ)
  deriving DecidableEq

def World.txn? (w : World) (txn : ℕ) : Option Txn := w.opens.find? fun o => decide (o.id = txn)

def World.start (w : World) (o : Txn) : Option World :=
  if (w.txn? o.id).isSome then none else some { w with opens := o::w.opens }

/-- `none` when the act cannot be taken now. -/
def World.step (A : Auth) (w : World) : Act → Option World
  | .issueCode txn now email code => w.start ⟨txn,now,email,code,.issueBegun⟩
  | .verifyCode txn now email code => w.start ⟨txn,now,email,code,.verifyBegun⟩
  | .advance txn userId => (w.txn? txn).bind fun o => w.advance A o userId
  | .rollback txn => (w.txn? txn).map w.close

def World.run (A : Auth) : World → List Act → Option World
  | w, [] => some w
  | w, act::acts => (w.step A act).bind fun w' => w'.run A acts

end EmailAuth
end North
