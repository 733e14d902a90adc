import North.EmailAuth

/-! Who may do what: the roles, the guards of the server's routes and the tables behind them.
A sign-in runs statement by statement as before; logouts and changes of a role come in between,
each with a statement of its own for every query that its handler makes. -/
namespace North
namespace Access

open EmailAuth

/-! ### Roles and guards -/

def canReview : Role → Bool
  | .owner => true
  | .admin => true
  | .requirementManager => true
  | .requester => false

def canAdminister : Role → Bool
  | .owner => true
  | .admin => true
  | _ => false

inductive RoleError
  | notAuthorized
  | ownerGrantRequiresOwner
  | selfModification
  deriving DecidableEq, Repr

def assignRole (actor : Role) (actorIsTarget : Bool) (newRole : Role) : Except RoleError Unit :=
  if actorIsTarget then .error .selfModification
  else match actor with
    | .owner => .ok ()
    | .admin => if newRole ≠ .owner then .ok () else .error .ownerGrantRequiresOwner
    | _ => .error .notAuthorized

inductive RoleHttpError
  | permissionDenied
  | selfModification
  | ownerGrantRequiresOwner
  | notAuthorized
  | invalidRole
  | userNotFound
  | internal
  deriving DecidableEq, Repr

namespace RoleHttpError

def status : RoleHttpError → ℕ
  | .selfModification => 400
  | .invalidRole => 400
  | .permissionDenied => 403
  | .ownerGrantRequiresOwner => 403
  | .notAuthorized => 403
  | .userNotFound => 404
  | .internal => 500

def code : RoleHttpError → String
  | .permissionDenied => "permission_denied"
  | .selfModification => "self_modification"
  | .ownerGrantRequiresOwner => "owner_grant_requires_owner"
  | .notAuthorized => "not_authorized"
  | .invalidRole => "invalid_role"
  | .userNotFound => "user_not_found"
  | .internal => "internal_error"

def ofRoleError : RoleError → RoleHttpError
  | .selfModification => .selfModification
  | .ownerGrantRequiresOwner => .ownerGrantRequiresOwner
  | .notAuthorized => .notAuthorized

end RoleHttpError

/-- A guard passes or denies the permission. -/
def permitted (allowed : Bool) : Except RoleHttpError Unit :=
  if allowed then .ok () else .error .permissionDenied

def requireReview (user : User) : Except RoleHttpError Unit := permitted (canReview user.role)

def requireAdmin (user : User) : Except RoleHttpError Unit := permitted (canAdminister user.role)

def authorizeRoleAssignment (actor : User) (targetId : String) (newRole : Role) : Except RoleHttpError Unit := do
  requireAdmin actor
  (assignRole actor.role (actor.id == targetId) newRole).mapError RoleHttpError.ofRoleError

/-- Also what the role column of the table holds. -/
def roleName : Role → String
  | .owner => "Owner"
  | .admin => "Admin"
  | .requirementManager => "RequirementManager"
  | .requester => "Requester"

def parseRole (value : String) : Except RoleHttpError Role :=
  if value = "Owner" then .ok .owner
  else if value = "Admin" then .ok .admin
  else if value = "RequirementManager" then .ok .requirementManager
  else if value = "Requester" then .ok .requester
  else .error .invalidRole

theorem parseRole_eq_ok {value : String} {role : Role} : parseRole value = .ok role ↔ value = roleName role := by
  unfold parseRole
  constructor
  · intro h
    split_ifs at h with h₁ h₂ h₃ h₄ <;> cases h
    · exact h₁
    · exact h₂
    · exact h₃
    · exact h₄
  · rintro rfl
    cases role <;> rfl

/-- What `assign_user_role` checks before it looks at its target. -/
def checkAssignment (actor : User) (targetId role : String) : Except RoleHttpError Role := do
  requireAdmin actor
  let newRole ← parseRole role
  authorizeRoleAssignment actor targetId newRole
  pure newRole

/-- Whom the domain lets give which role to whom. -/
structure MayAssign (actor : User) (targetId : String) (role : Role) : Prop where
  other : actor.id ≠ targetId
  administers : canAdminister actor.role = true
  owner : role = .owner → actor.role = .owner

theorem checkAssignment_eq_ok {actor : User} {targetId text : String} {role : Role} :
    checkAssignment actor targetId text = .ok role ↔ text = roleName role ∧ MayAssign actor targetId role := by
  rw [← parseRole_eq_ok]
  constructor
  · intro h
    simp only [checkAssignment,authorizeRoleAssignment,requireAdmin,permitted,assignRole,bind,Except.bind] at h
    cases hrole : actor.role <;> simp only [hrole,canAdminister] at h
    · cases hparse : parseRole text with
      | error e => simp [hparse] at h
      | ok parsed =>
        simp only [hparse,if_true] at h
        split_ifs at h with hself <;> simp [Except.mapError,pure,Except.pure] at h
        subst h
        exact ⟨rfl,by simpa using hself,by simp [hrole,canAdminister],fun _ => hrole⟩
    · cases hparse : parseRole text with
      | error e => simp [hparse] at h
      | ok parsed =>
        simp only [hparse,if_true] at h
        split_ifs at h with hself howner <;> simp [Except.mapError,pure,Except.pure] at h
        subst h
        exact ⟨rfl,by simpa using hself,by simp [hrole,canAdminister],fun heq => absurd heq howner⟩
    · simp at h
    · simp at h
  · rintro ⟨hparse,hother,hadministers,howner⟩
    have hself : (actor.id == targetId) = false := by simpa using hother
    simp only [checkAssignment,authorizeRoleAssignment,requireAdmin,permitted,hadministers,hparse,assignRole,hself,
      bind,Except.bind]
    cases hrole : actor.role with
    | owner => rfl
    | admin =>
      have hne : role ≠ .owner := fun heq => by simp [hrole] at howner; exact howner heq
      simp [hne,Except.mapError,pure,Except.pure]
    | requirementManager => simp [hrole,canAdminister] at hadministers
    | requester => simp [hrole,canAdminister] at hadministers

/-! ### The server -/

/-- What the code takes from outside: the keyed codes, and SHA-256. -/
structure Secrets where
  auth : Auth
  sha256 : List UInt8 → List UInt8

def Secrets.hashSecret (K : Secrets) (token : String) : List UInt8 := K.sha256 (utf8 token)

/-- The columns of a session row that the sign-in of the codes leaves out. -/
structure Token where
  tokenHash : List UInt8
  invalidatedAt : Option Time := none
  deriving DecidableEq

/-- Whom the middleware has let in, when, and by which token. -/
structure Caller where
  user : User
  tokenHash : List UInt8
  now : Time
  deriving DecidableEq

inductive Guard
  | review
  | administer
  deriving DecidableEq, Repr

def Guard.check : Guard → User → Except RoleHttpError Unit
  | .review => requireReview
  | .administer => requireAdmin

/-- A handler between two of its statements. -/
inductive Work
  | assign (targetId : String) (role : Role) (located : Bool)
  | logout
  deriving DecidableEq

structure Pending where
  id : ℕ
  caller : Caller
  work : Work
  deriving DecidableEq

/-- What has happened, for the record. -/
inductive Event
  | signedIn (userId : String) (tokenHash : List UInt8) (expiresAt : Time) (founder : Bool)
  | loggedOut (tokenHash : List UInt8)
  | admitted (guard : Guard) (caller : Caller)
  | assigned (caller : Caller) (targetId : String) (role : Role)
  deriving DecidableEq

/-- The tables, the open requests, and the record with the latest event first. The row of a
session is in two parts under one index. -/
structure Server where
  auth : World := {}
  tokens : List Token := []
  pending : List Pending := []
  log : List Event := []

namespace Server

variable (K : Secrets) (s : Server)

def sessionRows : List (Session × Token) := s.auth.sessions.zip s.tokens

/-- The session that a token opens now. -/
def sessionFor (token : String) (now : Time) : Option (Session × Token) :=
  s.sessionRows.find? fun row => decide (row.2.tokenHash = K.hashSecret token) && row.2.invalidatedAt.isNone &&
    decide (now < row.1.expiresAt)

def userById (userId : String) : Option User := s.auth.users.find? fun u => decide (u.id = userId)

def userForSession (token : String) (now : Time) : Option User :=
  (s.sessionFor K token now).bind fun row => s.userById row.1.userId

/-- `auth_middleware`. -/
def caller? (token : String) (now : Time) : Option Caller :=
  (s.userForSession K token now).map fun user => ⟨user,K.hashSecret token,now⟩

/-- An open sign-in has locked the row of the user. -/
def userLocked (userId : String) : Bool := s.auth.opens.any fun x => x.user?.any fun u => u.id == userId

def updateUserRole (userId : String) (role : Role) : World :=
  { s.auth with users := s.auth.users.map fun u => if u.id = userId then { u with role } else u }

def invalidateSession (tokenHash : List UInt8) (now : Time) : List Token :=
  s.tokens.map fun t =>
    if t.tokenHash = tokenHash ∧ t.invalidatedAt = none then { t with invalidatedAt := some now } else t

def others (p : Pending) : List Pending := s.pending.filter fun q => decide (q.id ≠ p.id)

/-- The answer of a request is on its way. -/
def answered (p : Pending) : Server := { s with pending := s.others p }

/-- A request gets as far as its first statement behind the middleware. -/
def enqueue (p : Pending) : Option Server :=
  if s.pending.any fun q => decide (q.id = p.id) then none else some { s with pending := p::s.pending }

end Server

def txnOf : Act → ℕ
  | .issueCode txn _ _ _ => txn
  | .verifyCode txn _ _ _ => txn
  | .advance txn _ => txn
  | .rollback txn => txn

inductive Move
  /-- A statement of a sign-in, and the token drawn at random should a session come of it. -/
  | signIn (act : Act) (token : String)
  /-- A request to a route with a guard. -/
  | enter (guard : Guard) (token : String) (now : Time)
  /-- `PATCH /users/{user_id}/role`. -/
  | assign (id : ℕ) (token : String) (now : Time) (targetId role : String)
  | logout (id : ℕ) (token : String) (now : Time)
  /-- The next statement of an open request. -/
  | advance (id : ℕ) (now : Time)
  /-- A lost connection, or an error of the database. -/
  | abandon (id : ℕ)
  deriving DecidableEq

namespace Server

variable (K : Secrets) (s : Server)

/-- A new session needs a token that no session has had. -/
def signIn (act : Act) (token : String) : Option Server :=
  (s.auth.step K.auth act).bind fun auth =>
    match auth.sessions.drop s.auth.sessions.length with
    | [] => some { s with auth }
    | session::_ =>
      if s.tokens.any fun t => decide (t.tokenHash = K.hashSecret token) then
        (s.auth.step K.auth (.rollback (txnOf act))).map fun auth => { s with auth }
      else some { s with
        auth
        tokens := s.tokens ++ [⟨K.hashSecret token,none⟩]
        log := .signedIn session.userId (K.hashSecret token) session.expiresAt
          (s.auth.ownerUserId.isNone && auth.ownerUserId.isSome)::s.log }

/-- The next statement of a request; `none` while it waits for a lock. -/
def proceed (p : Pending) (now : Time) : Option Server :=
  match p.work with
  | .assign targetId role false =>
    match s.userById targetId with
    | none => some (s.answered p)
    | some _ => some { s with pending := { p with work := .assign targetId role true }::s.others p }
  | .assign targetId role true =>
    if s.userLocked targetId then none
    else match s.userById targetId with
      | none => some (s.answered p)
      | some _ => some { s.answered p with
          auth := s.updateUserRole targetId role
          log := .assigned p.caller targetId role::s.log }
  | .logout => some { s.answered p with
      tokens := s.invalidateSession p.caller.tokenHash now
      log := .loggedOut p.caller.tokenHash::s.log }

/-- `none` when the move cannot be made now. -/
def step : Move → Option Server
  | .signIn act token => s.signIn K act token
  | .enter guard token now =>
    match s.caller? K token now with
    | none => some s
    | some caller =>
      match guard.check caller.user with
      | .error _ => some s
      | .ok () => some { s with log := .admitted guard caller::s.log }
  | .assign id token now targetId role =>
    match s.caller? K token now with
    | none => some s
    | some caller =>
      match checkAssignment caller.user targetId role with
      | .error _ => some s
      | .ok role => s.enqueue ⟨id,caller,.assign targetId role false⟩
  | .logout id token now =>
    match s.caller? K token now with
    | none => some s
    | some caller => s.enqueue ⟨id,caller,.logout⟩
  | .advance id now => (s.pending.find? fun p => decide (p.id = id)).bind fun p => s.proceed p now
  | .abandon id => (s.pending.find? fun p => decide (p.id = id)).map s.answered

def run : Server → List Move → Option Server
  | s, [] => some s
  | s, move::moves => (s.step K move).bind fun s' => s'.run moves

end Server

end Access
end North
