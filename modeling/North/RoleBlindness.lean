import North.AccessControl
import North.EmailAuthRuns

/-! Signing in does not look at roles. Whatever roles the users have, the sign-ins go the same
way, so that what holds of them holds also where roles are changed in between. -/
namespace North
namespace EmailAuth

def User.bare (u : User) : User := { u with role := .requester }

def Phase.plain : Phase → Phase
  | .signedIn row user fresh => .signedIn row user.bare fresh
  | .ownerAsked row user fresh claimed => .ownerAsked row user.bare fresh claimed
  | phase => phase

def Txn.plain (x : Txn) : Txn := { x with phase := x.phase.plain }

def World.plain (w : World) : World :=
  { w with users := w.users.map User.bare, opens := w.opens.map Txn.plain }

section

variable {A : Auth} {w w' w₀ : World} {o x : Txn}

@[simp] theorem User.bare_id (u : User) : u.bare.id = u.id := rfl

@[simp] theorem User.bare_email (u : User) : u.bare.email = u.email := rfl

@[simp] theorem User.bare_bare (u : User) : u.bare.bare = u.bare := rfl

@[simp] theorem Phase.plain_plain (phase : Phase) : phase.plain.plain = phase.plain := by
  cases phase <;> rfl

@[simp] theorem Txn.plain_id (x : Txn) : x.plain.id = x.id := rfl

@[simp] theorem Txn.plain_email (x : Txn) : x.plain.email = x.email := rfl

@[simp] theorem Txn.plain_plain (x : Txn) : x.plain.plain = x.plain := by simp [Txn.plain]

@[simp] theorem Txn.plain_rows (x : Txn) : x.plain.rows = x.rows := by
  unfold Txn.rows Txn.plain
  cases x.phase <;> rfl

@[simp] theorem Txn.plain_advisory (x : Txn) : x.plain.advisory = x.advisory := by
  unfold Txn.advisory Txn.plain
  cases x.phase <;> rfl

@[simp] theorem Txn.plain_ownerClaimed (x : Txn) : x.plain.ownerClaimed = x.ownerClaimed := by
  unfold Txn.ownerClaimed Txn.plain
  cases x.phase <;> rfl

@[simp] theorem Txn.plain_user? (x : Txn) : x.plain.user? = x.user?.map User.bare := by
  unfold Txn.user? Txn.plain
  cases x.phase <;> rfl

theorem map_bare_bare (users : List User) : (users.map User.bare).map User.bare = users.map User.bare := by
  simp [Function.comp_def]

theorem map_plain_plain (opens : List Txn) : (opens.map Txn.plain).map Txn.plain = opens.map Txn.plain := by
  simp [Function.comp_def]

@[simp] theorem World.plain_others (w : World) (o : Txn) : w.plain.others o.plain = (w.others o).map Txn.plain := by
  unfold World.others World.plain
  rw [List.filter_map]
  rfl

theorem plain_put (w : World) (o : Txn) {phase phase₀ : Phase} (h : phase₀.plain = phase.plain) :
    (w.plain.put o.plain phase₀).plain = (w.put o phase).plain := by
  have htxn : ({ o.plain with phase := phase₀ } : Txn).plain = ({ o with phase } : Txn).plain := by
    simp only [Txn.plain,h]
  unfold World.put
  rw [World.plain_others]
  simp only [World.plain,List.map_cons,htxn,map_bare_bare,map_plain_plain]

theorem plain_close (w : World) (o : Txn) : (w.plain.close o.plain).plain = (w.close o).plain := by
  unfold World.close
  rw [World.plain_others]
  simp only [World.plain,map_bare_bare,map_plain_plain]

/-- A test of the other transactions that no role can decide. -/
theorem any_plain_others (w : World) (o : Txn) {f : Txn → Bool} (h : ∀ x, f x.plain = f x) :
    (w.plain.others o.plain).any f = (w.others o).any f := by
  rw [World.plain_others,List.any_map]
  exact congrArg _ (funext h)

/-- A step without the roles ends alike. -/
def Blind (r r₀ : Option World) : Prop := r₀.map World.plain = r.map World.plain

theorem blind_put (w : World) (o : Txn) {phase phase₀ : Phase} (h : phase₀.plain = phase.plain) :
    Blind (some (w.put o phase)) (some (w.plain.put o.plain phase₀)) :=
  congrArg some (plain_put w o h)

theorem blind_close (w : World) (o : Txn) : Blind (some (w.close o)) (some (w.plain.close o.plain)) :=
  congrArg some (plain_close w o)

theorem blind_signIn (w : World) (o : Txn) (row : CodeRow) (userId : String) :
    Blind (w.signIn o row userId) (w.plain.signIn o.plain row userId) := by
  have hlocked : w.plain.userLocked o.plain o.plain.email userId = w.userLocked o o.email userId := by
    refine any_plain_others w o fun x => ?_
    rw [Txn.plain_user?]
    cases x.user? <;> rfl
  have hfind : w.plain.users.find? (fun u => decide (u.email = o.plain.email)) =
      (w.users.find? fun u => decide (u.email = o.email)).map User.bare := by
    simp only [World.plain,List.find?_map]
    rfl
  have hany : w.plain.users.any (fun u => decide (u.id = userId)) = w.users.any fun u => decide (u.id = userId) := by
    simp only [World.plain,List.any_map]
    rfl
  unfold World.signIn
  rw [hlocked,hfind,hany]
  split_ifs
  · rfl
  · cases w.users.find? fun u => decide (u.email = o.email) with
    | some user => exact blind_put w o rfl
    | none => exact blind_close w o
  · cases w.users.find? fun u => decide (u.email = o.email) with
    | some user => exact blind_put w o rfl
    | none => exact blind_put w o rfl

theorem plain_ext {w w₀ : World} (codes : w.codes = w₀.codes)
    (users : w.users.map User.bare = w₀.users.map User.bare) (sessions : w.sessions = w₀.sessions)
    (ownerUserId : w.ownerUserId = w₀.ownerUserId) (nextId : w.nextId = w₀.nextId)
    (opens : w.opens.map Txn.plain = w₀.opens.map Txn.plain) (issued : w.issued = w₀.issued)
    (refusals : w.refusals = w₀.refusals) (successes : w.successes = w₀.successes)
    (owners : w.owners = w₀.owners) : w.plain = w₀.plain := by
  cases w
  cases w₀
  simp only [World.plain] at users opens ⊢
  simp_all

theorem map_plain_others (w : World) (o : Txn) :
    (w.plain.others o.plain).map Txn.plain = (w.others o).map Txn.plain := by
  rw [World.plain_others,map_plain_plain]

theorem map_bare_role (users : List User) (p : User → Prop) [DecidablePred p] (role : Role) :
    (users.map fun u => if p u then { u with role } else u).map User.bare = users.map User.bare := by
  rw [List.map_map]
  refine List.map_congr_left fun u _ => ?_
  simp only [Function.comp_apply]
  split_ifs <;> rfl

theorem blind_commitSuccess (w : World) (o : Txn) (row : CodeRow) (user : User) (fresh claimed : Bool) :
    Blind (some (w.commitSuccess o row user fresh claimed))
      (some (w.plain.commitSuccess o.plain row user.bare fresh claimed)) := by
  refine congrArg some (plain_ext rfl ?_ rfl rfl rfl (map_plain_others w o) rfl rfl rfl rfl)
  have husers : (if fresh then w.plain.users ++ [user.bare] else w.plain.users).map User.bare =
      (if fresh then w.users ++ [user] else w.users).map User.bare := by
    cases fresh <;> simp [World.plain,Function.comp_def]
  cases claimed with
  | false => exact husers
  | true =>
    simp only [World.commitSuccess,if_true]
    rw [map_bare_role,map_bare_role]
    exact husers

theorem blind_ite {c c₀ : Bool} {r r₀ r' r₀' : Option World} (hc : c₀ = c) (h : Blind r r₀)
    (h' : Blind r' r₀') : Blind (if c then r else r') (if c₀ then r₀ else r₀') := by
  subst hc
  split_ifs
  · exact h
  · exact h'

theorem blind_advance (A : Auth) (w : World) (o : Txn) (userId : String) :
    Blind (w.advance A o userId) (w.plain.advance A o.plain userId) := by
  have hlocked (id : ℕ) : w.plain.rowLocked o.plain id = w.rowLocked o id :=
    any_plain_others w o fun x => by rw [Txn.plain_rows]
  have hput {phase : Phase} : Blind (some (w.put o phase)) (some (w.plain.put o.plain phase)) := blind_put w o rfl
  have hphase : o.plain.phase = o.phase.plain := rfl
  unfold World.advance
  rw [hphase]
  cases h : o.phase with
  | issueBegun =>
    refine blind_ite (any_plain_others w o fun x => ?_) rfl hput
    rw [Txn.plain_advisory,Txn.plain_email]
  | issueLocked =>
    change Blind (some (if w.recentlyRequested o then _ else _)) (some (if w.recentlyRequested o then _ else _))
    split_ifs
    · exact blind_close w o
    · exact hput
  | issueChecked => exact hput
  | superseding todo held =>
    cases todo with
    | nil =>
      change Blind (some (if w.activeConflict o held then _ else _))
        (some (if w.activeConflict o held then _ else _))
      split_ifs
      · exact blind_close { w with nextId := w.nextId+1 } o
      · exact blind_put { w with nextId := w.nextId+1 } o rfl
    | cons id todo =>
      exact blind_ite (hlocked id) rfl hput
  | inserted held row =>
    exact congrArg some (plain_ext rfl (map_bare_bare _) rfl rfl rfl (map_plain_others w o) rfl rfl rfl rfl)
  | verifyBegun => exact hput
  | choosing todo =>
    cases todo with
    | nil => exact blind_close w o
    | cons id todo =>
      refine blind_ite (hlocked id) rfl ?_
      have hfind : (w.plain.codes.find? fun r => decide (r.id = id) && o.plain.selects r) =
          w.codes.find? fun r => decide (r.id = id) && o.selects r := rfl
      rw [hfind]
      cases w.codes.find? fun r => decide (r.id = id) && o.selects r with
      | none => exact hput
      | some row =>
        change Blind (if row.codeHash = otpDigest A row.email row.id o.code then _ else _)
          (if row.codeHash = otpDigest A row.email row.id o.code then _ else _)
        split_ifs
        · exact hput
        · exact hput
  | mismatched row =>
    exact congrArg some (plain_ext rfl (map_bare_bare _) rfl rfl rfl (map_plain_others w o) rfl rfl rfl rfl)
  | matched row =>
    change Blind (some (if w.active row.id then _ else _)) (some (if w.active row.id then _ else _))
    split_ifs
    · exact hput
    · exact blind_close w o
  | consumed row => exact blind_signIn w o row userId
  | signedIn row user fresh =>
    refine blind_ite (any_plain_others w o fun x => ?_) rfl (blind_put w o rfl)
    rw [Txn.plain_ownerClaimed]
  | ownerAsked row user fresh claimed => exact blind_commitSuccess w o row user fresh claimed

/-- Each step of the sign-ins goes the same way without the roles. -/
theorem blind_step (A : Auth) (w : World) (act : Act) : Blind (w.step A act) (w.plain.step A act) := by
  have htxn (txn : ℕ) : w.plain.txn? txn = (w.txn? txn).map Txn.plain := by
    simp only [World.txn?,World.plain,List.find?_map]
    rfl
  have hstart (x : Txn) (hx : x.plain = x) : Blind (w.start x) (w.plain.start x) := by
    unfold World.start
    rw [htxn,Option.isSome_map]
    split_ifs
    · rfl
    · refine congrArg some (plain_ext rfl (map_bare_bare _) rfl rfl rfl ?_ rfl rfl rfl rfl)
      simp only [List.map_cons,World.plain,map_plain_plain]
  cases act with
  | issueCode txn now email code => exact hstart _ rfl
  | verifyCode txn now email code => exact hstart _ rfl
  | advance txn userId =>
    simp only [World.step,htxn]
    cases w.txn? txn with
    | none => rfl
    | some o => exact blind_advance A w o userId
  | rollback txn =>
    simp only [World.step,htxn]
    cases w.txn? txn with
    | none => rfl
    | some o => exact blind_close w o

/-- Where two worlds differ in the roles only, a step that one of them takes the other takes as well. -/
theorem step_alike {w₀ : World} (h : w₀.plain = w.plain) {act : Act} (hstep : w.step A act = some w') :
    ∃ w₀', w₀.step A act = some w₀' ∧ w₀'.plain = w'.plain := by
  have hblind := blind_step A w act
  have hblind₀ := blind_step A w₀ act
  rw [h] at hblind₀
  unfold Blind at hblind hblind₀
  rw [hblind,hstep] at hblind₀
  exact Option.map_eq_some_iff.mp hblind₀.symm

end

end EmailAuth
end North
