import North.Lib.Steps

/-! The connections of one daemon on the server. `connect_daemon` takes the lease in the
database, the live map is updated later, and the teardown gives both back; a revocation
clears the lease first and the map afterwards. Connections are numbered in the order in
which they authenticate: the number stands for the random connection id. -/
namespace North
namespace ConnectionLease

open Steps

/-- Where `handle_connection` is. -/
inductive Phase
  /-- `connect_daemon` has committed. -/
  | connected
  /-- Inserted into the live map, and about to close the connection it replaced. -/
  | superseding (old : ℕ)
  | serving
  /-- `serve_authenticated` has returned. -/
  | leaving
  /-- The entry of the live map is removed, if it was the connection's own. -/
  | removed
  | gone
  deriving DecidableEq, Repr

structure State where
  /-- `connection_id` in `daemon_registrations`. -/
  lease : Option ℕ := none
  revoked : Bool := false
  /-- The connection in the live map. -/
  live : Option ℕ := none
  phases : List Phase := []
  /-- The connections whose close channel has got its message. -/
  signalled : List ℕ := []
  /-- The ids that `revoke_daemon` has returned and `close_daemon` has not yet looked up. -/
  revocations : List ℕ := []
  /-- The entries that `close_daemon` has removed and not yet signalled. -/
  closing : List ℕ := []
  deriving DecidableEq, Repr

inductive Act
  | authenticate
  | insert (c : ℕ)
  | signal (c : ℕ)
  /-- `serve_authenticated` returns: the peer or a queue is gone, the close signal has come,
  or a check has failed, such as the lease check of a heartbeat. -/
  | leave (c : ℕ)
  | remove (c : ℕ)
  | disconnect (c : ℕ)
  | revoke
  | close (c : ℕ)
  | signalClosed (c : ℕ)
  deriving DecidableEq, Repr

def Phase.entered : Phase → Bool
  | .superseding _ | .serving => true
  | _ => false

/-- The close channel holds one message: the sender waits while the receiver has not taken it. -/
def closeWaits (s : State) (c : ℕ) : Bool :=
  (s.phases[c]?.any Phase.entered) && s.signalled.contains c

/-- `connect_daemon`, one transaction. -/
def authenticate (s : State) : Option State :=
  if s.revoked then none
  else some { s with lease := some s.phases.length, phases := s.phases ++ [.connected] }

def insert (s : State) (c : ℕ) : Option State :=
  if s.phases[c]? = some .connected then
    some { s with
      live := some c
      phases := s.phases.set c (match s.live with
        | some old => .superseding old
        | none => .serving) }
  else none

def signal (s : State) (c : ℕ) : Option State :=
  match s.phases[c]? with
  | some (.superseding old) =>
    if closeWaits s old then none
    else some { s with phases := s.phases.set c .serving, signalled := s.signalled ++ [old] }
  | _ => none

def leave (s : State) (c : ℕ) : Option State :=
  if s.phases[c]? = some .serving then some { s with phases := s.phases.set c .leaving } else none

def remove (s : State) (c : ℕ) : Option State :=
  if s.phases[c]? = some .leaving then
    some { s with
      live := if s.live = some c then none else s.live
      phases := s.phases.set c .removed }
  else none

/-- `disconnect_daemon`: the lease is cleared if it is the connection's own. -/
def disconnect (s : State) (c : ℕ) : Option State :=
  if s.phases[c]? = some .removed then
    some { s with
      lease := if s.lease = some c then none else s.lease
      phases := s.phases.set c .gone }
  else none

/-- `revoke_daemon`, one transaction. -/
def revoke (s : State) : State :=
  { s with revoked := true, lease := none, revocations := s.revocations ++ s.lease.toList }

/-- `close_daemon` removes the entry of the connection it is given, if that is there. -/
def close (s : State) (c : ℕ) : Option State :=
  if c ∈ s.revocations then
    if s.live = some c then
      some { s with
        live := none
        revocations := s.revocations.erase c
        closing := s.closing ++ [c] }
    else some { s with revocations := s.revocations.erase c }
  else none

def signalClosed (s : State) (c : ℕ) : Option State :=
  if c ∈ s.closing ∧ closeWaits s c = false then
    some { s with closing := s.closing.erase c, signalled := s.signalled ++ [c] }
  else none

def step (s : State) : Act → Option State
  | .authenticate => authenticate s
  | .insert c => insert s c
  | .signal c => signal s c
  | .leave c => leave s c
  | .remove c => remove s c
  | .disconnect c => disconnect s c
  | .revoke => some (revoke s)
  | .close c => close s c
  | .signalClosed c => signalClosed s c

/-! ### What is to agree -/

/-- No connection is between its `connect_daemon` and its insertion into the live map. -/
def Quiet (s : State) : Prop := ∀ p ∈ s.phases, p ≠ .connected

instance (s : State) : Decidable (Quiet s) := inferInstanceAs (Decidable (∀ p ∈ s.phases, p ≠ .connected))

/-- The connection is told to close, or will be. -/
def Told (s : State) (c : ℕ) : Prop :=
  c ∈ s.signalled ∨ c ∈ s.closing ∨ ∃ other : ℕ, s.phases[other]? = some (.superseding c)

def LeftServing (s : State) (c : ℕ) : Prop :=
  s.phases[c]?.any Phase.entered = true ∧ ¬ Told s c

/-- The map and the database name one connection, and the one left serving is the last that
authenticated. -/
def Agrees (s : State) : Prop :=
  Quiet s → (∀ c, s.live = some c → s.lease = some c) ∧ ∀ c, LeftServing s c → c+1 = s.phases.length

/-- An insertion that leaves no handshake open inserts the holder of the lease, and between
handshakes the daemon is revoked only when the live map has no entry of it. -/
def Orderly (s : State) : Act → Prop
  | .insert c => s.phases[c]? = some .connected →
      (∀ other, other ≠ c → s.phases[other]? ≠ some .connected) → s.lease = some c
  | .revoke => Quiet s → s.live = none
  | _ => True

/-! ### The invariant -/

def Phase.listed : Phase → Bool
  | .superseding _ | .serving | .leaving => true
  | _ => false

structure Inv (s : State) : Prop where
  latest : ∀ c, s.lease = some c → c+1 = s.phases.length
  listed : ∀ c, s.live = some c → s.phases[c]?.any Phase.listed = true
  told : ∀ c, s.phases[c]?.any Phase.entered = true → s.live = some c ∨ Told s c

theorem quiet_iff {s : State} : Quiet s ↔ ∀ c : ℕ, s.phases[c]? ≠ some .connected := by
  unfold Quiet
  constructor
  · intro h c hc
    exact h _ (List.mem_of_getElem? hc) rfl
  · rintro h p hp rfl
    obtain ⟨c,hc⟩ := List.mem_iff_getElem?.mp hp
    exact h c hc

theorem Inv.agrees_iff {s : State} (h : Inv s) :
    Agrees s ↔ (Quiet s → ∀ c, s.live = some c → s.lease = some c) := by
  constructor
  · exact fun ha hq => (ha hq).1
  · refine fun ha hq => ⟨ha hq,fun c hc => ?_⟩
    obtain ⟨hentered,huntold⟩ := hc
    have hlive := (h.told c hentered).resolve_right huntold
    exact h.latest c (ha hq c hlive)

theorem getElem?_move {phases : List Phase} {c : ℕ} {p : Phase} (h : phases[c]? = some p) (q : Phase)
    (other : ℕ) : (phases.set c q)[other]? = if other = c then some q else phases[other]? := by
  rw [List.getElem?_set]
  obtain ⟨hlt,-⟩ := List.getElem?_eq_some_iff.mp h
  by_cases hc : c = other
  · subst hc
    simp [hlt]
  · simp [hc,Ne.symm hc]

section Moves

variable {s s' : State} {c : ℕ} {p q : Phase}

theorem quiet_move (hfrom : s.phases[c]? = some p) (hp : p ≠ .connected)
    (hphases : s'.phases = s.phases.set c q) : Quiet s' → Quiet s := by
  simp only [quiet_iff,hphases]
  intro h other hother
  by_cases heq : other = c
  · rw [heq,hfrom] at hother
    exact hp (Option.some.inj hother)
  · have hmoved := h other
    rw [getElem?_move hfrom,if_neg heq] at hmoved
    exact hmoved hother

theorem Inv.move (h : Inv s) (hfrom : s.phases[c]? = some p) (hphases : s'.phases = s.phases.set c q)
    (hlease : ∀ other, s'.lease = some other → s.lease = some other)
    (hlive : ∀ other, s'.live = some other → s.live = some other ∧ (other = c → q.listed = true))
    (hkept : ∀ other, s.live = some other → s'.live = some other ∨ other = c ∧ q.entered = false)
    (hentered : q.entered = true → p.entered = true) (htold : ∀ other, Told s other → Told s' other) :
    Inv s' := by
  refine ⟨fun other hother => ?_,fun other hother => ?_,fun other hother => ?_⟩
  · rw [hphases,List.length_set]
    exact h.latest other (hlease other hother)
  · obtain ⟨hold,hlisted⟩ := hlive other hother
    rw [hphases,getElem?_move hfrom]
    by_cases heq : other = c
    · simp [heq,hlisted heq]
    · rw [if_neg heq]
      exact h.listed other hold
  · rw [hphases,getElem?_move hfrom] at hother
    have hbefore : s.phases[other]?.any Phase.entered = true := by
      by_cases heq : other = c
      · rw [if_pos heq] at hother
        rw [heq,hfrom]
        exact hentered hother
      · rwa [if_neg heq] at hother
    rcases h.told other hbefore with hlive | htold'
    · rcases hkept other hlive with hlive | ⟨heq,hleft⟩
      · exact .inl hlive
      · rw [if_pos heq,Option.any_some,hleft] at hother
        cases hother
    · exact .inr (htold other htold')

theorem told_move (hfrom : s.phases[c]? = some p) (hp : ∀ old, p ≠ .superseding old)
    (hphases : s'.phases = s.phases.set c q) (hsignalled : s'.signalled = s.signalled)
    (hclosing : s'.closing = s.closing) (other : ℕ) (h : Told s other) : Told s' other := by
  rcases h with h | h | ⟨by_,h⟩
  · exact .inl (hsignalled ▸ h)
  · exact .inr (.inl (hclosing ▸ h))
  · refine .inr (.inr ⟨by_,?_⟩)
    rw [hphases,getElem?_move hfrom,if_neg]
    · exact h
    · rintro rfl
      rw [hfrom] at h
      exact hp other (Option.some.inj h)

end Moves

theorem authenticate_inv {s s' : State} (h : Inv s) (hstep : authenticate s = some s') : Inv s' := by
  unfold authenticate at hstep
  split_ifs at hstep
  cases hstep
  have hold : ∀ c, c < s.phases.length → (s.phases ++ [Phase.connected])[c]? = s.phases[c]? :=
    fun c hc => List.getElem?_append_left hc
  refine ⟨fun c hc => ?_,fun c hc => ?_,fun c hc => ?_⟩
  · cases hc
    simp
  · have hlisted := h.listed c hc
    obtain ⟨p,hp,-⟩ := (Option.any_eq_true _ _).mp hlisted
    obtain ⟨hlt,-⟩ := List.getElem?_eq_some_iff.mp hp
    show (s.phases ++ [Phase.connected])[c]?.any _ = true
    rwa [hold c hlt]
  · have hlt : c < s.phases.length := by
      by_contra hge
      obtain ⟨p,hp,hentered⟩ := (Option.any_eq_true _ _).mp hc
      rw [List.getElem?_append_right (Nat.le_of_not_lt hge)] at hp
      obtain ⟨_,rfl⟩ := List.getElem?_eq_some_iff.mp hp
      simp [Phase.entered] at hentered
    have hentered : s.phases[c]?.any Phase.entered = true := by
      rwa [← hold c hlt]
    refine (h.told c hentered).imp id fun ht => ?_
    rcases ht with ht | ht | ⟨other,ht⟩
    · exact .inl ht
    · exact .inr (.inl ht)
    · obtain ⟨hother,-⟩ := List.getElem?_eq_some_iff.mp ht
      exact .inr (.inr ⟨other,(hold other hother).trans ht⟩)

theorem insert_inv {s s' : State} {c : ℕ} (h : Inv s) (hstep : insert s c = some s') : Inv s' := by
  unfold insert at hstep
  split at hstep
  swap
  · cases hstep
  rename_i hfrom
  cases hstep
  set next : Phase := match s.live with
    | some old => .superseding old
    | none => .serving with hnext
  have hentered : next.entered = true := by
    rw [hnext]
    split <;> rfl
  have hlisted : next.listed = true := by
    rw [hnext]
    split <;> rfl
  refine ⟨fun other hother => ?_,fun other hother => ?_,fun other hother => ?_⟩
  · show other+1 = (s.phases.set c next).length
    rw [List.length_set]
    exact h.latest other hother
  · cases hother
    show (s.phases.set c next)[c]?.any _ = true
    rw [getElem?_move hfrom,if_pos rfl]
    exact hlisted
  · by_cases heq : other = c
    · exact .inl (congrArg some heq.symm)
    refine .inr ?_
    change (s.phases.set c next)[other]?.any _ = true at hother
    rw [getElem?_move hfrom,if_neg heq] at hother
    rcases h.told other hother with hlive | ht
    · refine .inr (.inr ⟨c,?_⟩)
      show (s.phases.set c next)[c]? = _
      rw [getElem?_move hfrom,if_pos rfl,hnext,hlive]
    · have hphases : ∀ live, { s with live := live, phases := s.phases.set c next }.phases =
          s.phases.set c next := fun _ => rfl
      exact told_move hfrom (by simp) (hphases (some c)) rfl rfl other ht

theorem signal_inv {s s' : State} {c : ℕ} (h : Inv s) (hstep : signal s c = some s') : Inv s' := by
  unfold signal at hstep
  split at hstep
  swap
  · cases hstep
  rename_i old hfrom
  split at hstep
  · cases hstep
  cases hstep
  refine h.move hfrom rfl (fun _ hc => hc) (fun _ hc => ⟨hc,fun _ => rfl⟩) (fun _ hc => .inl hc)
    (fun _ => rfl) fun other ht => ?_
  rcases ht with ht | ht | ⟨by_,ht⟩
  · exact .inl (List.mem_append_left _ ht)
  · exact .inr (.inl ht)
  · by_cases heq : by_ = c
    · rw [heq,hfrom] at ht
      cases ht
      exact .inl (List.mem_append_right _ (List.mem_singleton.mpr rfl))
    · refine .inr (.inr ⟨by_,?_⟩)
      show (s.phases.set c .serving)[by_]? = _
      rw [getElem?_move hfrom,if_neg heq]
      exact ht

theorem leave_inv {s s' : State} {c : ℕ} (h : Inv s) (hstep : leave s c = some s') : Inv s' := by
  unfold leave at hstep
  split_ifs at hstep with hfrom
  cases hstep
  exact h.move hfrom rfl (fun _ hc => hc) (fun _ hc => ⟨hc,fun _ => rfl⟩) (fun _ hc => .inl hc)
    (by simp [Phase.entered]) (told_move hfrom (by simp) rfl rfl rfl)

theorem remove_inv {s s' : State} {c : ℕ} (h : Inv s) (hstep : remove s c = some s') : Inv s' := by
  unfold remove at hstep
  split_ifs at hstep with hfrom
  · cases hstep
    exact h.move hfrom rfl (fun _ hc => hc) (fun _ hc => by cases hc)
      (fun other hc => .inr ⟨by rwa [‹s.live = some c›,Option.some.injEq,eq_comm] at hc,rfl⟩)
      (by simp [Phase.entered]) (told_move hfrom (by simp) rfl rfl rfl)
  · rename_i hother
    cases hstep
    exact h.move hfrom rfl (fun _ hc => hc) (fun _ hc => ⟨hc,fun heq => absurd (heq ▸ hc) hother⟩)
      (fun _ hc => .inl hc) (by simp [Phase.entered]) (told_move hfrom (by simp) rfl rfl rfl)

theorem disconnect_inv {s s' : State} {c : ℕ} (h : Inv s) (hstep : disconnect s c = some s') :
    Inv s' := by
  unfold disconnect at hstep
  split at hstep
  swap
  · cases hstep
  rename_i hfrom
  cases hstep
  refine h.move hfrom rfl (fun other hc => ?_) (fun other hc => ⟨hc,?_⟩) (fun _ hc => .inl hc)
    (by simp [Phase.entered]) (told_move hfrom (by simp) rfl rfl rfl)
  · dsimp only at hc
    split_ifs at hc
    exact hc
  · rintro rfl
    have hlisted := h.listed other hc
    rw [hfrom] at hlisted
    cases hlisted

theorem close_inv {s s' : State} {c : ℕ} (h : Inv s) (hstep : close s c = some s') : Inv s' := by
  unfold close at hstep
  split_ifs at hstep with hrevoked hlive
  · cases hstep
    refine ⟨h.latest,fun _ hc => by (cases hc),fun other hother => .inr ?_⟩
    rcases h.told other hother with ho | ht | ht | ht
    · rw [hlive] at ho
      cases ho
      exact .inr (.inl (List.mem_append_right _ (List.mem_singleton.mpr rfl)))
    · exact .inl ht
    · exact .inr (.inl (List.mem_append_left _ ht))
    · exact .inr (.inr ht)
  · cases hstep
    exact ⟨h.latest,h.listed,h.told⟩

theorem signalClosed_inv {s s' : State} {c : ℕ} (h : Inv s) (hstep : signalClosed s c = some s') :
    Inv s' := by
  unfold signalClosed at hstep
  split_ifs at hstep
  cases hstep
  refine ⟨h.latest,h.listed,fun other hother => (h.told other hother).imp id fun ht => ?_⟩
  rcases ht with ht | ht | ht
  · exact .inl (List.mem_append_left _ ht)
  · by_cases heq : other = c
    · exact .inl (List.mem_append_right _ (List.mem_singleton.mpr heq))
    · exact .inr (.inl ((List.mem_erase_of_ne heq).mpr ht))
  · exact .inr (.inr ht)

theorem step_inv {s s' : State} {act : Act} (h : Inv s) (hstep : step s act = some s') : Inv s' := by
  cases act with
  | authenticate => exact authenticate_inv h hstep
  | insert c => exact insert_inv h hstep
  | signal c => exact signal_inv h hstep
  | leave c => exact leave_inv h hstep
  | remove c => exact remove_inv h hstep
  | disconnect c => exact disconnect_inv h hstep
  | revoke =>
    cases hstep
    exact ⟨fun _ hc => by (cases hc),h.listed,h.told⟩
  | close c => exact close_inv h hstep
  | signalClosed c => exact signalClosed_inv h hstep

/-! ### Agreement along runs -/

/-- The live map names no connection but the holder of the lease, between handshakes. -/
def Agreed (s : State) : Prop := Quiet s → ∀ c, s.live = some c → s.lease = some c

theorem authenticate_agreed {s s' : State} (hstep : authenticate s = some s') : Agreed s' := by
  unfold authenticate at hstep
  split_ifs at hstep
  cases hstep
  exact fun hquiet => absurd rfl (hquiet .connected (by simp))

theorem insert_agreed {s s' : State} {c : ℕ} (hok : Orderly s (.insert c)) (hstep : insert s c = some s') :
    Agreed s' := by
  unfold insert at hstep
  split at hstep
  swap
  · cases hstep
  rename_i hfrom
  cases hstep
  intro hquiet other hother
  rw [quiet_iff] at hquiet
  cases hother
  refine hok hfrom fun other hne hother => ?_
  have hmoved := hquiet other
  rw [getElem?_move hfrom,if_neg hne] at hmoved
  exact hmoved hother

theorem signal_agreed {s s' : State} {c : ℕ} (h : Agreed s) (hstep : signal s c = some s') : Agreed s' := by
  unfold signal at hstep
  split at hstep
  swap
  · cases hstep
  rename_i old hfrom
  split at hstep
  · cases hstep
  cases hstep
  exact fun hquiet => h (quiet_move hfrom (by simp) rfl hquiet)

theorem leave_agreed {s s' : State} {c : ℕ} (h : Agreed s) (hstep : leave s c = some s') : Agreed s' := by
  unfold leave at hstep
  split_ifs at hstep with hfrom
  cases hstep
  exact fun hquiet => h (quiet_move hfrom (by simp) rfl hquiet)

theorem remove_agreed {s s' : State} {c : ℕ} (h : Agreed s) (hstep : remove s c = some s') : Agreed s' := by
  unfold remove at hstep
  split at hstep
  swap
  · cases hstep
  rename_i hfrom
  cases hstep
  intro hquiet other hother
  have hbefore := h (quiet_move hfrom (by simp) rfl hquiet)
  dsimp only at hother
  split_ifs at hother
  exact hbefore other hother

/-- A connection that is gone was no longer in the map, so its lease was not the one shown there. -/
theorem disconnect_agreed {s s' : State} {c : ℕ} (hinv : Inv s) (h : Agreed s)
    (hstep : disconnect s c = some s') : Agreed s' := by
  unfold disconnect at hstep
  split at hstep
  swap
  · cases hstep
  rename_i hfrom
  cases hstep
  intro hquiet other hother
  have hlease := h (quiet_move hfrom (by simp) rfl hquiet) other hother
  have hlisted := hinv.listed other hother
  have hne : s.lease ≠ some c := by
    rw [hlease]
    rintro ⟨⟩
    rw [hfrom] at hlisted
    cases hlisted
  show (if s.lease = some c then none else s.lease) = some other
  rw [if_neg hne]
  exact hlease

theorem revoke_agreed {s : State} (hok : Orderly s .revoke) : Agreed (revoke s) := by
  intro hquiet other hother
  have hnone : s.live = none := hok hquiet
  rw [show s.live = some other from hother] at hnone
  cases hnone

theorem close_agreed {s s' : State} {c : ℕ} (h : Agreed s) (hstep : close s c = some s') : Agreed s' := by
  unfold close at hstep
  split_ifs at hstep
  · cases hstep
    exact fun _ _ hother => by cases hother
  · cases hstep
    exact h

theorem signalClosed_agreed {s s' : State} {c : ℕ} (h : Agreed s) (hstep : signalClosed s c = some s') :
    Agreed s' := by
  unfold signalClosed at hstep
  split_ifs at hstep
  cases hstep
  exact h

theorem step_agreed {s s' : State} {act : Act} (hinv : Inv s) (h : Agreed s) (hok : Orderly s act)
    (hstep : step s act = some s') : Agreed s' := by
  cases act with
  | authenticate => exact authenticate_agreed hstep
  | insert c => exact insert_agreed hok hstep
  | signal c => exact signal_agreed h hstep
  | leave c => exact leave_agreed h hstep
  | remove c => exact remove_agreed h hstep
  | disconnect c => exact disconnect_agreed hinv h hstep
  | revoke =>
    cases hstep
    exact revoke_agreed hok
  | close c => exact close_agreed h hstep
  | signalClosed c => exact signalClosed_agreed h hstep

/-- What follows a disorderly step disagrees. -/
theorem orderly_of_agreed {s : State} {act : Act} (h : ∀ s', step s act = some s' → Agreed s') :
    Orderly s act := by
  cases act with
  | insert c =>
    intro hfrom halone
    have hstep : ∃ next : Phase, next ≠ .connected ∧
        step s (.insert c) = some { s with live := some c, phases := s.phases.set c next } := by
      refine ⟨match s.live with | some old => .superseding old | none => .serving,?_,?_⟩
      · split <;> simp
      · simp only [step,insert,if_pos hfrom]
    obtain ⟨next,hnext,hstep⟩ := hstep
    refine h _ hstep (quiet_iff.mpr fun other hother => ?_) c rfl
    dsimp only at hother
    rw [getElem?_move hfrom] at hother
    split_ifs at hother with heq
    · exact hnext (Option.some.inj hother)
    · exact halone other heq hother
  | revoke =>
    intro hquiet
    cases hlive : s.live with
    | none => rfl
    | some c =>
      have hagreed := h (revoke s) rfl hquiet c hlive
      cases hagreed
  | authenticate => trivial
  | signal c => trivial
  | leave c => trivial
  | remove c => trivial
  | disconnect c => trivial
  | close c => trivial
  | signalClosed c => trivial

/-- In every run, the map and the database agree in all states exactly when the handshakes
are finished in order and no connection is revoked that is still in the map. -/
theorem live_map_agrees (acts : List Act) :
    (∀ before s, before <+: acts → run step {} before = some s → Agrees s) ↔
      Along step Orderly {} acts := by
  have hinit : Inv {} := ⟨fun _ hc => by (cases hc),fun _ hc => by (cases hc),fun _ hc => by simp at hc⟩
  have hinitial : Agreed {} := fun _ _ hc => by cases hc
  have hexact : (∀ before s, before <+: acts → run step {} before = some s → Agreed s) ↔
      Along step Orderly {} acts :=
    always_iff_along (fun s act s' (h : Inv s) (hstep : step s act = some s') => step_inv h hstep)
      (fun s act s' hinv h hok hstep => step_agreed hinv h hok hstep)
      (fun s act _ _ h => orderly_of_agreed h) hinit hinitial acts
  rw [← hexact]
  have hinv : ∀ before s, run step {} before = some s → Inv s := fun before s hrun =>
    run_invariant (fun s act s' h hstep => step_inv h hstep) hinit hrun
  exact ⟨fun h before s hpre hrun => (hinv before s hrun).agrees_iff.mp (h before s hpre hrun),
    fun h before s hpre hrun => (hinv before s hrun).agrees_iff.mpr (h before s hpre hrun)⟩

/-- Two handshakes that cross: the first to authenticate is the last in the map and serves,
while the database names the other one, which has been told to close. -/
theorem crossed_handshakes_disagree : ∃ acts s, run step {} acts = some s ∧ s.lease = some 1 ∧
    s.live = some 0 ∧ s.phases[0]? = some .serving ∧ s.signalled = [1] ∧ ¬ Agrees s := by
  refine ⟨[.authenticate,.authenticate,.insert 1,.insert 0,.signal 0],_,rfl,rfl,rfl,rfl,rfl,fun h => ?_⟩
  have hlease := (h (by decide)).1 0 rfl
  cases hlease

end ConnectionLease
end North
