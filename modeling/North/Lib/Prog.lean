import Mathlib.Logic.Basic
import Mathlib.Tactic.Common

/-! Programs over an explicit state that may fail with an error or never return,
and pre- and postconditions for them. A run that does not return satisfies every
postcondition. -/
namespace North

/-- A chain of fallible steps succeeds when each of them does. -/
theorem bind_eq_ok {ε α β : Type} {x : Except ε α} {f : α → Except ε β} {b : β} :
    (x >>= f) = .ok b ↔ ∃ a, x = .ok a ∧ f a = .ok b := by
  cases x <;> simp [bind,Except.bind]

theorem forM_eq_ok {ε α : Type} {f : α → Except ε Unit} {xs : List α} (h : ∀ x ∈ xs, f x = .ok ()) :
    xs.forM f = .ok () := by
  induction xs with
  | nil => rfl
  | cons x xs ih =>
    show (f x >>= fun _ => xs.forM f) = .ok ()
    rw [h x (by simp)]
    exact ih fun y hy => h y (by simp [hy])

/-- `none` is a run that never returns; an error keeps the state reached so far. -/
abbrev Prog (σ ε : Type) := ExceptT ε (StateT σ Option)

namespace Prog

variable {σ ε α β : Type}

def exec (m : Prog σ ε α) (s : σ) : Option (Except ε α × σ) := m s

def fail (e : ε) : Prog σ ε α := fun s => some (.error e,s)

def look (f : σ → α) : Prog σ ε α := fun s => some (.ok (f s),s)

def modifyState (f : σ → σ) : Prog σ ε Unit := fun s => some (.ok (),f s)

/-- Lift a computation without effect. -/
def orFail (r : Except ε α) : Prog σ ε α := fun s => some (r,s)

/-- Run a program and give its error to the caller as a value. -/
def attempt {ε' : Type} (m : Prog σ ε α) : Prog σ ε' (Except ε α) := fun s =>
  (m s).map fun (r,s') => (.ok r,s')

/-- After an error go on with a handler for it. -/
def handling {ε' : Type} (m : Prog σ ε α) (handler : ε → Prog σ ε' α) : Prog σ ε' α := do
  match ← attempt m with
  | .ok a => pure a
  | .error e => handler e

def mapError {ε' : Type} (f : ε → ε') (m : Prog σ ε α) : Prog σ ε' α := handling m fun e => fail (f e)

/-- Started in `P`, a return satisfies `Q` and an error satisfies `R`. -/
def Triple (P : σ → Prop) (m : Prog σ ε α) (Q : α → σ → Prop) (R : ε → σ → Prop) : Prop :=
  ∀ s, P s → ∀ r s', m.exec s = some (r,s') →
    match r with
    | .ok a => Q a s'
    | .error e => R e s'

theorem Triple.ok {P : σ → Prop} {m : Prog σ ε α} {Q : α → σ → Prop} {R : ε → σ → Prop}
    (h : Triple P m Q R) {s s' : σ} {a : α} (hs : P s) (he : m.exec s = some (.ok a,s')) : Q a s' :=
  h s hs _ s' he

theorem Triple.error {P : σ → Prop} {m : Prog σ ε α} {Q : α → σ → Prop} {R : ε → σ → Prop}
    (h : Triple P m Q R) {s s' : σ} {e : ε} (hs : P s) (he : m.exec s = some (.error e,s')) :
    R e s' :=
  h s hs _ s' he

theorem Triple.pre {P P' : σ → Prop} {m : Prog σ ε α} {Q : α → σ → Prop} {R : ε → σ → Prop}
    (h : Triple P m Q R) (hp : ∀ s, P' s → P s) : Triple P' m Q R :=
  fun s hs r s' he => h s (hp s hs) r s' he

theorem Triple.post {P : σ → Prop} {m : Prog σ ε α} {Q Q' : α → σ → Prop} {R R' : ε → σ → Prop}
    (h : Triple P m Q R) (hq : ∀ a s, Q a s → Q' a s) (hr : ∀ e s, R e s → R' e s) :
    Triple P m Q' R' := by
  intro s hs r s' he
  have hh := h s hs r s' he
  cases r with
  | ok a => exact hq a s' hh
  | error e => exact hr e s' hh

/-- What a program does is a postcondition of it. -/
theorem triple_exact {P : σ → Prop} {m : Prog σ ε α} :
    Triple P m (fun a s' => ∃ s, P s ∧ m.exec s = some (.ok a,s'))
      fun e s' => ∃ s, P s ∧ m.exec s = some (.error e,s') := by
  intro s hs r s' he
  cases r with
  | ok a => exact ⟨s,hs,he⟩
  | error e => exact ⟨s,hs,he⟩

theorem triple_pure {P : σ → Prop} {Q : α → σ → Prop} {R : ε → σ → Prop} {a : α}
    (h : ∀ s, P s → Q a s) : Triple P (pure a : Prog σ ε α) Q R := by
  rintro s hs r s' he
  change some ((Except.ok a : Except ε α),s) = some (r,s') at he
  obtain ⟨rfl,rfl⟩ : (Except.ok a : Except ε α) = r ∧ s = s' := by simpa using he
  exact h s hs

theorem triple_fail {P : σ → Prop} {Q : α → σ → Prop} {R : ε → σ → Prop} {e : ε}
    (h : ∀ s, P s → R e s) : Triple P (fail e : Prog σ ε α) Q R := by
  rintro s hs r s' he
  obtain ⟨rfl,rfl⟩ : (Except.error e : Except ε α) = r ∧ s = s' := by simpa [exec,fail] using he
  exact h s hs

theorem triple_orFail {P : σ → Prop} {Q : α → σ → Prop} {R : ε → σ → Prop} {r : Except ε α}
    (hq : ∀ s a, P s → r = .ok a → Q a s) (hr : ∀ s e, P s → r = .error e → R e s) :
    Triple P (orFail r : Prog σ ε α) Q R := by
  rintro s hs r' s' he
  obtain ⟨rfl,rfl⟩ : r = r' ∧ s = s' := by simpa [exec,orFail] using he
  cases hcase : r with
  | ok a => exact hq s a hs hcase
  | error e => exact hr s e hs hcase

theorem triple_look {P : σ → Prop} {Q : α → σ → Prop} {R : ε → σ → Prop} {f : σ → α}
    (h : ∀ s, P s → Q (f s) s) : Triple P (look f : Prog σ ε α) Q R := by
  rintro s hs r s' he
  obtain ⟨rfl,rfl⟩ : (Except.ok (f s) : Except ε α) = r ∧ s = s' := by simpa [exec,look] using he
  exact h s hs

theorem triple_attempt {ε' : Type} {P : σ → Prop} {m : Prog σ ε α} {Q : α → σ → Prop}
    {R : ε → σ → Prop} {Q' : Except ε α → σ → Prop} {R' : ε' → σ → Prop} (hm : Triple P m Q R)
    (hq : ∀ a s, Q a s → Q' (.ok a) s) (hr : ∀ e s, R e s → Q' (.error e) s) :
    Triple P (attempt m) Q' R' := by
  rintro s hs r s' he
  obtain ⟨⟨r',s''⟩,hm',heq⟩ := Option.map_eq_some_iff.mp he
  obtain ⟨rfl,rfl⟩ : (Except.ok r' : Except ε' (Except ε α)) = r ∧ s'' = s' := by simpa using heq
  cases r' with
  | ok a => exact hq a _ (hm.ok hs hm')
  | error e => exact hr e _ (hm.error hs hm')

theorem triple_modify {P : σ → Prop} {Q : Unit → σ → Prop} {R : ε → σ → Prop} {f : σ → σ}
    (h : ∀ s, P s → Q () (f s)) : Triple P (modifyState f : Prog σ ε Unit) Q R := by
  rintro s hs r s' he
  obtain ⟨rfl,rfl⟩ : (Except.ok () : Except ε Unit) = r ∧ f s = s' := by
    simpa [exec,modifyState] using he
  exact h s hs

/-- How a bound program runs: an error or a missing return of the first part is final. -/
theorem exec_bind (m : Prog σ ε α) (f : α → Prog σ ε β) (s : σ) :
    (m >>= f).exec s = match m.exec s with
      | none => none
      | some (.ok a,s') => (f a).exec s'
      | some (.error e,s') => some (.error e,s') := by
  change (ExceptT.bind m f) s = _
  unfold ExceptT.bind ExceptT.mk exec
  change Option.bind (m s) _ = _
  cases m s with
  | none => rfl
  | some p =>
    obtain ⟨r,s'⟩ := p
    cases r <;> rfl

theorem exec_pure (a : α) (s : σ) : (pure a : Prog σ ε α).exec s = some (.ok a,s) := rfl

theorem exec_look (f : σ → α) (s : σ) : (look f : Prog σ ε α).exec s = some (.ok (f s),s) := rfl

theorem exec_orFail (r : Except ε α) (s : σ) : (orFail r : Prog σ ε α).exec s = some (r,s) := rfl

theorem exec_fail (e : ε) (s : σ) : (fail e : Prog σ ε α).exec s = some (.error e,s) := rfl

theorem exec_modify (f : σ → σ) (s : σ) :
    (modifyState f : Prog σ ε Unit).exec s = some (.ok (),f s) := rfl

theorem exec_attempt {ε' : Type} (m : Prog σ ε α) (s : σ) :
    (attempt m : Prog σ ε' (Except ε α)).exec s = (m.exec s).map fun p => (.ok p.1,p.2) := rfl

theorem bind_returns {m : Prog σ ε α} {f : α → Prog σ ε β} {s s' : σ} {b : β} :
    (m >>= f).exec s = some (.ok b,s') ↔
      ∃ a s₁, m.exec s = some (.ok a,s₁) ∧ (f a).exec s₁ = some (.ok b,s') := by
  rw [exec_bind]
  cases hm : m.exec s with
  | none => simp
  | some p =>
    obtain ⟨r,s₁⟩ := p
    cases r with
    | ok a => simp
    | error e => simp

theorem bind_fails {m : Prog σ ε α} {f : α → Prog σ ε β} {s s' : σ} {e : ε} :
    (m >>= f).exec s = some (.error e,s') ↔ m.exec s = some (.error e,s') ∨
      ∃ a s₁, m.exec s = some (.ok a,s₁) ∧ (f a).exec s₁ = some (.error e,s') := by
  rw [exec_bind]
  cases hm : m.exec s with
  | none => simp
  | some p =>
    obtain ⟨r,s₁⟩ := p
    cases r with
    | ok a => simp
    | error e' => simp

theorem map_returns {m : Prog σ ε α} {f : α → β} {s s' : σ} {b : β} :
    (f <$> m).exec s = some (.ok b,s') ↔ ∃ a, m.exec s = some (.ok a,s') ∧ f a = b := by
  rw [← bind_pure_comp,bind_returns]
  constructor
  · rintro ⟨a,s₁,hm,hpure⟩
    obtain ⟨hb,rfl⟩ : f a = b ∧ s₁ = s' := by simpa [exec_pure] using hpure
    exact ⟨a,hm,hb⟩
  · rintro ⟨a,hm,rfl⟩
    exact ⟨a,s',hm,rfl⟩

/-- The program never fails as such; its result says what became of the attempt. -/
theorem attempt_returns {ε' : Type} {m : Prog σ ε α} {s s' : σ} {r : Except ε α} :
    (attempt m : Prog σ ε' (Except ε α)).exec s = some (.ok r,s') ↔ m.exec s = some (r,s') := by
  show (m s).map _ = _ ↔ m s = _
  cases m s with
  | none => simp
  | some p => simp [Prod.ext_iff]

theorem attempt_never_fails {ε' : Type} {m : Prog σ ε α} {s s' : σ} {e : ε'} :
    (attempt m : Prog σ ε' (Except ε α)).exec s ≠ some (.error e,s') := by
  intro h
  obtain ⟨p,-,heq⟩ := Option.map_eq_some_iff.mp h
  simp at heq

/-- A bound program runs on for ever when its first part does, or its second after it. -/
theorem bind_never {m : Prog σ ε α} {f : α → Prog σ ε β} {s : σ} :
    (m >>= f).exec s = none ↔ m.exec s = none ∨
      ∃ a s₁, m.exec s = some (.ok a,s₁) ∧ (f a).exec s₁ = none := by
  rw [exec_bind]
  cases hm : m.exec s with
  | none => simp
  | some p =>
    obtain ⟨r,s₁⟩ := p
    cases r with
    | ok a => simp
    | error e => simp

/-- What the program returns, it returns from any state, satisfies `Q`. -/
def Yields (Q : α → Prop) (m : Prog σ ε α) : Prop := ∀ s a s', m.exec s = some (.ok a,s') → Q a

theorem yields_pure {Q : α → Prop} {a : α} (h : Q a) : Yields Q (pure a : Prog σ ε α) := by
  intro s a' s' hexec
  obtain ⟨rfl,-⟩ : a = a' ∧ s = s' := by simpa [exec_pure] using hexec
  exact h

theorem yields_fail {Q : α → Prop} (e : ε) : Yields Q (fail e : Prog σ ε α) := by
  intro s a s' hexec
  simp [exec_fail] at hexec

theorem yields_orFail {Q : α → Prop} {r : Except ε α} (h : ∀ a, r = .ok a → Q a) :
    Yields Q (orFail r : Prog σ ε α) := by
  intro s a s' hexec
  obtain ⟨hr,-⟩ : r = .ok a ∧ s = s' := by simpa [exec_orFail] using hexec
  exact h a hr

theorem yields_attempt {ε' : Type} {Q : α → Prop} {m : Prog σ ε α} (hm : Yields Q m) :
    Yields (fun r => ∀ a, r = .ok a → Q a) (attempt m : Prog σ ε' (Except ε α)) := by
  rintro s r s' hexec a rfl
  exact hm s a s' (attempt_returns.mp hexec)

theorem yields_bind {P : α → Prop} {Q : β → Prop} {m : Prog σ ε α} {f : α → Prog σ ε β}
    (hm : Yields P m) (hf : ∀ a, P a → Yields Q (f a)) : Yields Q (m >>= f) := by
  intro s b s' hexec
  obtain ⟨a,s₁,hfirst,hrest⟩ := bind_returns.mp hexec
  exact hf a (hm s a s₁ hfirst) s₁ b s' hrest

theorem yields_mapError {ε' : Type} {Q : α → Prop} {m : Prog σ ε α} (f : ε → ε') (hm : Yields Q m) :
    Yields Q (mapError f m) := by
  refine yields_bind (yields_attempt hm) fun r hr => ?_
  cases r with
  | ok a => exact yields_pure (hr a rfl)
  | error e => exact yields_fail _

theorem yields_of_rest {Q : β → Prop} {m : Prog σ ε α} {f : α → Prog σ ε β}
    (hf : ∀ a, Yields Q (f a)) : Yields Q (m >>= f) :=
  yields_bind (P := fun _ => True) (fun _ _ _ _ => trivial) fun a _ => hf a

/-- The program returns from every state, be it with an error. -/
def Total (m : Prog σ ε α) : Prop := ∀ s, m.exec s ≠ none

theorem total_pure (a : α) : Total (pure a : Prog σ ε α) := by
  intro s
  simp [exec_pure]

theorem total_look (f : σ → α) : Total (look f : Prog σ ε α) := by
  intro s
  simp [exec_look]

theorem total_orFail (r : Except ε α) : Total (orFail r : Prog σ ε α) := by
  intro s
  simp [exec_orFail]

theorem total_fail (e : ε) : Total (fail e : Prog σ ε α) := total_orFail (.error e)

theorem total_modify (f : σ → σ) : Total (modifyState f : Prog σ ε Unit) := by
  intro s
  simp [exec_modify]

theorem total_bind {m : Prog σ ε α} {f : α → Prog σ ε β} (hm : Total m) (hf : ∀ a, Total (f a)) :
    Total (m >>= f) := by
  intro s hnone
  rcases bind_never.mp hnone with hfirst | ⟨a,s₁,-,hrest⟩
  · exact hm s hfirst
  · exact hf a s₁ hrest

theorem total_map {m : Prog σ ε α} (f : α → β) (hm : Total m) : Total (f <$> m) := by
  rw [← bind_pure_comp]
  exact total_bind hm fun _ => total_pure _

theorem total_attempt {ε' : Type} {m : Prog σ ε α} (hm : Total m) :
    Total (attempt m : Prog σ ε' (Except ε α)) := by
  intro s
  simpa [exec_attempt] using hm s

theorem bind_never_of_total {m : Prog σ ε α} {f : α → Prog σ ε β} (hf : ∀ a, Total (f a)) {s : σ} :
    (m >>= f).exec s = none ↔ m.exec s = none := by
  rw [bind_never]
  constructor
  · rintro (hfirst | ⟨a,s₁,-,hrest⟩)
    · exact hfirst
    · exact absurd hrest (hf a s₁)
  · exact fun h => .inl h

theorem map_never {m : Prog σ ε α} {f : α → β} {s : σ} :
    (f <$> m).exec s = none ↔ m.exec s = none := by
  rw [← bind_pure_comp]
  exact bind_never_of_total fun _ => total_pure _

/-- The program moves the state only along a relation, however it ends. -/
def Within (R : σ → σ → Prop) (m : Prog σ ε α) : Prop := ∀ s r s', m.exec s = some (r,s') → R s s'

section

variable {R : σ → σ → Prop} [IsTrans σ R] [Std.Refl R]

omit [IsTrans σ R] in
theorem within_pure (a : α) : Within R (pure a : Prog σ ε α) := by
  rintro s r s' h
  obtain ⟨rfl,rfl⟩ : _ = r ∧ s = s' := by simpa [exec_pure] using h
  exact Std.Refl.refl s

omit [IsTrans σ R] in
theorem within_look (f : σ → α) : Within R (look f : Prog σ ε α) := by
  rintro s r s' h
  obtain ⟨rfl,rfl⟩ : _ = r ∧ s = s' := by simpa [exec_look] using h
  exact Std.Refl.refl s

omit [IsTrans σ R] in
theorem within_orFail (x : Except ε α) : Within R (orFail x : Prog σ ε α) := by
  rintro s r s' h
  obtain ⟨rfl,rfl⟩ : _ = r ∧ s = s' := by simpa [exec_orFail] using h
  exact Std.Refl.refl s

omit [IsTrans σ R] in
theorem within_fail (e : ε) : Within R (fail e : Prog σ ε α) := within_orFail (.error e)

omit [Std.Refl R] in
theorem within_bind {m : Prog σ ε α} {f : α → Prog σ ε β} (hm : Within R m)
    (hf : ∀ a, Within R (f a)) : Within R (m >>= f) := by
  intro s r s' h
  cases r with
  | ok b =>
    obtain ⟨a,s₁,hfirst,hrest⟩ := bind_returns.mp h
    exact IsTrans.trans _ _ _ (hm _ _ _ hfirst) (hf a _ _ _ hrest)
  | error e =>
    rcases bind_fails.mp h with hfirst | ⟨a,s₁,hfirst,hrest⟩
    · exact hm _ _ _ hfirst
    · exact IsTrans.trans _ _ _ (hm _ _ _ hfirst) (hf a _ _ _ hrest)

theorem within_map {m : Prog σ ε α} (f : α → β) (hm : Within R m) : Within R (f <$> m) := by
  rw [← bind_pure_comp]
  exact within_bind hm fun _ => within_pure _

omit [IsTrans σ R] [Std.Refl R] in
theorem Within.mono {R' : σ → σ → Prop} {m : Prog σ ε α} (hm : Within R m)
    (h : ∀ s s', R s s' → R' s s') : Within R' m :=
  fun s r s' hexec => h s s' (hm s r s' hexec)

omit [IsTrans σ R] [Std.Refl R] in
theorem within_attempt {ε' : Type} {m : Prog σ ε α} (hm : Within R m) :
    Within R (attempt m : Prog σ ε' (Except ε α)) := by
  intro s r s' h
  cases r with
  | ok r => exact hm _ _ _ (attempt_returns.mp h)
  | error e => exact absurd h attempt_never_fails

end

theorem triple_bind {P : σ → Prop} {m : Prog σ ε α} {f : α → Prog σ ε β}
    {Q : α → σ → Prop} {Q' : β → σ → Prop} {R : ε → σ → Prop}
    (hm : Triple P m Q R) (hf : ∀ a, Triple (Q a) (f a) Q' R) : Triple P (m >>= f) Q' R := by
  intro s hs r s' he
  rw [exec_bind] at he
  cases hms : m.exec s with
  | none => simp [hms] at he
  | some p =>
    obtain ⟨r₁,s₁⟩ := p
    cases r₁ with
    | ok a =>
      simp only [hms] at he
      exact hf a s₁ (hm.ok hs hms) r s' he
    | error e =>
      simp only [hms,Option.some.injEq,Prod.mk.injEq] at he
      obtain ⟨rfl,rfl⟩ := he
      exact hm.error hs hms

theorem triple_map {P : σ → Prop} {m : Prog σ ε α} {f : α → β} {Q : α → σ → Prop}
    {Q' : β → σ → Prop} {R : ε → σ → Prop} (hm : Triple P m Q R)
    (hf : ∀ a s, Q a s → Q' (f a) s) : Triple P (f <$> m) Q' R := by
  rw [← bind_pure_comp]
  exact triple_bind hm fun a => triple_pure fun s hs => hf a s hs

theorem triple_handling {ε' : Type} {P : σ → Prop} {m : Prog σ ε α} {handler : ε → Prog σ ε' α}
    {Q : α → σ → Prop} {R : ε → σ → Prop} {R' : ε' → σ → Prop} (hm : Triple P m Q R)
    (hhandler : ∀ e, Triple (R e) (handler e) Q R') : Triple P (handling m handler) Q R' := by
  refine triple_bind (Q := fun r s => match r with
      | .ok a => Q a s
      | .error e => R e s)
    (triple_attempt hm (fun _ _ h => h) fun _ _ h => h) fun r => ?_
  cases r with
  | ok a => exact triple_pure fun _ h => h
  | error e => exact hhandler e

theorem triple_mapError {ε' : Type} {P : σ → Prop} {m : Prog σ ε α} {f : ε → ε'} {Q : α → σ → Prop}
    {R : ε' → σ → Prop} (hm : Triple P m Q fun e s => R (f e) s) : Triple P (mapError f m) Q R :=
  triple_handling hm fun _ => triple_fail fun _ h => h

theorem total_handling {ε' : Type} {m : Prog σ ε α} {handler : ε → Prog σ ε' α} (hm : Total m)
    (hhandler : ∀ e, Total (handler e)) : Total (handling m handler) := by
  refine total_bind (total_attempt hm) fun r => ?_
  cases r with
  | ok a => exact total_pure a
  | error e => exact hhandler e

theorem total_mapError {ε' : Type} {m : Prog σ ε α} (f : ε → ε') (hm : Total m) : Total (mapError f m) :=
  total_handling hm fun _ => total_fail _

/-- A fact that the precondition gives may be assumed of the program. -/
theorem triple_assume {P : σ → Prop} {m : Prog σ ε α} {Q : α → σ → Prop} {R : ε → σ → Prop}
    {φ : Prop} (hp : ∀ s, P s → φ) (h : φ → Triple P m Q R) : Triple P m Q R :=
  fun s hs => h (hp s hs) s hs

end Prog
end North
