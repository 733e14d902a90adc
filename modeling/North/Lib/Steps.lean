import Mathlib.Tactic.Common

/-! Machines whose steps are guarded: an act is possible in a state or not. What a run
reaches, the invariant rule, and the rule for runs whose steps meet a condition. -/
namespace North
namespace Steps

variable {σ α : Type} {step : σ → α → Option σ}

/-- The state after a list of acts, if each is possible in its turn. -/
def run (step : σ → α → Option σ) : σ → List α → Option σ
  | s, [] => some s
  | s, act::acts => (step s act).bind fun s' => run step s' acts

@[simp] theorem run_nil (s : σ) : run step s [] = some s := rfl

theorem run_cons {s s' : σ} {act : α} {acts : List α} :
    run step s (act::acts) = some s' ↔ ∃ s₁, step s act = some s₁ ∧ run step s₁ acts = some s' :=
  Option.bind_eq_some_iff

theorem run_append {s s' : σ} {acts more : List α} :
    run step s (acts ++ more) = some s' ↔
      ∃ s₁, run step s acts = some s₁ ∧ run step s₁ more = some s' := by
  induction acts generalizing s with
  | nil => simp
  | cons act acts ih =>
    simp only [List.cons_append,run_cons,ih]
    constructor
    · rintro ⟨s₁,hstep,s₂,hrun,hmore⟩
      exact ⟨s₂,⟨s₁,hstep,hrun⟩,hmore⟩
    · rintro ⟨s₂,⟨s₁,hstep,hrun⟩,hmore⟩
      exact ⟨s₁,hstep,s₂,hrun,hmore⟩

/-- Every step of a run meets a condition on the state before it. -/
def Along (step : σ → α → Option σ) (ok : σ → α → Prop) : σ → List α → Prop
  | _, [] => True
  | s, act::acts => ok s act ∧ ∀ s', step s act = some s' → Along step ok s' acts

/-- What every step keeps under the condition holds after a run that meets it. -/
theorem run_along {P : σ → Prop} {ok : σ → α → Prop}
    (keeps : ∀ s act s', P s → ok s act → step s act = some s' → P s') {s s' : σ} {acts : List α}
    (hs : P s) (hok : Along step ok s acts) (h : run step s acts = some s') : P s' := by
  induction acts generalizing s with
  | nil =>
    cases h
    exact hs
  | cons act acts ih =>
    obtain ⟨s₁,hstep,hrun⟩ := run_cons.mp h
    exact ih (keeps s act s₁ hs hok.1 hstep) (hok.2 s₁ hstep) hrun

theorem along_of_forall {ok : σ → α → Prop} {acts : List α} (h : ∀ act ∈ acts, ∀ s, ok s act) (s : σ) :
    Along step ok s acts := by
  induction acts generalizing s with
  | nil => trivial
  | cons act acts ih =>
    exact ⟨h act List.mem_cons_self s,fun s' _ => ih (fun a ha => h a (List.mem_cons_of_mem act ha)) s'⟩

theorem run_invariant {P : σ → Prop} (keeps : ∀ s act s', P s → step s act = some s' → P s')
    {s s' : σ} {acts : List α} (hs : P s) (h : run step s acts = some s') : P s' :=
  run_along (fun s act s' hs (_ : True) => keeps s act s' hs) hs
    (along_of_forall (fun _ _ _ => trivial) s) h

/-- When the condition says which steps are possible, a run goes through exactly when every
step of it meets the condition. -/
theorem possible_iff_along {ok : σ → α → Prop} {acts : List α}
    (possible : ∀ act ∈ acts, ∀ s, (∃ s', step s act = some s') ↔ ok s act) (s : σ) :
    (∃ s', run step s acts = some s') ↔ Along step ok s acts := by
  induction acts generalizing s with
  | nil => simp [Along]
  | cons act acts ih =>
    have hrest := ih fun a ha => possible a (List.mem_cons_of_mem act ha)
    constructor
    · rintro ⟨s',hrun⟩
      obtain ⟨s₁,hstep,hrun⟩ := run_cons.mp hrun
      refine ⟨(possible act List.mem_cons_self s).mp ⟨s₁,hstep⟩,fun s₂ hstep₂ => ?_⟩
      obtain rfl := Option.some.inj (hstep.symm.trans hstep₂)
      exact (hrest s₁).mp ⟨s',hrun⟩
    · rintro ⟨hok,halong⟩
      obtain ⟨s₁,hstep⟩ := (possible act List.mem_cons_self s).mpr hok
      obtain ⟨s',hrun⟩ := (hrest s₁).mpr (halong s₁ hstep)
      exact ⟨s',run_cons.mpr ⟨s₁,hstep,hrun⟩⟩

/-- When the condition is just what a step needs to keep a property, the property holds all
along a run exactly when every step meets the condition. -/
theorem always_iff_along {I P : σ → Prop} {ok : σ → α → Prop}
    (invariant : ∀ s act s', I s → step s act = some s' → I s')
    (keeps : ∀ s act s', I s → P s → ok s act → step s act = some s' → P s')
    (needs : ∀ s act, I s → P s → (∀ s', step s act = some s' → P s') → ok s act)
    {s : σ} (hI : I s) (hP : P s) (acts : List α) :
    (∀ before s', before <+: acts → run step s before = some s' → P s') ↔ Along step ok s acts := by
  induction acts generalizing s with
  | nil =>
    simp only [List.prefix_nil,Along,iff_true]
    rintro before s' rfl hrun
    cases hrun
    exact hP
  | cons act acts ih =>
    constructor
    · intro h
      have hfirst : ∀ s', step s act = some s' → P s' := fun s' hstep =>
        h [act] s' (by simp) (run_cons.mpr ⟨s',hstep,rfl⟩)
      refine ⟨needs s act hI hP hfirst,fun s₁ hstep => ?_⟩
      refine (ih (invariant s act s₁ hI hstep) (hfirst s₁ hstep)).mp fun before s' hpre hrun => ?_
      exact h (act::before) s' (List.cons_prefix_cons.mpr ⟨rfl,hpre⟩) (run_cons.mpr ⟨s₁,hstep,hrun⟩)
    · rintro ⟨hok,hrest⟩ before s' hpre hrun
      cases before with
      | nil =>
        cases hrun
        exact hP
      | cons first before =>
        obtain ⟨rfl,hbefore⟩ := List.cons_prefix_cons.mp hpre
        obtain ⟨s₁,hstep,hrun⟩ := run_cons.mp hrun
        exact (ih (invariant s first s₁ hI hstep) (keeps s first s₁ hI hP hok hstep)).mpr
          (hrest s₁ hstep) before s' hbefore hrun

/-- When each step keeps a property just under the condition, and never restores it, the
property holds after a run exactly when every step of the run meets the condition. -/
theorem run_iff_along {I P : σ → Prop} {ok : σ → α → Prop}
    (invariant : ∀ s act s', I s → step s act = some s' → I s')
    (exact : ∀ s act s', I s → step s act = some s' → (P s' ↔ P s ∧ ok s act)) {s s' : σ}
    {acts : List α} (hI : I s) (hP : P s) (h : run step s acts = some s') :
    P s' ↔ Along step ok s acts := by
  have hgeneral : P s' ↔ P s ∧ Along step ok s acts := by
    clear hP
    induction acts generalizing s with
    | nil =>
      cases h
      simp [Along]
    | cons act acts ih =>
      obtain ⟨s₁,hstep,hrun⟩ := run_cons.mp h
      rw [ih (invariant s act s₁ hI hstep) hrun,exact s act s₁ hI hstep]
      simp [Along,hstep,and_assoc]
  simp [hgeneral,hP]

def Reaches (step : σ → α → Option σ) (s s' : σ) : Prop := ∃ acts, run step s acts = some s'

namespace Reaches

theorem refl (s : σ) : Reaches step s s := ⟨[],rfl⟩

theorem trans {s s₁ s' : σ} (h : Reaches step s s₁) (h' : Reaches step s₁ s') : Reaches step s s' := by
  obtain ⟨acts,hacts⟩ := h
  obtain ⟨more,hmore⟩ := h'
  exact ⟨acts ++ more,run_append.mpr ⟨s₁,hacts,hmore⟩⟩

theorem single {s s' : σ} (act : α) (h : step s act = some s') : Reaches step s s' :=
  ⟨[act],run_cons.mpr ⟨s',h,rfl⟩⟩

theorem head {s s₁ s' : σ} (act : α) (h : step s act = some s₁) (h' : Reaches step s₁ s') :
    Reaches step s s' :=
  (single act h).trans h'

end Reaches

end Steps
end North
