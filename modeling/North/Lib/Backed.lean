import North.Lib.Prog
import Mathlib.Data.Set.Basic

/-! Programs whose results are backed by the state they end in. What backs a result is a
property that no step takes back, so what backed the results so far still does at the end,
whether the program returns or fails. -/
namespace North
namespace Prog

variable {σ ε α β κ : Type} {I : σ → Prop} {P : σ → κ → Prop} {K : Set κ}

/-- From a state that meets `I` and backs `K`, the program ends in one that does so too and
backs what the result carries. -/
def Backs (I : σ → Prop) (P : σ → κ → Prop) (K : Set κ) (m : Prog σ ε α) (out : α → List κ) : Prop :=
  Triple (fun s => I s ∧ ∀ k ∈ K, P s k) m (fun a s => I s ∧ ∀ k, k ∈ K ∨ k ∈ out a → P s k)
    fun _ s => I s ∧ ∀ k ∈ K, P s k

/-- The state goes on: it keeps the invariant and all it backs. -/
def Onward (I : σ → Prop) (P : σ → κ → Prop) (s s' : σ) : Prop :=
  (I s → I s') ∧ ∀ k, P s k → P s' k

instance : IsTrans σ (Onward I P) :=
  ⟨fun _ _ _ h h' => ⟨fun hi => h'.1 (h.1 hi),fun k hk => h'.2 k (h.2 k hk)⟩⟩

instance : Std.Refl (Onward I P) := ⟨fun _ => ⟨id,fun _ => id⟩⟩

/-- A program that goes on and backs what its result carries. -/
theorem backs_of_onward {m : Prog σ ε α} {out : α → List κ} (hm : Within (Onward I P) m)
    (hout : ∀ s a s', I s → m.exec s = some (.ok a,s') → ∀ k ∈ out a, P s' k) : Backs I P K m out := by
  rintro s ⟨hi,hk⟩ r s' hexec
  obtain ⟨hinv,hkept⟩ := hm s r s' hexec
  cases r with
  | ok a =>
    refine ⟨hinv hi,fun k h => ?_⟩
    rcases h with h | h
    · exact hkept k (hk k h)
    · exact hout s a s' hi hexec k h
  | error e => exact ⟨hinv hi,fun k h => hkept k (hk k h)⟩

theorem backs_silent {m : Prog σ ε α} (hm : Within (Onward I P) m) : Backs I P K m fun _ => [] :=
  backs_of_onward hm (by simp)

theorem Backs.mono {m : Prog σ ε α} {out out' : α → List κ} (hm : Backs I P K m out)
    (h : ∀ a, ∀ k ∈ out' a, k ∈ K ∨ k ∈ out a) : Backs I P K m out' :=
  hm.post (fun a _ hs => ⟨hs.1,fun k hk => hs.2 k (hk.elim .inl (h a k))⟩) fun _ _ hs => hs

theorem Backs.bind {m : Prog σ ε α} {f : α → Prog σ ε β} {out : α → List κ} {out' : β → List κ}
    (hm : Backs I P K m out) (hf : ∀ a, Backs I P (K ∪ {k | k ∈ out a}) (f a) out') :
    Backs I P K (m >>= f) out' := by
  refine triple_bind hm fun a => ((hf a).post (fun b s hs => ?_) fun e s hs => ?_).pre fun s hs => ?_
  · exact ⟨hs.1,fun k hk => hs.2 k (hk.imp_left .inl)⟩
  · exact ⟨hs.1,fun k hk => hs.2 k (.inl hk)⟩
  · exact hs

theorem Backs.after {m : Prog σ ε α} {f : α → Prog σ ε β} {out : β → List κ}
    (hm : Backs I P K m fun _ => []) (hf : ∀ a, Backs I P K (f a) out) : Backs I P K (m >>= f) out := by
  refine triple_bind hm fun a => (hf a).pre fun s hs => ⟨hs.1,fun k hk => hs.2 k (.inl hk)⟩

theorem backs_pure {a : α} {out : α → List κ} (h : ∀ k ∈ out a, k ∈ K) :
    Backs I P K (pure a : Prog σ ε α) out :=
  triple_pure fun _ hs => ⟨hs.1,fun k hk => hs.2 k (hk.elim id (h k))⟩

theorem backs_look {f : σ → α} {out : α → List κ} (h : ∀ s, I s → ∀ k ∈ out (f s), P s k) :
    Backs I P K (look f : Prog σ ε α) out :=
  triple_look fun s hs => ⟨hs.1,fun k hk => hk.elim (hs.2 k) (h s hs.1 k)⟩

theorem backs_fail (e : ε) (out : α → List κ) : Backs I P K (fail e : Prog σ ε α) out :=
  triple_fail fun _ hs => hs

theorem backs_attempt {ε' : Type} {m : Prog σ ε α} {out : α → List κ} (h : Backs I P K m out) :
    Backs I P K (attempt m : Prog σ ε' (Except ε α)) fun
      | .ok a => out a
      | .error _ => [] :=
  triple_attempt h (fun _ _ hs => hs) fun _ _ hs => ⟨hs.1,by simpa using hs.2⟩

end Prog
end North
