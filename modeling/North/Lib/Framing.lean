import Mathlib.Data.Set.Prod
import Mathlib.Data.List.Basic
import Mathlib.Tactic.Common

/-! Encodings that show where they end: of the values in a domain, the one that was encoded and
all that follows it can be told from a list that begins with the encoding. Fields of a fixed
width are such encodings, and so are fields with their length in front, one after another. -/
namespace North

/-- A list begins with the encoding of one value of the domain at most. -/
def Framed {α β : Type} (D : Set α) (encode : α → List β) : Prop :=
  ∀ x ∈ D, ∀ y ∈ D, ∀ rest rest', encode x ++ rest = encode y ++ rest' → x = y ∧ rest = rest'

namespace Framed

variable {α β γ : Type} {D : Set α} {E : Set γ} {encode : α → List β} {encode' : γ → List β}

theorem injOn (h : Framed D encode) : Set.InjOn encode D := by
  intro x hx y hy hxy
  exact (h x hx y hy [] [] (by rw [hxy])).1

theorem of_width {width : ℕ} (hwidth : ∀ x ∈ D, (encode x).length = width)
    (hinj : Set.InjOn encode D) : Framed D encode := by
  intro x hx y hy rest rest' h
  obtain ⟨hxy,hrest⟩ := List.append_inj h ((hwidth x hx).trans (hwidth y hy).symm)
  exact ⟨hinj hx hy hxy,hrest⟩

theorem append (h : Framed D encode) (h' : Framed E encode') :
    Framed (D ×ˢ E) fun p => encode p.1 ++ encode' p.2 := by
  intro x hx y hy rest rest' heq
  rw [List.append_assoc,List.append_assoc] at heq
  obtain ⟨hfirst,heq⟩ := h x.1 hx.1 y.1 hy.1 _ _ heq
  obtain ⟨hsecond,heq⟩ := h' x.2 hx.2 y.2 hy.2 _ _ heq
  exact ⟨Prod.ext hfirst hsecond,heq⟩

/-- A list with its length in front. -/
theorem of_length {L : Set ℕ} {length : ℕ → List β} (h : Framed L length) :
    Framed {xs : List β | xs.length ∈ L} fun xs => length xs.length ++ xs := by
  intro xs hxs ys hys rest rest' heq
  rw [List.append_assoc,List.append_assoc] at heq
  obtain ⟨hlength,heq⟩ := h xs.length hxs ys.length hys _ _ heq
  exact List.append_inj heq hlength

/-- A value told by what is encoded of it. -/
theorem comp {view : γ → α} (h : Framed D encode) (hview : Set.InjOn view E)
    (hmaps : ∀ c ∈ E, view c ∈ D) : Framed E fun c => encode (view c) := by
  intro x hx y hy rest rest' heq
  obtain ⟨hsame,hrest⟩ := h _ (hmaps x hx) _ (hmaps y hy) _ _ heq
  exact ⟨hview hx hy hsame,hrest⟩

end Framed
end North
