import Mathlib.Order.Bounds.Basic
import Mathlib.Data.List.Basic
import Mathlib.Data.List.Nodup
import Mathlib.Data.List.Sort
import Mathlib.Data.List.Destutter
import North.Lib.Machine

/-! Watermarks: the largest prefix `1..n` of a set of sequence numbers, the loop that
advances one over saturating machine integers, and the canonical pair of a watermark
with the sorted list of what lies above it. -/
namespace North

/-- `n` is the largest number such that all of `1..n` satisfy `p`. -/
def Watermark (p : ℕ → Prop) (n : ℕ) : Prop := IsGreatest {n | ∀ m, 0 < m → m ≤ n → p m} n

namespace Watermark

open Machine

variable {p q : ℕ → Prop} {n m : ℕ}

theorem iff_next : Watermark p n ↔ (∀ m, 0 < m → m ≤ n → p m) ∧ ¬ p (n+1) := by
  constructor
  · rintro ⟨hall,hmax⟩
    refine ⟨hall,fun hnext => ?_⟩
    have hle : n+1 ≤ n := hmax fun m hm hle => by
      rcases Nat.lt_or_ge n m with h | h
      · obtain rfl : m = n+1 := by omega
        exact hnext
      · exact hall m hm h
    omega
  · rintro ⟨hall,hnext⟩
    refine ⟨hall,fun k hk => ?_⟩
    by_contra hlt
    exact hnext (hk (n+1) (by omega) (by omega))

theorem all (h : Watermark p n) (hm : 0 < m) (hle : m ≤ n) : p m := h.1 m hm hle

theorem next (h : Watermark p n) : ¬ p (n+1) := (iff_next.mp h).2

theorem unique (h : Watermark p n) (h' : Watermark p m) : n = m := IsGreatest.unique h h'

theorem congr (h : Watermark p n) (hpq : ∀ m, 0 < m → (p m ↔ q m)) : Watermark q n := by
  rw [iff_next] at h ⊢
  exact ⟨fun m hm hle => (hpq m hm).mp (h.1 m hm hle),fun hq => h.2 ((hpq _ (by omega)).mpr hq)⟩

/-- The loop `while marked(cursor + 1) { cursor += 1 }` over saturating integers, with
`fuel` turns left. Every turn but a spin at the largest value meets a new mark, so
fuel above the number of marks runs out only when the loop never ends. -/
def advance (bound : ℕ) (marked : ℕ → Bool) : ℕ → ℕ → Option ℕ
  | 0, _ => none
  | fuel+1, cursor =>
    let next := saturatingSucc bound cursor
    if marked next then advance bound marked fuel next else some cursor

variable {bound fuel cursor result : ℕ} {marked : ℕ → Bool}

/-- A cursor at the bound finds its own mark again for ever, or stays. -/
theorem advance_bound (h : advance bound marked fuel bound = some result) :
    result = bound ∧ marked bound = false := by
  induction fuel with
  | zero => simp [advance] at h
  | succ fuel ih =>
    have hnext : saturatingSucc bound bound = bound := by
      simp only [saturatingSucc]
      omega
    simp only [advance,hnext] at h
    by_cases hm : marked bound = true
    · exact ih (by simpa [hm] using h)
    · exact ⟨by simpa [hm] using h.symm,by simpa using hm⟩

theorem advance_marked (h : advance bound marked fuel cursor = some result) :
    ∀ m, cursor < m → m ≤ result → marked m = true := by
  induction fuel generalizing cursor with
  | zero => simp [advance] at h
  | succ fuel ih =>
    intro m hlo hhi
    simp only [advance] at h
    by_cases hm : marked (saturatingSucc bound cursor) = true
    · simp only [hm,if_true] at h
      rcases Nat.lt_or_ge (saturatingSucc bound cursor) m with hgt | hge
      · exact ih h m hgt hhi
      · have hnext : saturatingSucc bound cursor = m := by
          simp only [saturatingSucc] at hge ⊢
          omega
        rwa [hnext] at hm
    · obtain rfl : cursor = result := by simpa [hm] using h
      omega

/-- An advance that ends has passed over marks only and stopped below the bound. -/
theorem advance_spec (hc : cursor < bound) (h : advance bound marked fuel cursor = some result) :
    cursor ≤ result ∧ result < bound ∧ (∀ m, cursor < m → m ≤ result → marked m = true) ∧
      marked (result+1) = false := by
  induction fuel generalizing cursor with
  | zero => simp [advance] at h
  | succ fuel ih =>
    rw [advance,saturatingSucc_of_lt hc] at h
    by_cases hm : marked (cursor+1) = true
    · simp only [hm,if_true] at h
      have hlt : cursor+1 < bound := by
        by_contra hb
        obtain rfl : bound = cursor+1 := by omega
        simp [(advance_bound h).2] at hm
      obtain ⟨hle,hb,hall,hnext⟩ := ih hlt h
      refine ⟨by omega,hb,fun m hlo hhi => ?_,hnext⟩
      rcases Nat.lt_or_ge (cursor+1) m with hgt | hge
      · exact hall m hgt hhi
      · obtain rfl : m = cursor+1 := by omega
        exact hm
    · simp only [hm] at h
      simp only [Bool.false_eq_true,if_false,Option.some.injEq] at h
      subst h
      exact ⟨le_rfl,hc,fun m hlo hhi => by omega,by simpa using hm⟩

theorem advance_ends {gap : ℕ} (marks : List ℕ)
    (hmarks : ∀ m, marked m = true → cursor < m → m ∈ marks)
    (hgap : marked gap = false) (hb : gap ≤ bound) (hc : cursor < gap) :
    ∃ result, advance bound marked (marks.length+1) cursor = some result := by
  induction hn : marks.length generalizing cursor marks with
  | zero =>
    have hnext : marked (cursor+1) = false := by
      by_contra hm
      have hmem := hmarks _ (by simpa using hm) (by omega)
      simp [List.length_eq_zero_iff.mp hn] at hmem
    exact ⟨cursor,by simp [advance,saturatingSucc_of_lt (hc.trans_le hb),hnext]⟩
  | succ n ih =>
    by_cases hm : marked (cursor+1) = true
    · have hlt : cursor+1 < gap := by
        rcases Nat.lt_or_ge (cursor+1) gap with h | h
        · exact h
        · obtain rfl : gap = cursor+1 := by omega
          simp [hm] at hgap
      have hmem := hmarks _ hm (by omega)
      have hrest : ∀ m, marked m = true → cursor+1 < m → m ∈ marks.erase (cursor+1) :=
        fun m hmm hgt => (List.mem_erase_of_ne (by omega)).mpr (hmarks m hmm (by omega))
      obtain ⟨result,hr⟩ := ih _ hrest hlt (by rw [List.length_erase_of_mem hmem]; omega)
      exact ⟨result,by rw [advance,saturatingSucc_of_lt (hc.trans_le hb)]; simpa [hm] using hr⟩
    · exact ⟨cursor,by rw [advance,saturatingSucc_of_lt (hc.trans_le hb)]; simp [hm]⟩

/-- The largest place is marked, and so is every place between the cursor and it. -/
def Full (bound : ℕ) (marked : ℕ → Bool) (cursor : ℕ) : Prop :=
  marked bound = true ∧ ∀ m, cursor < m → m ≤ bound → marked m = true

/-- The loop ends, after however many turns. -/
def Ends (bound : ℕ) (marked : ℕ → Bool) (cursor : ℕ) : Prop :=
  ∃ fuel result, advance bound marked fuel cursor = some result

/-- A cursor with no gap ahead runs up to the bound and turns there for ever. -/
theorem Full.never (h : Full bound marked cursor) (fuel : ℕ) :
    advance bound marked fuel cursor = none := by
  induction fuel generalizing cursor with
  | zero => rfl
  | succ fuel ih =>
    have hnext : marked (saturatingSucc bound cursor) = true := by
      rcases Nat.lt_or_ge cursor bound with hlt | hge
      · rw [saturatingSucc_of_lt hlt]
        exact h.2 _ (by omega) hlt
      · have hstay : saturatingSucc bound cursor = bound := by
          simp only [saturatingSucc]
          omega
        rw [hstay]
        exact h.1
    have hfull : Full bound marked (saturatingSucc bound cursor) := by
      refine ⟨h.1,fun m hlo hhi => h.2 m ?_ hhi⟩
      simp only [saturatingSucc] at hlo
      omega
    simp only [advance,hnext,if_true]
    exact ih hfull

theorem ends_of_gap (marks : List ℕ) (hmarks : ∀ m, marked m = true → m ∈ marks)
    (h : ¬ Full bound marked cursor) :
    ∃ result, advance bound marked (marks.length+1) cursor = some result := by
  by_cases hgap : ∃ m, cursor < m ∧ m ≤ bound ∧ marked m = false
  · obtain ⟨gap,hc,hb,hm⟩ := hgap
    exact advance_ends marks (fun m hmm _ => hmarks m hmm) hm hb hc
  · have hall : ∀ m, cursor < m → m ≤ bound → marked m = true := by
      intro m hlo hhi
      by_contra hm
      exact hgap ⟨m,hlo,hhi,by simpa using hm⟩
    have hb : marked bound = false := by
      by_contra hb
      exact h ⟨by simpa using hb,hall⟩
    have hge : bound ≤ cursor := by
      by_contra hlt
      rw [hall bound (by omega) le_rfl] at hb
      simp at hb
    have hstay : saturatingSucc bound cursor = bound := by
      simp only [saturatingSucc]
      omega
    exact ⟨cursor,by simp [advance,hstay,hb]⟩

/-- With more turns than marks the loop runs out only when it has no end at all, and it
has none just when no gap is left ahead of it. -/
theorem advance_none_iff (marks : List ℕ) (hmarks : ∀ m, marked m = true → m ∈ marks) :
    advance bound marked (marks.length+1) cursor = none ↔ Full bound marked cursor := by
  constructor
  · intro h
    by_contra hgap
    obtain ⟨result,hr⟩ := ends_of_gap marks hmarks hgap
    simp [h] at hr
  · exact fun h => h.never _

theorem ends_iff (marks : List ℕ) (hmarks : ∀ m, marked m = true → m ∈ marks) :
    Ends bound marked cursor ↔ ¬ Full bound marked cursor := by
  constructor
  · rintro ⟨fuel,result,h⟩ hfull
    simp [hfull.never fuel] at h
  · intro h
    obtain ⟨result,hr⟩ := ends_of_gap marks hmarks h
    exact ⟨_,result,hr⟩

/-- Advancing from a cursor below which everything is marked gives the watermark. -/
theorem of_advance (hmark : ∀ m, marked m = true → p m)
    (hmark' : ∀ m, cursor < m → p m → marked m = true)
    (hc : cursor < bound) (hbelow : ∀ m, 0 < m → m ≤ cursor → p m)
    (h : advance bound marked fuel cursor = some result) : Watermark p result := by
  obtain ⟨hle,-,hall,hnext⟩ := advance_spec hc h
  rw [iff_next]
  refine ⟨fun m hm hmr => ?_,fun hp => ?_⟩
  · rcases Nat.lt_or_ge cursor m with hgt | hge
    · exact hmark m (hall m hgt hmr)
    · exact hbelow m hm hge
  · have := hmark' _ (by omega) hp
    simp [hnext] at this

end Watermark

/-- `sort_unstable` followed by `dedup`. -/
def sortDedup (xs : List ℕ) : List ℕ := (xs.insertionSort (· ≤ ·)).destutter (· ≠ ·)

theorem sortDedup_eq (xs : List ℕ) : sortDedup xs = (xs.insertionSort (· ≤ ·)).dedup :=
  (List.pairwise_insertionSort (· ≤ ·) xs).destutter_eq_dedup

@[simp] theorem mem_sortDedup {xs : List ℕ} {n : ℕ} : n ∈ sortDedup xs ↔ n ∈ xs := by
  rw [sortDedup_eq,List.mem_dedup,List.mem_insertionSort]

theorem sortDedup_ascending (xs : List ℕ) : (sortDedup xs).Pairwise (· < ·) := by
  have hle : (sortDedup xs).Pairwise (· ≤ ·) :=
    (List.pairwise_insertionSort (· ≤ ·) xs).sublist (List.destutter_sublist _ _)
  have hne : (sortDedup xs).Pairwise (· ≠ ·) := by
    rw [sortDedup_eq]
    exact List.nodup_dedup _
  exact (hle.and hne).imp fun h => lt_of_le_of_ne h.1 h.2

/-- The watermark of `p` together with, in order, all that satisfies `p` above it. -/
structure Canonical (p : ℕ → Prop) (through : ℕ) (sparse : List ℕ) : Prop where
  watermark : Watermark p through
  ascending : sparse.Pairwise (· < ·)
  above : ∀ m, m ∈ sparse ↔ through < m ∧ p m

namespace Canonical

variable {p q : ℕ → Prop} {through : ℕ} {sparse : List ℕ}

theorem iff_covered (h : Canonical p through sparse) {m : ℕ} (hm : 0 < m) :
    p m ↔ m ≤ through ∨ m ∈ sparse := by
  constructor
  · intro hp
    rcases Nat.lt_or_ge through m with hlt | hle
    · exact .inr ((h.above m).mpr ⟨hlt,hp⟩)
    · exact .inl hle
  · rintro (hle | hmem)
    · exact h.watermark.all hm hle
    · exact ((h.above m).mp hmem).2

theorem congr (h : Canonical p through sparse) (hpq : ∀ m, 0 < m → (p m ↔ q m)) :
    Canonical q through sparse :=
  ⟨h.watermark.congr hpq,h.ascending,fun m => (h.above m).trans
    (and_congr_right fun hlt => hpq m (by omega))⟩

/-- A sorted and filtered list of what lies above the watermark is canonical. -/
theorem of_sortDedup {xs : List ℕ} (hw : Watermark p through)
    (hxs : ∀ m, through < m → (m ∈ xs ↔ p m)) :
    Canonical p through ((sortDedup xs).filter (through < ·)) where
  watermark := hw
  ascending := (sortDedup_ascending xs).filter _
  above m := by
    simp only [List.mem_filter,mem_sortDedup,decide_eq_true_eq]
    constructor
    · exact fun h => ⟨h.2,(hxs m h.2).mp h.1⟩
    · exact fun h => ⟨(hxs m h.1).mpr h.2,h.1⟩

end Canonical
end North
