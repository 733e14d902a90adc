import North.Lib.Watermark

/-! Rows numbered `1, 2, 3, ..` in the order in which they were added. -/
namespace North

variable {α : Type} {seq : α → ℕ} {xs : List α} {x y : α}

def Numbered (seq : α → ℕ) (xs : List α) : Prop := xs.map seq = List.range' 1 xs.length

namespace Numbered

theorem nil : Numbered seq [] := rfl

theorem snoc (h : Numbered seq xs) (hx : seq x = xs.length+1) : Numbered seq (xs ++ [x]) := by
  unfold Numbered
  rw [List.map_append,h,List.length_append,List.length_singleton,List.range'_concat]
  simp [hx,Nat.add_comm]

theorem positive (h : Numbered seq xs) (hx : x ∈ xs) : 0 < seq x := by
  have hmem : seq x ∈ List.range' 1 xs.length := h ▸ List.mem_map_of_mem hx
  have hbounds := List.mem_range'_1.mp hmem
  omega

theorem le_length (h : Numbered seq xs) (hx : x ∈ xs) : seq x ≤ xs.length := by
  have hmem : seq x ∈ List.range' 1 xs.length := h ▸ List.mem_map_of_mem hx
  have hbounds := List.mem_range'_1.mp hmem
  omega

theorem exists_seq (h : Numbered seq xs) {n : ℕ} (hn : 0 < n) (hle : n ≤ xs.length) :
    ∃ x ∈ xs, seq x = n := by
  have hmem : n ∈ xs.map seq := by
    rw [h,List.mem_range'_1]
    omega
  exact List.mem_map.mp hmem

theorem injective (h : Numbered seq xs) (hx : x ∈ xs) (hy : y ∈ xs) (heq : seq x = seq y) : x = y := by
  have hnodup : (xs.map seq).Nodup := by
    rw [h]
    exact List.nodup_range'
  exact List.inj_on_of_nodup_map hnodup hx hy heq

/-- The first row that is not done holds the watermark back. -/
theorem watermark_of_first {done : α → Prop} (h : Numbered seq xs) (hx : x ∈ xs) (hopen : ¬ done x)
    (hfirst : ∀ y ∈ xs, ¬ done y → seq x ≤ seq y) :
    Watermark (fun n => ∃ y ∈ xs, seq y = n ∧ done y) (seq x-1) := by
  have hpos := h.positive hx
  have hle := h.le_length hx
  rw [Watermark.iff_next]
  constructor
  · intro n hn hlt
    obtain ⟨y,hy,rfl⟩ := h.exists_seq hn (by omega)
    refine ⟨y,hy,rfl,?_⟩
    by_contra hnot
    have := hfirst y hy hnot
    omega
  · rintro ⟨y,hy,hseq,hdone⟩
    have hxy : y = x := h.injective hy hx (by omega)
    exact hopen (hxy ▸ hdone)

theorem watermark_of_done {done : α → Prop} (h : Numbered seq xs) (hall : ∀ y ∈ xs, done y) :
    Watermark (fun n => ∃ y ∈ xs, seq y = n ∧ done y) xs.length := by
  rw [Watermark.iff_next]
  constructor
  · intro n hn hle
    obtain ⟨y,hy,rfl⟩ := h.exists_seq hn hle
    exact ⟨y,hy,rfl,hall y hy⟩
  · rintro ⟨y,hy,hseq,-⟩
    have := h.le_length hy
    omega

theorem watermark_le {done : α → Prop} {n : ℕ} (h : Numbered seq xs)
    (hw : Watermark (fun n => ∃ y ∈ xs, seq y = n ∧ done y) n) : n ≤ xs.length := by
  rcases Nat.eq_zero_or_pos n with rfl | hpos
  · omega
  · obtain ⟨y,hy,rfl,-⟩ := hw.all hpos le_rfl
    exact h.le_length hy

theorem done_of_le {done : α → Prop} {n : ℕ} (h : Numbered seq xs)
    (hw : Watermark (fun n => ∃ y ∈ xs, seq y = n ∧ done y) n) (hx : x ∈ xs) (hle : seq x ≤ n) :
    done x := by
  obtain ⟨y,hy,hseq,hdone⟩ := hw.all (h.positive hx) hle
  have hyx : y = x := h.injective hy hx hseq
  exact hyx ▸ hdone

end Numbered
end North
