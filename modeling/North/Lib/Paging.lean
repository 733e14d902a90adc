import North.Lib.Steps
import Mathlib.Data.List.Nodup
import Mathlib.Data.List.Infix
import Mathlib.Tactic.Common

/-! A listing that is read page by page, each page at the offset the page before it named,
while rows arrive at its end and rows are deleted from it between the reads. -/
namespace North
namespace Paging

variable {α : Type}

/-- One page: a row more than the limit is looked at, to know whether another page follows. -/
def page (rows : List α) (offset limit : ℕ) : List α × Option ℕ :=
  let window := (rows.drop offset).take (limit+1)
  (window.take limit,if limit < window.length then some (offset+limit) else none)

theorem page_rows (rows : List α) (offset limit : ℕ) :
    (page rows offset limit).1 = (rows.drop offset).take limit := by
  simp [page,List.take_take]

theorem page_next (rows : List α) (offset limit : ℕ) :
    (page rows offset limit).2 = if offset+limit < rows.length then some (offset+limit) else none := by
  have hiff : limit < ((rows.drop offset).take (limit+1)).length ↔ offset+limit < rows.length := by
    rw [List.length_take,List.length_drop]
    omega
  simp only [page,hiff]

/-- What a client has read, where it reads next, and how often it read. -/
structure Reader (α : Type) where
  collected : List α := []
  next : Option ℕ := some 0
  reads : ℕ := 0

def Reader.take (r : Reader α) (page : List α × Option ℕ) : Reader α :=
  ⟨r.collected ++ page.1,page.2,r.reads+1⟩

/-- What holds of a client through all changes of the listing: of the rows it has read, those
still listed stand in the order of the listing, before the offset it reads at next. -/
structure Reading (lt : α → α → Prop) [DecidableEq α] (rows : List α) (r : Reader α) : Prop where
  ascending : rows.Pairwise lt
  once : r.collected.Nodup
  ahead : ∀ offset, r.next = some offset → ∀ x ∈ rows.drop offset, x ∉ r.collected
  ordered : (r.collected.filter fun x => decide (x ∈ rows)).Pairwise lt

/-- What was read is all that stands before the offset. -/
def Covered (rows : List α) (r : Reader α) : Prop :=
  ∀ offset, r.next = some offset → offset ≤ rows.length ∧ rows.take offset = r.collected

/-- The reads so far are no more than `total` rows need. -/
def Counted (limit total : ℕ) (r : Reader α) : Prop :=
  match r.next with
  | some offset => offset = r.reads*limit ∧ (r.reads = 0 ∨ offset < total)
  | none => 1 ≤ r.reads ∧ (r.reads-1)*limit ≤ total

namespace Covered

variable {rows : List α} {r : Reader α}

theorem start (rows : List α) : Covered rows {} := by
  intro offset hnext
  cases hnext
  exact ⟨Nat.zero_le _,rfl⟩

theorem append (h : Covered rows r) (more : List α) : Covered (rows ++ more) r := by
  intro offset hoffset
  obtain ⟨hle,hread⟩ := h offset hoffset
  refine ⟨?_,by rw [List.take_append_of_le_length hle,hread]⟩
  rw [List.length_append]
  exact hle.trans (Nat.le_add_right _ _)

/-- A deletion that spares what was read moves nothing before the offset. -/
theorem filter (h : Covered rows r) {p : α → Bool} (hspared : ∀ x ∈ r.collected, p x = true) :
    Covered (rows.filter p) r := by
  intro offset hoffset
  obtain ⟨hle,hread⟩ := h offset hoffset
  have hlength : r.collected.length = offset := by
    rw [← hread,List.length_take,min_eq_left hle]
  have hsplit : rows.filter p = r.collected ++ (rows.drop offset).filter p := by
    conv_lhs => rw [← List.take_append_drop offset rows,hread]
    rw [List.filter_append,List.filter_eq_self.mpr hspared]
  rw [hsplit,← hlength,List.take_left,List.length_append]
  exact ⟨Nat.le_add_right _ _,rfl⟩

theorem take (h : Covered rows r) {offset limit : ℕ} (hoffset : r.next = some offset) :
    Covered rows (r.take (page rows offset limit)) := by
  intro next hnext
  obtain ⟨hmore,rfl⟩ : offset+limit < rows.length ∧ offset+limit = next := by
    simpa [Reader.take,page_next] using hnext
  refine ⟨hmore.le,?_⟩
  rw [Reader.take,page_rows,← (h offset hoffset).2,List.take_add]

theorem take_last {offset limit : ℕ} (h : Covered rows r) (hoffset : r.next = some offset)
    (hlast : (page rows offset limit).2 = none) : (r.take (page rows offset limit)).collected = rows := by
  have hend : rows.length ≤ offset+limit := by
    by_contra hmore
    rw [page_next,if_pos (lt_of_not_ge hmore)] at hlast
    cases hlast
  rw [Reader.take,page_rows,← (h offset hoffset).2]
  have hrest : (rows.drop offset).take limit = rows.drop offset :=
    List.take_of_length_le (by rw [List.length_drop]; omega)
  rw [hrest,List.take_append_drop]

end Covered

namespace Counted

variable {limit total : ℕ} {r : Reader α}

theorem start (limit total : ℕ) : Counted limit total ({} : Reader α) := by
  simp [Counted]

theorem mono (h : Counted limit total r) {more : ℕ} (hle : total ≤ more) : Counted limit more r := by
  unfold Counted at h ⊢
  cases hnext : r.next with
  | none =>
    rw [hnext] at h
    exact ⟨h.1,h.2.trans hle⟩
  | some offset =>
    rw [hnext] at h
    exact ⟨h.1,h.2.imp_right fun hlt => hlt.trans_le hle⟩

theorem take {rows : List α} {offset : ℕ} (h : Counted limit total r) (hrows : rows.length ≤ total)
    (hoffset : r.next = some offset) : Counted limit total (r.take (page rows offset limit)) := by
  unfold Counted at h ⊢
  rw [hoffset] at h
  obtain ⟨hcount,hbelow⟩ := h
  have hsucc : (r.reads+1)*limit = offset+limit := by rw [Nat.succ_mul,hcount]
  simp only [Reader.take,page_next]
  split
  · rename_i next hnext
    obtain ⟨hmore,rfl⟩ : offset+limit < rows.length ∧ offset+limit = next := by simpa using hnext
    exact ⟨hsucc.symm,.inr (hmore.trans_le hrows)⟩
  · refine ⟨Nat.succ_pos _,?_⟩
    rw [Nat.add_sub_cancel,← hcount]
    rcases hbelow with hzero | hlt
    · simp [hcount,hzero]
    · exact hlt.le

/-- A client that follows the offsets reads each page of `total` rows once, and one page more
when they fill their pages. -/
theorem reads_le (h : Counted limit total r) (hlimit : 0 < limit) : r.reads ≤ total/limit+1 := by
  have hbound : (r.reads-1)*limit ≤ total := by
    unfold Counted at h
    cases hnext : r.next with
    | none =>
      rw [hnext] at h
      exact h.2
    | some offset =>
      rw [hnext] at h
      obtain ⟨hcount,hbelow⟩ := h
      rcases hbelow with hzero | hlt
      · simp [hzero]
      · have hle : (r.reads-1)*limit ≤ r.reads*limit := Nat.mul_le_mul_right limit (Nat.sub_le _ _)
        omega
  have := (Nat.le_div_iff_mul_le hlimit).mpr hbound
  omega

end Counted

namespace Reading

variable {lt : α → α → Prop} [DecidableEq α] {rows : List α} {r : Reader α}

theorem start (h : rows.Pairwise lt) : Reading lt rows {} :=
  ⟨h,List.nodup_nil,by simp,List.Pairwise.nil⟩

theorem append (h : Reading lt rows r) {x : α} (hx : ∀ y ∈ rows, lt y x) (hnew : x ∉ r.collected) :
    Reading lt (rows ++ [x]) r := by
  have hsame : r.collected.filter (fun y => decide (y ∈ rows ++ [x])) =
      r.collected.filter fun y => decide (y ∈ rows) := by
    refine List.filter_congr fun y hy => ?_
    have hne : y ≠ x := fun heq => hnew (heq ▸ hy)
    simp [hne]
  refine ⟨?_,h.once,?_,?_⟩
  · refine List.pairwise_append.mpr ⟨h.ascending,List.pairwise_singleton _ x,?_⟩
    intro y hy z hz
    rw [List.mem_singleton.mp hz]
    exact hx y hy
  · intro offset hoffset y hy
    rcases List.mem_append.mp (by simpa [List.drop_append] using hy) with hold | hlast
    · exact h.ahead offset hoffset y hold
    · rw [List.mem_singleton.mp (List.mem_of_mem_drop hlast)]
      exact hnew
  · rw [hsame]
    exact h.ordered

/-- Rows are deleted: those behind them move to the front only. -/
theorem filter (h : Reading lt rows r) (p : α → Bool) : Reading lt (rows.filter p) r := by
  refine ⟨h.ascending.filter p,h.once,?_,?_⟩
  · intro offset hoffset x hx
    refine h.ahead offset hoffset x ?_
    have hsplit : rows.filter p = (rows.take offset).filter p ++ (rows.drop offset).filter p := by
      rw [← List.filter_append,List.take_append_drop]
    have hshort : ((rows.take offset).filter p).length ≤ offset :=
      (List.length_filter_le _ _).trans (List.length_take_le _ _)
    rw [hsplit,List.drop_append,List.drop_eq_nil_of_le hshort,List.nil_append] at hx
    exact List.mem_of_mem_filter (List.mem_of_mem_drop hx)
  · refine h.ordered.sublist ?_
    have hfilter : (r.collected.filter fun x => decide (x ∈ rows.filter p)) =
        (r.collected.filter fun x => decide (x ∈ rows)).filter p := by
      rw [List.filter_filter]
      refine List.filter_congr fun x _ => ?_
      simp [List.mem_filter,Bool.and_comm]
    rw [hfilter]
    exact List.filter_sublist

theorem take (h : Reading lt rows r) (hirr : ∀ x, ¬lt x x) {offset limit : ℕ}
    (hoffset : r.next = some offset) : Reading lt rows (r.take (page rows offset limit)) := by
  have hnodup : rows.Nodup := by
    refine h.ascending.imp fun {x y} (hxy : lt x y) (heq : x = y) => ?_
    rw [heq] at hxy
    exact hirr y hxy
  have hsub : ((rows.drop offset).take limit).Sublist rows :=
    (List.take_sublist _ _).trans (List.drop_sublist _ _)
  have hnew : ∀ x ∈ (rows.drop offset).take limit, x ∉ r.collected := fun x hx =>
    h.ahead offset hoffset x (List.mem_of_mem_take hx)
  refine ⟨h.ascending,?_,?_,?_⟩
  · rw [Reader.take,page_rows]
    exact List.nodup_append.mpr ⟨h.once,hnodup.sublist hsub,fun x hx y hy heq => hnew y hy (heq ▸ hx)⟩
  · intro next hnext x hx
    obtain ⟨-,rfl⟩ : offset+limit < rows.length ∧ offset+limit = next := by
      simpa [Reader.take,page_next] using hnext
    rw [Reader.take,page_rows,List.mem_append,not_or]
    rw [← List.drop_drop] at hx
    refine ⟨h.ahead offset hoffset x (List.mem_of_mem_drop hx),fun hmem => ?_⟩
    have hparts : ((rows.drop offset).take limit ++ (rows.drop offset).drop limit).Nodup := by
      rw [List.take_append_drop]
      exact hnodup.sublist (List.drop_sublist _ _)
    exact (List.nodup_append.mp hparts).2.2 x hmem x hx rfl
  · rw [Reader.take,page_rows,List.filter_append]
    refine List.pairwise_append.mpr ⟨h.ordered,(h.ascending.sublist hsub).filter _,?_⟩
    intro x hx y hy
    obtain ⟨hread,hlisted⟩ := List.mem_filter.mp hx
    -- a row read before and still listed stands before the offset
    have hparts : (rows.take offset ++ rows.drop offset).Pairwise lt := by
      rw [List.take_append_drop]
      exact h.ascending
    have hbefore : x ∈ rows.take offset := by
      have hrows : x ∈ rows.take offset ++ rows.drop offset := by
        rw [List.take_append_drop]
        exact of_decide_eq_true hlisted
      refine (List.mem_append.mp hrows).resolve_right fun hdrop => ?_
      exact h.ahead offset hoffset x hdrop hread
    exact (List.pairwise_append.mp hparts).2.2 x hbefore y
      (List.mem_of_mem_take (List.mem_of_mem_filter hy))

end Reading

variable {σ β : Type}

inductive Act (β : Type)
  | read
  | write (w : β)
  deriving DecidableEq

/-- A store that others write to, and the client that pages through a listing of it. -/
structure World (σ α : Type) where
  store : σ
  reader : Reader α := {}

/-- A read asks for the page at the client's next offset; after the last page there is none. -/
def World.step (fetch : σ → ℕ → Option (List α × Option ℕ)) (write : σ → β → Option σ)
    (w : World σ α) : Act β → Option (World σ α)
  | .read => w.reader.next.bind fun offset =>
      (fetch w.store offset).map fun page => { w with reader := w.reader.take page }
  | .write b => (write w.store b).map fun store => { w with store := store }

/-- Of the acts, the writes that may add a row to the listing. -/
def arrivals (appends : β → Bool) (acts : List (Act β)) : ℕ :=
  acts.countP fun act => match act with
    | .read => false
    | .write b => appends b

/-- The query shows pages of a listing. A write adds a row at its end that was never listed
before, or leaves the rows that it does not delete. -/
structure Source (fetch : σ → ℕ → Option (List α × Option ℕ)) (write : σ → β → Option σ)
    (view : σ → List α) (lt : α → α → Prop) [DecidableEq α] (past : σ → α → Prop)
    (appends : β → Bool) (deletes : σ → β → List α) (limit maxOffset : ℕ) : Prop where
  irrefl : ∀ x, ¬lt x x
  ascending : ∀ s, (view s).Pairwise lt
  small : ∀ s, (view s).length ≤ maxOffset
  fetches : ∀ s offset, offset ≤ maxOffset → fetch s offset = some (page (view s) offset limit)
  listed : ∀ s, ∀ x ∈ view s, past s x
  remembers : ∀ s b s', write s b = some s' → ∀ x, past s x → past s' x
  writes : ∀ s b s', write s b = some s' →
    (∃ x, appends b = true ∧ view s' = view s ++ [x] ∧ (∀ y ∈ view s, lt y x) ∧ ¬past s x) ∨
      view s' = (view s).filter fun x => decide (x ∉ deletes s b)

namespace Source

variable [DecidableEq α] {fetch : σ → ℕ → Option (List α × Option ℕ)} {write : σ → β → Option σ}
  {view : σ → List α} {lt : α → α → Prop} {past : σ → α → Prop} {appends : β → Bool}
  {deletes : σ → β → List α} {limit maxOffset : ℕ}

/-- What every run keeps. -/
structure Tracks (view : σ → List α) (lt : α → α → Prop) (past : σ → α → Prop) (maxOffset : ℕ)
    (w : World σ α) : Prop where
  reading : Reading lt (view w.store) w.reader
  known : ∀ x ∈ w.reader.collected, past w.store x
  within : ∀ offset, w.reader.next = some offset → offset ≤ maxOffset

/-- The act deletes no row that was read. -/
def Spares (deletes : σ → β → List α) (w : World σ α) : Act β → Prop
  | .read => True
  | .write b => ∀ x ∈ deletes w.store b, x ∉ w.reader.collected

variable (src : Source fetch write view lt past appends deletes limit maxOffset)
include src

theorem tracks_start (s : σ) : Tracks view lt past maxOffset (⟨s,{}⟩ : World σ α) := by
  refine ⟨Reading.start (src.ascending s),by simp,?_⟩
  rintro offset ⟨rfl⟩
  exact Nat.zero_le _

theorem read_eq {w : World σ α} (h : Tracks view lt past maxOffset w) {offset : ℕ}
    (hoffset : w.reader.next = some offset) :
    w.step fetch write .read =
      some { w with reader := w.reader.take (page (view w.store) offset limit) } := by
  simp [World.step,hoffset,src.fetches w.store offset (h.within offset hoffset)]

theorem step_tracks (w : World σ α) (act : Act β) (w' : World σ α)
    (h : Tracks view lt past maxOffset w) (hstep : w.step fetch write act = some w') :
    Tracks view lt past maxOffset w' := by
  cases act with
  | read =>
    obtain ⟨offset,hoffset,-⟩ := Option.bind_eq_some_iff.mp hstep
    rw [src.read_eq h hoffset] at hstep
    cases hstep
    refine ⟨h.reading.take src.irrefl hoffset,?_,?_⟩
    · intro x hx
      rcases List.mem_append.mp hx with hold | hnew
      · exact h.known x hold
      · rw [page_rows] at hnew
        exact src.listed w.store x (List.mem_of_mem_drop (List.mem_of_mem_take hnew))
    · intro next hnext
      obtain ⟨hmore,rfl⟩ : offset+limit < (view w.store).length ∧ offset+limit = next := by
        simpa [Reader.take,page_next] using hnext
      exact hmore.le.trans (src.small w.store)
  | write b =>
    obtain ⟨s',hwrite,rfl⟩ := Option.map_eq_some_iff.mp hstep
    refine ⟨?_,fun x hx => src.remembers w.store b s' hwrite x (h.known x hx),h.within⟩
    rcases src.writes w.store b s' hwrite with ⟨x,-,hview,hlast,hnew⟩ | hview
    · rw [hview]
      exact h.reading.append hlast fun hx => hnew (h.known x hx)
    · rw [hview]
      exact h.reading.filter _

theorem step_covered (w : World σ α) (act : Act β) (w' : World σ α)
    (h : Tracks view lt past maxOffset w ∧ Covered (view w.store) w.reader)
    (hspares : Spares deletes w act) (hstep : w.step fetch write act = some w') :
    Tracks view lt past maxOffset w' ∧ Covered (view w'.store) w'.reader := by
  refine ⟨src.step_tracks w act w' h.1 hstep,?_⟩
  cases act with
  | read =>
    obtain ⟨offset,hoffset,-⟩ := Option.bind_eq_some_iff.mp hstep
    rw [src.read_eq h.1 hoffset] at hstep
    cases hstep
    exact h.2.take hoffset
  | write b =>
    obtain ⟨s',hwrite,rfl⟩ := Option.map_eq_some_iff.mp hstep
    rcases src.writes w.store b s' hwrite with ⟨x,-,hview,-,-⟩ | hview
    · rw [hview]
      exact h.2.append [x]
    · rw [hview]
      refine h.2.filter fun x hx => ?_
      simpa using fun hdel => hspares x hdel hx

theorem step_counted {w w' : World σ α} {act : Act β} {total : ℕ}
    (h : Tracks view lt past maxOffset w) (hcount : Counted limit total w.reader)
    (htotal : (view w.store).length ≤ total) (hstep : w.step fetch write act = some w') :
    Counted limit (total+arrivals appends [act]) w'.reader ∧
      (view w'.store).length ≤ total+arrivals appends [act] := by
  cases act with
  | read =>
    obtain ⟨offset,hoffset,-⟩ := Option.bind_eq_some_iff.mp hstep
    rw [src.read_eq h hoffset] at hstep
    cases hstep
    exact ⟨hcount.take htotal hoffset,htotal⟩
  | write b =>
    obtain ⟨s',hwrite,rfl⟩ := Option.map_eq_some_iff.mp hstep
    refine ⟨hcount.mono (Nat.le_add_right _ _),?_⟩
    rcases src.writes w.store b s' hwrite with ⟨x,happ,hview,-,-⟩ | hview
    · rw [hview]
      simp only [arrivals,List.length_append,List.length_singleton,List.countP_singleton,happ,if_true]
      omega
    · rw [hview]
      exact ((List.length_filter_le _ _).trans htotal).trans (Nat.le_add_right _ _)

theorem run_counted {w w' : World σ α} {acts : List (Act β)} {total : ℕ}
    (h : Tracks view lt past maxOffset w) (hcount : Counted limit total w.reader)
    (htotal : (view w.store).length ≤ total)
    (hrun : Steps.run (World.step fetch write) w acts = some w') :
    Counted limit (total+arrivals appends acts) w'.reader := by
  induction acts generalizing w total with
  | nil =>
    cases hrun
    exact hcount
  | cons act acts ih =>
    obtain ⟨w₁,hstep,hrest⟩ := Steps.run_cons.mp hrun
    obtain ⟨hnext,hlen⟩ := src.step_counted h hcount htotal hstep
    have hsum : arrivals appends (act::acts) = arrivals appends [act]+arrivals appends acts := by
      rw [arrivals,← List.singleton_append,List.countP_append]
      rfl
    rw [hsum,← Nat.add_assoc]
    exact ih (src.step_tracks w act w₁ h hstep) hnext hlen hrest

theorem run_tracks {s : σ} {acts : List (Act β)} {w : World σ α}
    (hrun : Steps.run (World.step fetch write) ⟨s,{}⟩ acts = some w) : Tracks view lt past maxOffset w :=
  Steps.run_invariant src.step_tracks (src.tracks_start s) hrun

theorem run_remembers {w w' : World σ α} {acts : List (Act β)}
    (hrun : Steps.run (World.step fetch write) w acts = some w') {x : α} (h : past w.store x) :
    past w'.store x := by
  refine Steps.run_invariant (P := fun w => past w.store x) (fun w act w' hpast hstep => ?_) h hrun
  cases act with
  | read =>
    obtain ⟨offset,-,hread⟩ := Option.bind_eq_some_iff.mp hstep
    obtain ⟨page,-,rfl⟩ := Option.map_eq_some_iff.mp hread
    exact hpast
  | write b =>
    obtain ⟨s',hwrite,rfl⟩ := Option.map_eq_some_iff.mp hstep
    exact src.remembers w.store b s' hwrite x hpast

/-- As long as an offset is left, the page at it can be read. -/
theorem run_reads {s : σ} {acts : List (Act β)} {w : World σ α}
    (hrun : Steps.run (World.step fetch write) ⟨s,{}⟩ acts = some w) (hnext : w.reader.next ≠ none) :
    ∃ w', w.step fetch write .read = some w' := by
  obtain ⟨offset,hoffset⟩ := Option.ne_none_iff_exists'.mp hnext
  exact ⟨_,src.read_eq (src.run_tracks hrun) hoffset⟩

theorem run_reads_le (hlimit : 0 < limit) {s : σ} {acts : List (Act β)} {w : World σ α}
    (hrun : Steps.run (World.step fetch write) ⟨s,{}⟩ acts = some w) :
    w.reader.reads ≤ ((view s).length+arrivals appends acts)/limit+1 :=
  (src.run_counted (src.tracks_start s) (Counted.start limit _) (Nat.le_refl _) hrun).reads_le hlimit

/-- When the last page is read and no deletion took a row that was read before, just the rows
of the listing were read. -/
theorem run_complete {s : σ} {acts : List (Act β)} {w : World σ α}
    (hrun : Steps.run (World.step fetch write) ⟨s,{}⟩ (acts ++ [.read]) = some w)
    (hspares : Steps.Along (World.step fetch write) (Spares deletes) ⟨s,{}⟩ acts)
    (hlast : w.reader.next = none) : w.reader.collected = view w.store := by
  obtain ⟨w₁,hacts,hread⟩ := Steps.run_append.mp hrun
  obtain ⟨w₂,hstep,hnil⟩ := Steps.run_cons.mp hread
  cases hnil
  have hstart : Tracks view lt past maxOffset (⟨s,{}⟩ : World σ α) ∧ Covered (view s) {} :=
    ⟨src.tracks_start s,Covered.start _⟩
  obtain ⟨htracks,hcovered⟩ := Steps.run_along src.step_covered hstart hspares hacts
  obtain ⟨offset,hoffset,-⟩ := Option.bind_eq_some_iff.mp hstep
  rw [src.read_eq htracks hoffset] at hstep
  cases hstep
  exact hcovered.take_last hoffset hlast

end Source
end Paging
end North
