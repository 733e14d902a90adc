import North.Lib.Ranked
import North.Lib.Machine
import Mathlib.Data.List.Range
import Mathlib.Data.List.Perm.Subperm

/-! Bounded retention of the activity rows: one sweep deletes a batch of the oldest expired
rows, and a cycle drains the backlog sweep by sweep. -/
namespace North
namespace ActivityRetention

open Machine Ranked

def maxRetentionBatchSize : ℤ := 1000

def maxRetentionMaxPasses : ℕ := 1000

structure RetentionConfig where
  retentionSeconds : ℤ
  sweepIntervalSeconds : ℕ
  batchSize : ℤ
  maxPassesPerCycle : ℕ
  passes_fit : maxPassesPerCycle ≤ u32Max
  deriving DecidableEq, Repr

inductive RetentionConfigError
  | invalidRetentionSeconds | invalidSweepInterval | invalidBatchSize | invalidMaxPasses
  deriving DecidableEq, Repr

def RetentionConfig.new (retentionSeconds : ℤ) (sweepIntervalSeconds : ℕ) (batchSize : ℤ)
    (maxPassesPerCycle : ℕ) : Except RetentionConfigError RetentionConfig :=
  if retentionSeconds < 1 then .error .invalidRetentionSeconds
  else if sweepIntervalSeconds < 1 then .error .invalidSweepInterval
  else if ¬(1 ≤ batchSize ∧ batchSize ≤ maxRetentionBatchSize) then .error .invalidBatchSize
  else if h : 1 ≤ maxPassesPerCycle ∧ maxPassesPerCycle ≤ maxRetentionMaxPasses then
    .ok ⟨retentionSeconds,sweepIntervalSeconds,batchSize,maxPassesPerCycle,h.2.trans (by decide)⟩
  else .error .invalidMaxPasses

theorem RetentionConfig.new_ok {retentionSeconds batchSize : ℤ} {sweepIntervalSeconds maxPasses : ℕ}
    {cfg : RetentionConfig}
    (h : RetentionConfig.new retentionSeconds sweepIntervalSeconds batchSize maxPasses = .ok cfg) :
    1 ≤ cfg.batchSize ∧ cfg.batchSize ≤ maxRetentionBatchSize ∧
      1 ≤ cfg.maxPassesPerCycle ∧ cfg.maxPassesPerCycle ≤ maxRetentionMaxPasses := by
  unfold RetentionConfig.new at h
  split_ifs at h with _ _ hbatch hpasses
  cases h
  exact ⟨hbatch.1,hbatch.2,hpasses.1,hpasses.2⟩

structure ActivityRow (τ : Type) where
  id : ℕ
  eventId : String
  sessionId : String
  activity : String
  createdAt : τ
  expiresAt : τ
  deriving DecidableEq, Repr

/-- The ids come from a sequence of positive 64-bit integers and are the primary key. -/
structure ActivityTable (τ : Type) where
  rows : List (ActivityRow τ)
  ids_nodup : (rows.map ActivityRow.id).Nodup
  ids_fit : ∀ r ∈ rows, 1 ≤ r.id ∧ r.id ≤ i64Max

inductive PersistenceError
  | database
  deriving DecidableEq, Repr

variable {τ : Type}

/-- What the sweep orders by: `expires_at`, then `id`. -/
def ActivityRow.due (r : ActivityRow τ) : τ ×ₗ ℕ := toLex (r.expiresAt,r.id)

namespace ActivityTable

def delete (t : ActivityTable τ) (doomed : List (ActivityRow τ)) : ActivityTable τ :=
  ⟨t.rows.filter fun r => decide (r.id ∉ doomed.map ActivityRow.id),
    t.ids_nodup.sublist (List.filter_sublist.map ActivityRow.id),
    fun r hr => t.ids_fit r (List.mem_of_mem_filter hr)⟩

theorem mem_of_delete {t : ActivityTable τ} {doomed : List (ActivityRow τ)} {r : ActivityRow τ}
    (h : r ∈ (t.delete doomed).rows) : r ∈ t.rows :=
  List.mem_of_mem_filter h

def affected (t : ActivityTable τ) (doomed : List (ActivityRow τ)) : ℕ :=
  (t.rows.filter fun r => decide (r.id ∈ doomed.map ActivityRow.id)).length

theorem dues_nodup (t : ActivityTable τ) : (t.rows.map ActivityRow.due).Nodup := by
  refine List.Nodup.of_map (fun k => (ofLex k).2) ?_
  simpa [ActivityRow.due,Function.comp_def] using t.ids_nodup

theorem rows_length_le (t : ActivityTable τ) : t.rows.length ≤ i64Max := by
  have hsub : (t.rows.map ActivityRow.id).Subperm (List.range' 1 i64Max) := by
    refine List.subperm_of_subset t.ids_nodup fun id hid => ?_
    obtain ⟨r,hr,rfl⟩ := List.mem_map.mp hid
    obtain ⟨hpos,hle⟩ := t.ids_fit r hr
    exact List.mem_range'_1.mpr ⟨hpos,by omega⟩
  simpa using hsub.length_le

theorem mem_ids {t : ActivityTable τ} {doomed : List (ActivityRow τ)} (h : ∀ r ∈ doomed, r ∈ t.rows)
    {r : ActivityRow τ} (hr : r ∈ t.rows) : r.id ∈ doomed.map ActivityRow.id ↔ r ∈ doomed := by
  constructor
  · intro hid
    obtain ⟨x,hx,hxr⟩ := List.mem_map.mp hid
    rwa [← List.inj_on_of_nodup_map t.ids_nodup (h x hx) hr hxr]
  · exact List.mem_map_of_mem

variable [LinearOrder τ]

def Expired (now : τ) (r : ActivityRow τ) : Prop := r.expiresAt ≤ now

instance (now : τ) (r : ActivityRow τ) : Decidable (Expired now r) :=
  inferInstanceAs (Decidable (r.expiresAt ≤ now))

def expired (t : ActivityTable τ) (now : τ) : List (ActivityRow τ) :=
  ranked ActivityRow.due (t.rows.filter fun r => decide (Expired now r))

def expiredActivityRemains (t : ActivityTable τ) (now : τ) : Bool :=
  t.rows.any fun r => decide (Expired now r)

end ActivityTable

variable [LinearOrder τ]

/-- The table, and beside it what each sweep so far deleted. -/
structure Sweeping (τ : Type) where
  table : ActivityTable τ
  sweeps : List (List (ActivityRow τ)) := []

/-- One sweep at the time `now`; no other writer holds a lock on a row. -/
def purgeExpiredClarificationActivities (cfg : RetentionConfig) (now : τ) (s : Sweeping τ) :
    Except PersistenceError (ℕ × Sweeping τ) :=
  -- a negative LIMIT is an error of the database
  if cfg.batchSize < 0 then .error .database
  else
    let expired := (s.table.expired now).take cfg.batchSize.toNat
    .ok (s.table.affected expired,⟨s.table.delete expired,s.sweeps ++ [expired]⟩)

structure RetentionDrain where
  deleted : ℕ
  passes : ℕ
  drainLimitReached : Bool
  deriving DecidableEq, Repr

/-- `u64::try_from(batch_size).unwrap_or(u64::MAX)` -/
def RetentionConfig.batchBound (cfg : RetentionConfig) : ℕ :=
  if 0 ≤ cfg.batchSize then cfg.batchSize.toNat else u64Max

/-- The loop of the drain; `none` when the fuel ends before the loop does. -/
def drainLoop (cfg : RetentionConfig) (now : τ) :
    ℕ → (deleted passes : ℕ) → Sweeping τ → Option (Except PersistenceError (RetentionDrain × Sweeping τ))
  | 0, _, _, _ => none
  | fuel+1, deleted, passes, s =>
    match purgeExpiredClarificationActivities cfg now s with
    | .error e => some (.error e)
    | .ok (swept,s) =>
      let deleted := min (deleted+swept) u64Max
      let passes := saturatingSucc u32Max passes
      if swept < cfg.batchBound then some (.ok (⟨deleted,passes,false⟩,s))
      else if ¬ s.table.expiredActivityRemains now then some (.ok (⟨deleted,passes,false⟩,s))
      else if cfg.maxPassesPerCycle ≤ passes then some (.ok (⟨deleted,passes,true⟩,s))
      else drainLoop cfg now fuel deleted passes s

def drainExpiredClarificationActivities (cfg : RetentionConfig) (now : τ) (fuel : ℕ)
    (t : ActivityTable τ) : Option (Except PersistenceError (RetentionDrain × Sweeping τ)) :=
  drainLoop cfg now fuel 0 0 ⟨t,[]⟩

namespace ActivityTable

theorem expired_eq (t : ActivityTable τ) (now : τ) :
    t.expired now = (ranked ActivityRow.due t.rows).filter fun r => decide (Expired now r) :=
  ranked_filter t.dues_nodup _

@[simp] theorem mem_expired {t : ActivityTable τ} {now : τ} {r : ActivityRow τ} :
    r ∈ t.expired now ↔ r ∈ t.rows ∧ Expired now r := by
  simp [expired]

theorem expired_ids_nodup (t : ActivityTable τ) (now : τ) : ((t.expired now).map ActivityRow.id).Nodup := by
  refine (((ranked_perm _).map ActivityRow.id).nodup_iff).mpr ?_
  exact t.ids_nodup.sublist (List.filter_sublist.map ActivityRow.id)

theorem expired_delete (t : ActivityTable τ) (now : τ) (n : ℕ) :
    (t.delete ((t.expired now).take n)).expired now = (t.expired now).drop n := by
  rw [← filter_not_mem_take (t.expired_ids_nodup now) n,expired_eq]
  have hrows : ranked ActivityRow.due (t.delete ((t.expired now).take n)).rows =
      (ranked ActivityRow.due t.rows).filter
        fun r => decide (r.id ∉ ((t.expired now).take n).map ActivityRow.id) :=
    ranked_filter t.dues_nodup _
  rw [hrows,List.filter_filter,expired_eq,List.filter_filter]
  exact List.filter_congr fun r _ => Bool.and_comm _ _

theorem affected_take (t : ActivityTable τ) (now : τ) (n : ℕ) :
    t.affected ((t.expired now).take n) = min n (t.expired now).length := by
  have hsub : ∀ r ∈ (t.expired now).take n, r ∈ t.rows := fun r hr =>
    (mem_expired.mp (List.mem_of_mem_take hr)).1
  have hperm : (t.rows.filter fun r => decide (r.id ∈ ((t.expired now).take n).map ActivityRow.id)).Perm
      ((t.expired now).take n) := by
    refine (List.perm_ext_iff_of_nodup ?_ ?_).mpr fun r => ?_
    · exact (t.ids_nodup.of_map _).filter _
    · exact ((t.expired_ids_nodup now).of_map _).sublist (List.take_sublist _ _)
    · rw [List.mem_filter,decide_eq_true_eq]
      constructor
      · rintro ⟨hr,hid⟩
        exact (mem_ids hsub hr).mp hid
      · intro hr
        exact ⟨hsub r hr,(mem_ids hsub (hsub r hr)).mpr hr⟩
  rw [affected,hperm.length_eq,List.length_take]

theorem expiredActivityRemains_iff {t : ActivityTable τ} {now : τ} :
    t.expiredActivityRemains now = true ↔ 0 < (t.expired now).length := by
  rw [List.length_pos_iff_exists_mem]
  simp [expiredActivityRemains]

theorem expired_length_le (t : ActivityTable τ) (now : τ) : (t.expired now).length ≤ u64Max := by
  have hexp : (t.expired now).length ≤ t.rows.length := by
    rw [expired,length_ranked]
    exact List.length_filter_le _ _
  exact (hexp.trans t.rows_length_le).trans (by decide)

end ActivityTable

/-- What a drain that may still delete `budget` rows comes to, from the rows `s` and a count of
`deleted` rows before it. -/
structure Drained (now : τ) (s : Sweeping τ) (deleted budget : ℕ) (drain : RetentionDrain)
    (final : Sweeping τ) : Prop where
  rows : final.table.rows =
    s.table.rows.filter fun r => decide (r.id ∉ ((s.table.expired now).take budget).map ActivityRow.id)
  swept : final.sweeps.flatten = s.sweeps.flatten ++ (s.table.expired now).take budget
  deleted : drain.deleted = deleted + min (s.table.expired now).length budget
  passes : drain.passes = final.sweeps.length
  reached : drain.drainLimitReached = true ↔ budget < (s.table.expired now).length

variable {cfg : RetentionConfig} {now : τ}

def Sweeping.sweep (s : Sweeping τ) (now : τ) (n : ℕ) : Sweeping τ :=
  ⟨s.table.delete ((s.table.expired now).take n),s.sweeps ++ [(s.table.expired now).take n]⟩

@[simp] theorem Sweeping.sweep_expired (s : Sweeping τ) (now : τ) (n : ℕ) :
    (s.sweep now n).table.expired now = (s.table.expired now).drop n :=
  s.table.expired_delete now n

@[simp] theorem Sweeping.sweep_sweeps (s : Sweeping τ) (now : τ) (n : ℕ) :
    (s.sweep now n).sweeps = s.sweeps ++ [(s.table.expired now).take n] := rfl

theorem Sweeping.sweep_remains {s : Sweeping τ} {n : ℕ} :
    (s.sweep now n).table.expiredActivityRemains now = true ↔ n < (s.table.expired now).length := by
  rw [ActivityTable.expiredActivityRemains_iff,sweep_expired,List.length_drop,Nat.sub_pos_iff_lt]

theorem purge_ok (hb : 1 ≤ cfg.batchSize) (s : Sweeping τ) :
    purgeExpiredClarificationActivities cfg now s =
      .ok (min cfg.batchSize.toNat (s.table.expired now).length,s.sweep now cfg.batchSize.toNat) := by
  have hneg : ¬cfg.batchSize < 0 := by omega
  simp [purgeExpiredClarificationActivities,hneg,s.table.affected_take,Sweeping.sweep]

theorem batchBound_eq (hb : 1 ≤ cfg.batchSize) : cfg.batchBound = cfg.batchSize.toNat :=
  if_pos (by omega)

theorem Drained.last {s : Sweeping τ} {deleted budget n : ℕ} (hn : n ≤ budget)
    (hall : (s.table.expired now).length ≤ n) :
    Drained now s deleted budget
      ⟨deleted+(s.table.expired now).length,(s.sweep now n).sweeps.length,false⟩
      (s.sweep now n) := by
  have htake : (s.table.expired now).take budget = (s.table.expired now).take n := by
    rw [List.take_of_length_le hall,List.take_of_length_le (hall.trans hn)]
  refine ⟨?_,?_,?_,rfl,?_⟩
  · rw [htake]
    rfl
  · rw [htake]
    simp
  · simp [min_eq_left (hall.trans hn)]
  · simp only [Bool.false_eq_true,false_iff,not_lt]
    exact hall.trans hn

theorem Drained.next {s final : Sweeping τ} {drain : RetentionDrain} {deleted budget n : ℕ}
    (hn : n ≤ (s.table.expired now).length)
    (h : Drained now (s.sweep now n) (deleted+n) budget drain final) :
    Drained now s deleted (n+budget) drain final := by
  have htake : (s.table.expired now).take (n+budget) =
      (s.table.expired now).take n ++ ((s.table.expired now).drop n).take budget := List.take_add
  refine ⟨?_,?_,?_,h.passes,?_⟩
  · rw [h.rows,Sweeping.sweep_expired,htake]
    simp only [Sweeping.sweep,ActivityTable.delete,List.filter_filter]
    refine List.filter_congr fun r _ => ?_
    simp [not_or,Bool.and_comm]
  · rw [h.swept,Sweeping.sweep_expired,htake]
    simp
  · rw [h.deleted,Sweeping.sweep_expired,List.length_drop]
    omega
  · rw [h.reached,Sweeping.sweep_expired,List.length_drop]
    omega

theorem Drained.limit {s : Sweeping τ} {deleted n : ℕ} (hn : n < (s.table.expired now).length) :
    Drained now s deleted n ⟨deleted+n,(s.sweep now n).sweeps.length,true⟩
      (s.sweep now n) :=
  ⟨rfl,by simp,by simp [min_eq_right hn.le],rfl,by simpa using hn⟩

/-- One turn of the loop: the two exits without a flag are the case of no expired row left. -/
theorem drainLoop_turn (hb : 1 ≤ cfg.batchSize) {s : Sweeping τ} {deleted passes : ℕ}
    (hpasses : passes < u32Max) (hfit : deleted + (s.table.expired now).length ≤ u64Max) (fuel : ℕ) :
    drainLoop cfg now (fuel+1) deleted passes s =
      if (s.table.expired now).length ≤ cfg.batchSize.toNat then
        some (.ok (⟨deleted+(s.table.expired now).length,passes+1,false⟩,s.sweep now cfg.batchSize.toNat))
      else if cfg.maxPassesPerCycle ≤ passes+1 then
        some (.ok (⟨deleted+cfg.batchSize.toNat,passes+1,true⟩,s.sweep now cfg.batchSize.toNat))
      else drainLoop cfg now fuel (deleted+cfg.batchSize.toNat) (passes+1)
        (s.sweep now cfg.batchSize.toNat) := by
  simp only [drainLoop,purge_ok hb,batchBound_eq hb,saturatingSucc_of_lt hpasses,Sweeping.sweep_remains]
  by_cases hall : (s.table.expired now).length ≤ cfg.batchSize.toNat
  · rw [min_eq_right hall,min_eq_left hfit]
    simp [hall]
  · have hless : cfg.batchSize.toNat < (s.table.expired now).length := lt_of_not_ge hall
    have hcount : deleted+cfg.batchSize.toNat ≤ u64Max := by omega
    rw [min_eq_left hless.le,min_eq_left hcount]
    simp [hall,hless]

/-- The loop at the head of a pass with `left` passes after it ends, with such a drain. -/
def Drains (cfg : RetentionConfig) (now : τ) (s : Sweeping τ) (deleted left : ℕ) : Prop :=
  ∃ drain final, Drained now s deleted (cfg.batchSize.toNat*(left+1)) drain final ∧
    drain.passes ≤ cfg.maxPassesPerCycle ∧
    ∀ fuel, left+1 ≤ fuel → drainLoop cfg now fuel deleted s.sweeps.length s = some (.ok (drain,final))

theorem drains_last (hb : 1 ≤ cfg.batchSize) {left deleted : ℕ} {s : Sweeping τ}
    (hleft : s.sweeps.length+left+1 = cfg.maxPassesPerCycle)
    (hfit : deleted + (s.table.expired now).length ≤ u64Max)
    (hall : (s.table.expired now).length ≤ cfg.batchSize.toNat) : Drains cfg now s deleted left := by
  have hpasses : s.sweeps.length < u32Max := by
    have := cfg.passes_fit
    omega
  refine ⟨_,_,Drained.last (Nat.le_mul_of_pos_right _ (Nat.succ_pos left)) hall,?_,?_⟩
  · simp only [Sweeping.sweep_sweeps,List.length_append,List.length_singleton]
    omega
  · intro fuel hfuel
    obtain ⟨fuel,rfl⟩ := Nat.exists_eq_add_of_le' hfuel
    rw [← Nat.add_assoc,drainLoop_turn hb hpasses hfit,if_pos hall]
    simp

theorem drainLoop_drains (hb : 1 ≤ cfg.batchSize) {left deleted : ℕ} {s : Sweeping τ}
    (hleft : s.sweeps.length+left+1 = cfg.maxPassesPerCycle)
    (hfit : deleted + (s.table.expired now).length ≤ u64Max) : Drains cfg now s deleted left := by
  have hfits := cfg.passes_fit
  induction left generalizing deleted s with
  | zero =>
    by_cases hall : (s.table.expired now).length ≤ cfg.batchSize.toNat
    · exact drains_last hb hleft hfit hall
    · have hless : cfg.batchSize.toNat < (s.table.expired now).length := lt_of_not_ge hall
      refine ⟨⟨deleted+cfg.batchSize.toNat,(s.sweep now cfg.batchSize.toNat).sweeps.length,true⟩,
        s.sweep now cfg.batchSize.toNat,?_,?_,?_⟩
      · rw [Nat.zero_add,Nat.mul_one]
        exact Drained.limit hless
      · simp only [Sweeping.sweep_sweeps,List.length_append,List.length_singleton]
        omega
      · intro fuel hfuel
        obtain ⟨fuel,rfl⟩ := Nat.exists_eq_add_of_le' hfuel
        rw [← Nat.add_assoc,drainLoop_turn hb (by omega) hfit,if_neg hall,if_pos (by omega)]
        simp
  | succ left ih =>
    by_cases hall : (s.table.expired now).length ≤ cfg.batchSize.toNat
    · exact drains_last hb hleft hfit hall
    · have hless : cfg.batchSize.toNat < (s.table.expired now).length := lt_of_not_ge hall
      have hrest : (s.sweep now cfg.batchSize.toNat).sweeps.length+left+1 = cfg.maxPassesPerCycle := by
        simp only [Sweeping.sweep_sweeps,List.length_append,List.length_singleton]
        omega
      have hrestFit : deleted+cfg.batchSize.toNat +
          ((s.sweep now cfg.batchSize.toNat).table.expired now).length ≤ u64Max := by
        rw [Sweeping.sweep_expired,List.length_drop]
        omega
      obtain ⟨drain,final,hdrained,hbound,hloop⟩ := ih hrest hrestFit
      have hbudget : cfg.batchSize.toNat*(left+1+1) =
          cfg.batchSize.toNat+cfg.batchSize.toNat*(left+1) := by
        rw [Nat.mul_succ,Nat.add_comm]
      refine ⟨drain,final,?_,hbound,?_⟩
      · rw [hbudget]
        exact hdrained.next hless.le
      · intro fuel hfuel
        obtain ⟨fuel,rfl⟩ := Nat.exists_eq_add_of_le' hfuel
        rw [show fuel+(left+1+1) = fuel+(left+1)+1 by omega,drainLoop_turn hb (by omega) hfit,
          if_neg hall,if_neg (by omega)]
        simpa using hloop (fuel+(left+1)) (by omega)

/-- A cycle of the drain ends within its passes. It deletes the first expired rows, as many as
its passes can hold, and no other row, and it says so. -/
theorem drain_exact (cfg : RetentionConfig) (hb : 1 ≤ cfg.batchSize) (hp : 1 ≤ cfg.maxPassesPerCycle)
    (now : τ) (t : ActivityTable τ) :
    ∃ drain final, (∀ fuel, cfg.maxPassesPerCycle ≤ fuel →
        drainExpiredClarificationActivities cfg now fuel t = some (.ok (drain,final))) ∧
      (∀ r, r ∈ final.table.rows ↔ r ∈ t.rows ∧
        r ∉ (t.expired now).take (cfg.batchSize.toNat*cfg.maxPassesPerCycle)) ∧
      (∀ r ∈ t.rows, now < r.expiresAt → r ∈ final.table.rows) ∧
      final.sweeps.flatten = (t.expired now).take (cfg.batchSize.toNat*cfg.maxPassesPerCycle) ∧
      drain.deleted = min (t.expired now).length (cfg.batchSize.toNat*cfg.maxPassesPerCycle) ∧
      drain.passes = final.sweeps.length ∧ drain.passes ≤ cfg.maxPassesPerCycle ∧
      (drain.drainLimitReached = true ↔
        cfg.batchSize.toNat*cfg.maxPassesPerCycle < (t.expired now).length) := by
  obtain ⟨left,hleft⟩ := Nat.exists_eq_add_of_le' hp
  have hfit : 0+(t.expired now).length ≤ u64Max := by simpa using t.expired_length_le now
  obtain ⟨drain,final,hdrained,hbound,hloop⟩ :=
    drainLoop_drains (s := ⟨t,[]⟩) hb (by simpa using hleft.symm) hfit
  rw [← hleft] at hdrained hloop
  have hkeep : ∀ r, r ∈ final.table.rows ↔ r ∈ t.rows ∧
      r ∉ (t.expired now).take (cfg.batchSize.toNat*cfg.maxPassesPerCycle) := by
    intro r
    rw [hdrained.rows,List.mem_filter,decide_eq_true_eq]
    refine and_congr_right fun hr => not_congr ?_
    exact ActivityTable.mem_ids (fun x hx => (ActivityTable.mem_expired.mp (List.mem_of_mem_take hx)).1) hr
  refine ⟨drain,final,hloop,hkeep,?_,?_,?_,hdrained.passes,hbound,hdrained.reached⟩
  · intro r hr hlive
    refine (hkeep r).mpr ⟨hr,fun hmem => ?_⟩
    exact not_lt_of_ge (ActivityTable.mem_expired.mp (List.mem_of_mem_take hmem)).2 hlive
  · simpa using hdrained.swept
  · simpa using hdrained.deleted

def nightly : RetentionConfig := ⟨604800,60,2,2,by decide⟩

/-- Five rows expired at time 9 and one that is not. -/
def backlog : ActivityTable ℕ :=
  ⟨[⟨1,"event-1","s1","reading",0,7⟩,⟨2,"event-2","s1","reading",0,5⟩,⟨3,"event-3","s2","asking",1,5⟩,
      ⟨4,"event-4","s1","writing",1,9⟩,⟨5,"event-5","s2","writing",2,8⟩,⟨6,"event-6","s1","done",3,10⟩],
    by decide,by decide⟩

theorem nightly_drain_exact :
    ∃ drain final, (∀ fuel, 2 ≤ fuel →
        drainExpiredClarificationActivities nightly 9 fuel backlog = some (.ok (drain,final))) ∧
      final.sweeps.flatten.map ActivityRow.id = [2,3,1,5] ∧ drain.deleted = 4 ∧ drain.passes ≤ 2 ∧
      drain.drainLimitReached = true := by
  obtain ⟨drain,final,hdrain,_,_,hswept,hdeleted,_,hpasses,hreached⟩ :=
    drain_exact nightly (by decide) (by decide) 9 backlog
  refine ⟨drain,final,hdrain,?_,?_,hpasses,hreached.mpr ?_⟩
  · rw [hswept]
    decide
  · rw [hdeleted]
    decide
  · decide

end ActivityRetention
end North
