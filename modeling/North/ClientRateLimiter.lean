import North.Lib.Table
import North.Lib.TokenBucket
import Mathlib.Data.Rat.Floor
import Mathlib.Data.List.Nodup

/-! The limiter of the public endpoints: a token bucket for each endpoint and client, with idle full
buckets evicted and a cap on the entries of an endpoint. Tokens are rationals and times are
nanoseconds. -/
namespace North
namespace PublicAbuse

open TokenBucket
open OrdMap (find find_cons)

inductive PublicEndpoint
  | requestCode | daemonSetup
  deriving DecidableEq, Repr

structure BucketKey where
  endpoint : PublicEndpoint
  primaryKey : String
  deriving DecidableEq, Repr

structure Bucket where
  tokens : ℚ
  updatedAt : ℕ
  lastAccessed : ℕ
  deriving DecidableEq, Repr

/-- The entries of the map, each key once. -/
abbrev LimiterState := List (BucketKey × Bucket)

/-- The constructor asserts that none of the three is zero. -/
structure ClientRateLimiter where
  capacity : ℕ
  refillInterval : ℕ
  maxEntries : ℕ
  capacity_pos : 0 < capacity
  refill_pos : 0 < refillInterval
  entries_pos : 0 < maxEntries

def nanosPerSec : ℕ := 1000000000

def erase (state : LimiterState) (key : BucketKey) : LimiterState := state.filter fun e => decide (e.1 ≠ key)

def endpointEntries (state : LimiterState) (endpoint : PublicEndpoint) : ℕ :=
  state.countP fun e => decide (e.1.endpoint = endpoint)

namespace ClientRateLimiter

variable (L : ClientRateLimiter)

def refill (bucket : Bucket) (now : ℕ) : Bucket :=
  let elapsed := now-bucket.updatedAt
  if elapsed = 0 then bucket
  else { bucket with
    tokens := min (bucket.tokens+elapsed/L.refillInterval) L.capacity
    updatedAt := now }

/-- A bucket that is full and was not used for an interval. -/
def idle (bucket : Bucket) (now : ℕ) : Bool :=
  decide (L.capacity ≤ bucket.tokens) && decide (L.refillInterval ≤ now-bucket.lastAccessed)

def evictSafeBuckets (state : LimiterState) (now : ℕ) : LimiterState :=
  (state.map fun e => (e.1,L.refill e.2 now)).filter fun e => !L.idle e.2 now

/-- The seconds after which a bucket that is short has a token; an interval is far below the `u64`
seconds at which the cast saturates. -/
def retryAfter (tokens : ℚ) : ℕ := max ⌈(1-tokens)*(L.refillInterval/nanosPerSec)⌉₊ 1

/-- The seconds for which the cap refuses a client. -/
def capDelay : ℕ := max (L.refillInterval/nanosPerSec) 1

def consume (bucket : Bucket) (now : ℕ) : Except ℕ Unit × Bucket :=
  let bucket := { bucket with lastAccessed := now }
  if 1 ≤ bucket.tokens then (.ok (),{ bucket with tokens := bucket.tokens-1 })
  else (.error (L.retryAfter bucket.tokens),bucket)

def fresh (now : ℕ) : Bucket := ⟨L.capacity,now,now⟩

def tryConsume (state : LimiterState) (key : BucketKey) (now : ℕ) : Except ℕ Unit × LimiterState :=
  let state := L.evictSafeBuckets state now
  match find state key with
  | some bucket =>
    let (result,bucket) := L.consume (L.refill bucket now) now
    (result,(key,bucket)::erase state key)
  | none =>
    if L.maxEntries ≤ endpointEntries state key.endpoint then (.error L.capDelay,state)
    else
      let (result,bucket) := L.consume (L.fresh now) now
      (result,(key,bucket)::state)

/-- A limiter that keeps every bucket and has no cap. -/
def tryConsumeForever (state : LimiterState) (key : BucketKey) (now : ℕ) : Except ℕ Unit × LimiterState :=
  let bucket := match find state key with
    | some bucket => L.refill bucket now
    | none => L.fresh now
  let (result,bucket) := L.consume bucket now
  (result,(key,bucket)::erase state key)

end ClientRateLimiter

structure Call where
  now : ℕ
  key : BucketKey
  deriving DecidableEq, Repr

section Runs

variable (call : LimiterState → BucketKey → ℕ → Except ℕ Unit × LimiterState)

def stateAfter (state : LimiterState) (calls : List Call) : LimiterState :=
  calls.foldl (fun state c => (call state c.key c.now).2) state

def outcomes (state : LimiterState) : List Call → List (Call × Except ℕ Unit)
  | [] => []
  | c::calls => (c,(call state c.key c.now).1)::outcomes (call state c.key c.now).2 calls

end Runs

example :
    let L : ClientRateLimiter := ⟨1,120*nanosPerSec,2,by decide,by decide,by decide⟩
    let key (s : String) : BucketKey := ⟨.requestCode,s⟩
    (outcomes L.tryConsume [] [⟨0,key "a"⟩,⟨60*nanosPerSec,key "b"⟩,⟨60*nanosPerSec,key "a"⟩,
      ⟨120*nanosPerSec,key "c"⟩]).map Prod.snd = [.ok (),.ok (),.error 60,.error 120] := by
  decide +kernel

section Buckets

variable {L : ClientRateLimiter} {bucket : Bucket} {t u v : ℕ}

def ClientRateLimiter.added (L : ClientRateLimiter) (start stop : ℕ) : ℚ := (stop-start : ℕ)/L.refillInterval

theorem ClientRateLimiter.added_nonneg (L : ClientRateLimiter) (t u : ℕ) : 0 ≤ L.added t u := by
  unfold ClientRateLimiter.added
  positivity

theorem ClientRateLimiter.added_self (L : ClientRateLimiter) (t : ℕ) : L.added t t = 0 := by
  simp [ClientRateLimiter.added]

theorem ClientRateLimiter.added_trans (L : ClientRateLimiter) (htu : t ≤ u) (huv : u ≤ v) :
    L.added t u+L.added u v = L.added t v := by
  have hsum : u-t+(v-u) = v-t := by omega
  rw [ClientRateLimiter.added,ClientRateLimiter.added,ClientRateLimiter.added,← add_div,← Nat.cast_add,hsum]

/-- A bucket that was updated by a time. -/
structure Bucket.Sound (L : ClientRateLimiter) (bucket : Bucket) (now : ℕ) : Prop where
  tokens_nonneg : 0 ≤ bucket.tokens
  tokens_le : bucket.tokens ≤ L.capacity
  updated : bucket.updatedAt ≤ now

theorem Bucket.Sound.refill_eq (h : bucket.Sound L t) :
    L.refill bucket t =
      ⟨refilled (L.capacity : ℚ) bucket.tokens (L.added bucket.updatedAt t),t,bucket.lastAccessed⟩ := by
  have hupdated := h.updated
  by_cases hsame : t-bucket.updatedAt = 0
  · have hnow : bucket.updatedAt = t := by omega
    rw [ClientRateLimiter.refill,if_pos hsame,hnow,L.added_self,refilled_zero h.tokens_le,← hnow]
  · rw [ClientRateLimiter.refill,if_neg hsame]
    rfl

theorem Bucket.Sound.refill (h : bucket.Sound L t) : (L.refill bucket t).Sound L t := by
  rw [h.refill_eq]
  exact ⟨refilled_nonneg (Nat.cast_nonneg _) h.tokens_nonneg (L.added_nonneg _ _),refilled_le _ _ _,le_rfl⟩

theorem Bucket.Sound.later (h : bucket.Sound L t) (htu : t ≤ u) : bucket.Sound L u :=
  { h with updated := h.updated.trans htu }

theorem Bucket.Sound.refill_refill (h : bucket.Sound L t) (htu : t ≤ u) :
    L.refill (L.refill bucket t) u = L.refill bucket u := by
  rw [(h.refill.later htu).refill_eq,(h.later htu).refill_eq,h.refill_eq]
  simp only [refilled_refilled (L.added_nonneg t u),L.added_trans h.updated htu]

theorem Bucket.Sound.tokens_later (h : bucket.Sound L t) (htu : t ≤ u) :
    (L.refill bucket u).tokens = refilled (L.capacity : ℚ) (L.refill bucket t).tokens (L.added t u) := by
  rw [← h.refill_refill htu,(h.refill.later htu).refill_eq,h.refill_eq]

theorem Bucket.Sound.idle_later (h : bucket.Sound L t) (htu : t ≤ u) (hidle : L.idle (L.refill bucket t) t = true) :
    L.idle (L.refill bucket u) u = true := by
  simp only [ClientRateLimiter.idle,Bool.and_eq_true,decide_eq_true_eq] at hidle ⊢
  have hfull : (L.refill bucket t).tokens = L.capacity := le_antisymm h.refill.tokens_le hidle.1
  have hlast : (L.refill bucket u).lastAccessed = (L.refill bucket t).lastAccessed := by
    rw [(h.later htu).refill_eq,h.refill_eq]
  refine ⟨?_,?_⟩
  · rw [h.tokens_later htu,hfull,refilled_full (L.added_nonneg t u)]
  · rw [hlast]
    exact hidle.2.trans (Nat.sub_le_sub_right htu _)

theorem Bucket.Sound.idle_tokens (h : bucket.Sound L t) (htu : t ≤ u) (hidle : L.idle (L.refill bucket t) t = true) :
    (L.refill bucket u).tokens = L.capacity := by
  have hlate := h.idle_later htu hidle
  rw [ClientRateLimiter.idle,Bool.and_eq_true,decide_eq_true_eq] at hlate
  exact le_antisymm (h.later htu).refill.tokens_le hlate.1

end Buckets

section States

variable {L : ClientRateLimiter} {state : LimiterState} {e : BucketKey × Bucket} {key k : BucketKey} {bucket : Bucket}
  {t u v now : ℕ}

structure LimiterState.Sound (L : ClientRateLimiter) (state : LimiterState) (now : ℕ) : Prop where
  keys : (state.map Prod.fst).Nodup
  buckets : ∀ e ∈ state, e.2.Sound L now

theorem LimiterState.Sound.later (h : LimiterState.Sound L state t) (htu : t ≤ u) : LimiterState.Sound L state u :=
  ⟨h.keys,fun e he => (h.buckets e he).later htu⟩

theorem LimiterState.Sound.tail (h : LimiterState.Sound L (e::state) t) : LimiterState.Sound L state t :=
  ⟨(List.nodup_cons.mp h.keys).2,fun e he => h.buckets e (List.mem_cons_of_mem _ he)⟩

theorem mem_of_find (h : find state key = some bucket) : (key,bucket) ∈ state := by
  induction state with
  | nil => simp [find] at h
  | cons e state ih =>
    rw [find_cons] at h
    split_ifs at h with he
    · cases h
      exact he ▸ List.mem_cons_self
    · exact List.mem_cons_of_mem e (ih h)

theorem find_none : find state key = none ↔ key ∉ state.map Prod.fst := by
  rw [find,Option.map_eq_none_iff,List.find?_eq_none,List.mem_map,not_exists]
  simp only [decide_eq_true_eq,not_and]

theorem evictSafeBuckets_cons (L : ClientRateLimiter) (e : BucketKey × Bucket) (state : LimiterState) (now : ℕ) :
    L.evictSafeBuckets (e::state) now =
      if L.idle (L.refill e.2 now) now then L.evictSafeBuckets state now
      else (e.1,L.refill e.2 now)::L.evictSafeBuckets state now := by
  by_cases h : L.idle (L.refill e.2 now) now = true <;> simp [ClientRateLimiter.evictSafeBuckets,h]

theorem mem_evictSafeBuckets (he : e ∈ L.evictSafeBuckets state now) :
    ∃ e' ∈ state, e = (e'.1,L.refill e'.2 now) := by
  obtain ⟨e',he',heq⟩ := List.mem_map.mp (List.mem_filter.mp he).1
  exact ⟨e',he',heq.symm⟩

theorem evictSafeBuckets_keys (L : ClientRateLimiter) (state : LimiterState) (now : ℕ) :
    ((L.evictSafeBuckets state now).map Prod.fst).Sublist (state.map Prod.fst) := by
  have hkept := (List.filter_sublist (p := fun e => !L.idle e.2 now)
    (l := state.map fun e => (e.1,L.refill e.2 now))).map Prod.fst
  rwa [List.map_map] at hkept

theorem LimiterState.Sound.evict (h : LimiterState.Sound L state t) : LimiterState.Sound L (L.evictSafeBuckets state t) t where
  keys := h.keys.sublist (evictSafeBuckets_keys L state t)
  buckets := by
    intro e he
    obtain ⟨e',he',rfl⟩ := mem_evictSafeBuckets he
    exact (h.buckets e' he').refill

/-- An eviction leaves a later one what it would have found. -/
theorem LimiterState.Sound.evict_evict (h : LimiterState.Sound L state t) (htu : t ≤ u) :
    L.evictSafeBuckets (L.evictSafeBuckets state t) u = L.evictSafeBuckets state u := by
  induction state with
  | nil => rfl
  | cons e state ih =>
    have hbucket := h.buckets e List.mem_cons_self
    rw [evictSafeBuckets_cons,evictSafeBuckets_cons L e state u]
    by_cases hidle : L.idle (L.refill e.2 t) t = true
    · rw [if_pos hidle,if_pos (hbucket.idle_later htu hidle)]
      exact ih h.tail
    · rw [if_neg hidle,evictSafeBuckets_cons,ih h.tail]
      simp only [hbucket.refill_refill htu]

theorem LimiterState.Sound.find_evict (h : LimiterState.Sound L state t) (key : BucketKey) :
    find (L.evictSafeBuckets state t) key =
      ((find state key).map fun b => L.refill b t).filter fun b => !L.idle b t := by
  induction state with
  | nil => rfl
  | cons e state ih =>
    have hrest := ih h.tail
    rw [evictSafeBuckets_cons,find_cons]
    by_cases hkey : e.1 = key
    · have hnone : find state key = none := find_none.mpr (hkey ▸ (List.nodup_cons.mp h.keys).1)
      rw [hnone] at hrest
      by_cases hidle : L.idle (L.refill e.2 t) t = true <;> simp [hkey,hidle,hrest,find_cons,Option.filter]
    · by_cases hidle : L.idle (L.refill e.2 t) t = true <;> simp [hkey,hidle,hrest,find_cons]

/-- The tokens that a client has, who starts with a full bucket. -/
def ClientRateLimiter.level (L : ClientRateLimiter) (state : LimiterState) (key : BucketKey) (now : ℕ) : ℚ :=
  ((find state key).map fun b => (L.refill b now).tokens).getD L.capacity

theorem LimiterState.Sound.level_nonneg (h : LimiterState.Sound L state t) (key : BucketKey) :
    0 ≤ L.level state key t := by
  cases hfind : find state key with
  | none => simp [ClientRateLimiter.level,hfind]
  | some b => simpa [ClientRateLimiter.level,hfind] using (h.buckets _ (mem_of_find hfind)).refill.tokens_nonneg

theorem LimiterState.Sound.level_le (h : LimiterState.Sound L state t) (key : BucketKey) :
    L.level state key t ≤ L.capacity := by
  cases hfind : find state key with
  | none => simp [ClientRateLimiter.level,hfind]
  | some b => simpa [ClientRateLimiter.level,hfind] using (h.buckets _ (mem_of_find hfind)).refill.tokens_le

theorem LimiterState.Sound.level_later (h : LimiterState.Sound L state t) (htu : t ≤ u) (key : BucketKey) :
    L.level state key u = refilled (L.capacity : ℚ) (L.level state key t) (L.added t u) := by
  cases hfind : find state key with
  | none => simp [ClientRateLimiter.level,hfind,refilled_full (L.added_nonneg t u)]
  | some b =>
    simpa [ClientRateLimiter.level,hfind] using (h.buckets _ (mem_of_find hfind)).tokens_later htu

theorem LimiterState.Sound.level_evict (h : LimiterState.Sound L state t) (htu : t ≤ u) (key : BucketKey) :
    L.level (L.evictSafeBuckets state t) key u = L.level state key u := by
  rw [ClientRateLimiter.level,ClientRateLimiter.level,h.find_evict]
  cases hfind : find state key with
  | none => rfl
  | some b =>
    have hbucket := h.buckets _ (mem_of_find hfind)
    by_cases hidle : L.idle (L.refill b t) t = true
    · simp [Option.filter,hidle,hbucket.idle_tokens htu hidle]
    · simp [Option.filter,hidle,hbucket.refill_refill htu]

def put (state : LimiterState) (key : BucketKey) (bucket : Bucket) : LimiterState := (key,bucket)::erase state key

theorem find_erase (state : LimiterState) (h : k ≠ key) : find (erase state key) k = find state k := by
  induction state with
  | nil => rfl
  | cons e state ih =>
    by_cases hkey : e.1 = key
    · have hrest : erase (e::state) key = erase state key := by simp [erase,hkey]
      rw [hrest,ih,find_cons,if_neg (hkey ▸ h.symm)]
    · have hrest : erase (e::state) key = e::erase state key := by simp [erase,hkey]
      rw [hrest,find_cons,find_cons,ih]

theorem erase_absent (h : find state key = none) : erase state key = state :=
  List.filter_eq_self.mpr fun _ he => decide_eq_true fun hkey =>
    find_none.mp h (hkey ▸ List.mem_map_of_mem he)

theorem find_put (state : LimiterState) (key k : BucketKey) (bucket : Bucket) :
    find (put state key bucket) k = if k = key then some bucket else find state k := by
  rw [put,find_cons]
  by_cases h : k = key
  · rw [if_pos h.symm,if_pos h]
  · rw [if_neg (Ne.symm h),if_neg h,find_erase state h]

theorem LimiterState.Sound.put_sound (h : LimiterState.Sound L state t) (hbucket : bucket.Sound L t) :
    LimiterState.Sound L (put state key bucket) t where
  keys := by
    have hkept : ((erase state key).map Prod.fst).Nodup := h.keys.sublist (List.filter_sublist.map _)
    have hgone : key ∉ (erase state key).map Prod.fst := by simp [erase]
    exact List.nodup_cons.mpr ⟨hgone,hkept⟩
  buckets := by
    intro e he
    cases he with
    | head => exact hbucket
    | tail _ he => exact h.buckets e (List.mem_of_mem_filter he)

theorem level_put (L : ClientRateLimiter) (state : LimiterState) (key k : BucketKey) (bucket : Bucket) (now : ℕ) :
    L.level (put state key bucket) k now = if k = key then (L.refill bucket now).tokens else L.level state k now := by
  rw [ClientRateLimiter.level,find_put]
  by_cases h : k = key <;> simp [h,ClientRateLimiter.level]

end States

section Steps

variable {L : ClientRateLimiter} {state : LimiterState} {key k : BucketKey} {bucket : Bucket} {t u now : ℕ}

namespace ClientRateLimiter

def held (L : ClientRateLimiter) (state : LimiterState) (key : BucketKey) (now : ℕ) : Bucket :=
  ((find state key).map fun b => L.refill b now).getD (L.fresh now)

def answer (L : ClientRateLimiter) (level : ℚ) : Except ℕ Unit :=
  if 1 ≤ level then .ok () else .error (L.retryAfter level)

def remaining (level : ℚ) : ℚ := if 1 ≤ level then level-1 else level

/-- A new client whom the cap of its endpoint refuses. -/
def capped (L : ClientRateLimiter) (state : LimiterState) (key : BucketKey) (now : ℕ) : Bool :=
  (find (L.evictSafeBuckets state now) key).isNone &&
    decide (L.maxEntries ≤ endpointEntries (L.evictSafeBuckets state now) key.endpoint)

theorem consume_eq (L : ClientRateLimiter) (bucket : Bucket) (now : ℕ) :
    L.consume bucket now = (L.answer bucket.tokens,⟨remaining bucket.tokens,bucket.updatedAt,now⟩) := by
  by_cases h : 1 ≤ bucket.tokens <;> simp [consume,answer,remaining,h]

theorem remaining_nonneg {level : ℚ} (h : 0 ≤ level) : 0 ≤ remaining level := by
  unfold remaining
  split_ifs with hone
  · exact sub_nonneg.mpr hone
  · exact h

theorem remaining_le (level : ℚ) : remaining level ≤ level := by
  unfold remaining
  split_ifs
  · exact sub_le_self level zero_le_one
  · exact le_rfl

theorem held_tokens (L : ClientRateLimiter) (state : LimiterState) (key : BucketKey) (now : ℕ) :
    (L.held state key now).tokens = L.level state key now := by
  cases h : find state key <;> simp [held,level,h,fresh]

def spent (L : ClientRateLimiter) (state : LimiterState) (key : BucketKey) (now : ℕ) : Bucket :=
  ⟨remaining (L.level state key now),now,now⟩

end ClientRateLimiter

open ClientRateLimiter

theorem LimiterState.Sound.held_updated (h : LimiterState.Sound L state t) :
    (L.held state key t).updatedAt = t := by
  cases hfind : find state key with
  | none => simp [held,hfind,fresh]
  | some b => simp [held,hfind,(h.buckets _ (mem_of_find hfind)).refill_eq]

theorem LimiterState.Sound.consume_held (h : LimiterState.Sound L state t) (key : BucketKey) :
    L.consume (L.held state key t) t = (L.answer (L.level state key t),L.spent state key t) := by
  rw [L.consume_eq,L.held_tokens,h.held_updated]
  rfl

theorem LimiterState.Sound.spent_sound (h : LimiterState.Sound L state t) : (L.spent state key t).Sound L t :=
  ⟨remaining_nonneg (h.level_nonneg key),(remaining_le _).trans (h.level_le key),le_rfl⟩

theorem LimiterState.Sound.tryConsumeForever_eq (h : LimiterState.Sound L state t) :
    L.tryConsumeForever state key t = (L.answer (L.level state key t),put state key (L.spent state key t)) := by
  have hheld := h.consume_held key
  cases hfind : find state key with
  | none =>
    have hfresh : L.held state key t = L.fresh t := by simp [held,hfind]
    rw [hfresh] at hheld
    simp only [tryConsumeForever,hfind,hheld]
    rfl
  | some b =>
    have hrefill : L.held state key t = L.refill b t := by simp [held,hfind]
    rw [hrefill] at hheld
    simp only [tryConsumeForever,hfind,hheld]
    rfl

theorem LimiterState.Sound.tryConsume_eq (h : LimiterState.Sound L state t) :
    L.tryConsume state key t =
      if L.capped state key t then (.error L.capDelay,L.evictSafeBuckets state t)
      else (L.answer (L.level state key t),put (L.evictSafeBuckets state t) key (L.spent state key t)) := by
  have hlevel : L.level (L.evictSafeBuckets state t) key t = L.level state key t := h.level_evict le_rfl key
  have hheld := h.evict.consume_held key
  have hspent : L.spent (L.evictSafeBuckets state t) key t = L.spent state key t := by
    rw [ClientRateLimiter.spent,ClientRateLimiter.spent,hlevel]
  rw [hlevel,hspent] at hheld
  cases hfind : find (L.evictSafeBuckets state t) key with
  | none =>
    have hfresh : L.held (L.evictSafeBuckets state t) key t = L.fresh t := by simp [held,hfind]
    rw [hfresh] at hheld
    by_cases hcap : L.maxEntries ≤ endpointEntries (L.evictSafeBuckets state t) key.endpoint
    · simp [tryConsume,capped,hfind,hcap]
    · simp [tryConsume,capped,hfind,hcap,hheld,put,erase_absent hfind]
  | some b =>
    have hrefill : L.held (L.evictSafeBuckets state t) key t = L.refill b t := by simp [held,hfind]
    rw [hrefill] at hheld
    simp [tryConsume,capped,hfind,hheld,put]

theorem LimiterState.Sound.result (h : LimiterState.Sound L state t) (hcapped : L.capped state key t = false) :
    (L.tryConsume state key t).1 = L.answer (L.level state key t) := by
  rw [h.tryConsume_eq,hcapped]
  rfl

theorem LimiterState.Sound.result_capped (h : LimiterState.Sound L state t) (hcapped : L.capped state key t = true) :
    (L.tryConsume state key t).1 = .error L.capDelay := by
  rw [h.tryConsume_eq,hcapped]
  rfl

theorem LimiterState.Sound.tryConsume_sound (h : LimiterState.Sound L state t) (key : BucketKey) :
    LimiterState.Sound L (L.tryConsume state key t).2 t := by
  rw [h.tryConsume_eq]
  split
  · exact h.evict
  · exact h.evict.put_sound h.spent_sound

theorem LimiterState.Sound.tryConsumeForever_sound (h : LimiterState.Sound L state t) (key : BucketKey) :
    LimiterState.Sound L (L.tryConsumeForever state key t).2 t := by
  rw [h.tryConsumeForever_eq]
  exact h.put_sound h.spent_sound

theorem LimiterState.Sound.spent_tokens (h : LimiterState.Sound L state t) (htu : t ≤ u) :
    (L.refill (L.spent state key t) u).tokens =
      refilled (L.capacity : ℚ) (remaining (L.level state key t)) (L.added t u) := by
  rw [(h.spent_sound.later htu).refill_eq]
  rfl

theorem LimiterState.Sound.level_tryConsume (h : LimiterState.Sound L state t) (htu : t ≤ u) (key k : BucketKey) :
    L.level (L.tryConsume state key t).2 k u =
      if k = key ∧ L.capped state key t = false then
        refilled (L.capacity : ℚ) (remaining (L.level state key t)) (L.added t u)
      else L.level state k u := by
  rw [h.tryConsume_eq]
  cases hcapped : L.capped state key t with
  | true => simp [h.level_evict htu]
  | false =>
    simp only [Bool.false_eq_true,if_false,level_put,h.spent_tokens htu,h.level_evict htu,and_true]

theorem LimiterState.Sound.level_tryConsumeForever (h : LimiterState.Sound L state t) (htu : t ≤ u) (k : BucketKey) :
    L.level (L.tryConsumeForever state key t).2 k u =
      if k = key then refilled (L.capacity : ℚ) (remaining (L.level state key t)) (L.added t u)
      else L.level state k u := by
  rw [h.tryConsumeForever_eq,level_put,h.spent_tokens htu]

theorem answer_isOk (L : ClientRateLimiter) (level : ℚ) : (L.answer level).isOk = decide (1 ≤ level) := by
  by_cases h : 1 ≤ level <;> simp [answer,h,Except.isOk,Except.toBool]

end Steps

section Clocks

/-- Calls at readings of a clock that does not go back. -/
def Clocked (start : ℕ) (calls : List Call) : Prop := (start::calls.map Call.now).Pairwise (· ≤ ·)

variable {c : Call} {calls : List Call} {t : ℕ}

theorem Clocked.head (h : Clocked t (c::calls)) : t ≤ c.now :=
  (List.pairwise_cons.mp h).1 c.now List.mem_cons_self

theorem Clocked.tail (h : Clocked t (c::calls)) : Clocked c.now calls := (List.pairwise_cons.mp h).2

theorem Clocked.filter (h : Clocked t calls) (p : Call → Bool) : Clocked t (calls.filter p) :=
  List.Pairwise.sublist ((List.filter_sublist.map Call.now).cons_cons t) h

end Clocks

section Windows

variable {L : ClientRateLimiter} {state : LimiterState} {calls : List Call} {key : BucketKey} {start stop t u : ℕ}

def successes (L : ClientRateLimiter) (calls : List Call) (key : BucketKey) (start stop : ℕ) : ℕ :=
  (outcomes L.tryConsume [] calls).countP fun o =>
    decide (o.1.key = key ∧ start ≤ o.1.now ∧ o.1.now ≤ stop) && o.2.isOk

def givings (key : BucketKey) (results : List (Call × Except ℕ Unit)) : List (ℚ × Bool) :=
  results.map fun o => ((o.1.now : ℚ),decide (o.1.key = key) && o.2.isOk)

theorem given_givings (key : BucketKey) (results : List (Call × Except ℕ Unit)) (start stop : ℕ) :
    given (start : ℚ) stop (givings key results) = results.countP fun o =>
      decide (o.1.key = key ∧ start ≤ o.1.now ∧ o.1.now ≤ stop) && o.2.isOk := by
  rw [given,givings,List.countP_map]
  refine List.countP_congr fun o _ => ?_
  simp only [Function.comp,Nat.cast_le,Bool.and_eq_true,decide_eq_true_eq]
  tauto

theorem ClientRateLimiter.added_eq (L : ClientRateLimiter) (h : t ≤ u) :
    L.added t u = 1/L.refillInterval*((u : ℚ)-t) := by
  rw [ClientRateLimiter.added,Nat.cast_sub h,div_mul_eq_mul_div,one_mul]

open ClientRateLimiter in
theorem LimiterState.Sound.level_taken (h : LimiterState.Sound L state t) (key k : BucketKey) :
    L.level (L.tryConsume state k t).2 key t+
      (if decide (k = key) && (L.tryConsume state k t).1.isOk then 1 else 0) = L.level state key t := by
  rw [h.level_tryConsume le_rfl]
  by_cases hkey : key = k
  · subst hkey
    cases hcapped : L.capped state key t with
    | true => simp [h.result_capped hcapped,Except.isOk,Except.toBool]
    | false =>
      have hremaining : remaining (L.level state key t) ≤ L.capacity := (remaining_le _).trans (h.level_le key)
      rw [h.result hcapped,answer_isOk,L.added_self,if_pos ⟨rfl,rfl⟩,refilled_zero hremaining]
      by_cases hone : 1 ≤ L.level state key t <;> simp [remaining,hone]
  · simp [hkey,Ne.symm hkey]

theorem LimiterState.Sound.metered (h : LimiterState.Sound L state t) (hcalls : Clocked t calls) (key : BucketKey) :
    Metered (L.capacity : ℚ) (1/L.refillInterval) t (L.level state key t)
      (givings key (outcomes L.tryConsume state calls)) := by
  induction calls generalizing state t with
  | nil => exact .nil (h.level_nonneg key)
  | cons c calls ih =>
    have hnow := h.later hcalls.head
    have htaken := hnow.level_taken key c.key
    have hlater := h.level_later hcalls.head key
    have hrest := ih (hnow.tryConsume_sound c.key) hcalls.tail
    refine .cons (h.level_nonneg key) (Nat.cast_le.mpr hcalls.head) ?_ ?_ hrest
    · rw [htaken]
      exact hnow.level_le key
    · rw [htaken,hlater,← L.added_eq hcalls.head]
      exact refilled_le_add _ _ _

theorem sound_nil (L : ClientRateLimiter) (t : ℕ) : LimiterState.Sound L [] t := ⟨List.nodup_nil,nofun⟩

/-- In any window a client has as many successes as its capacity and what is refilled in it. -/
theorem successes_le (L : ClientRateLimiter) (hcalls : Clocked 0 calls) (key : BucketKey) (hwindow : start ≤ stop) :
    (successes L calls key start stop : ℚ) ≤ L.capacity+L.added start stop := by
  have hmetered := (sound_nil L 0).metered hcalls key
  rw [successes,← given_givings,L.added_eq hwindow]
  exact hmetered.window_le (Nat.cast_nonneg _) (by positivity) (Nat.cast_le.mpr hwindow)

end Windows

section Entries

variable {L : ClientRateLimiter} {state : LimiterState} {calls : List Call} {key : BucketKey} {endpoint : PublicEndpoint}
  {t : ℕ}

theorem endpointEntries_evict (L : ClientRateLimiter) (state : LimiterState) (now : ℕ) (endpoint : PublicEndpoint) :
    endpointEntries (L.evictSafeBuckets state now) endpoint ≤ endpointEntries state endpoint := by
  have hkeys := (evictSafeBuckets_keys L state now).countP_le (p := fun k => decide (k.endpoint = endpoint))
  rwa [List.countP_map,List.countP_map] at hkeys

theorem endpointEntries_erase (state : LimiterState) (key : BucketKey) (endpoint : PublicEndpoint) :
    endpointEntries (erase state key) endpoint ≤ endpointEntries state endpoint :=
  List.filter_sublist.countP_le

theorem endpointEntries_erase_lt (h : key ∈ state.map Prod.fst) :
    endpointEntries (erase state key) key.endpoint < endpointEntries state key.endpoint := by
  induction state with
  | nil => simp at h
  | cons e state ih =>
    by_cases hkey : e.1 = key
    · have hrest := endpointEntries_erase state key key.endpoint
      have hgone : erase (e::state) key = erase state key := by simp [erase,hkey]
      rw [hgone,endpointEntries,endpointEntries,List.countP_cons,hkey,decide_eq_true rfl,if_pos rfl]
      exact Nat.lt_succ_of_le hrest
    · have hlt := ih (by simpa [Ne.symm hkey] using h)
      have hkept : erase (e::state) key = e::erase state key := by simp [erase,hkey]
      rw [hkept,endpointEntries,endpointEntries,List.countP_cons,List.countP_cons]
      exact Nat.add_lt_add_right hlt _

theorem LimiterState.Sound.entries_le (h : LimiterState.Sound L state t)
    (hentries : ∀ endpoint, endpointEntries state endpoint ≤ L.maxEntries) (key : BucketKey)
    (endpoint : PublicEndpoint) : endpointEntries (L.tryConsume state key t).2 endpoint ≤ L.maxEntries := by
  have hevicted (endpoint) : endpointEntries (L.evictSafeBuckets state t) endpoint ≤ L.maxEntries :=
    (endpointEntries_evict L state t endpoint).trans (hentries endpoint)
  rw [h.tryConsume_eq]
  cases hcapped : L.capped state key t with
  | true => exact hevicted endpoint
  | false =>
    have herased := endpointEntries_erase (L.evictSafeBuckets state t) key endpoint
    rw [if_neg Bool.false_ne_true,put,endpointEntries,List.countP_cons]
    by_cases hendpoint : key.endpoint = endpoint
    · subst hendpoint
      rw [decide_eq_true rfl,if_pos rfl]
      cases hfind : find (L.evictSafeBuckets state t) key with
      | none =>
        -- the key is new, and the call was let in below the cap
        rw [erase_absent hfind]
        have hroom : endpointEntries (L.evictSafeBuckets state t) key.endpoint < L.maxEntries := by
          simpa [ClientRateLimiter.capped,hfind] using hcapped
        exact hroom
      | some b =>
        have hmem := List.mem_map_of_mem (f := Prod.fst) (mem_of_find hfind)
        exact (endpointEntries_erase_lt hmem).trans_le (hevicted key.endpoint)
    · rw [decide_eq_false hendpoint,if_neg Bool.false_ne_true,Nat.add_zero]
      exact herased.trans (hevicted endpoint)

theorem LimiterState.Sound.run_entries_le (h : LimiterState.Sound L state t) (hcalls : Clocked t calls)
    (hentries : ∀ endpoint, endpointEntries state endpoint ≤ L.maxEntries) (endpoint : PublicEndpoint) :
    endpointEntries (stateAfter L.tryConsume state calls) endpoint ≤ L.maxEntries := by
  induction calls generalizing state t with
  | nil => exact hentries endpoint
  | cons c calls ih =>
    have hnow := h.later hcalls.head
    exact ih (hnow.tryConsume_sound c.key) hcalls.tail (hnow.entries_le hentries c.key)

end Entries

section Forever

variable {L : ClientRateLimiter} {state forever : LimiterState} {calls : List Call} {key : BucketKey} {t : ℕ}

/-- The cap refuses no call of a run. -/
def Uncapped (L : ClientRateLimiter) (state : LimiterState) (calls : List Call) : Prop :=
  ∀ before c after, calls = before++c::after →
    L.capped (stateAfter L.tryConsume state before) c.key c.now = false

theorem Uncapped.head {c : Call} (h : Uncapped L state (c::calls)) : L.capped state c.key c.now = false :=
  h [] c calls rfl

theorem Uncapped.tail {c : Call} (h : Uncapped L state (c::calls)) :
    Uncapped L (L.tryConsume state c.key c.now).2 calls := by
  intro before c' after hcalls
  exact h (c::before) c' after (congrArg (List.cons c) hcalls)

/-- As long as the cap refuses nobody, evicting changes no result. -/
theorem LimiterState.Sound.outcomes_forever (h : LimiterState.Sound L state t)
    (hforever : LimiterState.Sound L forever t) (hlevels : ∀ k u, t ≤ u → L.level state k u = L.level forever k u)
    (hcalls : Clocked t calls) (huncapped : Uncapped L state calls) :
    outcomes L.tryConsume state calls = outcomes L.tryConsumeForever forever calls := by
  induction calls generalizing state forever t with
  | nil => rfl
  | cons c calls ih =>
    have hnow := h.later hcalls.head
    have hnow' := hforever.later hcalls.head
    have hlevel := hlevels c.key c.now hcalls.head
    have hresult : (L.tryConsume state c.key c.now).1 = (L.tryConsumeForever forever c.key c.now).1 := by
      rw [hnow.result huncapped.head,hnow'.tryConsumeForever_eq,hlevel]
    have hlevels' (k u) (hu : c.now ≤ u) : L.level (L.tryConsume state c.key c.now).2 k u =
        L.level (L.tryConsumeForever forever c.key c.now).2 k u := by
      rw [hnow.level_tryConsume hu,hnow'.level_tryConsumeForever hu,huncapped.head,hlevel,
        hlevels k u (hcalls.head.trans hu)]
      simp only [and_true]
    have hrest := ih (hnow.tryConsume_sound c.key) (hnow'.tryConsumeForever_sound c.key) hlevels' hcalls.tail
      huncapped.tail
    rw [outcomes,outcomes,hresult,hrest]

end Forever

section Isolation

variable {L : ClientRateLimiter} {state alone : LimiterState} {calls : List Call} {key : BucketKey}
  {endpoint : PublicEndpoint} {t u : ℕ}

def restrict (state : LimiterState) (endpoint : PublicEndpoint) : LimiterState :=
  state.filter fun e => decide (e.1.endpoint = endpoint)

theorem LimiterState.Sound.restrict (h : LimiterState.Sound L state t) (endpoint : PublicEndpoint) :
    LimiterState.Sound L (PublicAbuse.restrict state endpoint) t :=
  ⟨h.keys.sublist (List.filter_sublist.map _),fun e he => h.buckets e (List.mem_of_mem_filter he)⟩

theorem restrict_evict (L : ClientRateLimiter) (state : LimiterState) (now : ℕ) (endpoint : PublicEndpoint) :
    restrict (L.evictSafeBuckets state now) endpoint = L.evictSafeBuckets (restrict state endpoint) now := by
  induction state with
  | nil => rfl
  | cons e state ih =>
    rw [evictSafeBuckets_cons]
    by_cases hendpoint : e.1.endpoint = endpoint
    · have hkept : restrict (e::state) endpoint = e::restrict state endpoint := by simp [restrict,hendpoint]
      rw [hkept,evictSafeBuckets_cons,← ih]
      by_cases hidle : L.idle (L.refill e.2 now) now = true
      · rw [if_pos hidle,if_pos hidle]
      · rw [if_neg hidle,if_neg hidle]
        simp [restrict,hendpoint]
    · have hgone : restrict (e::state) endpoint = restrict state endpoint := by simp [restrict,hendpoint]
      rw [hgone,← ih]
      split
      · rfl
      · simp [restrict,hendpoint]

theorem find_restrict (state : LimiterState) (key : BucketKey) :
    find (restrict state key.endpoint) key = find state key := by
  induction state with
  | nil => rfl
  | cons e state ih =>
    by_cases hendpoint : e.1.endpoint = key.endpoint
    · have hkept : restrict (e::state) key.endpoint = e::restrict state key.endpoint := by simp [restrict,hendpoint]
      rw [hkept,find_cons,find_cons,ih]
    · have hgone : restrict (e::state) key.endpoint = restrict state key.endpoint := by simp [restrict,hendpoint]
      have hne : e.1 ≠ key := fun h => hendpoint (congrArg BucketKey.endpoint h)
      rw [hgone,find_cons,if_neg hne,ih]

theorem endpointEntries_restrict (state : LimiterState) (endpoint : PublicEndpoint) :
    endpointEntries (restrict state endpoint) endpoint = endpointEntries state endpoint := by
  simp [endpointEntries,restrict,List.countP_filter]

theorem restrict_put (state : LimiterState) (key : BucketKey) (bucket : Bucket) :
    restrict (put state key bucket) key.endpoint = put (restrict state key.endpoint) key bucket := by
  simp [restrict,put,erase,List.filter_filter,Bool.and_comm]

theorem restrict_put_other (state : LimiterState) (bucket : Bucket) (h : key.endpoint ≠ endpoint) :
    restrict (put state key bucket) endpoint = restrict state endpoint := by
  have hother (e : BucketKey × Bucket) : (decide (e.1.endpoint = endpoint) && decide (e.1 ≠ key)) =
      decide (e.1.endpoint = endpoint) := by
    by_cases he : e.1.endpoint = endpoint
    · have hne : e.1 ≠ key := fun hkey => h (hkey ▸ he)
      simp [he,hne]
    · simp [he]
  simp only [restrict,put,erase,List.filter_cons,h,decide_false,Bool.false_eq_true,if_false,List.filter_filter,hother]

/-- From a time on an eviction finds the buckets of the endpoint in both states. -/
def Alike (L : ClientRateLimiter) (endpoint : PublicEndpoint) (state alone : LimiterState) (now : ℕ) : Prop :=
  ∀ u, now ≤ u → L.evictSafeBuckets (restrict state endpoint) u = L.evictSafeBuckets alone u

open ClientRateLimiter in
theorem Alike.capped (h : Alike L key.endpoint state alone t) : L.capped state key t = L.capped alone key t := by
  rw [ClientRateLimiter.capped,ClientRateLimiter.capped,← h t le_rfl,← restrict_evict,find_restrict,
    endpointEntries_restrict]

theorem Alike.level (h : Alike L key.endpoint state alone t) (hstate : LimiterState.Sound L state t)
    (halone : LimiterState.Sound L alone t) : L.level state key t = L.level alone key t := by
  have hrestricted : L.level (restrict state key.endpoint) key t = L.level state key t := by
    rw [ClientRateLimiter.level,find_restrict,ClientRateLimiter.level]
  rw [← hrestricted,← (hstate.restrict key.endpoint).level_evict le_rfl,h t le_rfl,halone.level_evict le_rfl]

/-- A call for the endpoint has its result, and leaves states alike. -/
theorem Alike.step (h : Alike L key.endpoint state alone t) (hstate : LimiterState.Sound L state t)
    (halone : LimiterState.Sound L alone t) :
    (L.tryConsume state key t).1 = (L.tryConsume alone key t).1 ∧
      Alike L key.endpoint (L.tryConsume state key t).2 (L.tryConsume alone key t).2 t := by
  have hevicted : restrict (L.evictSafeBuckets state t) key.endpoint = L.evictSafeBuckets alone t := by
    rw [restrict_evict,h t le_rfl]
  have hspent : L.spent state key t = L.spent alone key t := by
    rw [ClientRateLimiter.spent,ClientRateLimiter.spent,h.level hstate halone]
  rw [hstate.tryConsume_eq,halone.tryConsume_eq,h.capped,h.level hstate halone,hspent]
  cases L.capped alone key t with
  | true => exact ⟨rfl,fun u _ => congrArg (L.evictSafeBuckets · u) hevicted⟩
  | false =>
    refine ⟨rfl,fun u _ => congrArg (L.evictSafeBuckets · u) ?_⟩
    exact (restrict_put _ _ _).trans (congrArg (put · key (L.spent alone key t)) hevicted)

theorem Alike.step_other (h : Alike L endpoint state alone t) (hstate : LimiterState.Sound L state t)
    (hother : key.endpoint ≠ endpoint) : Alike L endpoint (L.tryConsume state key t).2 alone t := by
  intro u hu
  have hevicted : restrict (L.tryConsume state key t).2 endpoint = L.evictSafeBuckets (restrict state endpoint) t := by
    rw [hstate.tryConsume_eq,← restrict_evict]
    split
    · rfl
    · exact restrict_put_other _ _ hother
  rw [hevicted,(hstate.restrict endpoint).evict_evict hu,h u hu]

theorem Alike.later (h : Alike L endpoint state alone t) (htu : t ≤ u) : Alike L endpoint state alone u :=
  fun v hv => h v (htu.trans hv)

/-- The calls for an endpoint have the results they have alone. -/
theorem Alike.outcomes (h : Alike L endpoint state alone t) (hstate : LimiterState.Sound L state t)
    (halone : LimiterState.Sound L alone t) (hcalls : Clocked t calls) :
    (outcomes L.tryConsume state calls).filter (fun o => decide (o.1.key.endpoint = endpoint)) =
      PublicAbuse.outcomes L.tryConsume alone (calls.filter fun c => decide (c.key.endpoint = endpoint)) := by
  induction calls generalizing state alone t with
  | nil => rfl
  | cons c calls ih =>
    have hnow := hstate.later hcalls.head
    have hnow' := halone.later hcalls.head
    have halike := h.later hcalls.head
    by_cases hendpoint : c.key.endpoint = endpoint
    · subst hendpoint
      obtain ⟨hresult,hstep⟩ := halike.step hnow hnow'
      have hrest := ih hstep (hnow.tryConsume_sound c.key) (hnow'.tryConsume_sound c.key) hcalls.tail
      simp [PublicAbuse.outcomes,hresult,hrest]
    · have hrest := ih (halike.step_other hnow hendpoint) (hnow.tryConsume_sound c.key) hnow' hcalls.tail
      simp [PublicAbuse.outcomes,hendpoint,hrest]

end Isolation

section Delays

variable {L : ClientRateLimiter} {state : LimiterState} {before after calls : List Call} {c : Call} {key : BucketKey}
  {level : ℚ} {t u : ℕ}

theorem Clocked.split (h : Clocked t (before++c::after)) :
    Clocked t before ∧ (∀ b ∈ before, b.now ≤ c.now) ∧ t ≤ c.now ∧ Clocked c.now after := by
  induction before generalizing t with
  | nil => exact ⟨List.pairwise_singleton _ _,nofun,h.head,h.tail⟩
  | cons b before ih =>
    obtain ⟨hbefore,hearlier,hstart,hafter⟩ := ih h.tail
    refine ⟨List.pairwise_cons.mpr ⟨?_,hbefore⟩,?_,h.head.trans hstart,hafter⟩
    · intro time htime
      cases htime with
      | head => exact h.head
      | tail _ htime => exact h.head.trans ((List.pairwise_cons.mp hbefore).1 time htime)
    · intro b' hb'
      cases hb' with
      | head => exact hstart
      | tail _ hb' => exact hearlier b' hb'

theorem LimiterState.Sound.run (h : LimiterState.Sound L state t) (hcalls : Clocked t calls)
    (hlast : ∀ c ∈ calls, c.now ≤ u) (htu : t ≤ u) : LimiterState.Sound L (stateAfter L.tryConsume state calls) u := by
  induction calls generalizing state t with
  | nil => exact h.later htu
  | cons c calls ih =>
    have hnow := (h.later hcalls.head).tryConsume_sound c.key
    exact ih hnow hcalls.tail (fun c' hc' => hlast c' (List.mem_cons_of_mem c hc')) (hlast c List.mem_cons_self)

/-- The calls of others leave a client its tokens. -/
theorem LimiterState.Sound.run_level (h : LimiterState.Sound L state t) (hcalls : Clocked t calls)
    (hlast : ∀ c ∈ calls, c.now ≤ u) (hothers : ∀ c ∈ calls, c.key ≠ key) :
    L.level (stateAfter L.tryConsume state calls) key u = L.level state key u := by
  induction calls generalizing state t with
  | nil => rfl
  | cons c calls ih =>
    have hnow := h.later hcalls.head
    have hrest := ih (hnow.tryConsume_sound c.key) hcalls.tail (fun c' hc' => hlast c' (List.mem_cons_of_mem c hc'))
      (fun c' hc' => hothers c' (List.mem_cons_of_mem c hc'))
    have hother : key ≠ c.key := (hothers c List.mem_cons_self).symm
    rw [stateAfter,List.foldl_cons,← stateAfter,hrest,hnow.level_tryConsume (hlast c List.mem_cons_self),
      if_neg fun h => hother h.1]

theorem retryAfter_enough (h : t+L.retryAfter level*nanosPerSec ≤ u) : 1 ≤ level+L.added t u := by
  have hinterval : (0 : ℚ) < L.refillInterval := Nat.cast_pos.mpr L.refill_pos
  have hsecond : (0 : ℚ) < (nanosPerSec : ℕ) := Nat.cast_pos.mpr (by decide)
  have hceil : (1-level)*(L.refillInterval/(nanosPerSec : ℕ)) ≤ L.retryAfter level :=
    (Nat.le_ceil _).trans (Nat.cast_le.mpr (le_max_left _ _))
  have helapsed : ((L.retryAfter level : ℕ) : ℚ)*(nanosPerSec : ℕ) ≤ (u-t : ℕ) := by
    rw [← Nat.cast_mul]
    exact Nat.cast_le.mpr (Nat.le_sub_of_add_le' h)
  have hnanos : (1-level)*L.refillInterval ≤ (u-t : ℕ) := by
    calc (1-level)*L.refillInterval = (1-level)*(L.refillInterval/(nanosPerSec : ℕ))*(nanosPerSec : ℕ) := by
          field_simp
      _ ≤ (L.retryAfter level : ℕ)*(nanosPerSec : ℕ) := mul_le_mul_of_nonneg_right hceil hsecond.le
      _ ≤ (u-t : ℕ) := helapsed
  have hadded : 1-level ≤ L.added t u := (le_div_iff₀ hinterval).mpr hnanos
  exact sub_le_iff_le_add'.mp hadded

end Delays

section Results

/-- In a run that reaches a state whose call is refused for its short bucket, the next call of the
client after the delay succeeds, unless it is exempt. -/
def DelaysKept (exempt : ClientRateLimiter → LimiterState → BucketKey → ℕ → Bool) (L : ClientRateLimiter)
    (calls : List Call) : Prop :=
  ∀ before c between next after delay, calls = before++c::(between++next::after) →
    next.key = c.key → (∀ b ∈ between, b.key ≠ c.key) →
    L.capped (stateAfter L.tryConsume [] before) c.key c.now = false →
    (L.tryConsume (stateAfter L.tryConsume [] before) c.key c.now).1 = .error delay →
    c.now+delay*nanosPerSec ≤ next.now →
    exempt L (stateAfter L.tryConsume [] (before++c::between)) next.key next.now = false →
    (L.tryConsume (stateAfter L.tryConsume [] (before++c::between)) next.key next.now).1 = .ok ()

variable {L : ClientRateLimiter} {calls : List Call}

open ClientRateLimiter in
theorem delays_kept (L : ClientRateLimiter) (hcalls : Clocked 0 calls) : DelaysKept capped L calls := by
  rintro before c between next after delay rfl hkey hothers hcapped hshort hdelay hnext
  obtain ⟨hbefore,hearlier,-,hrest⟩ := hcalls.split
  obtain ⟨hbetween,hlast,hlater,-⟩ := hrest.split
  have hsound := (sound_nil L 0).run hbefore hearlier (Nat.zero_le c.now)
  have hsound' := (hsound.tryConsume_sound c.key).run hbetween hlast hlater
  have hlevel := (hsound.tryConsume_sound c.key).run_level hbetween hlast hothers
  have hstate : stateAfter L.tryConsume [] (before++c::between) = stateAfter L.tryConsume
      (L.tryConsume (stateAfter L.tryConsume [] before) c.key c.now).2 between := by
    rw [stateAfter,List.foldl_append,List.foldl_cons]
    rfl
  rw [hsound.result hcapped,answer] at hshort
  split_ifs at hshort with hfew
  cases hshort
  have hfull : (1 : ℚ) ≤ L.capacity := Nat.one_le_cast.mpr L.capacity_pos
  have hrefilled := hsound.level_tryConsume hlater c.key c.key
  rw [if_pos ⟨rfl,hcapped⟩,remaining,if_neg hfew] at hrefilled
  rw [hkey] at hnext ⊢
  rw [hstate] at hnext ⊢
  have hone : 1 ≤ L.level (stateAfter L.tryConsume
      (L.tryConsume (stateAfter L.tryConsume [] before) c.key c.now).2 between) c.key next.now := by
    rw [hlevel,hrefilled]
    exact le_min (retryAfter_enough hdelay) hfull
  rw [hsound'.result hnext,answer,if_pos hone]

structure RateLimited (exempt : ClientRateLimiter → LimiterState → BucketKey → ℕ → Bool) (L : ClientRateLimiter)
    (calls : List Call) : Prop where
  window : ∀ key start stop, start ≤ stop →
    (successes L calls key start stop : ℚ) ≤ L.capacity+L.added start stop
  entries : ∀ endpoint, endpointEntries (stateAfter L.tryConsume [] calls) endpoint ≤ L.maxEntries
  forever : Uncapped L [] calls → outcomes L.tryConsume [] calls = outcomes L.tryConsumeForever [] calls
  delays : DelaysKept exempt L calls
  isolated : ∀ endpoint, (outcomes L.tryConsume [] calls).filter (fun o => decide (o.1.key.endpoint = endpoint)) =
    outcomes L.tryConsume [] (calls.filter fun c => decide (c.key.endpoint = endpoint))

/-- What a run of the limiter keeps at readings of its clock. -/
theorem rate_limited (L : ClientRateLimiter) (calls : List Call) (hcalls : Clocked 0 calls) :
    RateLimited ClientRateLimiter.capped L calls where
  window key _ _ hwindow := successes_le L hcalls key hwindow
  entries := (sound_nil L 0).run_entries_le hcalls fun _ => Nat.zero_le _
  forever := (sound_nil L 0).outcomes_forever (sound_nil L 0) (fun _ _ _ => rfl) hcalls
  delays := delays_kept L hcalls
  isolated _ := Alike.outcomes (fun _ _ => rfl) (sound_nil L 0) (sound_nil L 0) hcalls

def sampleLimiter : ClientRateLimiter := ⟨1,120*nanosPerSec,1,by decide,by decide,by decide⟩

def sampleKey (primaryKey : String) : BucketKey := ⟨.requestCode,primaryKey⟩

/-- The bucket of the first client is evicted in time for the second, who takes its place. -/
def sampleCalls : List Call :=
  [⟨0,sampleKey "192.0.2.7/32"⟩,⟨0,sampleKey "192.0.2.7/32"⟩,⟨120*nanosPerSec,sampleKey "192.0.2.8/32"⟩,
    ⟨120*nanosPerSec,sampleKey "192.0.2.7/32"⟩]

theorem sample_rate_limited : RateLimited ClientRateLimiter.capped sampleLimiter sampleCalls :=
  rate_limited sampleLimiter sampleCalls (by unfold Clocked; decide)

/-- The cap refuses a client after the delay that its short bucket was told. -/
theorem capped_after_delay :
    Clocked 0 sampleCalls ∧ ¬RateLimited (fun _ _ _ _ => false) sampleLimiter sampleCalls := by
  refine ⟨by unfold Clocked; decide,fun h => ?_⟩
  have hdelays := h.delays [⟨0,sampleKey "192.0.2.7/32"⟩] ⟨0,sampleKey "192.0.2.7/32"⟩
    [⟨120*nanosPerSec,sampleKey "192.0.2.8/32"⟩] ⟨120*nanosPerSec,sampleKey "192.0.2.7/32"⟩ [] 120 rfl rfl (by decide)
    (by decide +kernel) (by decide +kernel) le_rfl rfl
  revert hdelays
  decide +kernel

end Results

end PublicAbuse
end North
