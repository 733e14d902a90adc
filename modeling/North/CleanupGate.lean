import North.Lib.Steps
import North.Lib.Shared
import North.RuntimeContext

/-! The gate between the startup cleanup of the repository directories and the operations that
work in them. Each critical section of its mutex is one step; the permits of an operation share
a lease that is counted, and its last owner gives it back. -/
namespace North
namespace CleanupGate

open Shared
open North.Runtime (InspectionError InspectionPhase)

structure CleanupGateState where
  activeOperations : ℕ := 0
  cleanupRunning : Bool := false
  deriving DecidableEq, Repr

/-- How a call of `enter_operation_with_cancellation` leaves the mutex. -/
inductive Turn
  | entered
  | waits
  | cancelled (e : InspectionError)
  deriving DecidableEq, Repr

/-- What the call does while it holds the mutex, at first and whenever it wakes. -/
def enterTurn (s : CleanupGateState) (isCancelled : Bool) : CleanupGateState × Turn :=
  if s.cleanupRunning then
    if isCancelled then
      (s,.cancelled { phase := .cancellation, reason := "inspection cancelled while waiting for repository cleanup" })
    else (s,.waits)
  else if isCancelled then
    (s,.cancelled { phase := .cancellation, reason := "inspection cancelled before repository preparation" })
  else ({ s with activeOperations := s.activeOperations+1 },.entered)

/-- The destructor of `OperationLease`; the subtraction saturates. -/
def dropLease (s : CleanupGateState) : CleanupGateState :=
  { s with activeOperations := s.activeOperations-1 }

def beginCleanup (s : CleanupGateState) : Except String CleanupGateState :=
  if s.cleanupRunning then .error "startup cleanup is already running"
  else if s.activeOperations ≠ 0 then
    .error "startup cleanup skipped while repository inspection is active"
  else .ok { s with cleanupRunning := true }

def dropCleanup (s : CleanupGateState) : CleanupGateState := { s with cleanupRunning := false }

/-- A permit is a local variable of `prepare_unchecked` until its workspace is prepared. -/
inductive Owner
  | operation | workspace
  deriving DecidableEq, Repr

/-- One clone of an operation permit: which lease it shares, and what owns it. -/
structure OperationPermit where
  lease : ℕ
  owner : Owner
  deriving DecidableEq, Repr

/-- What a call returned. -/
inductive Answer
  | entered
  | entryCancelled (e : InspectionError)
  | cleanupBegan
  | cleanupRefused (reason : String)
  deriving DecidableEq, Repr

def Answer.refused : Answer → Bool
  | .entryCancelled _ => true
  | .cleanupRefused _ => true
  | _ => false

/-- The gate and what lives around it: the strong count of every lease so far, the permits, the
calls that wait with their cancellation flags, and the cleanup permits. -/
structure World where
  gate : CleanupGateState := {}
  strong : List ℕ := []
  permits : List OperationPermit := []
  waiting : List ℕ := []
  cancelledFlags : List ℕ := []
  cleanupPermits : ℕ := 0
  answers : List Answer := []
  deriving DecidableEq, Repr

inductive Act
  | cancel (flag : ℕ)
  | enter (flag : ℕ)
  | wake (i : ℕ)
  | clone (i : ℕ) (owner : Owner)
  | prepared (i : ℕ)
  | dropPermit (i : ℕ)
  | beginCleanup
  | dropCleanup
  deriving DecidableEq, Repr

namespace World

def grant (w : World) : World :=
  { w with
    strong := w.strong ++ [1]
    permits := w.permits ++ [⟨w.strong.length,.operation⟩]
    answers := w.answers ++ [.entered] }

/-- The call holds the mutex; `waiting` is who waits besides it. -/
def turn (w : World) (flag : ℕ) (waiting : List ℕ) : World :=
  match enterTurn w.gate (w.cancelledFlags.contains flag) with
  | (gate,.entered) => grant { w with gate := gate, waiting := waiting }
  | (gate,.waits) => { w with gate := gate, waiting := waiting ++ [flag] }
  | (gate,.cancelled e) =>
    { w with gate := gate, waiting := waiting, answers := w.answers ++ [.entryCancelled e] }

def release (w : World) (i : ℕ) (p : OperationPermit) : World :=
  { w with
    gate := if w.strong[p.lease]? = some 1 then dropLease w.gate else w.gate
    strong := w.strong.modify p.lease (· - 1)
    permits := w.permits.eraseIdx i }

def step (w : World) : Act → Option World
  | .cancel flag => some { w with cancelledFlags := flag::w.cancelledFlags }
  | .enter flag => some (w.turn flag w.waiting)
  | .wake i => w.waiting[i]?.map fun flag => w.turn flag (w.waiting.eraseIdx i)
  | .clone i owner => w.permits[i]?.map fun p =>
      { w with
        strong := w.strong.modify p.lease (· + 1)
        permits := w.permits ++ [⟨p.lease,owner⟩] }
  | .prepared i => w.permits[i]?.map fun p =>
      { w with permits := w.permits.set i { p with owner := .workspace } }
  | .dropPermit i => w.permits[i]?.map fun p => w.release i p
  | .beginCleanup =>
    match CleanupGate.beginCleanup w.gate with
    | .error reason => some { w with answers := w.answers ++ [.cleanupRefused reason] }
    | .ok gate =>
      some { w with
        gate := gate
        cleanupPermits := w.cleanupPermits+1
        answers := w.answers ++ [.cleanupBegan] }
  | .dropCleanup =>
    if w.cleanupPermits = 0 then none
    else some { w with gate := CleanupGate.dropCleanup w.gate, cleanupPermits := w.cleanupPermits-1 }

def owners (w : World) : List ℕ := w.permits.map OperationPermit.lease

/-- What every step keeps: the counts of the leases are those of their permits, the gate counts
the leases alive through a permit and the cleanup permits, and it never lets both in. -/
structure Inv (w : World) : Prop where
  counts : Counts w.strong w.owners
  active : w.gate.activeOperations = (alive w.owners).card
  cleanup : w.cleanupPermits = if w.gate.cleanupRunning then 1 else 0
  apart : w.gate.cleanupRunning = true → w.gate.activeOperations = 0

theorem inv_start : Inv {} := ⟨fun _ => rfl,rfl,rfl,fun _ => rfl⟩

/-- What a turn does: it gives up or waits and changes no count, or it enters an idle gate. -/
theorem turn_cases (w : World) (flag : ℕ) (waiting : List ℕ) :
    (∃ e, w.turn flag waiting =
      { w with waiting := waiting, answers := w.answers ++ [.entryCancelled e] }) ∨
    w.turn flag waiting = { w with waiting := waiting ++ [flag] } ∨
    (w.gate.cleanupRunning = false ∧
      w.turn flag waiting = grant { w with
        gate := { w.gate with activeOperations := w.gate.activeOperations+1 }
        waiting := waiting }) := by
  unfold World.turn enterTurn
  cases hrunning : w.gate.cleanupRunning <;> cases hcancelled : w.cancelledFlags.contains flag
  · exact .inr (.inr ⟨rfl,by simp [hrunning]⟩)
  · exact .inl ⟨_,rfl⟩
  · exact .inr (.inl rfl)
  · exact .inl ⟨_,rfl⟩

theorem Inv.turn {w : World} (h : Inv w) (flag : ℕ) (waiting : List ℕ) : Inv (w.turn flag waiting) := by
  rcases w.turn_cases flag waiting with ⟨e,heq⟩ | heq | ⟨hidle,heq⟩
  · rw [heq]
    exact ⟨h.counts,h.active,h.cleanup,h.apart⟩
  · rw [heq]
    exact ⟨h.counts,h.active,h.cleanup,h.apart⟩
  · rw [heq]
    refine ⟨?_,?_,h.cleanup,fun hrunning => ?_⟩
    · simpa [owners,grant] using h.counts.make
    · simpa [owners,grant,h.active] using (alive_make h.counts).symm
    · simp [grant,hidle] at hrunning

theorem release_gate (w : World) (i : ℕ) (p : OperationPermit) :
    (w.release i p).gate.cleanupRunning = w.gate.cleanupRunning ∧
      (w.release i p).gate.activeOperations =
        w.gate.activeOperations - if w.strong[p.lease]? = some 1 then 1 else 0 := by
  unfold World.release dropLease
  split_ifs <;> exact ⟨rfl,rfl⟩

theorem Inv.release {w : World} (h : Inv w) {i : ℕ} {p : OperationPermit} (hp : w.permits[i]? = some p) :
    Inv (w.release i p) := by
  have hi : w.owners[i]? = some p.lease := by simp [owners,hp]
  have howners : (w.release i p).owners = w.owners.eraseIdx i := by
    simp [owners,World.release,List.eraseIdx_map]
  obtain ⟨hrunning,hactive⟩ := w.release_gate i p
  refine ⟨?_,?_,?_,?_⟩
  · rw [howners]
    exact h.counts.drop hi
  · rw [howners,hactive,h.active,alive_drop h.counts hi,Nat.add_sub_cancel]
  · rw [hrunning]
    exact h.cleanup
  · rw [hrunning,hactive]
    intro hrun
    rw [h.apart hrun,Nat.zero_sub]

theorem step_inv (w : World) (act : Act) (w' : World) (h : Inv w) (hstep : w.step act = some w') :
    Inv w' := by
  cases act with
  | cancel flag =>
    cases hstep
    exact ⟨h.counts,h.active,h.cleanup,h.apart⟩
  | enter flag =>
    cases hstep
    exact h.turn flag w.waiting
  | wake i =>
    obtain ⟨flag,-,rfl⟩ := Option.map_eq_some_iff.mp hstep
    exact h.turn flag _
  | clone i owner =>
    obtain ⟨p,hp,rfl⟩ := Option.map_eq_some_iff.mp hstep
    have hmem : p.lease ∈ w.owners := List.mem_map_of_mem (List.mem_of_getElem? hp)
    have howners : (w.permits ++ [OperationPermit.mk p.lease owner]).map OperationPermit.lease =
        w.owners ++ [p.lease] := by
      simp [owners]
    refine ⟨?_,?_,h.cleanup,h.apart⟩
    · rw [owners,howners]
      exact h.counts.share hmem
    · rw [owners,howners,alive_share hmem]
      exact h.active
  | prepared i =>
    obtain ⟨p,hp,rfl⟩ := Option.map_eq_some_iff.mp hstep
    -- the permit moves to another owner and keeps its lease
    have howners : (w.permits.set i { p with owner := .workspace }).map OperationPermit.lease = w.owners := by
      obtain ⟨hlt,rfl⟩ := List.getElem?_eq_some_iff.mp hp
      have hlen : i < w.owners.length := by simpa [owners] using hlt
      have hlease : (w.permits[i]).lease = w.owners[i] := by simp [owners]
      rw [List.map_set,hlease]
      exact List.set_getElem_self _
    refine ⟨?_,?_,h.cleanup,h.apart⟩
    · rw [owners,howners]
      exact h.counts
    · rw [owners,howners]
      exact h.active
  | dropPermit i =>
    obtain ⟨p,hp,rfl⟩ := Option.map_eq_some_iff.mp hstep
    exact h.release hp
  | beginCleanup =>
    simp only [step,CleanupGate.beginCleanup] at hstep
    split_ifs at hstep with hrunning hactive
    · cases hstep
      exact ⟨h.counts,h.active,h.cleanup,h.apart⟩
    · cases hstep
      exact ⟨h.counts,h.active,h.cleanup,h.apart⟩
    · cases hstep
      have hcleanup := h.cleanup
      rw [if_neg hrunning] at hcleanup
      exact ⟨h.counts,h.active,by simp [hcleanup],fun _ => not_not.mp hactive⟩
  | dropCleanup =>
    simp only [step] at hstep
    split_ifs at hstep with hnone
    cases hstep
    have hcleanup := h.cleanup
    have hrunning : w.gate.cleanupRunning = true := by
      by_contra hidle
      rw [if_neg hidle] at hcleanup
      exact hnone hcleanup
    rw [if_pos hrunning] at hcleanup
    exact ⟨h.counts,h.active,by simp [CleanupGate.dropCleanup,hcleanup],fun _ => h.apart hrunning⟩

theorem refused_gate {w w' : World} {act : Act} {a : Answer} (hstep : w.step act = some w')
    (hanswer : w'.answers = w.answers ++ [a]) (hrefused : a.refused = true) : w'.gate = w.gate := by
  have hturn : ∀ flag waiting, (w.turn flag waiting).answers = w.answers ++ [a] →
      (w.turn flag waiting).gate = w.gate := by
    intro flag waiting hans
    rcases w.turn_cases flag waiting with ⟨e,heq⟩ | heq | ⟨-,heq⟩
    · rw [heq]
    · rw [heq]
    · -- who enters is not refused
      rw [heq] at hans
      obtain rfl : Answer.entered = a := by simpa [grant] using hans
      cases hrefused
  cases act with
  | cancel flag =>
    cases hstep
    rfl
  | enter flag =>
    cases hstep
    exact hturn flag _ hanswer
  | wake i =>
    obtain ⟨flag,-,rfl⟩ := Option.map_eq_some_iff.mp hstep
    exact hturn flag _ hanswer
  | clone i owner =>
    obtain ⟨p,-,rfl⟩ := Option.map_eq_some_iff.mp hstep
    rfl
  | prepared i =>
    obtain ⟨p,-,rfl⟩ := Option.map_eq_some_iff.mp hstep
    rfl
  | dropPermit i =>
    obtain ⟨p,-,rfl⟩ := Option.map_eq_some_iff.mp hstep
    simp [release] at hanswer
  | beginCleanup =>
    simp only [step] at hstep
    split at hstep
    · cases hstep
      rfl
    · cases hstep
      obtain rfl : Answer.cleanupBegan = a := by simpa using hanswer
      cases hrefused
  | dropCleanup =>
    simp only [step] at hstep
    split_ifs at hstep
    cases hstep
    simp at hanswer

/-- The startup cleanup holds a permit of the gate while it removes directories. -/
def CleanupAlive (w : World) : Prop := 0 < w.cleanupPermits

def WorkspaceAlive (w : World) : Prop := ∃ p ∈ w.permits, p.owner = .workspace

/-- In every state of every run the gate counts just the leases alive through a permit and the
one cleanup that may run, never both, and a refused call changes nothing. -/
theorem gate_counts {acts : List Act} {w : World} (hrun : Steps.run step {} acts = some w) :
    w.gate.activeOperations = (alive (w.permits.map OperationPermit.lease)).card ∧
      (w.gate.cleanupRunning = true ↔ w.cleanupPermits = 1) ∧ w.cleanupPermits ≤ 1 ∧
      ¬(w.gate.activeOperations ≠ 0 ∧ w.gate.cleanupRunning = true) ∧
      (∀ act w' a, w.step act = some w' → w'.answers = w.answers ++ [a] → a.refused = true →
        w'.gate = w.gate) ∧
      ¬(w.CleanupAlive ∧ w.WorkspaceAlive) := by
  have h : Inv w := Steps.run_invariant step_inv inv_start hrun
  have hcleanup := h.cleanup
  refine ⟨h.active,?_,?_,?_,fun _ _ _ => refused_gate,?_⟩
  · cases hrunning : w.gate.cleanupRunning <;> simp [hcleanup,hrunning]
  · rw [hcleanup]
    split_ifs <;> omega
  · rintro ⟨hactive,hrunning⟩
    exact hactive (h.apart hrunning)
  · rintro ⟨hclean,p,hp,-⟩
    have hrunning : w.gate.cleanupRunning = true := by
      by_contra hidle
      rw [if_neg hidle] at hcleanup
      exact Nat.ne_of_gt hclean hcleanup
    have hnone : alive w.owners = ∅ := Finset.card_eq_zero.mp (h.active ▸ h.apart hrunning)
    have hmem : p.lease ∈ alive w.owners := mem_alive.mpr (List.mem_map_of_mem hp)
    rw [hnone] at hmem
    exact Finset.notMem_empty _ hmem

/-- A workspace is prepared and cloned, a cleanup is refused, both clones go, a cleanup runs, and
an operation gives up while it waits for it. -/
def sampleActs : List Act :=
  [.enter 1,.prepared 0,.clone 0 .workspace,.beginCleanup,.dropPermit 0,.dropPermit 0,.beginCleanup,
    .enter 2,.cancel 2,.wake 0]

theorem sample_gate_counts :
    ∃ w, Steps.run step {} sampleActs = some w ∧ w.gate.activeOperations = 0 ∧
      w.cleanupPermits = 1 ∧ ¬(w.CleanupAlive ∧ w.WorkspaceAlive) ∧
      w.answers.map Answer.refused = [false,true,false,true] := by
  obtain ⟨w,hsample⟩ : ∃ w, Steps.run step {} sampleActs = some w := ⟨_,rfl⟩
  obtain ⟨-,hrunning,-,-,-,hapart⟩ := gate_counts hsample
  refine ⟨w,hsample,?_,hrunning.mp ?_,hapart,?_⟩
  all_goals
    cases hsample
    rfl

end World
end CleanupGate
end North
