import North.Lib.Steps
import Mathlib.Data.List.Basic

/-! The commands of one daemon between the outbox and the channel of one connection. The
connection queries the unacknowledged commands, sends them and is then marked ready; each
commit of a command is followed by a dispatch, which needs the ready mark and is otherwise
refused as `DaemonUnavailable`, in the belief that the connection or the next one replays
the command. Commands are numbered; the socket loop empties the channel. -/
namespace North
namespace CommandDispatch

open Steps

def outboundQueueCapacity : ℕ := 256

/-- Where `dispatch_persisted_command` is. -/
inductive CallPhase
  /-- Before `daemon_by_id`. -/
  | registration
  /-- Before the look-up of the live connection. -/
  | lookup
  /-- In `outbound.send(command).await`. -/
  | sending
  deriving DecidableEq, Repr

inductive Stage
  /-- Up to the query for the unacknowledged commands. -/
  | handshake
  /-- Sending what the query has found. -/
  | pending (left : List ℕ)
  | ready
  | closed
  deriving DecidableEq, Repr

structure State where
  /-- The commands in the outbox. -/
  committed : List ℕ
  acked : List ℕ
  stage : Stage := .handshake
  /-- Whether `daemon_by_id` reads the registration as connected and not revoked. -/
  registered : Bool := true
  /-- The dispatch calls that have not returned. -/
  calls : List (ℕ × CallPhase) := []
  /-- The commands put on the channel of the connection. -/
  put : List ℕ := []
  /-- The frames that wait in the channel. -/
  queued : ℕ := 0
  deriving DecidableEq, Repr

inductive Act
  /-- A transaction commits a command; its dispatch is due. -/
  | commit (command : ℕ)
  /-- A command is dispatched once more. -/
  | again (command : ℕ)
  | advance (call : ℕ)
  | acknowledge (command : ℕ)
  | registration (registered : Bool)
  | query
  | sendPending
  | markReady
  | write
  | close
  deriving DecidableEq, Repr

/-- The call returns without having sent its command. -/
def refused (s : State) : CallPhase → Bool
  | .registration => !s.registered
  | .lookup => decide (s.stage ≠ .ready)
  | .sending => decide (s.stage = .closed)

def advance (s : State) (call : ℕ) : Option State :=
  match s.calls[call]? with
  | none => none
  | some (command,phase) =>
    if refused s phase then some { s with calls := s.calls.eraseIdx call }
    else match phase with
      | .registration => some { s with calls := s.calls.set call (command,.lookup) }
      | .lookup => some { s with calls := s.calls.set call (command,.sending) }
      | .sending =>
        if s.queued < outboundQueueCapacity then
          some { s with
            calls := s.calls.eraseIdx call
            put := s.put ++ [command]
            queued := s.queued+1 }
        else none

def sendPending (s : State) : Option State :=
  match s.stage with
  | .pending (command::left) =>
    if s.queued < outboundQueueCapacity then
      some { s with stage := .pending left, put := s.put ++ [command], queued := s.queued+1 }
    else none
  | _ => none

def step (s : State) : Act → Option State
  | .commit command =>
    if command ∈ s.committed then none
    else some { s with
      committed := s.committed ++ [command]
      calls := s.calls ++ [(command,.registration)] }
  | .again command =>
    if command ∈ s.committed then some { s with calls := s.calls ++ [(command,.registration)] }
    else none
  | .advance call => advance s call
  | .acknowledge command =>
    if command ∈ s.committed then some { s with acked := s.acked ++ [command] } else none
  | .registration registered => some { s with registered := registered }
  | .query =>
    if s.stage = .handshake then
      some { s with stage := .pending (s.committed.filter fun c => decide (c ∉ s.acked)) }
    else none
  | .sendPending => sendPending s
  | .markReady => if s.stage = .pending [] then some { s with stage := .ready } else none
  | .write => if 0 < s.queued then some { s with queued := s.queued-1 } else none
  | .close => some { s with stage := .closed }

def start (committed acked : List ℕ) : State where
  committed := committed
  acked := acked

/-! ### Stranded commands -/

/-- A dispatch of the command has not returned. -/
def Called (s : State) (command : ℕ) : Prop := command ∈ s.calls.map Prod.fst

instance (s : State) (command : ℕ) : Decidable (Called s command) :=
  inferInstanceAs (Decidable (command ∈ _))

/-- On a ready connection, every unacknowledged command whose dispatches have returned has been
put on the channel. -/
def AllPut (s : State) : Prop :=
  s.stage = .ready → ∀ c ∈ s.committed, c ∉ s.acked → ¬ Called s c → c ∈ s.put

def Act.ofConnection : Act → Bool
  | .sendPending | .markReady | .write => true
  | _ => false

/-- The commands that the connection is still to send from its query. -/
def Stage.left : Stage → List ℕ
  | .pending left => left
  | _ => []

/-- The query has run, on a connection that is open. -/
def Stage.queried : Stage → Bool
  | .pending _ | .ready => true
  | _ => false

/-- After the query, a dispatch is refused only when its command is acknowledged, sent or about
to be sent by the connection, or in the hands of another dispatch. -/
def Timely (s : State) : Act → Prop
  | .advance call => ∀ command phase, s.calls[call]? = some (command,phase) →
      refused s phase = true → s.stage.queried = true →
        command ∈ s.acked ∨ command ∈ s.put ∨ command ∈ s.stage.left ∨
          command ∈ (s.calls.eraseIdx call).map Prod.fst
  | _ => True

/-- After the query, no command is forgotten. -/
def Kept (s : State) : Prop :=
  s.stage.queried = true → ∀ c ∈ s.committed, c ∈ s.acked ∨ Called s c ∨ c ∈ s.put ∨ c ∈ s.stage.left

/-- Dispatches are of committed commands. -/
def CallsKnown (s : State) : Prop := ∀ c, Called s c → c ∈ s.committed

section Calls

variable {s : State} {call command other : ℕ} {phase : CallPhase}

theorem called_set (h : s.calls[call]? = some (command,phase)) (next : CallPhase) :
    (s.calls.set call (command,next)).map Prod.fst = s.calls.map Prod.fst := by
  obtain ⟨hlt,heq⟩ := List.getElem?_eq_some_iff.mp h
  rw [List.map_set]
  apply List.ext_getElem (by simp)
  intro i hi hi'
  rw [List.getElem_set]
  split_ifs with hc
  · subst hc
    simp [heq]
  · rfl

theorem called_erase (h : s.calls[call]? = some (command,phase)) (hcalled : Called s other)
    (hne : other ≠ command) : other ∈ (s.calls.eraseIdx call).map Prod.fst := by
  obtain ⟨⟨c,p⟩,hmem,rfl⟩ := List.mem_map.mp hcalled
  obtain ⟨i,hi⟩ := List.mem_iff_getElem?.mp hmem
  refine List.mem_map.mpr ⟨(c,p),List.mem_eraseIdx_iff_getElem?.mpr ⟨i,?_,hi⟩,rfl⟩
  rintro rfl
  rw [h] at hi
  cases hi
  exact hne rfl

theorem called_of_getElem? (h : s.calls[call]? = some (command,phase)) : Called s command :=
  List.mem_map.mpr ⟨_,List.mem_of_getElem? h,rfl⟩

theorem called_of_erase (h : other ∈ (s.calls.eraseIdx call).map Prod.fst) : Called s other := by
  obtain ⟨p,hp,rfl⟩ := List.mem_map.mp h
  exact List.mem_map_of_mem (List.mem_of_mem_eraseIdx hp)

end Calls

/-! ### One step -/

section Step

variable {s s' : State} {act : Act}

theorem advance_called {call : ℕ} {c : ℕ} (hstep : advance s call = some s') (hc : Called s' c) :
    Called s c := by
  unfold advance at hstep
  split at hstep
  · cases hstep
  rename_i command phase hcall
  split at hstep
  · cases hstep
    exact called_of_erase hc
  · split at hstep
    · cases hstep
      rw [Called,called_set hcall] at hc
      exact hc
    · cases hstep
      rw [Called,called_set hcall] at hc
      exact hc
    · split at hstep
      · cases hstep
        exact called_of_erase hc
      · cases hstep

theorem step_callsKnown (h : CallsKnown s) (hstep : step s act = some s') : CallsKnown s' := by
  have hcommit : ∀ command c, Called { s with calls := s.calls ++ [(command,.registration)] } c →
      Called s c ∨ c = command := by
    intro command c hc
    simpa [Called] using hc
  cases act with
  | commit command =>
    simp only [step] at hstep
    split_ifs at hstep
    cases hstep
    intro c hc
    rcases hcommit command c hc with hc | rfl
    · exact List.mem_append_left _ (h c hc)
    · exact List.mem_append_right _ (List.mem_singleton.mpr rfl)
  | again command =>
    simp only [step] at hstep
    split_ifs at hstep with hcommitted
    cases hstep
    intro c hc
    rcases hcommit command c hc with hc | rfl
    · exact h c hc
    · exact hcommitted
  | advance call =>
    intro c hc
    have hbefore := h c (advance_called hstep hc)
    simp only [step,advance] at hstep
    split at hstep
    · cases hstep
    split at hstep
    · cases hstep
      exact hbefore
    · split at hstep
      · cases hstep
        exact hbefore
      · cases hstep
        exact hbefore
      · split at hstep <;> cases hstep
        exact hbefore
  | acknowledge command =>
    simp only [step] at hstep
    split_ifs at hstep
    cases hstep
    exact h
  | registration registered =>
    cases hstep
    exact h
  | query =>
    simp only [step] at hstep
    split_ifs at hstep
    cases hstep
    exact h
  | sendPending =>
    simp only [step,sendPending] at hstep
    split at hstep
    · split_ifs at hstep
      cases hstep
      exact h
    · cases hstep
  | markReady =>
    simp only [step] at hstep
    split_ifs at hstep
    cases hstep
    exact h
  | write =>
    simp only [step] at hstep
    split_ifs at hstep
    cases hstep
    exact h
  | close =>
    cases hstep
    exact h

theorem advance_refused {call command : ℕ} {phase : CallPhase}
    (hcall : s.calls[call]? = some (command,phase)) (hrefused : refused s phase = true) :
    step s (.advance call) = some { s with calls := s.calls.eraseIdx call } := by
  simp only [step,advance,hcall,if_pos hrefused]

theorem advance_kept {call : ℕ} (h : Kept s) (hok : Timely s (.advance call))
    (hstep : advance s call = some s') : Kept s' := by
  unfold advance at hstep
  split at hstep
  · cases hstep
  rename_i command phase hcall
  split at hstep
  · rename_i hrefused
    cases hstep
    intro hqueried c hc
    by_cases heq : c = command
    · subst heq
      rcases hok c phase hcall hrefused hqueried with ha | hp | hl | ho
      · exact .inl ha
      · exact .inr (.inr (.inl hp))
      · exact .inr (.inr (.inr hl))
      · exact .inr (.inl ho)
    · exact (h hqueried c hc).imp id (Or.imp (fun ho => called_erase hcall ho heq) id)
  · split at hstep
    · cases hstep
      intro hqueried c hc
      rw [Called,called_set hcall]
      exact h hqueried c hc
    · cases hstep
      intro hqueried c hc
      rw [Called,called_set hcall]
      exact h hqueried c hc
    · split at hstep
      · cases hstep
        intro hqueried c hc
        by_cases heq : c = command
        · exact .inr (.inr (.inl (List.mem_append_right _ (List.mem_singleton.mpr heq))))
        · rcases h hqueried c hc with ha | ho | hp | hl
          · exact .inl ha
          · exact .inr (.inl (called_erase hcall ho heq))
          · exact .inr (.inr (.inl (List.mem_append_left _ hp)))
          · exact .inr (.inr (.inr hl))
      · cases hstep

theorem sendPending_kept (h : Kept s) (hstep : sendPending s = some s') : Kept s' := by
  unfold sendPending at hstep
  split at hstep
  · rename_i command left hstage
    split_ifs at hstep
    cases hstep
    intro _ c hc
    rcases h (by simp [hstage,Stage.queried]) c hc with ha | ho | hp | hl
    · exact .inl ha
    · exact .inr (.inl ho)
    · exact .inr (.inr (.inl (List.mem_append_left _ hp)))
    · rw [hstage] at hl
      rcases List.mem_cons.mp hl with rfl | hl
      · exact .inr (.inr (.inl (List.mem_append_right _ (List.mem_singleton.mpr rfl))))
      · exact .inr (.inr (.inr hl))
  · cases hstep

theorem step_kept (h : Kept s) (hok : Timely s act) (hstep : step s act = some s') : Kept s' := by
  cases act with
  | commit command =>
    simp only [step] at hstep
    split_ifs at hstep
    cases hstep
    intro hqueried c hc
    rcases List.mem_append.mp hc with hc | hc
    · exact (h hqueried c hc).imp id (Or.imp (fun ho => by
        rw [Called,List.map_append]
        exact List.mem_append_left _ ho) id)
    · rw [List.mem_singleton.mp hc]
      exact .inr (.inl (by simp [Called]))
  | again command =>
    simp only [step] at hstep
    split_ifs at hstep
    cases hstep
    intro hqueried c hc
    exact (h hqueried c hc).imp id (Or.imp (fun ho => by
      rw [Called,List.map_append]
      exact List.mem_append_left _ ho) id)
  | advance call => exact advance_kept h hok hstep
  | acknowledge command =>
    simp only [step] at hstep
    split_ifs at hstep
    cases hstep
    intro hqueried c hc
    exact (h hqueried c hc).imp (fun ha => List.mem_append_left _ ha) id
  | registration registered =>
    cases hstep
    exact h
  | query =>
    simp only [step] at hstep
    split_ifs at hstep
    cases hstep
    intro _ c hc
    by_cases ha : c ∈ s.acked
    · exact .inl ha
    · exact .inr (.inr (.inr (List.mem_filter.mpr ⟨hc,by simpa using ha⟩)))
  | sendPending => exact sendPending_kept h hstep
  | markReady =>
    simp only [step] at hstep
    split_ifs at hstep with hstage
    cases hstep
    intro _ c hc
    have hkept := h (by simp [hstage,Stage.queried]) c hc
    rw [hstage] at hkept
    exact hkept
  | write =>
    simp only [step] at hstep
    split_ifs at hstep
    cases hstep
    exact h
  | close =>
    cases hstep
    intro hqueried
    cases hqueried

/-- A step that is not timely forgets its command. -/
theorem timely_of_kept (hknown : CallsKnown s) (h : ∀ s', step s act = some s' → Kept s') :
    Timely s act := by
  cases act with
  | advance call =>
    intro command phase hcall hrefused hqueried
    have hkept := h _ (advance_refused hcall hrefused) hqueried command
      (hknown command (called_of_getElem? hcall))
    rcases hkept with ha | ho | hp | hl
    · exact .inl ha
    · exact .inr (.inr (.inr ho))
    · exact .inr (.inl hp)
    · exact .inr (.inr (.inl hl))
  | commit command => trivial
  | again command => trivial
  | acknowledge command => trivial
  | registration registered => trivial
  | query => trivial
  | sendPending => trivial
  | markReady => trivial
  | write => trivial
  | close => trivial

end Step

/-! ### What the connection makes of it -/

theorem Kept.allPut {s : State} (h : Kept s) : AllPut s := by
  intro hready c hc hacked hcalled
  rcases h (by simp [hready,Stage.queried]) c hc with ha | ho | hp | hl
  · exact absurd ha hacked
  · exact absurd ho hcalled
  · exact hp
  · rw [hready] at hl
    cases hl

theorem connection_drains (n : ℕ) {s : State} (h : s.queued = n) : ∃ acts,
    (∀ act ∈ acts, act.ofConnection = true) ∧ run step s acts = some { s with queued := 0 } := by
  induction n generalizing s with
  | zero => exact ⟨[],by simp,by rw [run_nil,← h]⟩
  | succ n ih =>
    obtain ⟨acts,hconnection,hrun⟩ := @ih { s with queued := s.queued-1 } (by simp [h])
    refine ⟨.write::acts,?_,run_cons.mpr ⟨{ s with queued := s.queued-1 },?_,hrun⟩⟩
    · intro act hact
      rcases List.mem_cons.mp hact with rfl | hact
      · rfl
      · exact hconnection act hact
    · simp [step,h]

theorem connection_finishes (left : List ℕ) {s : State} (hstage : s.stage = .pending left) :
    ∃ acts queued, (∀ act ∈ acts, act.ofConnection = true) ∧
      run step s acts = some { s with stage := .ready, put := s.put ++ left, queued := queued } := by
  induction left generalizing s with
  | nil =>
    refine ⟨[.markReady],s.queued,by simp [Act.ofConnection],run_cons.mpr ⟨_,?_,rfl⟩⟩
    simp [step,hstage]
  | cons command left ih =>
    obtain ⟨writes,hwrites,hdrained⟩ := connection_drains s.queued rfl
    obtain ⟨acts,queued,hacts,hrun⟩ := @ih { s with
      stage := .pending left
      put := s.put ++ [command]
      queued := 1 } rfl
    have hsend : step { s with queued := 0 } .sendPending =
        some { s with stage := .pending left, put := s.put ++ [command], queued := 1 } := by
      simp [step,sendPending,hstage,outboundQueueCapacity]
    refine ⟨writes ++ .sendPending::acts,queued,?_,
      run_append.mpr ⟨_,hdrained,run_cons.mpr ⟨_,hsend,?_⟩⟩⟩
    · intro act hact
      rcases List.mem_append.mp hact with hact | hact
      · exact hwrites act hact
      · rcases List.mem_cons.mp hact with rfl | hact
        · rfl
        · exact hacts act hact
    · rw [hrun]
      simp

/-- A command is forgotten exactly when the connection leads to a state that lacks it. -/
theorem kept_iff {s : State} : Kept s ↔ ∀ acts s', (∀ act ∈ acts, act.ofConnection = true) →
    run step s acts = some s' → AllPut s' := by
  constructor
  · intro h acts s' hconnection hrun
    refine Kept.allPut ?_
    induction acts generalizing s with
    | nil =>
      cases hrun
      exact h
    | cons act acts ih =>
      obtain ⟨s₁,hstep,hrun⟩ := run_cons.mp hrun
      have hact := hconnection act (by simp)
      have hok : Timely s act := by
        cases act <;> trivial
      exact ih (step_kept h hok hstep) (fun a ha => hconnection a (by simp [ha])) hrun
  · intro h hqueried c hc
    by_contra hlost
    obtain ⟨hacked,hcalled,hput,hleft⟩ : c ∉ s.acked ∧ ¬ Called s c ∧ c ∉ s.put ∧ c ∉ s.stage.left := by
      simpa [not_or] using hlost
    cases hstage : s.stage with
    | handshake => simp [hstage,Stage.queried] at hqueried
    | closed => simp [hstage,Stage.queried] at hqueried
    | ready => exact hput (h [] s (by simp) rfl hstage c hc hacked hcalled)
    | pending left =>
      obtain ⟨acts,queued,hconnection,hrun⟩ := connection_finishes left hstage
      rw [hstage] at hleft
      rcases List.mem_append.mp (h acts _ hconnection hrun rfl c hc hacked hcalled) with hc | hc
      · exact hput hc
      · exact hleft hc

/-- In a run, from whatever outbox, no command is stranded, whatever the connection goes on to
do, exactly when every refused dispatch was timely. -/
theorem no_command_stranded (committed acked : List ℕ) (acts : List Act) :
    (∀ before s, before <+: acts → run step (start committed acked) before = some s →
        ∀ more s', (∀ act ∈ more, act.ofConnection = true) → run step s more = some s' → AllPut s') ↔
      Along step Timely (start committed acked) acts := by
  have hexact : (∀ before s, before <+: acts → run step (start committed acked) before = some s →
      Kept s) ↔ Along step Timely (start committed acked) acts :=
    always_iff_along (fun s act s' (h : CallsKnown s) (hstep : step s act = some s') =>
        step_callsKnown h hstep)
      (fun s act s' _ h hok hstep => step_kept h hok hstep)
      (fun s act hknown _ h => timely_of_kept hknown h)
      (fun c hc => by simp [Called,start] at hc) (fun hqueried => by simp [start,Stage.queried] at hqueried)
      acts
  simp only [← hexact,kept_iff]

/-- A command that is committed and dispatched between the query and the ready mark. -/
theorem late_commit_stranded : ∃ acts s, run step (start [] []) acts = some s ∧ s.stage = .ready ∧
    s.calls = [] ∧ s.committed = [7] ∧ s.acked = [] ∧ s.put = [] ∧ ¬ AllPut s := by
  refine ⟨[.query,.commit 7,.advance 0,.advance 0,.markReady],_,rfl,rfl,rfl,rfl,rfl,rfl,fun h => ?_⟩
  have hput := h rfl 7 (by decide) (by decide) (by decide)
  cases hput

end CommandDispatch
end North
