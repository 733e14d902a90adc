import North.Lib.Steps

/-! The main loop of the daemon, its heartbeat task and its connection supervisor, as
processes over their bounded channels. The main loop answers the supervisor's handshakes
and sends frames to the outbound channel, which the supervisor empties while a connection
is active. Frames are counted; what the loop makes of an input is any number of frames. -/
namespace North
namespace DaemonChannels

open Steps

def outboundQueueCapacity : ℕ := 256

def eventQueueCapacity : ℕ := 256

def controlChannelCapacity : ℕ := 1

inductive ConnectionEvent
  | handshakeComplete (attempt : ℕ)
  | frame
  deriving DecidableEq, Repr

/-- Why `start` returns an error. -/
inductive StartError
  /-- The journal, or the runtime under it, failed. -/
  | local
  /-- A server frame was refused for good. -/
  | serverFrame
  /-- "supervisor stopped during handshake": nobody waits for the readiness reply. -/
  | handshake
  /-- The channels or the task of the supervisor have ended. -/
  | supervisorStopped
  deriving DecidableEq, Repr

inductive Main
  | select
  /-- In `outbound.send(frame).await`, with more frames to come. -/
  | sending (more : ℕ)
  /-- In `close_sender.send(CloseRetryable).await`. -/
  | closing
  | stopped (error : StartError)
  deriving DecidableEq, Repr

/-- `run_with_control` and `connect_once`. -/
inductive Supervisor
  /-- Backoff, connect, hello, welcome and snapshot. -/
  | connecting
  /-- In `inbound.send(HandshakeComplete).await`. -/
  | delivering
  /-- In `coordination.await`, and whether the reply is there. -/
  | awaiting (replied : Bool)
  /-- In the select of the active connection. -/
  | active
  /-- In `inbound.send(Frame).await`. -/
  | forwarding
  /-- In `writer_sender.send(frame).await`, which ends with the writer task. -/
  | writing
  /-- Returned after a terminal failure or a shutdown. -/
  | ended
  deriving DecidableEq, Repr

structure State where
  main : Main := .select
  supervisor : Supervisor := .connecting
  /-- The number of the latest handshake. -/
  attempt : ℕ := 0
  outbound : ℕ := 0
  events : List ConnectionEvent := []
  control : ℕ := 0
  deriving DecidableEq, Repr

/-- What the coordinator makes of an input: frames to send, a retryable gap, an integrity
failure, or a failure of the journal. -/
inductive Handling
  | frames (count : ℕ)
  | gap
  | refused
  | localFailure
  deriving DecidableEq, Repr

inductive Act
  /-- A runtime completion, with its follow-up. -/
  | completion (handling : Handling)
  | takeEvent (handling : Handling)
  | put
  | requestClose
  /-- The journal fails between two batches of frames. -/
  | breakOff
  /-- The end of the supervisor task, or of its event channel. -/
  | join
  | heartbeat
  | snapshot
  | deliver
  | timeout
  | activate
  | takeOutbound
  | written
  | takeControl
  | receive
  | forward
  /-- A failure that is classified as retryable. -/
  | lose
  /-- A terminal failure. -/
  | reject
  deriving DecidableEq, Repr

def Main.ofFrames : ℕ → Main
  | 0 => .select
  | more+1 => .sending more

def takeFrame (s : State) (events : List ConnectionEvent) : Handling → State
  | .frames count => { s with events := events, main := .ofFrames count }
  | .gap => { s with events := events, main := .closing }
  | .refused => { s with events := events, main := .stopped .serverFrame }
  | .localFailure => { s with events := events, main := .stopped .local }

/-- `ready.send(())` reaches the handshake that still waits for it. -/
def takeHandshake (s : State) (events : List ConnectionEvent) (attempt : ℕ) : Handling → State
  | .frames count =>
    if s.supervisor = .awaiting false ∧ s.attempt = attempt then
      { s with events := events, supervisor := .awaiting true, main := .ofFrames count }
    else { s with events := events, main := .stopped .handshake }
  | _ => { s with events := events, main := .stopped .local }

def takeEvent (s : State) (handling : Handling) : Option State :=
  match s.main,s.events with
  | .select,.handshakeComplete attempt::events => some (takeHandshake s events attempt handling)
  | .select,.frame::events => some (takeFrame s events handling)
  | _,_ => none

def completion (s : State) (handling : Handling) : Option State :=
  match s.main,handling with
  | .select,.frames count => some { s with main := .ofFrames count }
  | .select,_ => some { s with main := .stopped .local }
  | _,_ => none

def put (s : State) : Option State :=
  match s.main with
  | .sending more =>
    if s.supervisor = .ended then some { s with main := .stopped .supervisorStopped }
    else if s.outbound < outboundQueueCapacity then
      some { s with outbound := s.outbound+1, main := .ofFrames more }
    else none
  | _ => none

def requestClose (s : State) : Option State :=
  match s.main with
  | .closing =>
    if s.supervisor = .ended then some { s with main := .stopped .supervisorStopped }
    else if s.control < controlChannelCapacity then
      some { s with control := s.control+1, main := .select }
    else none
  | _ => none

def breakOff (s : State) : Option State :=
  match s.main with
  | .sending _ => some { s with main := .stopped .local }
  | _ => none

def join (s : State) : Option State :=
  if s.main = .select ∧ s.supervisor = .ended then
    some { s with main := .stopped .supervisorStopped }
  else none

def heartbeat (s : State) : Option State :=
  if s.supervisor ≠ .ended ∧ s.outbound < outboundQueueCapacity then
    some { s with outbound := s.outbound+1 }
  else none

def Main.isStopped : Main → Bool
  | .stopped _ => true
  | _ => false

/-- `inbound.send(event)`: the receiver goes with the main loop. -/
def sendEvent (s : State) (event : ConnectionEvent) (next : Supervisor) : Option State :=
  if s.main.isStopped then some { s with supervisor := .ended }
  else if s.events.length < eventQueueCapacity then
    some { s with events := s.events ++ [event], supervisor := next }
  else none

def supervise (s : State) : Act → Option State
  | .snapshot =>
    if s.supervisor = .connecting then
      some { s with supervisor := .delivering, attempt := s.attempt+1 }
    else none
  | .deliver =>
    if s.supervisor = .delivering then sendEvent s (.handshakeComplete s.attempt) (.awaiting false)
    else none
  | .timeout =>
    if s.supervisor = .delivering ∨ s.supervisor = .awaiting false then
      some { s with supervisor := .connecting }
    else none
  | .activate =>
    if s.supervisor = .awaiting true then some { s with supervisor := .active } else none
  | .takeOutbound =>
    if s.supervisor = .active ∧ 0 < s.outbound then
      some { s with supervisor := .writing, outbound := s.outbound-1 }
    else none
  | .written => if s.supervisor = .writing then some { s with supervisor := .active } else none
  | .takeControl =>
    if s.supervisor = .active ∧ 0 < s.control then
      some { s with supervisor := .connecting, control := s.control-1 }
    else none
  | .receive => if s.supervisor = .active then some { s with supervisor := .forwarding } else none
  | .forward => if s.supervisor = .forwarding then sendEvent s .frame .active else none
  | .lose =>
    if s.supervisor = .active ∨ s.supervisor = .writing then some { s with supervisor := .connecting }
    else none
  | .reject =>
    if s.supervisor = .active ∨ s.supervisor = .connecting then some { s with supervisor := .ended }
    else none
  | _ => none

def step (s : State) : Act → Option State
  | .completion handling => completion s handling
  | .takeEvent handling => takeEvent s handling
  | .put => put s
  | .requestClose => requestClose s
  | .breakOff => breakOff s
  | .join => join s
  | .heartbeat => heartbeat s
  | act => supervise s act

/-! ### Waiting -/

/-- The main loop waits for room in a channel to the supervisor. -/
def MainWaits (s : State) : Prop :=
  s.supervisor ≠ .ended ∧
    ((∃ more, s.main = .sending more) ∧ outboundQueueCapacity ≤ s.outbound ∨
      s.main = .closing ∧ controlChannelCapacity ≤ s.control)

/-- The supervisor can go on only after the main loop acts. -/
def SupervisorWaits (s : State) : Prop :=
  s.supervisor = .awaiting false ∨
    (s.supervisor = .delivering ∨ s.supervisor = .forwarding) ∧ eventQueueCapacity ≤ s.events.length

def Stuck (s : State) : Prop := MainWaits s ∧ SupervisorWaits s

/-- An error of `start` is the daemon's own, or the server's, or follows the supervisor's end. -/
def Justified (s : State) : Prop :=
  s.main = .stopped .handshake ∨ s.main = .stopped .supervisorStopped → s.supervisor = .ended

/-- A connection is active or about to be, and its supervisor comes back to the channels
without the main loop; an ended supervisor fails the sender at once. -/
def Serving (s : State) : Prop :=
  s.supervisor = .active ∨ s.supervisor = .writing ∨ s.supervisor = .awaiting true ∨
    s.supervisor = .forwarding ∧ s.events.length < eventQueueCapacity ∨ s.supervisor = .ended

/-- The supervisor gets a snapshot and hands it over. -/
def Act.reconnects : Act → Bool
  | .snapshot | .deliver => true
  | _ => false

/-- What a step must not do: send to a channel that nobody empties, leave the connection while
the main loop waits for room, or answer a handshake that has been given up. -/
def Orderly (s : State) : Act → Prop
  | .completion (.frames (_+1)) =>
    s.main = .select → outboundQueueCapacity ≤ s.outbound → Serving s
  | .takeEvent handling => s.main = .select →
    match s.events,handling with
    | .handshakeComplete attempt::_,.frames _ =>
      s.supervisor = .awaiting false ∧ s.attempt = attempt ∨ s.supervisor = .ended
    | .frame::_,.frames (_+1) =>
      outboundQueueCapacity ≤ s.outbound → s.supervisor = .forwarding ∨ Serving s
    | .frame::_,.gap => controlChannelCapacity ≤ s.control → s.supervisor = .forwarding ∨ Serving s
    | _,_ => True
  | .put => ∀ more, s.main = .sending (more+1) → s.outbound < outboundQueueCapacity →
      outboundQueueCapacity ≤ s.outbound+1 → Serving s
  | .heartbeat => ∀ more, s.main = .sending more → s.outbound < outboundQueueCapacity →
      outboundQueueCapacity ≤ s.outbound+1 → Serving s
  | .takeControl => s.supervisor = .active → 0 < s.control →
      ¬ ((∃ more, s.main = .sending more) ∧ outboundQueueCapacity ≤ s.outbound)
  | .receive => s.supervisor = .active → eventQueueCapacity ≤ s.events.length → ¬ MainWaits s
  | .lose => s.supervisor = .active ∨ s.supervisor = .writing → ¬ MainWaits s
  | _ => True

/-- The main loop waits only while the supervisor serves it. -/
def Drained (s : State) : Prop := MainWaits s → Serving s

/-- The channels hold no more than they can. -/
structure Bounded (s : State) : Prop where
  events : s.events.length ≤ eventQueueCapacity
  control : s.control ≤ controlChannelCapacity

theorem mainWaits_sending {s : State} {more : ℕ} (h : s.main = .sending more) :
    MainWaits s ↔ s.supervisor ≠ .ended ∧ outboundQueueCapacity ≤ s.outbound := by
  simp [MainWaits,h]

theorem mainWaits_closing {s : State} (h : s.main = .closing) :
    MainWaits s ↔ s.supervisor ≠ .ended ∧ controlChannelCapacity ≤ s.control := by
  simp [MainWaits,h]

theorem not_mainWaits_select {s : State} (h : s.main = .select) : ¬ MainWaits s := by
  simp [MainWaits,h]

theorem not_mainWaits_stopped {s : State} {error : StartError} (h : s.main = .stopped error) :
    ¬ MainWaits s := by
  simp [MainWaits,h]

/-- A supervisor that does not serve is on its way to a handshake, or waits. -/
theorem not_serving {s : State} (h : ¬ Serving s) : s.supervisor = .connecting ∨
    s.supervisor = .delivering ∨ s.supervisor = .awaiting false ∨
    s.supervisor = .forwarding ∧ eventQueueCapacity ≤ s.events.length := by
  unfold Serving at h
  cases hs : s.supervisor with
  | connecting => exact .inl rfl
  | delivering => exact .inr (.inl rfl)
  | awaiting replied =>
    cases replied with
    | true => simp [hs] at h
    | false => exact .inr (.inr (.inl rfl))
  | forwarding => exact .inr (.inr (.inr ⟨rfl,by simpa [hs] using h⟩))
  | active => simp [hs] at h
  | writing => simp [hs] at h
  | ended => simp [hs] at h

theorem SupervisorWaits.not_serving {s : State} (h : SupervisorWaits s) : ¬ Serving s := by
  rintro (hs | hs | hs | ⟨hs,hlt⟩ | hs) <;> rcases h with h | ⟨h | h,hfull⟩ <;> rw [hs] at h <;>
    first | exact absurd hlt (Nat.not_lt.mpr hfull) | cases h

/-! ### One step -/

section Step

variable {s s' : State} {act : Act}

theorem sendEvent_bounded (h : Bounded s) {event : ConnectionEvent} {next : Supervisor}
    (hstep : sendEvent s event next = some s') : Bounded s' := by
  unfold sendEvent at hstep
  split_ifs at hstep with hstopped hroom
  · cases hstep
    exact ⟨h.events,h.control⟩
  · cases hstep
    refine ⟨?_,h.control⟩
    show (s.events ++ [event]).length ≤ _
    rw [List.length_append,List.length_singleton]
    omega

theorem takeEvent_bounded (h : Bounded s) {handling : Handling} (hstep : takeEvent s handling = some s') :
    Bounded s' := by
  have htail : ∀ event events, s.events = event::events → events.length ≤ eventQueueCapacity := by
    intro event events heq
    have hlength := h.events
    rw [heq,List.length_cons] at hlength
    omega
  unfold takeEvent at hstep
  split at hstep
  · rename_i attempt events _ hevents
    cases hstep
    unfold takeHandshake
    split
    · split <;> exact ⟨htail _ _ hevents,h.control⟩
    · exact ⟨htail _ _ hevents,h.control⟩
  · rename_i events _ hevents
    cases hstep
    unfold takeFrame
    split <;> exact ⟨htail _ _ hevents,h.control⟩
  · cases hstep

theorem step_bounded (h : Bounded s) (hstep : step s act = some s') : Bounded s' := by
  cases act with
  | completion handling =>
    simp only [step,completion] at hstep
    split at hstep <;> cases hstep <;> exact ⟨h.events,h.control⟩
  | takeEvent handling => exact takeEvent_bounded h hstep
  | put =>
    simp only [step,put] at hstep
    split at hstep
    · split_ifs at hstep <;> cases hstep <;> exact ⟨h.events,h.control⟩
    · cases hstep
  | requestClose =>
    simp only [step,requestClose] at hstep
    split at hstep
    · split_ifs at hstep with hended hroom
      · cases hstep
        exact ⟨h.events,h.control⟩
      · cases hstep
        exact ⟨h.events,hroom⟩
    · cases hstep
  | breakOff =>
    simp only [step,breakOff] at hstep
    split at hstep <;> cases hstep
    exact ⟨h.events,h.control⟩
  | join =>
    simp only [step,join] at hstep
    split_ifs at hstep
    cases hstep
    exact ⟨h.events,h.control⟩
  | heartbeat =>
    simp only [step,heartbeat] at hstep
    split_ifs at hstep
    cases hstep
    exact ⟨h.events,h.control⟩
  | deliver =>
    simp only [step,supervise] at hstep
    split_ifs at hstep
    exact sendEvent_bounded h hstep
  | forward =>
    simp only [step,supervise] at hstep
    split_ifs at hstep
    exact sendEvent_bounded h hstep
  | takeControl =>
    simp only [step,supervise] at hstep
    split_ifs at hstep
    cases hstep
    exact ⟨h.events,Nat.le_trans (Nat.sub_le _ _) h.control⟩
  | _ =>
    simp only [step,supervise] at hstep
    split_ifs at hstep
    cases hstep
    exact ⟨h.events,h.control⟩

/-! What the main loop does next decides whether it waits. -/

theorem waits_ofFrames {count : ℕ} (hmain : s.main = .ofFrames count) (h : MainWaits s) :
    ∃ more, count = more+1 ∧ s.main = .sending more ∧ outboundQueueCapacity ≤ s.outbound := by
  cases count with
  | zero => exact absurd h (not_mainWaits_select hmain)
  | succ more => exact ⟨more,rfl,hmain,((mainWaits_sending hmain).mp h).2⟩

theorem completion_drained {handling : Handling} (hok : Orderly s (.completion handling))
    (hstep : completion s handling = some s') : Drained s' := by
  unfold completion at hstep
  split at hstep
  · rename_i count hmain
    cases hstep
    intro hwaits
    obtain ⟨more,rfl,-,hfull⟩ := waits_ofFrames rfl hwaits
    exact hok hmain hfull
  · cases hstep
    exact fun hwaits => absurd hwaits (not_mainWaits_stopped rfl)
  · cases hstep

theorem serving_of_tail (hbounded : Bounded s) {event : ConnectionEvent} {events : List ConnectionEvent}
    (hevents : s.events = event::events) (main : Main) (h : s.supervisor = .forwarding ∨ Serving s) :
    Serving { s with events := events, main := main } := by
  have hroom : events.length < eventQueueCapacity := by
    have hlength := hbounded.events
    rw [hevents,List.length_cons] at hlength
    omega
  rcases h with h | h | h | h | ⟨h,-⟩ | h
  · exact .inr (.inr (.inr (.inl ⟨h,hroom⟩)))
  · exact .inl h
  · exact .inr (.inl h)
  · exact .inr (.inr (.inl h))
  · exact .inr (.inr (.inr (.inl ⟨h,hroom⟩)))
  · exact .inr (.inr (.inr (.inr h)))

theorem takeEvent_drained (hbounded : Bounded s) {handling : Handling}
    (hok : Orderly s (.takeEvent handling)) (hstep : takeEvent s handling = some s') :
    Drained s' ∧ Justified s' := by
  unfold takeEvent at hstep
  split at hstep
  · rename_i attempt events hmain hevents
    cases hstep
    have horderly := hok hmain
    rw [hevents] at horderly
    unfold takeHandshake
    split
    · split_ifs with hwaiting
      · refine ⟨fun _ => .inr (.inr (.inl rfl)),fun hstopped => ?_⟩
        rename_i count
        cases count <;> simp [Main.ofFrames] at hstopped
      · have hended : s.supervisor = .ended := horderly.resolve_left hwaiting
        exact ⟨fun hwaits => absurd hwaits (not_mainWaits_stopped rfl),fun _ => hended⟩
    · exact ⟨fun hwaits => absurd hwaits (not_mainWaits_stopped rfl),fun h => by simp at h⟩
  · rename_i events hmain hevents
    cases hstep
    have horderly := hok hmain
    rw [hevents] at horderly
    cases handling with
    | frames count =>
      refine ⟨fun hwaits => ?_,fun hstopped => ?_⟩
      · obtain ⟨more,rfl,-,hfull⟩ := waits_ofFrames rfl hwaits
        exact serving_of_tail hbounded hevents _ (horderly hfull)
      · cases count <;> simp [takeFrame,Main.ofFrames] at hstopped
    | gap =>
      refine ⟨fun hwaits => ?_,fun hstopped => by simp [takeFrame] at hstopped⟩
      exact serving_of_tail hbounded hevents _ (horderly ((mainWaits_closing rfl).mp hwaits).2)
    | refused =>
      exact ⟨fun hwaits => absurd hwaits (not_mainWaits_stopped rfl),
        fun hstopped => by simp [takeFrame] at hstopped⟩
    | localFailure =>
      exact ⟨fun hwaits => absurd hwaits (not_mainWaits_stopped rfl),
        fun hstopped => by simp [takeFrame] at hstopped⟩
  · cases hstep

theorem put_drained (hok : Orderly s .put) (hstep : put s = some s') : Drained s' := by
  unfold put at hstep
  split at hstep
  · rename_i more hmain
    split_ifs at hstep with hended hroom
    · cases hstep
      exact fun hwaits => absurd hwaits (not_mainWaits_stopped rfl)
    · cases hstep
      intro hwaits
      obtain ⟨more,rfl,-,hfull⟩ := waits_ofFrames rfl hwaits
      exact hok more hmain hroom hfull
  · cases hstep

theorem heartbeat_drained (h : Drained s) (hok : Orderly s .heartbeat) (hstep : heartbeat s = some s') :
    Drained s' := by
  unfold heartbeat at hstep
  split_ifs at hstep with hguard
  cases hstep
  rintro ⟨hopen,⟨⟨more,hmain⟩,hfull⟩ | hclosing⟩
  · exact hok more hmain hguard.2 hfull
  · exact h ⟨hopen,.inr hclosing⟩

theorem free_of_same (h : ¬ MainWaits s) (hopen : s.supervisor ≠ .ended) (hmain : s'.main = s.main)
    (houtbound : s'.outbound = s.outbound) (hcontrol : s'.control = s.control) : ¬ MainWaits s' := by
  intro hwaits
  refine h ⟨hopen,?_⟩
  rw [← hmain,← houtbound,← hcontrol]
  exact hwaits.2

theorem sendEvent_drained {event : ConnectionEvent} {next : Supervisor}
    (hnext : next = .active ∨ ¬ MainWaits s) (hopen : s.supervisor ≠ .ended)
    (hstep : sendEvent s event next = some s') : Drained s' := by
  unfold sendEvent at hstep
  split_ifs at hstep
  · cases hstep
    exact fun _ => .inr (.inr (.inr (.inr rfl)))
  · cases hstep
    intro hwaits
    rcases hnext with rfl | hfree
    · exact .inl rfl
    · exact absurd hwaits (free_of_same hfree hopen rfl rfl rfl)

theorem supervise_drained (hbounded : Bounded s) (h : Drained s) (hok : Orderly s act)
    (hstep : supervise s act = some s') : Drained s' := by
  have hfree : ∀ supervisor, s.supervisor = supervisor → supervisor = .connecting ∨
      supervisor = .delivering ∨ supervisor = .awaiting false → ¬ MainWaits s := by
    intro supervisor hs hidle hwaits
    rcases hidle with rfl | rfl | rfl <;> simpa [Serving,hs] using h hwaits
  cases act with
  | snapshot =>
    simp only [supervise] at hstep
    split_ifs at hstep with hs
    cases hstep
    exact fun hwaits => absurd hwaits (free_of_same (hfree _ hs (.inl rfl)) (by simp [hs]) rfl rfl rfl)
  | deliver =>
    simp only [supervise] at hstep
    split_ifs at hstep with hs
    exact sendEvent_drained (.inr (hfree _ hs (.inr (.inl rfl)))) (by simp [hs]) hstep
  | timeout =>
    simp only [supervise] at hstep
    split_ifs at hstep with hs
    cases hstep
    intro hwaits
    rcases hs with hs | hs
    · exact absurd hwaits (free_of_same (hfree _ hs (.inr (.inl rfl))) (by simp [hs]) rfl rfl rfl)
    · exact absurd hwaits (free_of_same (hfree _ hs (.inr (.inr rfl))) (by simp [hs]) rfl rfl rfl)
  | activate =>
    simp only [supervise] at hstep
    split_ifs at hstep
    cases hstep
    exact fun _ => .inl rfl
  | takeOutbound =>
    simp only [supervise] at hstep
    split_ifs at hstep
    cases hstep
    exact fun _ => .inr (.inl rfl)
  | written =>
    simp only [supervise] at hstep
    split_ifs at hstep
    cases hstep
    exact fun _ => .inl rfl
  | takeControl =>
    simp only [supervise] at hstep
    split_ifs at hstep with hguard
    cases hstep
    rintro ⟨-,⟨hmain,hfull⟩ | ⟨hmain,hfull⟩⟩
    · exact absurd ⟨hmain,hfull⟩ (hok hguard.1 hguard.2)
    · have hcontrol := hbounded.control
      simp only [controlChannelCapacity] at hcontrol hfull
      omega
  | receive =>
    simp only [supervise] at hstep
    split_ifs at hstep with hs
    cases hstep
    intro hwaits
    by_cases hfull : eventQueueCapacity ≤ s.events.length
    · exact absurd hwaits (free_of_same (hok hs hfull) (by simp [hs]) rfl rfl rfl)
    · exact .inr (.inr (.inr (.inl ⟨rfl,Nat.lt_of_not_le hfull⟩)))
  | forward =>
    simp only [supervise] at hstep
    split_ifs at hstep with hs
    exact sendEvent_drained (.inl rfl) (by simp [hs]) hstep
  | lose =>
    simp only [supervise] at hstep
    split_ifs at hstep with hs
    cases hstep
    refine fun hwaits => absurd hwaits (free_of_same (hok hs) ?_ rfl rfl rfl)
    rcases hs with hs | hs <;> simp [hs]
  | reject =>
    simp only [supervise] at hstep
    split_ifs at hstep
    cases hstep
    exact fun _ => .inr (.inr (.inr (.inr rfl)))
  | completion handling => cases hstep
  | takeEvent handling => cases hstep
  | put => cases hstep
  | requestClose => cases hstep
  | breakOff => cases hstep
  | join => cases hstep
  | heartbeat => cases hstep

theorem supervise_justified (h : Justified s) (hstep : supervise s act = some s') : Justified s' := by
  have hsame : s'.main = s.main ∧ (s.supervisor = .ended → s'.supervisor = .ended) := by
    cases act <;> simp only [supervise,sendEvent,reduceCtorEq] at hstep <;> split_ifs at hstep <;>
      cases hstep <;> refine ⟨rfl,fun hended => ?_⟩ <;> simp_all
  intro hstopped
  rw [hsame.1] at hstopped
  exact hsame.2 (h hstopped)

theorem step_orderly (hbounded : Bounded s) (h : Drained s ∧ Justified s) (hok : Orderly s act)
    (hstep : step s act = some s') : Drained s' ∧ Justified s' := by
  have hdone : ∀ error, s'.main = .stopped error → Drained s' :=
    fun error hs hwaits => absurd hwaits (not_mainWaits_stopped hs)
  cases act with
  | completion handling =>
    refine ⟨completion_drained hok hstep,?_⟩
    simp only [step,completion] at hstep
    split at hstep
    · rename_i count _
      cases hstep
      cases count <;> simp [Justified,Main.ofFrames]
    · cases hstep
      simp [Justified]
    · cases hstep
  | takeEvent handling => exact takeEvent_drained hbounded hok hstep
  | put =>
    refine ⟨put_drained hok hstep,?_⟩
    simp only [step,put] at hstep
    split at hstep
    · rename_i more _
      split_ifs at hstep with hended
      · cases hstep
        exact fun _ => hended
      · cases hstep
        cases more <;> simp [Justified,Main.ofFrames]
    · cases hstep
  | requestClose =>
    simp only [step,requestClose] at hstep
    split at hstep
    · split_ifs at hstep with hended
      · cases hstep
        exact ⟨hdone _ rfl,fun _ => hended⟩
      · cases hstep
        exact ⟨fun hwaits => absurd hwaits (not_mainWaits_select rfl),by simp [Justified]⟩
    · cases hstep
  | breakOff =>
    simp only [step,breakOff] at hstep
    split at hstep <;> cases hstep
    exact ⟨hdone _ rfl,by simp [Justified]⟩
  | join =>
    simp only [step,join] at hstep
    split_ifs at hstep with hguard
    cases hstep
    exact ⟨hdone _ rfl,fun _ => hguard.2⟩
  | heartbeat =>
    refine ⟨heartbeat_drained h.1 hok hstep,?_⟩
    simp only [step,heartbeat] at hstep
    split_ifs at hstep
    cases hstep
    exact h.2
  | _ =>
    simp only [step] at hstep
    exact ⟨supervise_drained hbounded h.1 hok hstep,supervise_justified h.2 hstep⟩

/-! A step that is out of order leads to a wait that nobody serves, or to an error. -/

theorem serving_of_sending (h : Drained s') {more : ℕ} (hmain : s'.main = .sending more)
    (hfull : outboundQueueCapacity ≤ s'.outbound) : Serving s' := by
  by_cases hended : s'.supervisor = .ended
  · exact .inr (.inr (.inr (.inr hended)))
  · exact h ⟨hended,.inl ⟨⟨more,hmain⟩,hfull⟩⟩

theorem serving_of_closing (h : Drained s') (hmain : s'.main = .closing)
    (hfull : controlChannelCapacity ≤ s'.control) : Serving s' := by
  by_cases hended : s'.supervisor = .ended
  · exact .inr (.inr (.inr (.inr hended)))
  · exact h ⟨hended,.inr ⟨hmain,hfull⟩⟩

theorem serving_before_take {events : List ConnectionEvent} {main : Main}
    (h : Serving { s with events := events, main := main }) : s.supervisor = .forwarding ∨ Serving s := by
  rcases h with h | h | h | ⟨h,-⟩ | h
  · exact .inr (.inl h)
  · exact .inr (.inr (.inl h))
  · exact .inr (.inr (.inr (.inl h)))
  · exact .inl h
  · exact .inr (.inr (.inr (.inr (.inr h))))

theorem takeEvent_orderly {handling : Handling}
    (h : ∀ s', takeEvent s handling = some s' → Drained s' ∧ Justified s') :
    Orderly s (.takeEvent handling) := by
  intro hmain
  cases hevents : s.events with
  | nil => trivial
  | cons event events =>
    cases event with
    | handshakeComplete attempt =>
      have hnext := h (takeHandshake s events attempt handling) (by simp only [takeEvent,hmain,hevents])
      cases handling with
      | frames count =>
        by_cases hwaiting : s.supervisor = .awaiting false ∧ s.attempt = attempt
        · exact .inl hwaiting
        · rw [takeHandshake,if_neg hwaiting] at hnext
          exact .inr (hnext.2 (.inl rfl))
      | gap => trivial
      | refused => trivial
      | localFailure => trivial
    | frame =>
      have hnext := h (takeFrame s events handling) (by simp only [takeEvent,hmain,hevents])
      cases handling with
      | frames count =>
        cases count with
        | zero => trivial
        | succ more => exact fun hfull => serving_before_take (serving_of_sending hnext.1 rfl hfull)
      | gap => exact fun hfull => serving_before_take (serving_of_closing hnext.1 rfl hfull)
      | refused => trivial
      | localFailure => trivial

theorem put_orderly (h : ∀ s', put s = some s' → Drained s') : Orderly s .put := by
  intro more hmain hroom hfull
  by_cases hended : s.supervisor = .ended
  · exact .inr (.inr (.inr (.inr hended)))
  · have hput : put s = some { s with outbound := s.outbound+1, main := .sending more } := by
      simp [put,hmain,hended,hroom,Main.ofFrames]
    have hserving := serving_of_sending (h _ hput) rfl hfull
    exact hserving

theorem heartbeat_orderly (h : ∀ s', heartbeat s = some s' → Drained s') : Orderly s .heartbeat := by
  intro more hmain hroom hfull
  by_cases hended : s.supervisor = .ended
  · exact .inr (.inr (.inr (.inr hended)))
  · have hbeat : heartbeat s = some { s with outbound := s.outbound+1 } := by
      simp [heartbeat,hended,hroom]
    have hserving := serving_of_sending (h _ hbeat) hmain hfull
    exact hserving

theorem free_of_leaving (h : Drained s') (hleaves : ¬ Serving s') : ¬ MainWaits s' :=
  fun hwaits => hleaves (h hwaits)

theorem supervise_orderly (h : ∀ s', supervise s act = some s' → Drained s')
    (hact : act = .takeControl ∨ act = .receive ∨ act = .lose) : Orderly s act := by
  rcases hact with rfl | rfl | rfl
  · intro hs hcontrol hfull
    have hnext := h { s with supervisor := .connecting, control := s.control-1 }
      (by simp [supervise,hs,hcontrol])
    exact free_of_leaving hnext (by simp [Serving]) ⟨by simp,.inl hfull⟩
  · intro hs hfull hwaits
    have hnext := h { s with supervisor := .forwarding } (by simp [supervise,hs])
    refine free_of_leaving hnext ?_ ⟨by simp,hwaits.2⟩
    simpa [Serving] using hfull
  · intro hs hwaits
    have hnext := h { s with supervisor := .connecting } (by simp [supervise,hs])
    exact free_of_leaving hnext (by simp [Serving]) ⟨by simp,hwaits.2⟩

theorem orderly_of_step (h : ∀ s', step s act = some s' → Drained s' ∧ Justified s') : Orderly s act := by
  cases act with
  | completion handling =>
    cases handling with
    | frames count =>
      cases count with
      | zero => trivial
      | succ more =>
        intro hmain hfull
        have hnext := h { s with main := .sending more } (by simp only [step,completion,hmain,Main.ofFrames])
        have hserving := serving_of_sending hnext.1 rfl hfull
        exact hserving
    | gap => trivial
    | refused => trivial
    | localFailure => trivial
  | takeEvent handling => exact takeEvent_orderly h
  | put => exact put_orderly fun s' hs => (h s' hs).1
  | heartbeat => exact heartbeat_orderly fun s' hs => (h s' hs).1
  | takeControl => exact supervise_orderly (fun s' hs => (h s' hs).1) (.inl rfl)
  | receive => exact supervise_orderly (fun s' hs => (h s' hs).1) (.inr (.inl rfl))
  | lose => exact supervise_orderly (fun s' hs => (h s' hs).1) (.inr (.inr rfl))
  | requestClose => trivial
  | breakOff => trivial
  | join => trivial
  | snapshot => trivial
  | deliver => trivial
  | timeout => trivial
  | activate => trivial
  | takeOutbound => trivial
  | written => trivial
  | forward => trivial
  | reject => trivial

/-- The main loop waits in vain exactly when the next handshake finds both sides waiting. -/
theorem drained_iff (hbounded : Bounded s) : Drained s ↔
    ∀ acts s', (∀ act ∈ acts, act.reconnects = true) → run step s acts = some s' → ¬ Stuck s' := by
  constructor
  · intro h acts s' hacts hrun hstuck
    suffices Drained s' from hstuck.2.not_serving (this hstuck.1)
    induction acts generalizing s with
    | nil =>
      cases hrun
      exact h
    | cons act acts ih =>
      obtain ⟨s₁,hstep,hrun⟩ := run_cons.mp hrun
      have hact := hacts act (by simp)
      refine ih (step_bounded hbounded hstep) ?_ (fun a ha => hacts a (by simp [ha])) hrun
      cases act with
      | snapshot =>
        have hok : Orderly s .snapshot := trivial
        exact supervise_drained hbounded h hok hstep
      | deliver =>
        have hok : Orderly s .deliver := trivial
        exact supervise_drained hbounded h hok hstep
      | _ => cases hact
  · intro h hwaits
    by_contra hserving
    have hopen : s.main.isStopped = false := by
      obtain ⟨-,⟨⟨more,hm⟩,-⟩ | ⟨hm,-⟩⟩ := hwaits <;> rw [hm] <;> rfl
    -- from where the handshake is to be handed over
    have hdelivering : ∀ s₁ : State, s₁.supervisor = .delivering → s₁.main = s.main →
        s₁.outbound = s.outbound → s₁.control = s.control →
        ∃ acts s', (∀ act ∈ acts, act.reconnects = true) ∧ run step s₁ acts = some s' ∧ Stuck s' := by
      intro s₁ hs hm ho hc
      have hstill : MainWaits s₁ := ⟨by simp [hs],by rw [hm,ho,hc]; exact hwaits.2⟩
      by_cases hroom : s₁.events.length < eventQueueCapacity
      · refine ⟨[.deliver],_,by simp [Act.reconnects],run_cons.mpr ⟨{ s₁ with
            events := s₁.events ++ [.handshakeComplete s₁.attempt]
            supervisor := .awaiting false },?_,rfl⟩,⟨by simp,hstill.2⟩,.inl rfl⟩
        simp [step,supervise,hs,sendEvent,hm,hopen,hroom]
      · exact ⟨[],s₁,by simp,rfl,hstill,.inr ⟨.inl hs,Nat.le_of_not_lt hroom⟩⟩
    rcases not_serving hserving with hs | hs | hs | ⟨hs,hfull⟩
    · obtain ⟨acts,s',hacts,hrun,hstuck⟩ :=
        hdelivering { s with supervisor := .delivering, attempt := s.attempt+1 } rfl rfl rfl rfl
      refine h (.snapshot::acts) s' ?_ (run_cons.mpr ⟨_,by simp [step,supervise,hs],hrun⟩) hstuck
      intro act hact
      rcases List.mem_cons.mp hact with rfl | hact
      · rfl
      · exact hacts act hact
    · obtain ⟨acts,s',hacts,hrun,hstuck⟩ := hdelivering s hs rfl rfl rfl
      exact h acts s' hacts hrun hstuck
    · exact h [] s (by simp) rfl ⟨hwaits,.inl hs⟩
    · exact h [] s (by simp) rfl ⟨hwaits,.inr ⟨.inr hs,hfull⟩⟩

end Step

/-- In a run no state is stuck, nor leads into one by the next handshake, and every error of
`start` is justified, exactly when every step is orderly. -/
theorem main_loop_survives (acts : List Act) :
    (∀ before s, before <+: acts → run step {} before = some s →
        (∀ more s', (∀ act ∈ more, act.reconnects = true) → run step s more = some s' → ¬ Stuck s') ∧
          Justified s) ↔
      Along step Orderly {} acts := by
  have hbounded : Bounded {} := ⟨by decide,by decide⟩
  have hinitial : Drained {} ∧ Justified {} :=
    ⟨fun hwaits => absurd hwaits (not_mainWaits_select rfl),by simp [Justified]⟩
  have hexact : (∀ before s, before <+: acts → run step {} before = some s →
      Drained s ∧ Justified s) ↔ Along step Orderly {} acts :=
    always_iff_along (fun s act s' (h : Bounded s) (hstep : step s act = some s') =>
        step_bounded h hstep)
      (fun s act s' hb h hok hstep => step_orderly hb h hok hstep)
      (fun s act _ _ h => orderly_of_step h) hbounded hinitial acts
  rw [← hexact]
  have hsame : ∀ before s, run step {} before = some s → (Drained s ↔ ∀ more s',
      (∀ act ∈ more, act.reconnects = true) → run step s more = some s' → ¬ Stuck s') :=
    fun before s hrun => drained_iff (run_invariant (fun s act s' h hstep => step_bounded h hstep)
      hbounded hrun)
  constructor
  · intro h before s hpre hrun
    exact ⟨(hsame before s hrun).mpr (h before s hpre hrun).1,(h before s hpre hrun).2⟩
  · intro h before s hpre hrun
    exact ⟨(hsame before s hrun).mp (h before s hpre hrun).1,(h before s hpre hrun).2⟩

/-- The handshake times out before the main loop comes to it. -/
def lateHandshake : List Act := [.snapshot,.deliver,.timeout,.takeEvent (.frames 0)]

/-- Heartbeats fill the channel while there is no connection; a completion waits for room,
and the next handshake waits for the main loop. -/
def offline : List Act :=
  List.replicate 256 .heartbeat ++ [.completion (.frames 1),.snapshot,.deliver]

/-- The daemon gets stuck, and elsewhere it stops after a handshake timeout. -/
theorem main_loop_stuck_or_stopped :
    (∃ s, run step {} offline = some s ∧ Stuck s) ∧
    ∃ s, run step {} lateHandshake = some s ∧ s.main = .stopped .handshake ∧
      s.supervisor = .connecting ∧ ¬ Justified s := by
  constructor
  · have h : ((run step {} offline).any fun s => decide (s.main = .sending 0) &&
        decide (s.outbound = 256) && decide (s.supervisor = .awaiting false)) = true := by decide +kernel
    obtain ⟨s,hrun,hs⟩ := (Option.any_eq_true _ _).mp h
    simp only [Bool.and_eq_true,decide_eq_true_eq] at hs
    obtain ⟨⟨hmain,houtbound⟩,hsupervisor⟩ := hs
    refine ⟨s,hrun,(mainWaits_sending hmain).mpr ⟨by simp [hsupervisor],?_⟩,.inl hsupervisor⟩
    rw [houtbound]
    decide
  · refine ⟨_,rfl,rfl,rfl,fun h => ?_⟩
    have hended := h (.inl rfl)
    cases hended

end DaemonChannels
end North
