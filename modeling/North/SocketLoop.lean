import North.Lib.Steps
import Mathlib.Data.List.TakeWhile

/-! One daemon connection on the server: the loop that reads the socket, fills the inbound
queue and empties the outbound queue, and the coordinator that empties the inbound queue
and fills the outbound queue, as two processes. Other tasks dispatch commands to the
outbound queue once the connection is ready. Frames are their kinds. -/
namespace North
namespace SocketLoop

open Steps

def inboundQueueCapacity : ℕ := 256

def outboundQueueCapacity : ℕ := 256

inductive DaemonFrame
  | hello | heartbeat | event | commandAck | protocolError
  deriving DecidableEq, Repr

inductive ServerFrame
  | welcome | reconcile | command | eventAck | protocolError
  deriving DecidableEq, Repr

/-- What the socket yields. An invalid message ends the loop. -/
inductive Message
  | ping | pong | invalid
  | frame (frame : DaemonFrame)
  deriving DecidableEq, Repr

/-- `serve_websocket_with_admission` after the admission. -/
inductive SocketTask
  | select
  /-- In `inbound.send(frame).await`. -/
  | forwarding (frame : DaemonFrame)
  | closed
  deriving DecidableEq, Repr

/-- Where `handle_connection` and `serve_authenticated` go on, once they have the hello. -/
inductive Stage
  | authenticate | snapshot | backlog
  | commands (left : ℕ)
  | serving | closed
  deriving DecidableEq, Repr

inductive Coordinator
  | at (stage : Stage)
  /-- In `outbound.send(frame).await`, and where it goes on then. -/
  | sending (frame : ServerFrame) (next : Stage)
  deriving DecidableEq, Repr

structure State where
  /-- What the peer still sends. -/
  socket : List Message
  task : SocketTask := .select
  inbound : List DaemonFrame := []
  outbound : List ServerFrame := []
  coordinator : Coordinator := .at .authenticate
  /-- The commands that the query for unacknowledged commands finds. -/
  backlog : ℕ
  /-- The commands that other tasks still dispatch to this connection. -/
  dispatches : ℕ
  /-- Whether the connection has been marked ready. -/
  ready : Bool := false
  deriving DecidableEq, Repr

/-- How the store and the checks answer the coordinator. -/
inductive Answer
  | ok | databaseError | refused
  deriving DecidableEq, Repr

inductive Act
  /-- The socket branch of the select. -/
  | read
  | forward
  /-- The outbound branch of the select. -/
  | write (delivered : Bool)
  | coordinate (answer : Answer)
  | send
  /-- `close.recv()`: the daemon was revoked or has connected again. -/
  | revoke
  | dispatch
  deriving DecidableEq, Repr

def read (s : State) : Option State :=
  match s.task,s.socket with
  | .select,.frame frame::socket => some { s with socket := socket, task := .forwarding frame }
  | .select,.invalid::socket => some { s with socket := socket, task := .closed }
  | .select,_::socket => some { s with socket := socket }
  | .select,[] => some { s with task := .closed }
  | _,_ => none

def forward (s : State) : Option State :=
  match s.task with
  | .forwarding frame =>
    if s.coordinator = .at .closed then some { s with task := .closed }
    else if s.inbound.length < inboundQueueCapacity then
      some { s with task := .select, inbound := s.inbound ++ [frame] }
    else none
  | _ => none

/-- Without a frame the branch waits, unless the coordinator has dropped the queue. -/
def write (s : State) (delivered : Bool) : Option State :=
  match s.task,s.outbound with
  | .select,_::outbound =>
    some { s with outbound := outbound, task := if delivered then .select else .closed }
  | .select,[] => if s.coordinator = .at .closed then some { s with task := .closed } else none
  | _,_ => none

def refuse (s : State) : State := { s with coordinator := .sending .protocolError .closed }

def proceed (s : State) (answer : Answer) (coordinator : Coordinator) : State :=
  match answer with
  | .ok => { s with coordinator := coordinator }
  | .databaseError => { s with coordinator := .at .closed }
  | .refused => refuse s

/-- The inbound branch of the select in `serve_authenticated`. -/
def serve (s : State) (answer : Answer) : DaemonFrame → State
  | .heartbeat | .commandAck => proceed s answer (.at .serving)
  | .event => proceed s answer (.sending .eventAck .serving)
  | .protocolError => { s with coordinator := .at .closed }
  | .hello => refuse s

def coordinate (s : State) (answer : Answer) : Option State :=
  match s.coordinator with
  | .sending _ _ => none
  | .at .authenticate => some (proceed s answer (.sending .welcome .snapshot))
  | .at .snapshot => some (proceed s answer (.sending .reconcile .backlog))
  | .at .backlog => some (proceed s answer (.at (.commands s.backlog)))
  | .at (.commands 0) => some { s with coordinator := .at .serving, ready := true }
  | .at (.commands (left+1)) =>
    -- the payload is in memory; its identity is checked
    if answer = .refused then some (refuse s)
    else some { s with coordinator := .sending .command (.commands left) }
  | .at .serving =>
    match s.inbound with
    | frame::inbound => some (serve { s with inbound := inbound } answer frame)
    | [] => if s.task = .closed then some { s with coordinator := .at .closed } else none
  | .at .closed => none

def send (s : State) : Option State :=
  match s.coordinator with
  | .sending frame next =>
    if s.task = .closed then some { s with coordinator := .at .closed }
    else if s.outbound.length < outboundQueueCapacity then
      some { s with coordinator := .at next, outbound := s.outbound ++ [frame] }
    else none
  | .at _ => none

def revoke (s : State) : Option State :=
  if s.coordinator = .at .serving then some (refuse s) else none

/-- `outbound.send(command)` of `dispatch_persisted_command`, by another task. -/
def dispatch (s : State) : Option State :=
  if s.ready = true ∧ s.task ≠ .closed ∧ 0 < s.dispatches ∧ s.outbound.length < outboundQueueCapacity then
    some { s with outbound := s.outbound ++ [.command], dispatches := s.dispatches-1 }
  else none

def step (s : State) : Act → Option State
  | .read => read s
  | .forward => forward s
  | .write delivered => write s delivered
  | .coordinate answer => coordinate s answer
  | .send => send s
  | .revoke => revoke s
  | .dispatch => dispatch s

/-- The admitted connection, whose hello the coordinator has taken. -/
def admitted (socket : List Message) (backlog dispatches : ℕ) : State where
  socket := socket
  backlog := backlog
  dispatches := dispatches

def SocketTask.isForwarding : SocketTask → Bool
  | .forwarding _ => true
  | _ => false

def Coordinator.isSending : Coordinator → Bool
  | .sending _ _ => true
  | _ => false

/-- Each side waits for the other one to take a frame. -/
def Deadlocked (s : State) : Prop :=
  (s.task.isForwarding = true ∧ s.inbound.length = inboundQueueCapacity) ∧
    s.coordinator.isSending = true ∧ s.outbound.length = outboundQueueCapacity

instance (s : State) : Decidable (Deadlocked s) := inferInstanceAs (Decidable (_ ∧ _))

/-! ### What the two sides can still produce -/

/-- The frames that reach the inbound queue before an invalid message ends the loop. -/
def frames : List Message → List DaemonFrame
  | [] => []
  | .frame frame::messages => frame::frames messages
  | .invalid::_ => []
  | _::messages => frames messages

/-- The acknowledgements for frames served in turn, up to one that ends the connection. -/
def acks : List DaemonFrame → ℕ
  | .event::served => acks served+1
  | .heartbeat::served => acks served
  | .commandAck::served => acks served
  | _ => 0

def DaemonFrame.served : DaemonFrame → Bool
  | .heartbeat | .event | .commandAck => true
  | .hello | .protocolError => false

theorem acks_append {served : List DaemonFrame} (h : ∀ f ∈ served, f.served = true)
    (more : List DaemonFrame) : acks (served ++ more) = acks served+acks more := by
  induction served with
  | nil => simp [acks]
  | cons f served ih =>
    have hrest := ih fun g hg => h g (by simp [hg])
    have hf := h f (by simp)
    cases f with
    | event =>
      simp only [List.cons_append,acks,hrest]
      omega
    | heartbeat => simpa only [List.cons_append,acks] using hrest
    | commandAck => simpa only [List.cons_append,acks] using hrest
    | hello => cases hf
    | protocolError => cases hf

theorem acks_le_append (served more : List DaemonFrame) : acks served ≤ acks (served ++ more) := by
  induction served with
  | nil => simp [acks]
  | cons f served ih => cases f <;> simp [acks,ih]

theorem acks_takeWhile (served : List DaemonFrame) :
    acks (served.takeWhile DaemonFrame.served) = acks served := by
  induction served with
  | nil => rfl
  | cons f served ih => cases f <;> simp [acks,List.takeWhile_cons,DaemonFrame.served,ih]

/-- The frames a stage sends at most before it has taken another frame. -/
def Stage.due (backlog : ℕ) : Stage → ℕ
  | .authenticate => backlog+3
  | .snapshot => backlog+2
  | .backlog => backlog+1
  | .commands left => left+1
  | .serving => 1
  | .closed => 0

def Coordinator.due (backlog : ℕ) : Coordinator → ℕ
  | .at stage => stage.due backlog
  | .sending _ next => next.due backlog+1

def SocketTask.held : SocketTask → List DaemonFrame
  | .forwarding frame => [frame]
  | _ => []

/-- The frames sent, waiting and due are no more than the connection can produce for the
frames that the coordinator has taken. -/
structure Accounted (all : List DaemonFrame) (backlog dispatches : ℕ) (s : State)
    (taken : List DaemonFrame) : Prop where
  arriving : all = taken ++ (s.inbound ++ s.task.held ++ frames s.socket)
  found : s.backlog = backlog
  bound : s.outbound.length+s.dispatches+s.coordinator.due backlog ≤ backlog+dispatches+acks taken+3
  served : s.coordinator ≠ .sending .protocolError .closed → ∀ f ∈ taken, f.served = true

/-- Unless one side has ended, all is accounted for. -/
def Inv (all : List DaemonFrame) (backlog dispatches : ℕ) (s : State) : Prop :=
  s.task = .closed ∨ s.coordinator = .at .closed ∨ ∃ taken, Accounted all backlog dispatches s taken

theorem step_task_closed {s s' : State} {act : Act} (h : s.task = .closed)
    (hstep : step s act = some s') : s'.task = .closed := by
  cases act with
  | read => simp [step,read,h] at hstep
  | forward => simp [step,forward,h] at hstep
  | write delivered => simp [step,write,h] at hstep
  | coordinate answer =>
    simp only [step,coordinate] at hstep
    split at hstep
    · cases hstep
    · cases answer <;> cases hstep <;> exact h
    · cases answer <;> cases hstep <;> exact h
    · cases answer <;> cases hstep <;> exact h
    · cases hstep
      exact h
    · split at hstep <;> cases hstep <;> exact h
    · split at hstep
      · rename_i frame _ _
        cases hstep
        cases frame <;> cases answer <;> exact h
      · rw [if_pos h] at hstep
        cases hstep
        exact h
    · cases hstep
  | send =>
    simp only [step,send] at hstep
    split at hstep
    · rw [if_pos h] at hstep
      cases hstep
      exact h
    · cases hstep
  | revoke =>
    simp only [step,revoke] at hstep
    split at hstep
    · cases hstep
      exact h
    · cases hstep
  | dispatch => simp [step,dispatch,h] at hstep

theorem step_coordinator_closed {s s' : State} {act : Act} (h : s.coordinator = .at .closed)
    (hstep : step s act = some s') : s'.coordinator = .at .closed := by
  cases act with
  | read =>
    simp only [step,read] at hstep
    split at hstep <;> cases hstep <;> exact h
  | forward =>
    simp only [step,forward] at hstep
    split at hstep
    · rw [if_pos h] at hstep
      cases hstep
      exact h
    · cases hstep
  | write delivered =>
    simp only [step,write] at hstep
    split at hstep
    · cases hstep
      exact h
    · rw [if_pos h] at hstep
      cases hstep
      exact h
    · cases hstep
  | coordinate answer => simp [step,coordinate,h] at hstep
  | send => simp [step,send,h] at hstep
  | revoke => simp [step,revoke,h] at hstep
  | dispatch =>
    simp only [step,dispatch] at hstep
    split at hstep
    · cases hstep
      exact h
    · cases hstep

section Steps

variable {all : List DaemonFrame} {backlog dispatches : ℕ} {s s' : State} {taken : List DaemonFrame}

theorem read_accounted (h : Accounted all backlog dispatches s taken) (hstep : read s = some s') :
    Inv all backlog dispatches s' := by
  obtain ⟨hall,hfound,hbound,hserved⟩ := h
  unfold read at hstep
  split at hstep
  · rename_i frame socket htask hsocket
    cases hstep
    refine .inr (.inr ⟨taken,?_,hfound,hbound,hserved⟩)
    simpa [htask,hsocket,SocketTask.held,frames] using hall
  · cases hstep
    exact .inl rfl
  · rename_i message socket hframe hinvalid htask hsocket
    cases hstep
    refine .inr (.inr ⟨taken,?_,hfound,hbound,hserved⟩)
    have hskip : frames (message::socket) = frames socket := by
      cases message with
      | ping => rfl
      | pong => rfl
      | invalid => exact absurd rfl hinvalid
      | frame f => exact absurd rfl (hframe f)
    simpa [htask,hsocket,hskip] using hall
  · cases hstep
    exact .inl rfl
  · cases hstep

theorem forward_accounted (h : Accounted all backlog dispatches s taken) (hstep : forward s = some s') :
    Inv all backlog dispatches s' := by
  obtain ⟨hall,hfound,hbound,hserved⟩ := h
  unfold forward at hstep
  split at hstep
  · rename_i frame htask
    split_ifs at hstep
    · cases hstep
      exact .inl rfl
    · cases hstep
      refine .inr (.inr ⟨taken,?_,hfound,hbound,hserved⟩)
      simpa [htask,SocketTask.held] using hall
  · cases hstep

theorem write_accounted (h : Accounted all backlog dispatches s taken) {delivered : Bool}
    (hstep : write s delivered = some s') : Inv all backlog dispatches s' := by
  obtain ⟨hall,hfound,hbound,hserved⟩ := h
  unfold write at hstep
  split at hstep
  · rename_i frame outbound htask houtbound
    cases hstep
    cases delivered with
    | true =>
      refine .inr (.inr ⟨taken,?_,hfound,?_,hserved⟩)
      · simpa [htask,SocketTask.held] using hall
      · rw [houtbound,List.length_cons] at hbound
        show outbound.length+s.dispatches+s.coordinator.due backlog ≤ _
        omega
    | false => exact .inl rfl
  · split at hstep
    · cases hstep
      exact .inl rfl
    · cases hstep
  · cases hstep

theorem send_accounted (h : Accounted all backlog dispatches s taken) (hstep : send s = some s') :
    Inv all backlog dispatches s' := by
  obtain ⟨hall,hfound,hbound,hserved⟩ := h
  unfold send at hstep
  split at hstep
  · rename_i frame next hcoordinator
    split_ifs at hstep with hclosed hroom
    · cases hstep
      exact .inr (.inl rfl)
    · cases hstep
      by_cases hnext : next = .closed
      · exact .inr (.inl (by rw [hnext]))
      refine .inr (.inr ⟨taken,hall,hfound,?_,fun _ => hserved ?_⟩)
      · rw [hcoordinator,Coordinator.due] at hbound
        show (s.outbound ++ [frame]).length+s.dispatches+next.due backlog ≤ _
        rw [List.length_append,List.length_singleton]
        omega
      · rw [hcoordinator]
        simp [hnext]
  · cases hstep

theorem dispatch_accounted (h : Accounted all backlog dispatches s taken) (hstep : dispatch s = some s') :
    Inv all backlog dispatches s' := by
  obtain ⟨hall,hfound,hbound,hserved⟩ := h
  unfold dispatch at hstep
  split at hstep
  · rename_i hguard
    cases hstep
    refine .inr (.inr ⟨taken,hall,hfound,?_,hserved⟩)
    show (s.outbound ++ [ServerFrame.command]).length+(s.dispatches-1)+s.coordinator.due backlog ≤ _
    rw [List.length_append,List.length_singleton]
    omega
  · cases hstep

theorem proceed_accounted (h : Accounted all backlog dispatches s taken) (answer : Answer)
    (coordinator : Coordinator) {stage : Stage} (hstage : s.coordinator = .at stage)
    (hdue : coordinator.due backlog ≤ stage.due backlog) (hpos : 0 < stage.due backlog) :
    Inv all backlog dispatches (proceed s answer coordinator) := by
  obtain ⟨hall,hfound,hbound,hserved⟩ := h
  rw [hstage] at hbound hserved
  have htaken := hserved (by simp)
  simp only [Coordinator.due] at hbound
  cases answer with
  | ok =>
    refine .inr (.inr ⟨taken,hall,hfound,?_,fun _ => htaken⟩)
    show s.outbound.length+s.dispatches+coordinator.due backlog ≤ _
    omega
  | databaseError => exact .inr (.inl rfl)
  | refused =>
    refine .inr (.inr ⟨taken,hall,hfound,?_,fun _ => htaken⟩)
    show s.outbound.length+s.dispatches+1 ≤ _
    omega

/-- A frame that the coordinator takes may be answered, and may be its last. -/
theorem serve_accounted (h : Accounted all backlog dispatches s taken)
    (hstage : s.coordinator = .at .serving) {frame : DaemonFrame} {inbound : List DaemonFrame}
    (hinbound : s.inbound = frame::inbound) (answer : Answer) :
    Inv all backlog dispatches (serve { s with inbound := inbound } answer frame) := by
  obtain ⟨hall,hfound,hbound,hserved⟩ := h
  rw [hstage] at hbound hserved
  have htaken := hserved (by simp)
  simp only [Coordinator.due,Stage.due] at hbound
  have hall' : all = (taken ++ [frame]) ++ (inbound ++ s.task.held ++ frames s.socket) := by
    simpa [hinbound] using hall
  have hserving : ∀ coordinator : Coordinator, frame.served = true →
      coordinator.due backlog ≤ acks [frame]+1 →
      Inv all backlog dispatches (proceed { s with inbound := inbound } answer coordinator) := by
    intro coordinator hframe hdue
    have hserved' : ∀ f ∈ taken ++ [frame], f.served = true := by
      intro f hf
      rcases List.mem_append.mp hf with hf | hf
      · exact htaken f hf
      · rw [List.mem_singleton.mp hf]
        exact hframe
    have hacks := acks_append htaken [frame]
    cases answer with
    | ok =>
      refine .inr (.inr ⟨taken ++ [frame],hall',hfound,?_,fun _ => hserved'⟩)
      show s.outbound.length+s.dispatches+coordinator.due backlog ≤ _
      omega
    | databaseError => exact .inr (.inl rfl)
    | refused =>
      refine .inr (.inr ⟨taken ++ [frame],hall',hfound,?_,fun _ => hserved'⟩)
      show s.outbound.length+s.dispatches+1 ≤ _
      omega
  cases frame with
  | heartbeat => exact hserving _ rfl (by simp [Coordinator.due,Stage.due])
  | commandAck => exact hserving _ rfl (by simp [Coordinator.due,Stage.due])
  | event => exact hserving _ rfl (by simp [Coordinator.due,Stage.due,acks])
  | protocolError => exact .inr (.inl rfl)
  | hello =>
    refine .inr (.inr ⟨taken ++ [.hello],hall',hfound,?_,fun h => absurd rfl h⟩)
    have hacks := acks_le_append taken [.hello]
    show s.outbound.length+s.dispatches+1 ≤ _
    omega

theorem coordinate_accounted (h : Accounted all backlog dispatches s taken) {answer : Answer}
    (hstep : coordinate s answer = some s') : Inv all backlog dispatches s' := by
  unfold coordinate at hstep
  split at hstep
  · cases hstep
  · rename_i hstage
    cases hstep
    exact proceed_accounted h answer _ hstage (Nat.le_refl _) (by simp [Stage.due])
  · rename_i hstage
    cases hstep
    exact proceed_accounted h answer _ hstage (Nat.le_refl _) (by simp [Stage.due])
  · rename_i hstage
    cases hstep
    rw [h.found]
    exact proceed_accounted h answer _ hstage (Nat.le_refl _) (by simp [Stage.due])
  · rename_i hstage
    cases hstep
    obtain ⟨hall,hfound,hbound,hserved⟩ := h
    rw [hstage] at hbound hserved
    exact .inr (.inr ⟨taken,hall,hfound,hbound,fun _ => hserved (by simp)⟩)
  · rename_i left hstage
    have hrefuse := proceed_accounted h .refused (.at .serving) hstage
      (by simp [Coordinator.due,Stage.due]) (by simp [Stage.due])
    have hsend := proceed_accounted h .ok (.sending .command (.commands left)) hstage
      (Nat.le_refl _) (by simp [Stage.due])
    split at hstep
    · cases hstep
      exact hrefuse
    · cases hstep
      exact hsend
  · rename_i hstage
    split at hstep
    · rename_i frame inbound hinbound
      cases hstep
      exact serve_accounted h hstage hinbound answer
    · split at hstep
      · cases hstep
        exact .inr (.inl rfl)
      · cases hstep
  · cases hstep

theorem step_inv {act : Act} (h : Inv all backlog dispatches s) (hstep : step s act = some s') :
    Inv all backlog dispatches s' := by
  rcases h with h | h | ⟨taken,h⟩
  · exact .inl (step_task_closed h hstep)
  · exact .inr (.inl (step_coordinator_closed h hstep))
  cases act with
  | read => exact read_accounted h hstep
  | forward => exact forward_accounted h hstep
  | write delivered => exact write_accounted h hstep
  | coordinate answer => exact coordinate_accounted h hstep
  | send => exact send_accounted h hstep
  | revoke =>
    simp only [step,revoke] at hstep
    split at hstep
    · rename_i hstage
      cases hstep
      exact proceed_accounted h .refused (.at .serving) hstage (Nat.le_refl _)
        (by simp [Stage.due])
    · cases hstep
  | dispatch => exact dispatch_accounted h hstep

end Steps

/-! ### No deadlock -/

/-- The peer fills the inbound queue at no time, or the frames that the server can have for
it by then never fill the outbound queue. -/
def Fits (socket : List Message) (backlog dispatches : ℕ) : Prop :=
  (frames socket).length ≤ inboundQueueCapacity ∨
    backlog+dispatches+acks ((frames socket).take ((frames socket).length-(inboundQueueCapacity+1)))+3 ≤
      outboundQueueCapacity

theorem not_deadlocked {socket : List Message} {backlog dispatches : ℕ}
    (hfits : Fits socket backlog dispatches) {s : State}
    (h : Inv (frames socket) backlog dispatches s) : ¬ Deadlocked s := by
  rintro ⟨⟨hforwarding,hinbound⟩,hsending,houtbound⟩
  rcases h with h | h | ⟨taken,hall,-,hbound,-⟩
  · simp [h,SocketTask.isForwarding] at hforwarding
  · simp [h,Coordinator.isSending] at hsending
  have hheld : s.task.held.length = 1 := by
    cases htask : s.task with
    | forwarding frame => rfl
    | select => simp [htask,SocketTask.isForwarding] at hforwarding
    | closed => simp [htask,SocketTask.isForwarding] at hforwarding
  have hdue : 0 < s.coordinator.due backlog := by
    cases hc : s.coordinator with
    | sending frame next => exact Nat.succ_pos _
    | «at» stage => simp [hc,Coordinator.isSending] at hsending
  have hlength := congrArg List.length hall
  simp only [List.length_append] at hlength
  have hpre : taken <+: (frames socket).take ((frames socket).length-(inboundQueueCapacity+1)) := by
    rw [List.prefix_take_iff]
    refine ⟨hall ▸ List.prefix_append _ _,?_⟩
    rw [← hinbound]
    omega
  obtain ⟨more,hmore⟩ := hpre
  have hacks := acks_le_append taken more
  rw [hmore] at hacks
  simp only [Fits,inboundQueueCapacity,outboundQueueCapacity] at *
  omega

/-! ### The way into the deadlock -/

/-- The socket loop is free, the inbound queue is empty, and of the `produced` frames for the
peer it has written what exceeds `spare`. -/
structure Poised (spare backlog dispatches produced : ℕ) (coming : List DaemonFrame)
    (coordinator : Coordinator) (s : State) : Prop where
  task : s.task = .select
  inbound : s.inbound = []
  stage : s.coordinator = coordinator
  outbound : s.outbound.length = produced-spare
  arriving : frames s.socket = coming
  found : s.backlog = backlog
  others : s.dispatches = dispatches
  ready : coordinator = .at .serving → s.ready = true

section Way

variable {spare backlog dispatches produced : ℕ} {coming : List DaemonFrame} {s : State}

/-- The loop skips the control messages before a frame. -/
theorem reads_frame {frame : DaemonFrame} (htask : s.task = .select)
    (hcoming : frames s.socket = frame::coming) : ∃ socket, frames socket = coming ∧
      Reaches step s { s with socket := socket, task := .forwarding frame } := by
  obtain ⟨socket,task,inbound,outbound,coordinator,n,k,ready⟩ := s
  dsimp only at htask hcoming
  subst htask
  induction socket with
  | nil => cases hcoming
  | cons message socket ih =>
    cases message with
    | frame f =>
      simp only [frames,List.cons.injEq] at hcoming
      obtain ⟨rfl,hcoming⟩ := hcoming
      exact ⟨socket,hcoming,.single .read rfl⟩
    | invalid => cases hcoming
    | ping =>
      obtain ⟨rest,hrest,hreach⟩ := ih hcoming
      exact ⟨rest,hrest,.head .read rfl hreach⟩
    | pong =>
      obtain ⟨rest,hrest,hreach⟩ := ih hcoming
      exact ⟨rest,hrest,.head .read rfl hreach⟩

/-- A frame more in the outbound queue, and while frames are to spare the loop writes one. -/
theorem Poised.produce {coordinator : Coordinator}
    (h : Poised spare backlog dispatches produced coming coordinator s) (act : Act)
    (frame : ServerFrame) (next : Coordinator) (left : ℕ)
    (hstep : step s act = some { s with
      coordinator := next
      outbound := s.outbound ++ [frame]
      dispatches := left })
    (hready : next = .at .serving → s.ready = true) :
    ∃ s', Reaches step s s' ∧ Poised spare backlog left (produced+1) coming next s' := by
  have hlength := h.outbound
  by_cases hspare : produced < spare
  · have hempty : s.outbound = [] := List.eq_nil_of_length_eq_zero (by omega)
    rw [hempty,List.nil_append] at hstep
    refine ⟨{ s with coordinator := next, outbound := [], dispatches := left },
      .head act hstep (.single (.write true) ?_),h.task,h.inbound,rfl,?_,h.arriving,h.found,rfl,hready⟩
    · simp [step,write,h.task]
    · show 0 = _
      omega
  · refine ⟨_,.single act hstep,h.task,h.inbound,rfl,?_,h.arriving,h.found,rfl,hready⟩
    rw [List.length_append,List.length_singleton]
    omega

theorem Poised.room {coordinator : Coordinator}
    (h : Poised spare backlog dispatches produced coming coordinator s)
    (hroom : produced < spare+outboundQueueCapacity) : s.outbound.length < outboundQueueCapacity := by
  have hcap : 0 < outboundQueueCapacity := by decide
  rw [h.outbound]
  omega

theorem Poised.send {frame : ServerFrame} {next : Stage}
    (h : Poised spare backlog dispatches produced coming (.sending frame next) s)
    (hroom : produced < spare+outboundQueueCapacity) (hready : next = .serving → s.ready = true) :
    ∃ s', Reaches step s s' ∧
      Poised spare backlog dispatches (produced+1) coming (.at next) s' := by
  refine h.produce .send frame (.at next) dispatches ?_ fun hn => hready (Coordinator.at.inj hn)
  simp [step,SocketLoop.send,h.stage,h.task,h.room hroom,h.others]

theorem Poised.proceed {stage : Stage}
    (h : Poised spare backlog dispatches produced coming (.at stage) s) (coordinator : Coordinator)
    (hstep : step s (.coordinate .ok) = some { s with coordinator := coordinator })
    (hready : coordinator ≠ .at .serving) : ∃ s', Reaches step s s' ∧
      Poised spare backlog dispatches produced coming coordinator s' :=
  ⟨_,.single _ hstep,h.task,h.inbound,rfl,h.outbound,h.arriving,h.found,h.others,
    fun heq => absurd heq hready⟩

theorem Poised.commands (left : ℕ) {produced : ℕ} {s : State}
    (h : Poised spare backlog dispatches produced coming (.at (.commands left)) s)
    (hroom : produced+left ≤ spare+outboundQueueCapacity) : ∃ s', Reaches step s s' ∧
      Poised spare backlog dispatches (produced+left) coming (.at .serving) s' := by
  induction left generalizing produced s with
  | zero =>
    refine ⟨{ s with coordinator := .at .serving, ready := true },.single (.coordinate .ok) ?_,
      h.task,h.inbound,rfl,h.outbound,h.arriving,h.found,h.others,fun _ => rfl⟩
    simp [step,coordinate,h.stage]
  | succ left ih =>
    obtain ⟨s₁,hreach₁,h₁⟩ := h.proceed (.sending .command (.commands left))
      (by simp [step,coordinate,h.stage]) (by simp)
    obtain ⟨s₂,hreach₂,h₂⟩ := h₁.send (by omega) (by simp)
    obtain ⟨s₃,hreach₃,h₃⟩ := ih h₂ (by omega)
    exact ⟨s₃,hreach₁.trans (hreach₂.trans hreach₃),by rwa [show produced+(left+1) = produced+1+left by omega]⟩

theorem Poised.handshake {s : State}
    (h : Poised spare backlog dispatches 0 coming (.at .authenticate) s)
    (hroom : backlog+2 ≤ spare+outboundQueueCapacity) : ∃ s', Reaches step s s' ∧
      Poised spare backlog dispatches (backlog+2) coming (.at .serving) s' := by
  obtain ⟨s₁,hreach₁,h₁⟩ := h.proceed (.sending .welcome .snapshot)
    (by simp [step,coordinate,h.stage,SocketLoop.proceed]) (by simp)
  obtain ⟨s₂,hreach₂,h₂⟩ := h₁.send (by omega) (by simp)
  obtain ⟨s₃,hreach₃,h₃⟩ := h₂.proceed (.sending .reconcile .backlog)
    (by simp [step,coordinate,h₂.stage,SocketLoop.proceed]) (by simp)
  obtain ⟨s₄,hreach₄,h₄⟩ := h₃.send (by omega) (by simp)
  obtain ⟨s₅,hreach₅,h₅⟩ := h₄.proceed (.at (.commands backlog))
    (by simp [step,coordinate,h₄.stage,SocketLoop.proceed,h₄.found]) (by simp)
  obtain ⟨s₆,hreach₆,h₆⟩ := h₅.commands backlog (by omega)
  exact ⟨s₆,hreach₁.trans (hreach₂.trans (hreach₃.trans (hreach₄.trans (hreach₅.trans hreach₆)))),
    by rwa [show backlog+2 = 0+1+1+backlog by omega]⟩

theorem Poised.dispatched (left : ℕ) {produced : ℕ} {s : State}
    (h : Poised spare backlog left produced coming (.at .serving) s)
    (hroom : produced+left ≤ spare+outboundQueueCapacity) : ∃ s', Reaches step s s' ∧
      Poised spare backlog 0 (produced+left) coming (.at .serving) s' := by
  induction left generalizing produced s with
  | zero => exact ⟨s,.refl s,h⟩
  | succ left ih =>
    obtain ⟨s₁,hreach₁,h₁⟩ := h.produce .dispatch .command (.at .serving) left
      (by simp [step,dispatch,h.ready rfl,h.task,h.others,h.room (by omega),h.stage]) fun _ => h.ready rfl
    obtain ⟨s₂,hreach₂,h₂⟩ := ih h₁ (by omega)
    exact ⟨s₂,hreach₁.trans hreach₂,by rwa [show produced+(left+1) = produced+1+left by omega]⟩

theorem Poised.take {frame : DaemonFrame} (hframe : frame.served = true)
    (h : Poised spare backlog dispatches produced (frame::coming) (.at .serving) s) :
    ∃ s', Reaches step s s' ∧ s'.ready = true ∧
      Poised spare backlog dispatches produced coming
        (if frame = .event then .sending .eventAck .serving else .at .serving) s' := by
  obtain ⟨socket,hsocket,hread⟩ := reads_frame h.task h.arriving
  have hforward : step { s with socket := socket, task := .forwarding frame } .forward =
      some { s with socket := socket, task := .select, inbound := [frame] } := by
    simp [step,forward,h.stage,h.inbound,inboundQueueCapacity]
  have hserve : step { s with socket := socket, task := .select, inbound := [frame] }
      (.coordinate .ok) = some { s with
        socket := socket
        task := .select
        inbound := []
        coordinator := if frame = .event then .sending .eventAck .serving else .at .serving } := by
    cases frame with
    | heartbeat => simp [step,coordinate,h.stage,serve,SocketLoop.proceed]
    | event => simp [step,coordinate,h.stage,serve,SocketLoop.proceed]
    | commandAck => simp [step,coordinate,h.stage,serve,SocketLoop.proceed]
    | hello => cases hframe
    | protocolError => cases hframe
  exact ⟨_,hread.trans (.head .forward hforward (.single _ hserve)),h.ready rfl,rfl,rfl,rfl,
    h.outbound,hsocket,h.found,h.others,fun _ => h.ready rfl⟩

theorem Poised.served (served : List DaemonFrame) {produced : ℕ} {s : State}
    (h : Poised spare backlog dispatches produced (served ++ coming) (.at .serving) s)
    (hserved : ∀ f ∈ served, f.served = true)
    (hroom : produced+acks served ≤ spare+outboundQueueCapacity) : ∃ s', Reaches step s s' ∧
      Poised spare backlog dispatches (produced+acks served) coming (.at .serving) s' := by
  induction served generalizing produced s with
  | nil => exact ⟨s,.refl s,h⟩
  | cons frame served ih =>
    have hframe := hserved frame (by simp)
    have hrest : ∀ f ∈ served, f.served = true := fun f hf => hserved f (by simp [hf])
    obtain ⟨s₁,hreach₁,hready,h₁⟩ := h.take hframe
    by_cases hevent : frame = .event
    · subst hevent
      rw [if_pos rfl] at h₁
      have hacks : acks (.event::served) = acks served+1 := rfl
      rw [hacks] at hroom ⊢
      obtain ⟨s₂,hreach₂,h₂⟩ := h₁.send (by omega) fun _ => hready
      obtain ⟨s₃,hreach₃,h₃⟩ := ih h₂ hrest (by omega)
      exact ⟨s₃,hreach₁.trans (hreach₂.trans hreach₃),
        by rwa [show produced+(acks served+1) = produced+1+acks served by omega]⟩
    · rw [if_neg hevent] at h₁
      have hacks : acks (frame::served) = acks served := by
        cases frame with
        | heartbeat => rfl
        | commandAck => rfl
        | event => exact absurd rfl hevent
        | hello => cases hframe
        | protocolError => cases hframe
      rw [hacks] at hroom ⊢
      obtain ⟨s₂,hreach₂,h₂⟩ := ih h₁ hrest hroom
      exact ⟨s₂,hreach₁.trans hreach₂,h₂⟩

/-- With the coordinator waiting, the loop reads until it waits itself. -/
theorem fills (left : ℕ) {s : State} (htask : s.task = .select)
    (hsending : s.coordinator.isSending = true) (houtbound : s.outbound.length = outboundQueueCapacity)
    (hinbound : s.inbound.length+left = inboundQueueCapacity) (hcoming : left < (frames s.socket).length) :
    ∃ s', Reaches step s s' ∧ Deadlocked s' := by
  induction left generalizing s with
  | zero =>
    obtain ⟨frame,coming,heq⟩ := List.exists_cons_of_length_pos hcoming
    obtain ⟨socket,-,hread⟩ := reads_frame htask heq
    exact ⟨_,hread,⟨rfl,hinbound⟩,hsending,houtbound⟩
  | succ left ih =>
    obtain ⟨frame,coming,heq⟩ := List.exists_cons_of_length_pos (Nat.zero_lt_of_lt hcoming)
    obtain ⟨socket,hsocket,hread⟩ := reads_frame htask heq
    have hopen : s.coordinator ≠ .at .closed := by
      intro hc
      simp [hc,Coordinator.isSending] at hsending
    have hlt : s.inbound.length < inboundQueueCapacity := by omega
    have hforward : step { s with socket := socket, task := .forwarding frame } .forward =
        some { s with socket := socket, task := .select, inbound := s.inbound ++ [frame] } := by
      simp [step,forward,hopen,hlt]
    obtain ⟨s',hreach,hdead⟩ := @ih { s with
        socket := socket
        task := .select
        inbound := s.inbound ++ [frame] } rfl hsending houtbound
      (by simp only [List.length_append,List.length_singleton]; omega)
      (by
        rw [heq,List.length_cons] at hcoming
        show left < (frames socket).length
        rw [hsocket]
        omega)
    exact ⟨s',hread.trans (.head .forward hforward hreach),hdead⟩

end Way

/-- What does not fit leads into the deadlock: the coordinator produces all it can for the
frames up to the last that fit into the inbound queue and the loop, while the loop writes no
more than it must; the last frame is a protocol error, on revocation. -/
theorem deadlock_reached {socket : List Message} {backlog dispatches : ℕ}
    (h : ¬ Fits socket backlog dispatches) : ∃ s,
      Reaches step (admitted socket backlog dispatches) s ∧ Deadlocked s := by
  obtain ⟨hmany,hbusy⟩ := not_or.mp h
  have hcap : inboundQueueCapacity = 256 ∧ outboundQueueCapacity = 256 := ⟨rfl,rfl⟩
  generalize hearly : (frames socket).take ((frames socket).length-(inboundQueueCapacity+1)) = early
    at hbusy
  have hsplit : early.takeWhile DaemonFrame.served ++
      (early.dropWhile DaemonFrame.served ++
        (frames socket).drop ((frames socket).length-(inboundQueueCapacity+1))) = frames socket := by
    rw [← List.append_assoc,List.takeWhile_append_dropWhile,← hearly,List.take_append_drop]
  have hacks := acks_takeWhile early
  have hserved : ∀ f ∈ early.takeWhile DaemonFrame.served, f.served = true :=
    fun f hf => List.mem_takeWhile_imp hf
  have hstart : Poised (backlog+dispatches+acks early+3-(outboundQueueCapacity+1)) backlog dispatches 0
      (frames socket) (.at .authenticate) (admitted socket backlog dispatches) :=
    ⟨rfl,rfl,rfl,(Nat.zero_sub _).symm,rfl,rfl,rfl,fun h => by cases h⟩
  obtain ⟨s₁,hreach₁,h₁⟩ := hstart.handshake (by omega)
  obtain ⟨s₂,hreach₂,h₂⟩ := h₁.dispatched dispatches (by omega)
  rw [← hsplit] at h₂
  obtain ⟨s₃,hreach₃,h₃⟩ := h₂.served _ hserved (by omega)
  have hrevoke : step s₃ .revoke = some (refuse s₃) := by simp [step,revoke,h₃.stage]
  have hfull : s₃.outbound.length = outboundQueueCapacity := by
    rw [h₃.outbound]
    omega
  obtain ⟨s₄,hreach₄,h₄⟩ := @fills inboundQueueCapacity (refuse s₃) h₃.task rfl hfull
    (by simp [refuse,h₃.inbound]) (by
      show inboundQueueCapacity < (frames s₃.socket).length
      rw [h₃.arriving,List.length_append,List.length_drop]
      omega)
  exact ⟨s₄,hreach₁.trans (hreach₂.trans (hreach₃.trans (.head .revoke hrevoke hreach₄))),h₄⟩

/-- No schedule of the two sides deadlocks exactly when what they exchange fits. -/
theorem queues_never_deadlock (socket : List Message) (backlog dispatches : ℕ) :
    (∀ acts s, run step (admitted socket backlog dispatches) acts = some s → ¬ Deadlocked s) ↔
      Fits socket backlog dispatches := by
  constructor
  · intro h
    by_contra hfits
    obtain ⟨s,⟨acts,hrun⟩,hdead⟩ := deadlock_reached hfits
    exact h acts s hrun hdead
  · intro hfits acts s hrun
    refine not_deadlocked hfits (run_invariant (fun s act s' h hstep => step_inv h hstep) ?_ hrun)
    refine .inr (.inr ⟨[],rfl,rfl,?_,by simp⟩)
    simp [admitted,Coordinator.due,Stage.due,acks]
    omega

/-- A backlog of 300 commands, while the daemon replays 300 events. -/
def replaySchedule : List Act :=
  [.coordinate .ok,.send,.write true,.coordinate .ok,.send,.write true,.coordinate .ok] ++
    (List.replicate 256 [.coordinate .ok,.send]).flatten ++ [.coordinate .ok] ++
    (List.replicate 256 [.read,.forward]).flatten ++ [.read]

/-- The welcome and the snapshot are written; then 256 commands and 256 events fill the queues. -/
theorem replay_deadlocks : ∃ acts s,
    run step (admitted (List.replicate 300 (.frame .event)) 300 0) acts = some s ∧ Deadlocked s := by
  have h : ((run step (admitted (List.replicate 300 (.frame .event)) 300 0) replaySchedule).any
      fun s => decide (Deadlocked s)) = true := by decide +kernel
  obtain ⟨s,hrun,hdead⟩ := (Option.any_eq_true _ _).mp h
  exact ⟨replaySchedule,s,hrun,of_decide_eq_true hdead⟩

end SocketLoop
end North
