import Mathlib.Data.List.TakeWhile
import North.WireFrames
import North.EventDelivery

/-! The frames of the coordinator on the text wire. A connection writes frames until one does not pass
its checks, and reads texts until one is refused. What comes out at the other end is what went in, so
the link between the journals and the ledger is a link of frames that only loses. -/
namespace North
namespace Protocol
namespace Wire

open Machine

/-! ### One direction of a connection -/

/-- The texts that a writer makes; a frame that cannot be encoded ends the connection. -/
def sendFrames {F : Type} (toJson : F → Except FrameError String) : List F → List String
  | [] => []
  | frame::frames => match toJson frame with
    | .ok text => text::sendFrames toJson frames
    | .error _ => []

/-- What a reader makes of the texts; one that cannot be decoded ends the connection. -/
def readFrames {F : Type} (fromJson : String → Except FrameError F) : List String → List F
  | [] => []
  | text::texts => match fromJson text with
    | .ok frame => frame::readFrames fromJson texts
    | .error _ => []

theorem isOk_iff {r : Except FrameError Unit} : r.isOk = true ↔ r = .ok () := by
  cases r <;> simp [Except.isOk,Except.toBool]

theorem readFrames_sendFrames {F : Type} {validate : F → Except FrameError Unit} {InRange : F → Prop}
    {toJson : F → Except FrameError String} {fromJson : String → Except FrameError F}
    (laws : CodecLaws validate InRange toJson fromJson) {frames : List F} (hrange : ∀ f ∈ frames, InRange f) :
    readFrames fromJson (sendFrames toJson frames) = frames.takeWhile fun f => (validate f).isOk := by
  induction frames with
  | nil => rfl
  | cons f frames ih =>
    have hrest := ih fun g hg => hrange g (List.mem_cons_of_mem _ hg)
    cases htext : toJson f with
    | ok text =>
      have hvalid : (validate f).isOk = true := isOk_iff.mpr ((laws.encodes f).mp ⟨text,htext⟩)
      have hback := laws.round_trip f text (hrange f List.mem_cons_self) htext
      rw [List.takeWhile_cons_of_pos (p := fun f => (validate f).isOk) hvalid,← hrest]
      simp only [sendFrames,htext,readFrames,hback]
    | error e =>
      have hinvalid : ¬ (validate f).isOk = true := by
        intro hvalid
        obtain ⟨text,hok⟩ := (laws.encodes f).mpr (isOk_iff.mp hvalid)
        cases htext.symm.trans hok
      rw [List.takeWhile_cons_of_neg (p := fun f => (validate f).isOk) hinvalid]
      simp only [sendFrames,htext,readFrames]

variable (host : Host)

/-! ### From the daemon to the server -/

/-- A frame of the coordinator on the wire; `protocol_error` adds the schema version. -/
def DaemonFrame.sent : Protocol.DaemonFrame → DaemonFrame
  | .event envelope => .event envelope
  | .commandAck ack => .commandAck ack
  | .protocolError code message => .protocolError ⟨schemaVersion,code,message⟩

/-- The part of a frame that the server acts on; a hello belongs to the handshake, and a heartbeat only
renews the lease. -/
def DaemonFrame.taken : DaemonFrame → Option Protocol.DaemonFrame
  | .hello _ | .heartbeat _ => none
  | .event envelope => some (.event envelope)
  | .commandAck ack => some (.commandAck ack)
  | .protocolError frame => some (.protocolError frame.code frame.message)

theorem taken_sent (f : Protocol.DaemonFrame) : (DaemonFrame.sent f).taken = some f := by
  cases f <;> rfl

/-- What arrives of some frames of the coordinator. -/
def arrivals (frames : List Protocol.DaemonFrame) : List Protocol.DaemonFrame :=
  (readFrames (DaemonFrame.fromJson host) (sendFrames (DaemonFrame.toJson host)
    (frames.map DaemonFrame.sent))).filterMap DaemonFrame.taken

theorem arrivals_eq {frames : List Protocol.DaemonFrame} (hrange : ∀ f ∈ frames, (DaemonFrame.sent f).InRange) :
    arrivals host frames = frames.takeWhile fun f => ((DaemonFrame.sent f).validate host).isOk := by
  have hsent : ∀ g ∈ frames.map DaemonFrame.sent, g.InRange := by
    intro g hg
    obtain ⟨f,hf,rfl⟩ := List.mem_map.mp hg
    exact hrange f hf
  rw [arrivals,readFrames_sendFrames (DaemonFrame.codecLaws host) hsent,List.takeWhile_map,List.filterMap_map]
  have htaken : DaemonFrame.taken ∘ DaemonFrame.sent = some := funext taken_sent
  rw [htaken,List.filterMap_some]
  rfl

/-- An event that arrives has passed its checks, which the owner check of its intake repeats. -/
theorem event_arrives {frames : List Protocol.DaemonFrame} (hrange : ∀ f ∈ frames, (DaemonFrame.sent f).InRange)
    {e : EventEnvelope} (he : .event e ∈ arrivals host frames) : .event e ∈ frames ∧ e.validate = .ok () := by
  rw [arrivals_eq host hrange] at he
  have hvalid := List.mem_takeWhile_imp he
  exact ⟨List.takeWhile_subset _ he,isOk_iff.mp hvalid⟩

/-! ### From the server to the daemon -/

/-- What the coordinator is given of a frame. -/
def ServerFrame.received : ServerFrame → Protocol.ServerFrame
  | .welcome _ => .welcome
  | .command frame => .command frame
  | .eventAck frame => .eventAck frame
  | .reconcile frame => .reconcile frame
  | .protocolError frame => .protocolError frame.code frame.message

def deliveries (frames : List ServerFrame) : List Protocol.ServerFrame :=
  (readFrames (ServerFrame.fromJson host) (sendFrames (ServerFrame.toJson host) frames)).map ServerFrame.received

theorem deliveries_eq {frames : List ServerFrame} (hrange : ∀ f ∈ frames, f.InRange) :
    deliveries host frames =
      (frames.takeWhile fun f => (f.validate host).isOk).map ServerFrame.received := by
  rw [deliveries,readFrames_sendFrames (ServerFrame.codecLaws host) hrange]

/-- The checks of a frame that the journal makes again. -/
def Passes : Protocol.ServerFrame → Prop
  | .command envelope => envelope.validate = .ok ()
  | .eventAck ack => ack.validate = .ok ()
  | .reconcile snapshot => snapshot.validate = .ok ()
  | .welcome | .protocolError _ _ => True

theorem received_passes {f : ServerFrame} (h : f.validate host = .ok ()) : Passes f.received := by
  cases f with
  | command frame | eventAck frame | reconcile frame => exact h
  | welcome frame | protocolError frame => trivial

/-- Every frame that is delivered was sent, and the journal finds nothing wrong with it. -/
theorem delivered_passes {frames : List ServerFrame} (hrange : ∀ f ∈ frames, f.InRange)
    {g : Protocol.ServerFrame} (hg : g ∈ deliveries host frames) :
    Passes g ∧ ∃ f ∈ frames, f.received = g := by
  rw [deliveries_eq host hrange] at hg
  obtain ⟨f,hf,rfl⟩ := List.mem_map.mp hg
  have hvalid := List.mem_takeWhile_imp hf
  exact ⟨received_passes host (isOk_iff.mp hvalid),f,List.takeWhile_subset _ hf,rfl⟩

/-! ### The two codecs of a command -/

theorem command_toJson (e : CommandEnvelope) : (ServerFrame.command e).toJson host = e.toJson host.text := rfl

theorem ofFrame_eq_some {v : Json} {e : CommandEnvelope} :
    CommandEnvelope.ofFrame v = some e ↔ ServerFrame.fromValue v = some (.command e) := by
  simp only [CommandEnvelope.ofFrame,ServerFrame.fromValue,Option.bind_eq_bind,Option.bind_eq_some_iff]
  constructor
  · rintro ⟨kind,hkind,h⟩
    split at h
    · obtain ⟨payload,hpayload,he⟩ := Option.bind_eq_some_iff.mp h
      exact ⟨payload,hpayload,"command",hkind,by simp [he]⟩
    · cases h
  · rintro ⟨payload,hpayload,kind,hkind,h⟩
    refine ⟨kind,hkind,?_⟩
    split at h
    all_goals first
      | cases h
      | obtain ⟨frame,hframe,hcommand⟩ := Option.map_eq_some_iff.mp h
        cases hcommand
    exact Option.bind_eq_some_iff.mpr ⟨payload,hpayload,hframe⟩

theorem command_fromJson {payload : String} {e : CommandEnvelope} :
    CommandEnvelope.fromJson host.text payload = .ok e ↔ ServerFrame.fromJson host payload = .ok (.command e) := by
  have hdecode : ServerFrame.fromJson host payload =
      Checked.decode (ServerFrame.validate host) (host.fromStr ServerFrame.fromValue) payload := rfl
  have hread : (host.text.read payload).bind CommandEnvelope.ofFrame = some e ↔
      (host.text.read payload).bind ServerFrame.fromValue = some (.command e) := by
    simp only [Option.bind_eq_some_iff,ofFrame_eq_some]
  rw [hdecode,Checked.decode_eq_ok,fromStr_eq_ok,← hread]
  unfold CommandEnvelope.fromJson
  cases hframe : (host.text.read payload).bind CommandEnvelope.ofFrame with
  | none => simp
  | some found =>
    simp only [bind_eq_ok,Option.some.injEq]
    constructor
    · rintro ⟨_,hvalid,hfound⟩
      obtain rfl := Except.ok.inj hfound
      exact ⟨rfl,hvalid⟩
    · rintro ⟨rfl,hvalid⟩
      exact ⟨(),hvalid,rfl⟩

end Wire
end Protocol

namespace Delivery

open Protocol

variable {σ : Type}

theorem perm_diff_append {α : Type} [BEq α] [LawfulBEq α] (xs ys : List α) : ((xs ++ ys).diff ys).Perm xs := by
  induction ys with
  | nil => simp
  | cons y ys ih =>
    have hfirst : ((xs ++ y::ys).erase y).Perm (xs ++ ys) := by
      have hmiddle : (xs ++ y::ys).Perm (y::(xs ++ ys)) := List.perm_middle
      simpa using hmiddle.erase y
    rw [List.diff_cons]
    exact (hfirst.diff_right ys).trans ih

theorem run_loseUp (D : Deployment σ) (S : System σ) (id : String) (lost : List DaemonFrame) :
    System.run D S (lost.map (.loseUp id)) = { S with up := S.up.diff (lost.map (id,·)) } := by
  induction lost generalizing S with
  | nil => simp [System.run]
  | cons f lost ih =>
    have hrest := ih { S with up := S.up.erase (id,f) }
    simp only [System.run,List.map_cons,List.foldl_cons,System.step,List.diff_cons] at hrest ⊢
    exact hrest

/-- The text wire does to the system of frames what losses do to it. -/
theorem arrivals_refine (D : Deployment σ) (host : Wire.Host) (S : System σ) (id : String)
    {frames : List DaemonFrame} (hrange : ∀ f ∈ frames, (Wire.DaemonFrame.sent f).InRange) :
    ∃ (lost : List DaemonFrame) (up : List (String × DaemonFrame)),
      up.Perm (S.up ++ (Wire.arrivals host frames).map (id,·)) ∧
      System.run D { S with up := S.up ++ frames.map (id,·) } (lost.map (.loseUp id)) = { S with up } := by
  refine ⟨frames.dropWhile fun f => ((Wire.DaemonFrame.sent f).validate host).isOk,_,?_,run_loseUp D _ id _⟩
  rw [Wire.arrivals_eq host hrange]
  have hup : S.up ++ frames.map (id,·) =
      (S.up ++ (frames.takeWhile fun f => ((Wire.DaemonFrame.sent f).validate host).isOk).map (id,·)) ++
        (frames.dropWhile fun f => ((Wire.DaemonFrame.sent f).validate host).isOk).map (id,·) := by
    rw [List.append_assoc,← List.map_append,List.takeWhile_append_dropWhile]
  simp only [hup]
  exact perm_diff_append _ _

theorem run_loseDown (D : Deployment σ) (S : System σ) (id : String) (lost : List ServerFrame) :
    System.run D S (lost.map (.loseDown id)) = { S with down := S.down.diff (lost.map (id,·)) } := by
  induction lost generalizing S with
  | nil => simp [System.run]
  | cons f lost ih =>
    have hrest := ih { S with down := S.down.erase (id,f) }
    simp only [System.run,List.map_cons,List.foldl_cons,System.step,List.diff_cons] at hrest ⊢
    exact hrest

theorem deliveries_refine (D : Deployment σ) (host : Wire.Host) (S : System σ) (id : String)
    {frames : List Wire.ServerFrame} (hrange : ∀ f ∈ frames, f.InRange) :
    ∃ (lost : List ServerFrame) (down : List (String × ServerFrame)),
      down.Perm (S.down ++ (Wire.deliveries host frames).map (id,·)) ∧
      System.run D { S with down := S.down ++ (frames.map Wire.ServerFrame.received).map (id,·) }
        (lost.map (.loseDown id)) = { S with down } := by
  refine ⟨(frames.dropWhile fun f => (f.validate host).isOk).map Wire.ServerFrame.received,_,?_,
    run_loseDown D _ id _⟩
  rw [Wire.deliveries_eq host hrange]
  have hdown : S.down ++ (frames.map Wire.ServerFrame.received).map (id,·) =
      (S.down ++ ((frames.takeWhile fun f => (f.validate host).isOk).map Wire.ServerFrame.received).map (id,·)) ++
        ((frames.dropWhile fun f => (f.validate host).isOk).map Wire.ServerFrame.received).map (id,·) := by
    rw [List.append_assoc,← List.map_append,← List.map_append,List.takeWhile_append_dropWhile]
  simp only [hdown]
  exact perm_diff_append _ _

end Delivery
end North
