import North.JournalOps
import North.JournalStages

/-! Runs of the journal: any calls in any order, with failing persists and reopens in
between. Every call keeps the invariant that the memory came about by moves alone and
that what was handed over has started, so nothing is handed over twice. -/
namespace North
namespace Journal

open Machine Protocol Prog

/-- The states a journal went through, each one move from the one before it. -/
inductive Trail (J : Handle) (E : Set CommandEnvelope) : JournalFile → List JournalFile → Prop
  | fresh : Trail J E {} []
  | step {s s' : JournalFile} {past : List JournalFile} (h : Trail J E s past)
      (hmove : Moves J E s.view s'.view) : Trail J E s' (s::past)

section

variable {J : Handle} {E : Set CommandEnvelope} {s : JournalFile} {past : List JournalFile}

theorem Trail.invariant {P : CommandView → Prop} (hfresh : P {})
    (hstep : ∀ v v', P v → Moves J E v v' → P v') (h : Trail J E s past) :
    ∀ x ∈ s::past, P x.view := by
  induction h with
  | fresh => exact fun x hx => by rwa [List.mem_singleton.mp hx]
  | @step s s' past h hmove ih =>
    intro x hx
    rcases List.mem_cons.mp hx with rfl | hx
    · exact hstep _ _ (ih s (by simp)) hmove
    · exact ih x hx

theorem Trail.distinctIds (h : Trail J E s past) : ∀ x ∈ s::past, x.view.DistinctIds :=
  h.invariant (by simp [CommandView.DistinctIds]) fun _ _ hv hmove => hmove.distinctIds hv

theorem Trail.stages (h : Trail J E s past) : (s::past).Pairwise fun newer older =>
    ∀ id, (older.view.stage id).rank ≤ (newer.view.stage id).rank := by
  induction h with
  | fresh => simp
  | @step s s' past h hmove ih =>
    refine List.pairwise_cons.mpr ⟨fun older hold id => ?_,ih⟩
    have hlast := hmove.stage_le (h.distinctIds s (by simp)) id
    rcases List.mem_cons.mp hold with rfl | hold
    · exact hlast
    · exact (List.rel_of_pairwise_cons ih hold id).trans hlast

/-- The records are the daemon's own and carry the digest of an envelope of `E`. -/
structure Genuine (J : Handle) (E : Set CommandEnvelope) (r : CommandRecord) : Prop where
  owned : r.daemonId = J.daemonId
  known : recordToEnvelope r ∈ E
  digest : r.payloadDigest = J.commandDigest (recordToEnvelope r)
  positive : 0 < r.serverCommandSeq

theorem Genuine.received {e : CommandEnvelope} (he : e ∈ E) (hvalid : e.validate = .ok ())
    (m : Option String) (now : Clock) :
    Genuine J E (receivedRecord J e (J.commandDigest e) m now) := by
  obtain ⟨hschema,hpos⟩ := CommandEnvelope.validate_ok hvalid
  have hback : recordToEnvelope (receivedRecord J e (J.commandDigest e) m now) = e := by
    cases e
    simp_all [recordToEnvelope,receivedRecord]
  exact ⟨rfl,by rwa [hback],by rw [hback]; rfl,hpos⟩

theorem genuine_update {v : CommandView} (commandId : String) {f : CommandRecord → CommandRecord}
    (hf : ∀ r, Genuine J E r → Genuine J E (f r)) (h : ∀ r ∈ v.commands, Genuine J E r) :
    ∀ r ∈ (v.update commandId f).commands, Genuine J E r :=
  Table.forall_updateFirst hf h

theorem Moves.genuine {v v' : CommandView} (hmove : Moves J E v v')
    (h : ∀ r ∈ v.commands, Genuine J E r) : ∀ r ∈ v'.commands, Genuine J E r := by
  cases hmove with
  | still => exact h
  | receive he hvalid hfree hburied hnew hnew' hseq hroom =>
    intro r hr
    rcases List.mem_append.mp hr with hr | hr
    · exact h r hr
    · rw [List.mem_singleton.mp hr]
      exact Genuine.received he hvalid _ _
  | start hr hstate hmay => exact genuine_update _ (fun r hr => ⟨hr.1,hr.2,hr.3,hr.4⟩) h
  | finish hr hadvance => exact genuine_update _ (fun r hr => ⟨hr.1,hr.2,hr.3,hr.4⟩) h
  | compact sessionId => exact fun r hr => h r (List.mem_of_mem_filter hr)

theorem Trail.genuine (h : Trail J E s past) : ∀ r ∈ s.commands, Genuine J E r :=
  h.invariant (P := fun v => ∀ r ∈ v.commands, Genuine J E r) (by simp)
    (fun _ _ hv hmove => hmove.genuine hv) s (by simp)

end

section

variable {σ α : Type} {W : World σ} {E : Set CommandEnvelope}

/-- The host is sound: its memory has a trail, its file is at most one move ahead, and
what was handed over has started and was handed over once. -/
structure Sound (W : World σ) (E : Set CommandEnvelope) (h : Host σ) : Prop where
  trail : ∃ past, h.history = h.state::past ∧ Trail W.handle E h.state past
  ahead : Moves W.handle E h.state.view h.file.view
  started : ∀ id ∈ h.handed, Stage.rank .dispatchStarted ≤ (h.state.view.stage id).rank
  once : h.handed.Nodup

namespace Sound

variable {h : Host σ}

theorem distinctIds (hs : Sound W E h) : h.state.view.DistinctIds := by
  obtain ⟨past,-,ht⟩ := hs.trail
  exact ht.distinctIds _ (by simp)

theorem genuine (hs : Sound W E h) : ∀ r ∈ h.state.commands, Genuine W.handle E r := by
  obtain ⟨past,-,ht⟩ := hs.trail
  exact ht.genuine

/-- A move of the memory keeps the host sound if the file is again at most one ahead. -/
theorem settle (hs : Sound W E h) {state file : JournalFile}
    (hmove : Moves W.handle E h.state.view state.view)
    (hahead : Moves W.handle E state.view file.view) : Sound W E (h.settle state file) := by
  obtain ⟨past,hpast,ht⟩ := hs.trail
  refine ⟨⟨h.state::past,by simp [Host.settle,hpast],ht.step hmove⟩,hahead,fun id hid => ?_,hs.once⟩
  exact (hs.started id hid).trans (hmove.stage_le hs.distinctIds id)

theorem init (runtime : σ) : Sound W E { runtime } where
  trail := ⟨[],rfl,.fresh⟩
  ahead := .still
  started := by simp
  once := by simp

end Sound

/-- A section whose success is a move keeps the host sound, whatever the persist does. -/
theorem update_sound {section_ : Clock → Section α} {P : Host σ → Prop} {Q : α → Host σ → Prop}
    (hsection : ∀ h now a s, Sound W E h → P h → section_ now h.state = some (.ok (a,s)) →
      Moves W.handle E h.state.view s.view ∧ Q a (h.settle s s)) :
    Triple (fun h => Sound W E h ∧ P h) (update W section_) (fun a h => Sound W E h ∧ Q a h)
      (fun _ h => Sound W E h) := by
  rintro h ⟨hs,hp⟩ r h' he
  simp only [exec,update] at he
  split at he
  · simp at he
  · obtain ⟨rfl,rfl⟩ : _ = r ∧ _ = h' := by simpa using he
    exact hs.settle .still hs.ahead
  · rename_i a s hsec
    obtain ⟨hmove,hq⟩ := hsection h _ a s hs hp hsec
    cases hw : (W.weather h.tick).1 with
    | done =>
      obtain ⟨rfl,rfl⟩ : _ = r ∧ _ = h' := by simpa [hw] using he
      exact ⟨hs.settle hmove .still,hq⟩
    | lost reason readable =>
      obtain ⟨rfl,rfl⟩ : _ = r ∧ _ = h' := by simpa only [hw,Option.some.injEq,Prod.mk.injEq] using he
      cases readable with
      | true => exact hs.settle hs.ahead .still
      | false => exact hs.settle .still hs.ahead
    | late reason readable =>
      obtain ⟨rfl,rfl⟩ : _ = r ∧ _ = h' := by simpa only [hw,Option.some.injEq,Prod.mk.injEq] using he
      cases readable with
      | true => exact hs.settle hmove .still
      | false => exact hs.settle .still hmove

/-- The operation leaves a sound host sound, on success and on error. -/
def Keeps (W : World σ) (E : Set CommandEnvelope) (m : Op σ α) : Prop :=
  Triple (Sound W E) m (fun _ => Sound W E) (fun _ => Sound W E)

theorem Keeps.bind {β : Type} {m : Op σ α} {f : α → Op σ β} (hm : Keeps W E m)
    (hf : ∀ a, Keeps W E (f a)) : Keeps W E (m >>= f) :=
  triple_bind hm hf

theorem keeps_pure (a : α) : Keeps W E (pure a) := triple_pure fun _ hs => hs

theorem keeps_look (f : Host σ → α) : Keeps W E (look f) := triple_look fun _ hs => hs

theorem keeps_fail (e : JournalError) : Keeps W E (fail e : Op σ α) := triple_fail fun _ hs => hs

theorem keeps_orFail (r : Except JournalError α) : Keeps W E (orFail r) :=
  triple_orFail (fun _ _ hs _ => hs) fun _ _ hs _ => hs

theorem keeps_callRuntime (f : σ → α × σ) : Keeps W E (callRuntime f) := by
  rintro h hs r h' he
  obtain ⟨rfl,rfl⟩ : _ = r ∧ _ = h' := by simpa [exec,callRuntime] using he
  exact ⟨hs.1,hs.2,hs.3,hs.4⟩

theorem keeps_update {section_ : Clock → Section α}
    (h : ∀ now s a s', section_ now s = some (.ok (a,s')) → Moves W.handle E s.view s'.view) :
    Keeps W E (update W section_) := by
  have hup := update_sound (W := W) (E := E) (P := fun _ => True) (Q := fun _ _ => True)
    fun host now a s _ _ he => ⟨h now host.state a s he,trivial⟩
  exact (hup.pre fun s hs => ⟨hs,trivial⟩).post (fun _ _ hq => hq.1) fun _ _ hr => hr

theorem keeps_commandRecord (commandId : String) : Keeps W E (commandRecord commandId) := by
  refine (keeps_look _).bind fun found => ?_
  cases found with
  | none => exact keeps_fail _
  | some record => exact keeps_pure record

theorem keeps_compactSession (sessionId : String) : Keeps W E (compactSessionOp W sessionId) := by
  refine keeps_update fun now s a s' h => ?_
  obtain rfl : _ = s' := by simpa using h
  exact compactSession_moves sessionId

theorem keeps_finishCommand (commandId : String) (outcome : DispatchOutcome) (events : List Event) :
    Keeps W E (finishCommandOp W commandId outcome events) :=
  keeps_update fun _ _ _ _ h => finishCommand_moves h

theorem keeps_completeCommand (commandId : String) (outcome : DispatchOutcome)
    (events : List Event) : Keeps W E (completeCommand W commandId outcome events) :=
  (keeps_commandRecord commandId).bind fun record =>
    (keeps_finishCommand commandId outcome events).bind fun _ =>
      (keeps_compactSession record.sessionId).bind fun _ => keeps_pure _

theorem keeps_recoverOutcome (record : CommandRecord) : Keeps W E (recoverOutcome W record) :=
  (keeps_callRuntime _).bind fun _ => keeps_pure _

theorem keeps_resolveStarted (records : List CommandRecord) (results : List CommandProcessResult) :
    Keeps W E (resolveStarted W records results) := by
  induction records generalizing results with
  | nil => exact keeps_pure results
  | cons record records ih =>
    exact (keeps_recoverOutcome record).bind fun outcome =>
      (keeps_completeCommand record.commandId outcome []).bind fun _ => ih _

/-- A command that has started and that nobody was given yet. -/
def Unhanded (h : Host σ) (commandId : String) : Prop :=
  Stage.rank .dispatchStarted ≤ (h.state.view.stage commandId).rank ∧ commandId ∉ h.handed

theorem Sound.hand {h : Host σ} {commandId : String} (hs : Sound W E h)
    (hu : Unhanded h commandId) : Sound W E { h with handed := commandId::h.handed } where
  trail := hs.trail
  ahead := hs.ahead
  started := by
    rintro id hid
    rcases List.mem_cons.mp hid with rfl | hid
    · exact hu.1
    · exact hs.started id hid
  once := List.nodup_cons.mpr ⟨hu.2,hs.once⟩

theorem noteHanded_sound (commandId : String) :
    Triple (fun h : Host σ => Sound W E h ∧ Unhanded h commandId) (noteHanded commandId)
      (fun _ h => Sound W E h) (fun _ h => Sound W E h) :=
  triple_modify fun _ hs => hs.1.hand hs.2

/-- After `prepare_command` a Received record is live in the state, with the envelope's
data, and it is known whether it has to wait. -/
structure Waiting (e : CommandEnvelope) (p : Prepared) (s : JournalFile) : Prop where
  live : s.commands.find? (fun r => decide (r.commandId = p.record.commandId)) = some p.record
  session : p.record.sessionId = e.sessionId
  seq : p.record.serverCommandSeq = e.serverCommandSeq
  command : p.record.command = e.command
  buffered : p.buffered = decide (s.view.expected e.sessionId < e.serverCommandSeq)

theorem waiting_of_prepare {J : Handle} {s s' : JournalFile} {e : CommandEnvelope} {digest : String}
    {m : Option String} {now : Clock} {p : Prepared}
    (howned : ∀ r ∈ s.commands, r.daemonId = J.daemonId)
    (h : prepareCommand J e digest m now s = .ok (p,s')) (hp : p.record.state = .received) :
    Waiting e p s' := by
  obtain ⟨hid,⟨hfind,rfl,hb⟩ | ⟨-,hterm⟩ | ⟨hnew,-,-,hrec,hb,rfl⟩⟩ := prepareCommand_cases h
  · -- a live record with the same id passed the identity test, so it has the same data
    obtain ⟨hmem,hsame⟩ := Table.find?_key hfind
    have hfree := (validateCommandIdentity_ok hid).1 p.record hmem
    simp only [recordConflicts,howned _ hmem,hsame,beq_self_eq_true,Bool.true_or,Bool.true_and,
      Bool.or_eq_false_iff,bne_eq_false_iff_eq] at hfree
    obtain ⟨⟨⟨hsession,hseq⟩,-⟩,hcommand⟩ := hfree
    exact ⟨by rwa [hsame],hsession,hseq,hcommand,by rw [hb,hseq]⟩
  · simp [hp] at hterm
  · have hfind : s.commands.find? (fun r => decide (r.commandId = p.record.commandId)) = none := by
      rw [hrec]
      exact Table.find?_key_none.mpr hnew
    refine ⟨by simp [List.find?_append,hfind],by rw [hrec]; rfl,by rw [hrec]; rfl,
      by rw [hrec]; rfl,hb⟩

theorem mayStart_of_waiting {e : CommandEnvelope} {p : Prepared} {s : JournalFile} {allow : Bool}
    (h : Waiting e p s) (hgo : p.buffered = true → (allow && e.command.isSessionCancel && p.buffered &&
      hasPriorDispatchStarted e s) = true) : s.view.MayStart p.record := by
  cases hb : p.buffered with
  | false =>
    left
    have hle := h.buffered.symm.trans hb
    rw [h.session,h.seq]
    simpa using hle
  | true =>
    right
    have hcontrol := hgo hb
    simp only [Bool.and_eq_true,hasPriorDispatchStarted,List.any_eq_true,beq_iff_eq,
      decide_eq_true_eq] at hcontrol
    obtain ⟨⟨⟨-,hcancel⟩,-⟩,r,hr,⟨hsession,hlt⟩,hstate⟩ := hcontrol
    exact ⟨by rw [h.command]; exact hcancel,r,hr,by rw [hsession,h.session],by rwa [h.seq],hstate⟩

theorem markDispatchStarted_sound {h : Host σ} {r : CommandRecord} {now : Clock} {started : Bool}
    {s : JournalFile} (hs : Sound W E h)
    (hlive : h.state.commands.find? (fun x => decide (x.commandId = r.commandId)) = some r)
    (hstate : r.state = .received) (hmay : h.state.view.MayStart r)
    (hmark : markDispatchStarted r.commandId now h.state = .ok (started,s)) :
    Moves W.handle E h.state.view s.view ∧
      (started = true → Unhanded (h.settle s s) r.commandId) := by
  obtain ⟨rfl,rfl⟩ | ⟨rfl,r',hfind,-,hview⟩ := markDispatchStarted_cases hmark
  · exact ⟨.still,by simp⟩
  · have hmove : Moves W.handle E h.state.view s.view := by
      rw [hview]
      exact .start hlive hstate hmay
    have hmem : r ∈ h.state.view.commands := List.mem_of_find?_eq_some hlive
    refine ⟨hmove,fun _ => ⟨?_,fun hhanded => ?_⟩⟩
    · have hfound : s.view.commands.find? (fun x => decide (x.commandId = r.commandId)) =
          some (startRecord (now 0) r) := by
        have hkeep : ∀ x, (startRecord (now 0) x).commandId = x.commandId := fun _ => rfl
        rw [hview,CommandView.find?_update r.commandId r.commandId hkeep,if_pos rfl]
        exact congrArg (Option.map (startRecord (now 0))) hlive
      have hstage := CommandView.stage_of_mem (hmove.distinctIds hs.distinctIds)
        (List.mem_of_find?_eq_some hfound)
      exact (congrArg Stage.rank hstage).ge
    · have hrank := hs.started _ hhanded
      rw [CommandView.stage_of_mem hs.distinctIds hmem,hstate] at hrank
      exact absurd hrank (by decide)

/-- An acceptance that carries a command has started it, and no one had it before. -/
theorem acceptCommandWithControl_sound {e : CommandEnvelope} (he : e ∈ E) (allow : Bool) :
    Triple (Sound W E) (acceptCommandWithControl W e allow)
      (fun a h => Sound W E h ∧ ∀ c, a.command = some c → Unhanded h c.commandId)
      (fun _ h => Sound W E h) := by
  refine triple_bind (Q := fun _ h => Sound W E h ∧ e.validate = .ok ())
    (triple_orFail (fun h _ hs hr => ⟨hs,?_⟩) fun _ _ hs _ => hs) fun _ => ?_
  · cases hv : e.validate with
    | ok u => rfl
    | error err => simp [hv,protocolChecked,Except.mapError] at hr
  refine triple_bind (Q := fun p h => Sound W E h ∧ (p.record.state = .received →
      Waiting e p h.state)) (update_sound fun h now p s hs hv hsec => ?_) fun p => ?_
  · have hprep := Option.some.inj hsec
    exact ⟨prepareCommand_moves he hv hprep,
      waiting_of_prepare (fun r hr => (hs.genuine r hr).owned) hprep⟩
  refine triple_bind (Q := fun prior h => Sound W E h ∧ (p.record.state = .received →
      Waiting e p h.state) ∧ prior = hasPriorDispatchStarted e h.state)
    (triple_look fun h hs => ⟨hs.1,hs.2,rfl⟩) fun prior => ?_
  dsimp only
  split_ifs with hwait
  · exact triple_pure fun h hs => ⟨hs.1,by simp⟩
  · have hgo : p.record.state = .received ∧ (p.buffered = true →
        (allow && e.command.isSessionCancel && p.buffered && prior) = true) := by
      refine ⟨by_contra fun hne => hwait (.inl hne),fun hb => by_contra fun hc => ?_⟩
      exact hwait (.inr ⟨hb,hc⟩)
    refine triple_bind (Q := fun started h => Sound W E h ∧
        (started = true → Unhanded h p.record.commandId)) ?_ fun started => ?_
    · refine (update_sound (P := fun h => (p.record.state = .received → Waiting e p h.state) ∧
        prior = hasPriorDispatchStarted e h.state) fun h now started s hs hw hsec => ?_)
      have hwaiting := hw.1 hgo.1
      exact markDispatchStarted_sound hs hwaiting.live hgo.1
        (mayStart_of_waiting hwaiting (hw.2 ▸ hgo.2)) (Option.some.inj hsec)
    · cases started with
      | true =>
        refine triple_pure fun h hs => ⟨hs.1,fun c hc => ?_⟩
        obtain rfl := Option.some.inj hc
        exact hs.2 rfl
      | false =>
        refine triple_bind ((keeps_commandRecord _).pre fun h hs => hs.1) fun current => ?_
        exact triple_pure fun h hs => ⟨hs,by simp⟩

theorem nextReady_mem {h : Host σ} {sessionId : String} {e : CommandEnvelope} (hs : Sound W E h)
    (hn : nextReady h.state sessionId = some e) : e ∈ E := by
  obtain ⟨r,hfind,rfl⟩ := Option.map_eq_some_iff.mp hn
  exact (hs.genuine r (List.mem_of_find?_eq_some hfind)).known

theorem acceptNextReadyCommand_sound (sessionId : String) :
    Triple (Sound W E) (acceptNextReadyCommand W sessionId)
      (fun a h => Sound W E h ∧ ∀ x c, a = some x → x.command = some c → Unhanded h c.commandId)
      (fun _ h => Sound W E h) := by
  refine triple_bind (Q := fun next h => Sound W E h ∧ ∀ e, next = some e → e ∈ E)
    (triple_look fun h hs => ⟨hs,fun e he => nextReady_mem hs he⟩) fun next => ?_
  cases next with
  | none => exact triple_pure fun h hs => ⟨hs.1,by simp⟩
  | some e =>
    refine triple_assume (φ := e ∈ E) (fun h hs => hs.2 e rfl) fun he => ?_
    refine triple_map ((acceptCommandWithControl_sound he false).pre fun h hs => hs.1)
      fun a h hs => ⟨hs.1,fun x c hx hc => ?_⟩
    obtain rfl := Option.some.inj hx
    exact hs.2 c hc

theorem noteAcceptance_sound (a : CommandAcceptance) :
    Triple (fun h : Host σ => Sound W E h ∧ ∀ c, a.command = some c → Unhanded h c.commandId)
      (noteAcceptance a) (fun _ h => Sound W E h) (fun _ h => Sound W E h) := by
  unfold noteAcceptance
  cases ha : a.command with
  | none => exact triple_pure fun h hs => hs.1
  | some c => exact (noteHanded_sound c.commandId).pre fun h hs => ⟨hs.1,hs.2 c rfl⟩

theorem keeps_processCommand {e : CommandEnvelope} (he : e ∈ E) : Keeps W E (processCommand W e) := by
  refine triple_bind (Q := fun (a : CommandAcceptance) h => Sound W E h ∧
    ∀ c, a.command = some c → Unhanded h c.commandId) ?_ fun a => ?_
  · split_ifs
    · exact acceptCommandWithControl_sound he true
    · exact acceptCommandWithControl_sound he false
  · cases ha : a.command with
    | none => exact triple_pure fun h hs => hs.1
    | some c =>
      refine triple_bind ((noteHanded_sound c.commandId).pre fun h hs => ⟨hs.1,hs.2 c rfl⟩)
        fun _ => ?_
      exact (keeps_callRuntime _).bind fun outcome => (keeps_callRuntime _).bind fun events =>
        (keeps_finishCommand _ _ _).bind fun _ => (keeps_compactSession _).bind fun _ => keeps_pure _

theorem keeps_processReadyLoop (sessionId : String) (fuel : ℕ)
    (results : List CommandProcessResult) :
    Keeps W E (processReadyLoop W sessionId fuel results) := by
  induction fuel generalizing results with
  | zero =>
    intro h hs r h' he
    simp [exec,processReadyLoop] at he
  | succ fuel ih =>
    refine triple_bind (Q := fun next h => Sound W E h ∧ ∀ e, next = some e → e ∈ E)
      (triple_look fun h hs => ⟨hs,fun e he => nextReady_mem hs he⟩) fun next => ?_
    cases next with
    | none => exact triple_pure fun h hs => hs.1
    | some e =>
      refine triple_assume (φ := e ∈ E) (fun h hs => hs.2 e rfl) fun he => ?_
      exact ((keeps_processCommand he).bind fun result => ih _).pre fun h hs => hs.1

theorem keeps_processReady (sessionId : String) : Keeps W E (processReady W sessionId) :=
  (keeps_look _).bind fun fuel => keeps_processReadyLoop sessionId fuel []

theorem keeps_processReadySessions (sessionIds : List String)
    (results : List CommandProcessResult) :
    Keeps W E (processReadySessions W sessionIds results) := by
  induction sessionIds generalizing results with
  | nil => exact keeps_pure results
  | cons sessionId sessionIds ih => exact (keeps_processReady sessionId).bind fun ready => ih _

theorem keeps_recoverRecords (records : List CommandRecord) (results : List CommandProcessResult)
    (hknown : ∀ r ∈ records, recordToEnvelope r ∈ E) :
    Keeps W E (recoverRecords W records results) := by
  induction records generalizing results with
  | nil => exact keeps_pure results
  | cons record records ih =>
    have hrest := fun results => ih results fun r hr => hknown r (by simp [hr])
    unfold recoverRecords
    split_ifs
    · exact (keeps_processCommand (hknown record (by simp))).bind fun result => hrest _
    · exact (keeps_recoverOutcome record).bind fun outcome =>
        (keeps_finishCommand _ _ _).bind fun _ => (keeps_compactSession _).bind fun _ => hrest _

theorem keeps_recover : Keeps W E (recover W) := by
  refine triple_bind (Q := fun records h => Sound W E h ∧ ∀ r ∈ records, recordToEnvelope r ∈ E)
    (triple_look fun h hs => ⟨hs,fun r hr => (hs.genuine r (List.mem_of_mem_filter hr)).known⟩)
    fun records => ?_
  refine triple_assume (φ := ∀ r ∈ records, recordToEnvelope r ∈ E) (fun h hs => hs.2)
    fun hknown => ?_
  exact ((keeps_recoverRecords records [] hknown).bind fun results => (keeps_look _).bind
    fun sessionIds => keeps_processReadySessions sessionIds results).pre fun h hs => hs.1

theorem keeps_acceptReadySessions (sessionIds : List String) (actions : RecoveryActions) :
    Keeps W E (acceptReadySessions W sessionIds actions) := by
  induction sessionIds generalizing actions with
  | nil => exact keeps_pure actions
  | cons sessionId sessionIds ih =>
    refine triple_bind (acceptNextReadyCommand_sound sessionId) fun accepted => ?_
    cases accepted with
    | none => exact (ih actions).pre fun h hs => hs.1
    | some a =>
      exact triple_bind ((noteAcceptance_sound a).pre fun h hs => ⟨hs.1,fun c => hs.2 a c rfl⟩)
        fun _ => ih _

theorem keeps_recoverForScheduler : Keeps W E (recoverForScheduler W) :=
  (keeps_look _).bind fun records => (keeps_resolveStarted records []).bind fun _ =>
    (keeps_look _).bind fun sessionIds => keeps_acceptReadySessions sessionIds _

theorem keeps_view {section_ : Clock → Section α}
    (h : ∀ now s a s', section_ now s = some (.ok (a,s')) → s'.view = s.view) :
    Keeps W E (update W section_) :=
  keeps_update fun now s a s' he => by
    rw [h now s a s' he]
    exact .still

theorem openWithConfig_ok {daemonId : String} {file s : JournalFile}
    (h : openWithConfig daemonId file = .ok s) : s = file := by
  unfold openWithConfig at h
  split_ifs at h
  exact (Except.ok.inj h).symm

theorem keeps_reopen : Keeps W E (reopen W) := by
  refine triple_bind (Q := fun opened h => Sound W E h ∧
      opened = openWithConfig W.handle.daemonId h.file) (triple_look fun h hs => ⟨hs,rfl⟩)
    fun opened => ?_
  refine triple_bind (Q := fun s h => Sound W E h ∧ s = h.file)
    (triple_orFail (fun h s hs ho => ⟨hs.1,openWithConfig_ok (hs.2.symm.trans ho)⟩)
      fun h e hs _ => hs.1) fun s => ?_
  refine triple_modify fun h hs => ?_
  obtain ⟨hs,rfl⟩ := hs
  exact hs.settle hs.ahead .still

end

/-- A call from outside, with its arguments. -/
inductive Call
  | acceptCommand (envelope : CommandEnvelope)
  | acceptControlCommand (envelope : CommandEnvelope)
  | acceptNextReadyCommand (sessionId : String)
  | processCommand (envelope : CommandEnvelope)
  | processReady (sessionId : String)
  | completeCommand (commandId : String) (outcome : DispatchOutcome) (events : List Event)
  | compactSession (sessionId : String)
  | recover
  | recoverForScheduler
  | appendEvent (eventId sessionId : String) (event : Event)
  | appendEventEnvelope (envelope : EventEnvelope) (digest : String) (duplicate : Bool)
  | acknowledgeEvent (ack : EventAck)
  | applyReconciliation (snapshot : ReconcileSnapshot)
  | reopen
  deriving DecidableEq, Repr

namespace Call

def envelopes : Call → List CommandEnvelope
  | .acceptCommand e => [e]
  | .acceptControlCommand e => [e]
  | .processCommand e => [e]
  | _ => []

/-- Make the call; an acceptance that comes back with a command hands it to the caller. -/
def run {σ : Type} (W : World σ) : Call → Op σ Unit
  | .acceptCommand e => Journal.acceptCommand W e >>= noteAcceptance
  | .acceptControlCommand e => Journal.acceptControlCommand W e >>= noteAcceptance
  | .acceptNextReadyCommand id => do
    match ← Journal.acceptNextReadyCommand W id with
    | some accepted => noteAcceptance accepted
    | none => pure ()
  | .processCommand e => discard (Journal.processCommand W e)
  | .processReady id => discard (Journal.processReady W id)
  | .completeCommand id outcome events => discard (Journal.completeCommand W id outcome events)
  | .compactSession id => compactSessionOp W id
  | .recover => discard (Journal.recover W)
  | .recoverForScheduler => discard (Journal.recoverForScheduler W)
  | .appendEvent id sessionId event => discard (appendEventOp W id sessionId event)
  | .appendEventEnvelope e digest duplicate => discard (appendEventEnvelopeOp W e digest duplicate)
  | .acknowledgeEvent ack => acknowledgeEventOp W ack
  | .applyReconciliation snapshot => applyReconciliationOp W snapshot
  | .reopen => Journal.reopen W

end Call

section

variable {σ : Type} {W : World σ} {E : Set CommandEnvelope}

/-- Calls one after another; a call that fails leaves the host to the next one. -/
def runCalls (W : World σ) : List Call → Host σ → Option (Host σ)
  | [], h => some h
  | call::calls, h =>
    match (call.run W).exec h with
    | none => none
    | some (_,h') => runCalls W calls h'

theorem Keeps.discard {α : Type} {m : Op σ α} (hm : Keeps W E m) :
    Keeps W E (discard m : Op σ Unit) :=
  triple_map hm fun _ _ hs => hs

theorem keeps_run (call : Call) (hcall : ∀ e ∈ call.envelopes, e ∈ E) :
    Keeps W E (call.run W) := by
  cases call with
  | acceptCommand e =>
    exact triple_bind (acceptCommandWithControl_sound (hcall e (by simp [Call.envelopes])) false)
      fun a => noteAcceptance_sound a
  | acceptControlCommand e =>
    exact triple_bind (acceptCommandWithControl_sound (hcall e (by simp [Call.envelopes])) true)
      fun a => noteAcceptance_sound a
  | acceptNextReadyCommand id =>
    refine triple_bind (acceptNextReadyCommand_sound id) fun accepted => ?_
    cases accepted with
    | none => exact triple_pure fun h hs => hs.1
    | some a => exact (noteAcceptance_sound a).pre fun h hs => ⟨hs.1,fun c => hs.2 a c rfl⟩
  | processCommand e => exact (keeps_processCommand (hcall e (by simp [Call.envelopes]))).discard
  | processReady id => exact (keeps_processReady id).discard
  | completeCommand id outcome events => exact (keeps_completeCommand id outcome events).discard
  | compactSession id => exact keeps_compactSession id
  | recover => exact keeps_recover.discard
  | recoverForScheduler => exact keeps_recoverForScheduler.discard
  | appendEvent id sessionId event =>
    exact (keeps_view fun _ _ _ _ h => appendEvent_view (Option.some.inj h)).discard
  | appendEventEnvelope e digest duplicate =>
    refine Keeps.discard ((keeps_orFail _).bind fun _ => ?_)
    split_ifs
    · exact keeps_fail _
    · exact keeps_view fun _ _ _ _ h => appendEventEnvelope_view (Option.some.inj h)
  | acknowledgeEvent ack =>
    exact (keeps_orFail _).bind fun _ => keeps_view fun _ _ _ _ h => acknowledgeEvent_view h
  | applyReconciliation snapshot =>
    refine (keeps_orFail _).bind fun _ => keeps_view fun _ s _ s' h => ?_
    obtain rfl : _ = s' := by simpa using h
    exact applyReconciliation_view s snapshot
  | reopen => exact keeps_reopen

theorem runCalls_sound {calls : List Call} (hcalls : ∀ call ∈ calls, ∀ e ∈ call.envelopes, e ∈ E)
    {h h' : Host σ} (hs : Sound W E h) (hrun : runCalls W calls h = some h') : Sound W E h' := by
  induction calls generalizing h with
  | nil =>
    obtain rfl := Option.some.inj hrun
    exact hs
  | cons call calls ih =>
    simp only [runCalls] at hrun
    split at hrun
    · simp at hrun
    · rename_i r h₁ hexec
      refine ih (fun c hc => hcalls c (by simp [hc])) ?_ hrun
      have hkeep := keeps_run (W := W) call (hcalls call (by simp))
      cases r with
      | ok a => exact hkeep.ok hs hexec
      | error e => exact hkeep.error hs hexec

/-- Over any run with any persist failures, no command is handed to execution twice, and
every command's stage only grows from one state of the journal to the next. -/
theorem dispatched_at_most_once (W : World σ) (runtime : σ) (calls : List Call) (h : Host σ)
    (hrun : runCalls W calls { runtime } = some h) :
    h.handed.Nodup ∧ h.history.Pairwise fun newer older =>
      ∀ id, (older.view.stage id).rank ≤ (newer.view.stage id).rank := by
  have hs := runCalls_sound (E := Set.univ) (fun _ _ _ _ => trivial) (Sound.init runtime) hrun
  obtain ⟨past,hpast,htrail⟩ := hs.trail
  exact ⟨hs.once,hpast ▸ htrail.stages⟩

end

/-- A daemon whose persists succeed and whose runtime forgets what it was doing. -/
def calmWorld : World Unit where
  handle := plainHandle
  executor := ⟨fun _ _ _ _ u => (.dispatchSucceeded,u),fun _ u => ([],u),
    fun _ _ _ _ u => (.unknown,u)⟩
  weather _ := (.done,fun _ => "1")

def resumeEnvelope (seq : ℕ) (commandId : String) : CommandEnvelope :=
  ⟨commandId,"session-1",seq,"1",1,.sessionResume⟩

/-- A duplicate, a restart between acceptance and completion, and a gap that closes. -/
def restartedRun : List Call :=
  [.acceptCommand (resumeEnvelope 1 "a"),.acceptCommand (resumeEnvelope 1 "a"),.reopen,
    .recoverForScheduler,.processCommand (resumeEnvelope 1 "a"),
    .processCommand (resumeEnvelope 3 "c"),.processCommand (resumeEnvelope 2 "b"),
    .processReady "session-1"]

theorem restartedRun_hands_once : ∃ h : Host Unit,
    runCalls calmWorld restartedRun { runtime := () } = some h ∧ h.handed = ["c","b","a"] ∧
    (h.handed.Nodup ∧ h.history.Pairwise fun newer older =>
      ∀ id, (older.view.stage id).rank ≤ (newer.view.stage id).rank) := by
  have hhanded : (runCalls calmWorld restartedRun { runtime := () }).map (·.handed) =
      some ["c","b","a"] := by decide +kernel
  obtain ⟨h,hrun,hh⟩ := Option.map_eq_some_iff.mp hhanded
  exact ⟨h,hrun,hh,dispatched_at_most_once calmWorld () restartedRun h hrun⟩

end Journal
end North
