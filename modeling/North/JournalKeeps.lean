import North.JournalIntake

/-! What the journal keeps of the commands it took. Every operation of a daemon keeps the
host sound for the commands that were issued to it, more may be issued meanwhile, and no
move forgets the identity of a command. -/
namespace North
namespace Journal

open Machine Protocol Prog

section

variable {J : Handle} {E F : Set CommandEnvelope} {v v' : CommandView}

theorem Moves.mono (hsub : E ⊆ F) (hmove : Moves J E v v') : Moves J F v v' := by
  cases hmove with
  | still => exact .still
  | receive he hvalid hfree hburied hnew hnew' hseq hroom =>
    exact .receive (hsub he) hvalid hfree hburied hnew hnew' hseq hroom
  | start hr hstate hmay => exact .start hr hstate hmay
  | finish hr hadvance => exact .finish hr hadvance
  | compact sessionId => exact .compact sessionId

theorem Trail.mono (hsub : E ⊆ F) {s : JournalFile} {past : List JournalFile} (h : Trail J E s past) :
    Trail J F s past := by
  induction h with
  | fresh => exact .fresh
  | step h hmove ih => exact ih.step (hmove.mono hsub)

theorem CommandView.identities_start (commandId now : String) :
    (v.update commandId (startRecord now)).identities = v.identities :=
  identities_update commandId fun _ => rfl

theorem CommandView.identities_terminate (commandId : String) (outcome : DispatchOutcome) (now : String) :
    (v.update commandId (terminate outcome now)).identities = v.identities :=
  identities_update commandId fun _ => rfl

theorem Moves.identities (hmove : Moves J E v v') : ∀ i ∈ v.identities, i ∈ v'.identities := by
  intro i hi
  cases hmove with
  | still => exact hi
  | receive he hvalid hfree hburied hnew hnew' hseq hroom =>
    rw [CommandView.mem_identities] at hi ⊢
    exact hi.imp_left fun ⟨r,hr,hri⟩ => ⟨r,List.mem_append_left _ hr,hri⟩
  | start hr hstate hmay => rwa [CommandView.identities_start]
  | @finish r outcome now fuel cursor hr hadvance =>
    show i ∈ (v.update r.commandId (terminate outcome now)).identities
    rwa [CommandView.identities_terminate]
  | compact sessionId => exact (CommandView.identities_bury _).mem_iff.mpr hi

theorem Trail.identities {s : JournalFile} {past : List JournalFile} (h : Trail J E s past) :
    ∀ x ∈ s::past, ∀ i ∈ x.view.identities, i ∈ s.view.identities := by
  induction h with
  | fresh =>
    intro x hx i hi
    rwa [List.mem_singleton.mp hx] at hi
  | step h hmove ih =>
    intro x hx i hi
    rcases List.mem_cons.mp hx with rfl | hx
    · exact hi
    · exact hmove.identities i (ih x hx i hi)

/-- Each identity is the one of an envelope of `E`. -/
def CommandView.Known (J : Handle) (E : Set CommandEnvelope) (v : CommandView) : Prop :=
  ∀ i ∈ v.identities, ∃ e ∈ E, identityOf J e = i

theorem Moves.known (hmove : Moves J E v v') (h : v.Known J E) : v'.Known J E := by
  intro i hi
  cases hmove with
  | still => exact h i hi
  | @receive e now he hvalid hfree hburied hnew hnew' hseq hroom =>
    rcases CommandView.mem_identities.mp hi with ⟨r,hr,rfl⟩ | hburied
    · rcases List.mem_append.mp hr with hr | hr
      · exact h _ (CommandView.mem_identities.mpr (.inl ⟨r,hr,rfl⟩))
      · exact ⟨e,he,by rw [List.mem_singleton.mp hr]; rfl⟩
    · exact h i (CommandView.mem_identities.mpr (.inr hburied))
  | start hr hstate hmay =>
    rw [CommandView.identities_start] at hi
    exact h i hi
  | @finish r outcome now fuel cursor hr hadvance =>
    change i ∈ (v.update r.commandId (terminate outcome now)).identities at hi
    rw [CommandView.identities_terminate] at hi
    exact h i hi
  | compact sessionId => exact h i ((CommandView.identities_bury _).mem_iff.mp hi)

/-- A command past the stage of its intake has its identity in the journal. -/
theorem CommandView.identity_of_stage {commandId : String} (h : 0 < (v.stage commandId).rank) :
    ∃ i ∈ v.identities, i.commandId = commandId := by
  unfold stage at h
  cases htomb : v.tombstones.any fun t => t.commandId == commandId with
  | true =>
    obtain ⟨t,ht,hid⟩ := List.any_eq_true.mp htomb
    exact ⟨t.identity,mem_identities.mpr (.inr ⟨t,ht,rfl⟩),eq_of_beq hid⟩
  | false =>
    cases hfind : v.commands.find? fun r => decide (r.commandId = commandId) with
    | none => simp [htomb,hfind,Stage.of,Stage.rank] at h
    | some r =>
      obtain ⟨hr,hid⟩ := Table.find?_key hfind
      exact ⟨r.identity,mem_identities.mpr (.inl ⟨r,hr,rfl⟩),hid⟩

end

section

variable {σ α : Type} {W : World σ} {E F : Set CommandEnvelope} {h h' : Host σ}

namespace Sound

theorem mono (hsub : E ⊆ F) (hs : Sound W E h) : Sound W F h where
  trail := by
    obtain ⟨past,hpast,htrail⟩ := hs.trail
    exact ⟨past,hpast,htrail.mono hsub⟩
  ahead := hs.ahead.mono hsub
  started := hs.started
  once := hs.once

theorem views (hs : Sound W E h) {P : CommandView → Prop} (hfresh : P {})
    (hstep : ∀ v v', P v → Moves W.handle E v v' → P v') :
    (∀ s ∈ h.history, P s.view) ∧ P h.state.view ∧ P h.file.view := by
  obtain ⟨past,hpast,htrail⟩ := hs.trail
  have hall := htrail.invariant hfresh hstep
  exact ⟨by rwa [hpast],hall _ (by simp),hstep _ _ (hall _ (by simp)) hs.ahead⟩

theorem identities (hs : Sound W E h) {s : JournalFile} (hmem : s ∈ h.history) :
    (∀ i ∈ s.view.identities, i ∈ h.state.view.identities) ∧
      ∀ i ∈ s.view.identities, i ∈ h.file.view.identities := by
  obtain ⟨past,hpast,htrail⟩ := hs.trail
  rw [hpast] at hmem
  have hstate := htrail.identities s hmem
  exact ⟨hstate,fun i hi => hs.ahead.identities i (hstate i hi)⟩

end Sound

/-- A program keeps the host sound, whatever its errors are. -/
abbrev KeepsSound {ε : Type} (W : World σ) (E : Set CommandEnvelope) (m : Prog (Host σ) ε α) : Prop :=
  Triple (Sound W E) m (fun _ => Sound W E) fun _ => Sound W E

theorem keepsSound_of {ε : Type} {m : Prog (Host σ) ε α}
    (hm : ∀ h r h', Sound W E h → m.exec h = some (r,h') → Sound W E h') : KeepsSound W E m := by
  intro h hs r h' hexec
  cases r <;> exact hm h _ h' hs hexec

theorem keepsSound_journaled {m : Op σ α} (hm : Keeps W E m) : KeepsSound W E (journaled m) :=
  keepsSound_of fun _ _ _ hs hexec => journaled_sound hm hs hexec

theorem keepsSound_pure {ε β : Type} {m : Prog (Host σ) ε α} (f : α → β) (hm : KeepsSound W E m) :
    KeepsSound W E (m >>= fun a => pure (f a)) :=
  triple_bind hm fun _ => triple_pure fun _ hs => hs

theorem keepsSound_processServerFrame {frame : ServerFrame}
    (he : ∀ e, frame = .command e → e ∈ E) :
    KeepsSound W E (Coordinator.processServerFrame W frame) := by
  cases frame with
  | welcome => exact triple_pure fun _ hs => hs
  | reconcile snapshot => exact triple_pure fun _ hs => hs
  | protocolError code message => exact triple_fail fun _ hs => hs
  | eventAck ack => exact keepsSound_of fun _ _ _ hs hexec => Coordinator.acceptEventAck_sound hs hexec
  | command e =>
    have hprocess : Keeps W E (Coordinator.processCommand W e) :=
      (keeps_processCommand (he e rfl)).bind fun result => (keeps_processReady _).bind fun ready =>
        keeps_pure _
    have hattempt : KeepsSound (ε := CoordinationError) W E (attempt (Coordinator.processCommand W e)) :=
      triple_attempt hprocess (fun _ _ hs => hs) fun _ _ hs => hs
    refine triple_bind hattempt fun result => ?_
    cases result with
    | ok actions => exact triple_pure fun _ hs => hs
    | error error => cases error <;> first | exact triple_pure fun _ hs => hs | exact triple_fail fun _ hs => hs

/-- Every operation of a daemon keeps the host sound, when the command it takes is of `E`. -/
theorem DaemonOp.keepsSound {op : DaemonOp} (he : ∀ e, op.takes = some (.command e) → e ∈ E) :
    KeepsSound W E (op.run W) := by
  cases op with
  | recoverForScheduler =>
    exact keepsSound_pure _ (keepsSound_pure _ (keepsSound_journaled keeps_recoverForScheduler))
  | recover => exact keepsSound_pure _ (keepsSound_journaled keeps_recover)
  | reconcile snapshot =>
    exact keepsSound_of fun _ _ _ hs hexec => (Coordinator.reconcile_sound hs hexec).1
  | acceptServerFrame frame =>
    refine keepsSound_pure _ (keepsSound_of fun _ _ _ hs hexec =>
      Coordinator.acceptServerFrame_sound (fun e hframe => he e ?_) hs hexec)
    rw [hframe]
    rfl
  | processServerFrame frame =>
    refine keepsSound_processServerFrame fun e hframe => he e ?_
    rw [hframe]
    rfl
  | finishRuntime sessionId commandId outcome events =>
    exact keepsSound_pure _ (keepsSound_of fun _ _ _ hs hexec => Coordinator.finishRuntime_sound hs hexec)
  | appendEvent eventId sessionId event =>
    exact keepsSound_pure _ (keepsSound_journaled (keeps_view fun _ _ _ _ h =>
      appendEvent_view (Option.some.inj h)))
  | appendEventEnvelope envelope digest duplicate =>
    refine keepsSound_pure _ (keepsSound_journaled ((keeps_orFail _).bind fun _ => ?_))
    split_ifs
    · exact keeps_fail _
    · exact keeps_view fun _ _ _ _ h => appendEventEnvelope_view (Option.some.inj h)
  | compactSession sessionId =>
    exact keepsSound_pure _ (keepsSound_journaled (keeps_compactSession sessionId))
  | reopen => exact keepsSound_pure _ (keepsSound_journaled keeps_reopen)

end

end Journal
end North
