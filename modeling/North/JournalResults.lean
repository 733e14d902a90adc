import North.Coordination
import North.JournalRuns

/-! What an operation of the journal has done when it returned. A return means that every
persist on the way succeeded, so the new state is the one the sections computed; an error
that is not one of the disk leaves the state as it was. -/
namespace North
namespace Journal

open Machine Protocol Prog

variable {σ α : Type} {W : World σ} {h h' : Host σ}

/-- The host went on from an earlier one: its past is longer. -/
def Later (h h' : Host σ) : Prop := h.history <:+ h'.history

instance : IsTrans (Host σ) Later := ⟨fun _ _ _ => List.IsSuffix.trans⟩

instance : Std.Refl (Later (σ := σ)) := ⟨fun _ => List.suffix_refl _⟩

/-- The host went on and nothing was handed over. -/
def Quiet (h h' : Host σ) : Prop := h'.handed = h.handed ∧ Later h h'

instance : IsTrans (Host σ) Quiet :=
  ⟨fun _ _ _ hq hq' => ⟨hq'.1.trans hq.1,List.IsSuffix.trans hq.2 hq'.2⟩⟩

instance : Std.Refl (Quiet (σ := σ)) := ⟨fun _ => ⟨rfl,List.suffix_refl _⟩⟩

/-- The host with another state and a longer past, and nothing handed over. -/
structure Settled (h h' : Host σ) (state : JournalFile) : Prop where
  state : h'.state = state
  handed : h'.handed = h.handed
  later : Later h h'

theorem Settled.refl (h : Host σ) : Settled h h h.state := ⟨rfl,rfl,List.suffix_refl _⟩

theorem Settled.trans {h'' : Host σ} {s s' : JournalFile} (hs : Settled h h' s)
    (hs' : Settled h' h'' s') : Settled h h'' s' :=
  ⟨hs'.state,hs'.handed.trans hs.handed,hs.later.trans hs'.later⟩

theorem settled_settle (h : Host σ) (state file : JournalFile) :
    Settled h (h.settle state file) state := ⟨rfl,rfl,List.suffix_cons _ _⟩

theorem update_ok {section_ : Clock → Section α} {a : α}
    (hexec : (update W section_).exec h = some (.ok a,h')) :
    ∃ s, section_ (W.weather h.tick).2 h.state = some (.ok (a,s)) ∧ Settled h h' s := by
  simp only [exec,update] at hexec
  split at hexec
  · simp at hexec
  · simp at hexec
  · rename_i a' s hsection
    cases hw : (W.weather h.tick).1 with
    | done =>
      obtain ⟨rfl,rfl⟩ : a' = a ∧ h.settle s s = h' := by simpa [hw] using hexec
      exact ⟨s,hsection,settled_settle h s s⟩
    | lost reason readable => simp [hw] at hexec
    | late reason readable => simp [hw] at hexec

theorem update_error {section_ : Clock → Section α} {e : JournalError}
    (hexec : (update W section_).exec h = some (.error e,h')) :
    Quiet h h' ∧ ((∃ reason, e = .io reason) ∨
      section_ (W.weather h.tick).2 h.state = some (.error e) ∧ Settled h h' h.state) := by
  simp only [exec,update] at hexec
  split at hexec
  · simp at hexec
  · rename_i e' hsection
    obtain ⟨rfl,rfl⟩ : e' = e ∧ h.settle h.state h.file = h' := by simpa using hexec
    exact ⟨⟨rfl,List.suffix_cons _ _⟩,.inr ⟨hsection,settled_settle h _ _⟩⟩
  · rename_i a' s hsection
    cases hw : (W.weather h.tick).1 with
    | done => simp [hw] at hexec
    | lost reason readable =>
      obtain ⟨rfl,rfl⟩ : _ = e ∧ _ = h' := by
        simpa only [hw,Option.some.injEq,Prod.mk.injEq,Except.error.injEq] using hexec
      exact ⟨⟨rfl,List.suffix_cons _ _⟩,.inl ⟨reason,rfl⟩⟩
    | late reason readable =>
      obtain ⟨rfl,rfl⟩ : _ = e ∧ _ = h' := by
        simpa only [hw,Option.some.injEq,Prod.mk.injEq,Except.error.injEq] using hexec
      exact ⟨⟨rfl,List.suffix_cons _ _⟩,.inl ⟨reason,rfl⟩⟩

theorem quiet_update (section_ : Clock → Section α) : Within Quiet (update W section_) := by
  intro h r h' hexec
  cases r with
  | ok a =>
    obtain ⟨s,-,hsettled⟩ := update_ok hexec
    exact ⟨hsettled.handed,hsettled.later⟩
  | error e => exact (update_error hexec).1

theorem quiet_callRuntime (f : σ → α × σ) : Within Quiet (callRuntime f) := by
  rintro h r h' hexec
  obtain ⟨-,rfl⟩ : _ = r ∧ _ = h' := by simpa [exec,callRuntime] using hexec
  exact ⟨rfl,List.suffix_refl _⟩

theorem commandRecord_ok {commandId : String} {r : CommandRecord}
    (hexec : (commandRecord commandId : Op σ _).exec h = some (.ok r,h')) :
    h' = h ∧ h.state.commands.find? (fun r => decide (r.commandId = commandId)) = some r := by
  obtain ⟨found,h₁,hlook,hrest⟩ := bind_returns.mp hexec
  obtain ⟨rfl,rfl⟩ : _ = found ∧ h = h₁ := by simpa [exec_look] using hlook
  cases hfound : h.state.commands.find? (fun r => decide (r.commandId = commandId)) with
  | none => simp [hfound,exec_fail] at hrest
  | some record =>
    obtain ⟨rfl,rfl⟩ : record = r ∧ h = h' := by simpa [hfound,exec_pure] using hrest
    exact ⟨rfl,rfl⟩

theorem quiet_commandRecord (commandId : String) :
    Within Quiet (commandRecord commandId : Op σ CommandRecord) := by
  refine within_bind (within_look _) fun found => ?_
  cases found with
  | none => exact within_fail _
  | some record => exact within_pure record

theorem completeCommand_ok {commandId : String} {outcome : DispatchOutcome} {events : List Event}
    {emitted : List EventEnvelope}
    (hexec : (completeCommand W commandId outcome events).exec h = some (.ok emitted,h')) :
    ∃ record now s, h.state.commands.find? (fun r => decide (r.commandId = commandId)) = some record ∧
      finishCommand W.handle commandId outcome events now h.state = some (.ok (emitted,s)) ∧
      Settled h h' (compactSession W.handle record.sessionId s) := by
  obtain ⟨record,h₁,hrecord,hrest⟩ := bind_returns.mp hexec
  obtain ⟨rfl,hfind⟩ := commandRecord_ok hrecord
  obtain ⟨emitted',h₂,hfinish,hrest⟩ := bind_returns.mp hrest
  obtain ⟨s,hsection,hsettled⟩ := update_ok hfinish
  obtain ⟨u,h₃,hcompact,hrest⟩ := bind_returns.mp hrest
  obtain ⟨s',hsection',hsettled'⟩ := update_ok hcompact
  obtain ⟨rfl,rfl⟩ : emitted' = emitted ∧ h₃ = h' := by simpa [exec_pure] using hrest
  obtain rfl : compactSession W.handle record.sessionId s = s' := by
    rw [← hsettled.state]
    exact (Prod.mk.inj (Except.ok.inj (Option.some.inj hsection'))).2
  exact ⟨record,_,s,hfind,hsection,hsettled.trans hsettled'⟩

theorem quiet_completeCommand (commandId : String) (outcome : DispatchOutcome) (events : List Event) :
    Within Quiet (completeCommand W commandId outcome events) :=
  within_bind (quiet_commandRecord _) fun _ => within_bind (quiet_update _) fun _ =>
    within_bind (quiet_update _) fun _ => within_pure _

/-- How an acceptance that returned came about: the command was prepared, and then it was
left where it is, or it was found and started. -/
theorem acceptCommandWithControl_ok {e : CommandEnvelope} {allow : Bool} {a : CommandAcceptance}
    (hexec : (acceptCommandWithControl W e allow).exec h = some (.ok a,h')) :
    e.validate = .ok () ∧ ∃ now p s, prepareCommand W.handle e (W.handle.commandDigest e)
        (messageIdOf e.command) now h.state = .ok (p,s) ∧
      ((a.command = none ∧ Settled h h' s ∧
          (p.record.state ≠ .received ∨ (p.buffered = true ∧
            ¬ (allow && e.command.isSessionCancel && p.buffered && hasPriorDispatchStarted e s) = true) ∨
          ∃ now', markDispatchStarted p.record.commandId now' s = .ok (false,s))) ∨
        ∃ now' s', a.command = some (recordToEnvelope p.record) ∧ p.record.state = .received ∧
          (p.buffered = true →
            (allow && e.command.isSessionCancel && p.buffered && hasPriorDispatchStarted e s) = true) ∧
          markDispatchStarted p.record.commandId now' s = .ok (true,s') ∧ Settled h h' s') := by
  obtain ⟨u,h₁,hcheck,hrest⟩ := bind_returns.mp hexec
  obtain ⟨hvalid,rfl⟩ : protocolChecked e.validate = .ok u ∧ h = h₁ := by
    simpa [exec_orFail] using hcheck
  have hv : e.validate = .ok () := by
    cases hv : e.validate with
    | ok u => rfl
    | error err =>
      rw [hv] at hvalid
      cases hvalid
  obtain ⟨p,h₂,hprepare,hrest⟩ := bind_returns.mp hrest
  obtain ⟨s,hsection,hsettled⟩ := update_ok hprepare
  obtain ⟨prior,h₃,hlook,hrest⟩ := bind_returns.mp hrest
  obtain ⟨hprior,rfl⟩ : hasPriorDispatchStarted e h₂.state = prior ∧ h₂ = h₃ := by
    simpa [exec_look] using hlook
  rw [hsettled.state] at hprior
  refine ⟨hv,_,p,s,Option.some.inj hsection,?_⟩
  dsimp only at hrest
  split_ifs at hrest with hwait
  · obtain ⟨rfl,rfl⟩ : _ = a ∧ h₂ = h' := by simpa [exec_pure] using hrest
    refine .inl ⟨rfl,hsettled,?_⟩
    rcases hwait with hwait | hwait
    · exact .inl hwait
    · exact .inr (.inl (hprior ▸ hwait))
  · have hgo : p.record.state = .received ∧ (p.buffered = true →
        (allow && e.command.isSessionCancel && p.buffered && prior) = true) := by
      refine ⟨by_contra fun hne => hwait (.inl hne),fun hb => by_contra fun hc => ?_⟩
      exact hwait (.inr ⟨hb,hc⟩)
    obtain ⟨started,h₄,hmark,hrest⟩ := bind_returns.mp hrest
    obtain ⟨s',hsection',hsettled'⟩ := update_ok hmark
    rw [hsettled.state] at hsection'
    cases started with
    | true =>
      obtain ⟨rfl,rfl⟩ : _ = a ∧ h₄ = h' := by simpa [exec_pure] using hrest
      exact .inr ⟨_,s',rfl,hgo.1,hprior ▸ hgo.2,Option.some.inj hsection',hsettled.trans hsettled'⟩
    | false =>
      obtain ⟨current,h₅,hcurrent,hlast⟩ := bind_returns.mp hrest
      obtain ⟨rfl,-⟩ := commandRecord_ok hcurrent
      obtain ⟨rfl,rfl⟩ : _ = a ∧ h₅ = h' := by simpa [exec_pure] using hlast
      have hmarked := Option.some.inj hsection'
      have hsame : s' = s := by
        rcases markDispatchStarted_cases hmarked with ⟨-,hsame⟩ | ⟨htrue,-⟩
        · exact hsame
        · cases htrue
      subst hsame
      exact .inl ⟨rfl,hsettled.trans hsettled',.inr (.inr ⟨_,hmarked⟩)⟩

theorem quiet_acceptCommandWithControl (e : CommandEnvelope) (allow : Bool) :
    Within Quiet (acceptCommandWithControl W e allow) := by
  refine within_bind (within_orFail _) fun _ => within_bind (quiet_update _) fun p =>
    within_bind (within_look _) fun prior => ?_
  dsimp only
  split_ifs
  · exact within_pure _
  · refine within_bind (quiet_update _) fun started => ?_
    cases started with
    | true => exact within_pure _
    | false => exact within_bind (quiet_commandRecord _) fun _ => within_pure _

theorem acceptCommandWithControl_error {E : Set CommandEnvelope} {e : CommandEnvelope} {allow : Bool}
    {error : JournalError} (hs : Sound W E h)
    (hexec : (acceptCommandWithControl W e allow).exec h = some (.error error,h')) :
    (∃ reason, error = .io reason) ∨ Settled h h' h.state := by
  rcases bind_fails.mp hexec with hcheck | ⟨u,h₁,hcheck,hrest⟩
  · obtain ⟨-,rfl⟩ : _ ∧ h = h' := by simpa [exec_orFail] using hcheck
    exact .inr (Settled.refl h)
  obtain ⟨-,rfl⟩ : _ ∧ h = h₁ := by simpa [exec_orFail] using hcheck
  rcases bind_fails.mp hrest with hprepare | ⟨p,h₂,hprepare,hrest⟩
  · rcases (update_error hprepare).2 with hio | ⟨-,hsettled⟩
    · exact .inl hio
    · exact .inr hsettled
  obtain ⟨s,hsection,hsettled⟩ := update_ok hprepare
  rcases bind_fails.mp hrest with hlook | ⟨prior,h₃,hlook,hrest⟩
  · simp [exec_look] at hlook
  obtain ⟨-,rfl⟩ : _ ∧ h₂ = h₃ := by simpa [exec_look] using hlook
  dsimp only at hrest
  split_ifs at hrest with hwait
  · simp [exec_pure] at hrest
  · -- a Received record is live after the preparation, so it can be marked
    have hreceived : p.record.state = .received := by_contra fun hne => hwait (.inl hne)
    have hlive := (waiting_of_prepare (fun r hr => (hs.genuine r hr).owned) (Option.some.inj hsection)
      hreceived).live
    have hmarked : ∀ now, markDispatchStarted p.record.commandId now s = .ok (true,
        s.updateCommand p.record.commandId fun r =>
          { r with state := .dispatchStarted, updatedAt := now 0 }) := by
      intro now
      simp only [markDispatchStarted,hlive,hreceived,ne_eq,not_true_eq_false,if_false]
    rcases bind_fails.mp hrest with hmark | ⟨started,h₄,hmark,hlast⟩
    · rcases (update_error hmark).2 with hio | ⟨hrefused,-⟩
      · exact .inl hio
      · rw [hsettled.state,hmarked] at hrefused
        simp at hrefused
    · obtain ⟨s',hsection',-⟩ := update_ok hmark
      rw [hsettled.state,hmarked] at hsection'
      obtain rfl : true = started := (Prod.mk.inj (Except.ok.inj (Option.some.inj hsection'))).1
      simp [exec_pure] at hlast

theorem acceptNextReadyCommand_ok {sessionId : String} {a : Option CommandAcceptance}
    (hexec : (acceptNextReadyCommand W sessionId).exec h = some (.ok a,h')) :
    (nextReady h.state sessionId = none ∧ a = none ∧ h' = h) ∨
      ∃ e accepted, nextReady h.state sessionId = some e ∧ a = some accepted ∧
        (acceptCommandWithControl W e false).exec h = some (.ok accepted,h') := by
  obtain ⟨next,h₁,hlook,hrest⟩ := bind_returns.mp hexec
  obtain ⟨rfl,rfl⟩ : _ = next ∧ h = h₁ := by simpa [exec_look] using hlook
  cases hnext : nextReady h.state sessionId with
  | none =>
    obtain ⟨rfl,rfl⟩ : none = a ∧ h = h' := by simpa [hnext,exec_pure] using hrest
    exact .inl ⟨rfl,rfl,rfl⟩
  | some e =>
    simp only [hnext] at hrest
    obtain ⟨accepted,haccept,rfl⟩ := map_returns.mp hrest
    exact .inr ⟨e,accepted,rfl,rfl,haccept⟩

theorem quiet_acceptNextReadyCommand (sessionId : String) :
    Within Quiet (acceptNextReadyCommand W sessionId) := by
  refine within_bind (within_look _) fun next => ?_
  cases next with
  | none => exact within_pure _
  | some e => exact within_map _ (quiet_acceptCommandWithControl e false)

theorem noteAcceptance_exec (a : CommandAcceptance) (h : Host σ) :
    (noteAcceptance a : Op σ Unit).exec h =
      some (.ok (),{ h with handed := (a.command.toList.map (·.commandId)) ++ h.handed }) := by
  unfold noteAcceptance
  cases a.command <;> rfl

theorem journaled_ok {m : Op σ α} {a : α} :
    (journaled m).exec h = some (.ok a,h') ↔ m.exec h = some (.ok a,h') := by
  constructor
  · intro hexec
    obtain ⟨r,h₁,hattempt,hrest⟩ := bind_returns.mp hexec
    cases r with
    | ok a' =>
      obtain ⟨rfl,rfl⟩ : a' = a ∧ h₁ = h' := by simpa [exec_orFail,Except.mapError] using hrest
      exact attempt_returns.mp hattempt
    | error e => simp [exec_orFail,Except.mapError] at hrest
  · intro hexec
    exact bind_returns.mpr ⟨.ok a,h',attempt_returns.mpr hexec,rfl⟩

theorem within_journaled {R : Host σ → Host σ → Prop} [IsTrans (Host σ) R] [Std.Refl R] {m : Op σ α}
    (hm : Within R m) : Within R (journaled m) :=
  within_bind (within_attempt hm) fun _ => within_orFail _

theorem later_of_quiet {ε : Type} {m : Prog (Host σ) ε α} (hm : Within Quiet m) : Within Later m :=
  hm.mono fun _ _ hq => hq.2

theorem later_noteAcceptance (a : CommandAcceptance) : Within Later (noteAcceptance a : Op σ Unit) := by
  rintro h r h' hexec
  rw [noteAcceptance_exec] at hexec
  obtain rfl := (Prod.mk.inj (Option.some.inj hexec)).2
  exact List.suffix_refl _

/-- What an operation hands over, and what it leaves as it was. -/
structure Hands (h h' : Host σ) (commands : List CommandEnvelope) : Prop where
  handed : h'.handed.Perm (commands.map (·.commandId) ++ h.handed)
  later : Later h h'

theorem Hands.of_eq {commands : List CommandEnvelope}
    (hhanded : h'.handed = commands.map (·.commandId) ++ h.handed) (hlater : Later h h') :
    Hands h h' commands := ⟨List.Perm.of_eq hhanded,hlater⟩

theorem Hands.trans {h'' : Host σ} {commands commands' : List CommandEnvelope}
    (hh : Hands h h' commands) (hh' : Hands h' h'' commands') : Hands h h'' (commands ++ commands') := by
  refine ⟨hh'.handed.trans ?_,hh.later.trans hh'.later⟩
  rw [List.map_append,List.append_assoc]
  refine (hh.handed.append_left _).trans ?_
  rw [← List.append_assoc,← List.append_assoc]
  exact List.perm_append_comm.append_right _

theorem Settled.hands {s : JournalFile} (hs : Settled h h' s) : Hands h h' [] :=
  .of_eq hs.handed hs.later

theorem hands_of_quiet (hq : Quiet h h') : Hands h h' [] := .of_eq hq.1 hq.2

theorem acceptCommandWithControl_settled {e : CommandEnvelope} {allow : Bool} {a : CommandAcceptance}
    (hexec : (acceptCommandWithControl W e allow).exec h = some (.ok a,h')) : ∃ s, Settled h h' s := by
  obtain ⟨-,now,p,s,-,⟨-,hsettled,-⟩ | ⟨now',s',-,-,-,-,hsettled⟩⟩ := acceptCommandWithControl_ok hexec
  · exact ⟨s,hsettled⟩
  · exact ⟨s',hsettled⟩

theorem quiet_recoverOutcome (record : CommandRecord) : Within Quiet (recoverOutcome W record) :=
  within_bind (quiet_callRuntime _) fun _ => within_pure _

theorem quiet_resolveStarted (records : List CommandRecord) (results : List CommandProcessResult) :
    Within Quiet (resolveStarted W records results) := by
  induction records generalizing results with
  | nil => exact within_pure _
  | cons record records ih =>
    exact within_bind (quiet_recoverOutcome record) fun _ =>
      within_bind (quiet_completeCommand _ _ _) fun _ => ih _

theorem later_acceptReadySessions (sessionIds : List String) (actions : RecoveryActions) :
    Within Later (acceptReadySessions W sessionIds actions) := by
  induction sessionIds generalizing actions with
  | nil => exact within_pure _
  | cons sessionId sessionIds ih =>
    refine within_bind (later_of_quiet (quiet_acceptNextReadyCommand sessionId)) fun accepted => ?_
    cases accepted with
    | none => exact ih _
    | some a => exact within_bind (later_noteAcceptance a) fun _ => ih _

theorem later_recoverForScheduler : Within Later (recoverForScheduler W) :=
  within_bind (within_look _) fun _ => within_bind (later_of_quiet (quiet_resolveStarted _ _)) fun _ =>
    within_bind (within_look _) fun _ => later_acceptReadySessions _ _

/-- The sessions' next commands are handed over one after another. -/
theorem acceptReadySessions_hands {sessionIds : List String} {actions actions' : RecoveryActions}
    (hexec : (acceptReadySessions W sessionIds actions).exec h = some (.ok actions',h')) :
    ∃ commands, actions'.commands = actions.commands ++ commands ∧ Hands h h' commands := by
  induction sessionIds generalizing actions h with
  | nil =>
    obtain ⟨rfl,rfl⟩ : actions = actions' ∧ h = h' := by
      simpa [acceptReadySessions,exec_pure] using hexec
    exact ⟨[],(List.append_nil _).symm,(Settled.refl h).hands⟩
  | cons sessionId sessionIds ih =>
    obtain ⟨accepted,h₁,haccept,hrest⟩ := bind_returns.mp hexec
    have hquiet := quiet_acceptNextReadyCommand sessionId _ _ _ haccept
    cases accepted with
    | none =>
      obtain ⟨commands,hcommands,hhands⟩ := ih hrest
      exact ⟨commands,hcommands,(hands_of_quiet hquiet).trans hhands⟩
    | some a =>
      obtain ⟨u,h₂,hnote,hloop⟩ := bind_returns.mp hrest
      rw [noteAcceptance_exec] at hnote
      obtain rfl := (Prod.mk.inj (Option.some.inj hnote)).2
      obtain ⟨commands,hcommands,hhands⟩ := ih hloop
      have hfirst : Hands h { h₁ with handed := a.command.toList.map (·.commandId) ++ h₁.handed }
          a.command.toList := .of_eq (congrArg _ hquiet.1) hquiet.2
      exact ⟨a.command.toList ++ commands,by rw [hcommands,List.append_assoc],hfirst.trans hhands⟩

theorem recoverForScheduler_hands {actions : RecoveryActions}
    (hexec : (recoverForScheduler W).exec h = some (.ok actions,h')) : Hands h h' actions.commands := by
  obtain ⟨records,h₁,hlook,hrest⟩ := bind_returns.mp hexec
  obtain ⟨-,rfl⟩ : _ ∧ h = h₁ := by simpa [exec_look] using hlook
  obtain ⟨results,h₂,hresolve,hrest⟩ := bind_returns.mp hrest
  obtain ⟨sessionIds,h₃,hlook',hloop⟩ := bind_returns.mp hrest
  obtain ⟨-,rfl⟩ : _ ∧ h₂ = h₃ := by simpa [exec_look] using hlook'
  obtain ⟨commands,hcommands,hhands⟩ := acceptReadySessions_hands hloop
  rw [hcommands]
  exact (hands_of_quiet (quiet_resolveStarted _ _ _ _ _ hresolve)).trans hhands

theorem journaled_error {m : Op σ α} {e : CoordinationError}
    (hexec : (journaled m).exec h = some (.error e,h')) : ∃ e', m.exec h = some (.error e',h') := by
  rcases bind_fails.mp hexec with hattempt | ⟨r,h₁,hattempt,hrest⟩
  · exact absurd hattempt attempt_never_fails
  · cases r with
    | ok a => simp [exec_orFail,Except.mapError] at hrest
    | error e' =>
      obtain ⟨-,rfl⟩ : _ ∧ h₁ = h' := by simpa [exec_orFail,Except.mapError] using hrest
      exact ⟨e',attempt_returns.mp hattempt⟩

theorem journaled_no_gap {m : Op σ α} {sessionId : String} {limit : ℕ} :
    (journaled m).exec h ≠ some (.error (.retryableGap sessionId limit),h') := by
  intro hexec
  rcases bind_fails.mp hexec with hattempt | ⟨r,h₁,hattempt,hrest⟩
  · exact absurd hattempt attempt_never_fails
  · cases r <;> simp [exec_orFail,Except.mapError] at hrest

theorem journaled_sound {E : Set CommandEnvelope} {m : Op σ α} (hm : Keeps W E m) (hs : Sound W E h)
    {r : Except CoordinationError α} (hexec : (journaled m).exec h = some (r,h')) : Sound W E h' := by
  cases r with
  | ok a => exact hm.ok hs (journaled_ok.mp hexec)
  | error e =>
    obtain ⟨e',hfails⟩ := journaled_error hexec
    exact hm.error hs hfails

theorem Sound.handOver {E : Set CommandEnvelope} (hs : Sound W E h) {command : Option CommandEnvelope}
    (hu : ∀ c, command = some c → Unhanded h c.commandId) :
    Sound W E { h with handed := command.toList.map (·.commandId) ++ h.handed } := by
  cases command with
  | none => exact hs
  | some c => exact hs.hand (hu c rfl)

namespace Coordinator

theorem intake_eq (command : CommandEnvelope) :
    (if command.command.isSessionCancel then acceptControlCommand W command
      else Journal.acceptCommand W command) =
      acceptCommandWithControl W command command.command.isSessionCancel := by
  cases command.command.isSessionCancel <;> rfl

theorem acceptCommand_ok {command : CommandEnvelope} {actions : RuntimeActions}
    (hexec : (acceptCommand W command).exec h = some (.ok actions,h')) :
    ∃ accepted h₁, (acceptCommandWithControl W command command.command.isSessionCancel).exec h =
        some (.ok accepted,h₁) ∧ actions = acceptanceActions accepted ∧
      h' = { h₁ with handed := accepted.command.toList.map (·.commandId) ++ h₁.handed } := by
  obtain ⟨accepted,h₁,haccept,hrest⟩ := bind_returns.mp hexec
  obtain ⟨u,h₂,hnote,hrest⟩ := bind_returns.mp hrest
  rw [noteAcceptance_exec] at hnote
  obtain rfl := (Prod.mk.inj (Option.some.inj hnote)).2
  obtain ⟨rfl,rfl⟩ : _ = actions ∧ _ = h' := by simpa [exec_pure] using hrest
  rw [intake_eq] at haccept
  exact ⟨accepted,h₁,haccept,rfl,rfl⟩

theorem acceptCommand_hands {command : CommandEnvelope} {actions : RuntimeActions}
    (hexec : (acceptCommand W command).exec h = some (.ok actions,h')) :
    Hands h h' actions.commands := by
  obtain ⟨accepted,h₁,haccept,rfl,rfl⟩ := acceptCommand_ok hexec
  obtain ⟨s,hsettled⟩ := acceptCommandWithControl_settled haccept
  exact .of_eq (congrArg _ hsettled.handed) hsettled.later

theorem quiet_acceptEventAck (ack : EventAck) : Within Quiet (acceptEventAck W ack) := by
  refine within_bind (within_attempt (within_bind (within_orFail _) fun _ => quiet_update _)) fun r => ?_
  cases r with
  | ok a => exact within_bind (within_journaled (quiet_update _)) fun _ => within_pure _
  | error e => cases e <;> first | exact within_pure _ | exact within_fail _

/-- The command of a frame was accepted, or refused as a conflict or a gap without a trace. -/
theorem answerCommand_cases {E : Set CommandEnvelope} {command : CommandEnvelope}
    {conflict : String → RuntimeActions} {r : Except CoordinationError RuntimeActions} (hs : Sound W E h)
    (hexec : (answerCommand conflict (acceptCommand W command)).exec h = some (r,h')) :
    (∃ actions, r = .ok actions ∧ (acceptCommand W command).exec h = some (.ok actions,h')) ∨
      (((∃ reason, r = .ok (conflict reason)) ∨ ∃ sessionId limit, r = .error (.retryableGap sessionId limit)) ∧
        Settled h h' h.state) ∨
      ∃ error, r = .error (.journal error) := by
  have hfailed : ∀ {error h₁}, (acceptCommand W command).exec h = some (.error error,h₁) →
      (∃ reason, error = .io reason) ∨ Settled h h₁ h.state := by
    intro error h₁ hfails
    rcases bind_fails.mp hfails with haccept | ⟨accepted,h₂,haccept,hrest⟩
    · rw [intake_eq] at haccept
      exact acceptCommandWithControl_error hs haccept
    · rcases bind_fails.mp hrest with hnote | ⟨u,h₃,hnote,hrest⟩
      · simp [noteAcceptance_exec] at hnote
      · simp [exec_pure] at hrest
  cases r with
  | ok actions =>
    obtain ⟨r,h₁,hattempt,hrest⟩ := bind_returns.mp hexec
    have hm := attempt_returns.mp hattempt
    cases r with
    | ok actions' =>
      obtain ⟨rfl,rfl⟩ : actions' = actions ∧ h₁ = h' := by simpa [exec_pure] using hrest
      exact .inl ⟨actions',rfl,hm⟩
    | error error =>
      cases error with
      | identityConflict reason =>
        obtain ⟨rfl,rfl⟩ : _ = actions ∧ h₁ = h' := by simpa [exec_pure] using hrest
        rcases hfailed hm with ⟨reason',hio⟩ | hsettled
        · cases hio
        · exact .inr (.inl ⟨.inl ⟨reason,rfl⟩,hsettled⟩)
      | gapOverflow sessionId limit => simp [exec_fail] at hrest
      | io reason => simp [exec_fail] at hrest
      | format reason => simp [exec_fail] at hrest
      | protocol error => simp [exec_fail] at hrest
  | error error =>
    rcases bind_fails.mp hexec with hattempt | ⟨r,h₁,hattempt,hrest⟩
    · exact absurd hattempt attempt_never_fails
    have hm := attempt_returns.mp hattempt
    cases r with
    | ok actions' => simp [exec_pure] at hrest
    | error error' =>
      cases error' with
      | identityConflict reason => simp [exec_pure] at hrest
      | gapOverflow sessionId limit =>
        obtain ⟨rfl,rfl⟩ : _ = error ∧ h₁ = h' := by simpa [exec_fail] using hrest
        rcases hfailed hm with ⟨reason',hio⟩ | hsettled
        · cases hio
        · exact .inr (.inl ⟨.inr ⟨sessionId,limit,rfl⟩,hsettled⟩)
      | io reason =>
        obtain ⟨rfl,-⟩ : _ = error ∧ h₁ = h' := by simpa [exec_fail] using hrest
        exact .inr (.inr ⟨_,rfl⟩)
      | format reason =>
        obtain ⟨rfl,-⟩ : _ = error ∧ h₁ = h' := by simpa [exec_fail] using hrest
        exact .inr (.inr ⟨_,rfl⟩)
      | protocol error' =>
        obtain ⟨rfl,-⟩ : _ = error ∧ h₁ = h' := by simpa [exec_fail] using hrest
        exact .inr (.inr ⟨_,rfl⟩)

theorem finishRuntime_ok {sessionId commandId : String} {outcome : DispatchOutcome}
    {events : List Event} {actions : RuntimeActions}
    (hexec : (finishRuntime W sessionId commandId outcome events).exec h = some (.ok actions,h')) :
    ∃ emitted h₁ next h₂, (completeCommand W commandId outcome events).exec h =
        some (.ok emitted,h₁) ∧
      (acceptNextReadyCommand W sessionId).exec h₁ = some (.ok next,h₂) ∧
      actions.commands = (next.bind (·.command)).toList ∧
      h' = { h₂ with handed := actions.commands.map (·.commandId) ++ h₂.handed } := by
  obtain ⟨emitted,h₁,hcomplete,hrest⟩ := bind_returns.mp hexec
  obtain ⟨next,h₂,hnext,hrest⟩ := bind_returns.mp hrest
  refine ⟨emitted,h₁,next,h₂,journaled_ok.mp hcomplete,journaled_ok.mp hnext,?_⟩
  cases next with
  | none =>
    obtain ⟨rfl,rfl⟩ : _ = actions ∧ h₂ = h' := by simpa [exec_pure] using hrest
    exact ⟨rfl,rfl⟩
  | some accepted =>
    obtain ⟨u,h₃,hnote,hlast⟩ := bind_returns.mp hrest
    have hnoted := journaled_ok.mp hnote
    rw [noteAcceptance_exec] at hnoted
    obtain rfl := (Prod.mk.inj (Option.some.inj hnoted)).2
    obtain ⟨rfl,rfl⟩ : _ = actions ∧ _ = h' := by simpa [exec_pure] using hlast
    exact ⟨rfl,rfl⟩

theorem finishRuntime_hands {sessionId commandId : String} {outcome : DispatchOutcome}
    {events : List Event} {actions : RuntimeActions}
    (hexec : (finishRuntime W sessionId commandId outcome events).exec h = some (.ok actions,h')) :
    Hands h h' actions.commands := by
  obtain ⟨emitted,h₁,next,h₂,hcomplete,hnext,hcommands,rfl⟩ := finishRuntime_ok hexec
  obtain ⟨record,now,s,-,-,hsettled⟩ := completeCommand_ok hcomplete
  have hnext' : ∃ s', Settled h₁ h₂ s' := by
    rcases acceptNextReadyCommand_ok hnext with ⟨-,-,rfl⟩ | ⟨e,accepted,-,-,haccept⟩
    · exact ⟨_,Settled.refl _⟩
    · exact acceptCommandWithControl_settled haccept
  obtain ⟨s',hsettled'⟩ := hnext'
  have hall := hsettled.trans hsettled'
  exact .of_eq (congrArg _ hall.handed) hall.later

/-- A frame that was taken hands over what its actions carry. -/
theorem acceptServerFrame_hands {E : Set CommandEnvelope} {frame : ServerFrame}
    {actions : RuntimeActions} (hs : Sound W E h)
    (hexec : (acceptServerFrame W frame).exec h = some (.ok actions,h')) :
    Hands h h' actions.commands := by
  cases frame with
  | command command =>
    rcases answerCommand_cases hs hexec with ⟨actions',heq,haccept⟩ |
      ⟨⟨reason,heq⟩ | ⟨_,_,heq⟩,hsettled⟩ | ⟨error,heq⟩
    · obtain rfl := Except.ok.inj heq
      exact acceptCommand_hands haccept
    · obtain rfl := Except.ok.inj heq
      exact hsettled.hands
    · cases heq
    · cases heq
  | eventAck ack =>
    obtain ⟨frames,h₁,hack,hrest⟩ := bind_returns.mp hexec
    obtain ⟨rfl,rfl⟩ : _ = actions ∧ h₁ = h' := by simpa [exec_pure] using hrest
    exact hands_of_quiet (quiet_acceptEventAck ack _ _ _ hack)
  | protocolError code message => simp [acceptServerFrame,exec_fail] at hexec
  | welcome =>
    obtain ⟨rfl,rfl⟩ : _ = actions ∧ h = h' := by simpa [acceptServerFrame,exec_pure] using hexec
    exact (Settled.refl h).hands
  | reconcile snapshot =>
    obtain ⟨rfl,rfl⟩ : _ = actions ∧ h = h' := by simpa [acceptServerFrame,exec_pure] using hexec
    exact (Settled.refl h).hands

theorem acceptServerFrame_gap {E : Set CommandEnvelope} {frame : ServerFrame} {sessionId : String}
    {limit : ℕ} (hs : Sound W E h)
    (hexec : (acceptServerFrame W frame).exec h = some (.error (.retryableGap sessionId limit),h')) :
    Settled h h' h.state := by
  cases frame with
  | command command =>
    rcases answerCommand_cases hs hexec with ⟨actions,heq,-⟩ | ⟨-,hsettled⟩ | ⟨error,heq⟩
    · cases heq
    · exact hsettled
    · cases heq
  | eventAck ack =>
    rcases bind_fails.mp hexec with hack | ⟨frames,h₁,hack,hrest⟩
    · rcases bind_fails.mp hack with hattempt | ⟨r,h₁,hattempt,hrest⟩
      · exact absurd hattempt attempt_never_fails
      · cases r with
        | ok u =>
          rcases bind_fails.mp hrest with hcompact | ⟨u,h₂,hcompact,hlast⟩
          · exact absurd hcompact journaled_no_gap
          · simp [exec_pure] at hlast
        | error error => cases error <;> simp [exec_pure,exec_fail] at hrest
    · simp [exec_pure] at hrest
  | protocolError code message => simp [acceptServerFrame,exec_fail] at hexec
  | welcome => simp [acceptServerFrame,exec_pure] at hexec
  | reconcile snapshot => simp [acceptServerFrame,exec_pure] at hexec

theorem acceptCommand_sound {E : Set CommandEnvelope} {command : CommandEnvelope} (he : command ∈ E)
    (hs : Sound W E h) {r : Except JournalError RuntimeActions}
    (hexec : (acceptCommand W command).exec h = some (r,h')) : Sound W E h' := by
  have haccepts := acceptCommandWithControl_sound (W := W) he command.command.isSessionCancel
  cases r with
  | ok actions =>
    obtain ⟨accepted,h₁,haccept,-,rfl⟩ := acceptCommand_ok hexec
    obtain ⟨hs₁,hu⟩ := haccepts.ok hs haccept
    exact hs₁.handOver hu
  | error e =>
    rcases bind_fails.mp hexec with haccept | ⟨accepted,h₁,haccept,hrest⟩
    · rw [intake_eq] at haccept
      exact haccepts.error hs haccept
    · rcases bind_fails.mp hrest with hnote | ⟨u,h₂,hnote,hlast⟩
      · simp [noteAcceptance_exec] at hnote
      · simp [exec_pure] at hlast

theorem acceptEventAck_sound {E : Set CommandEnvelope} {ack : EventAck} (hs : Sound W E h)
    {r : Except CoordinationError (List DaemonFrame)}
    (hexec : (acceptEventAck W ack).exec h = some (r,h')) : Sound W E h' := by
  have hack : Keeps W E (acknowledgeEventOp W ack) :=
    (keeps_orFail _).bind fun _ => keeps_view fun _ _ _ _ h => acknowledgeEvent_view h
  have hcompact := keeps_compactSession (W := W) (E := E) ack.sessionId
  have hattempt : Triple (Sound W E) (attempt (acknowledgeEventOp W ack)) (fun _ => Sound W E)
      fun _ : CoordinationError => Sound W E :=
    triple_attempt hack (fun _ _ hs => hs) fun _ _ hs => hs
  have hall : Triple (Sound W E) (acceptEventAck W ack) (fun _ => Sound W E) fun _ => Sound W E := by
    refine triple_bind hattempt fun r => ?_
    cases r with
    | ok a =>
      refine triple_bind (fun h hs r h' hexec => ?_) fun _ => triple_pure fun _ hs => hs
      have hs' := journaled_sound hcompact hs hexec
      cases r with
      | ok a => exact hs'
      | error e => exact hs'
    | error e =>
      cases e <;> first | exact triple_pure fun _ hs => hs | exact triple_fail fun _ hs => hs
  cases r with
  | ok a => exact hall.ok hs hexec
  | error e => exact hall.error hs hexec

theorem acceptServerFrame_sound {E : Set CommandEnvelope} {frame : ServerFrame}
    (he : ∀ command, frame = .command command → command ∈ E) (hs : Sound W E h)
    {r : Except CoordinationError RuntimeActions}
    (hexec : (acceptServerFrame W frame).exec h = some (r,h')) : Sound W E h' := by
  cases frame with
  | command command =>
    have hall : ∀ {r₁ h₁}, (acceptCommand W command).exec h = some (r₁,h₁) → Sound W E h₁ :=
      fun hm => acceptCommand_sound (he command rfl) hs hm
    have hexec' : ∃ r₁ h₁, (acceptCommand W command).exec h = some (r₁,h₁) ∧ h₁ = h' := by
      cases r with
      | ok actions =>
        obtain ⟨r₁,h₁,hattempt,hrest⟩ := bind_returns.mp hexec
        refine ⟨r₁,h₁,attempt_returns.mp hattempt,?_⟩
        cases r₁ with
        | ok a => exact (by simpa [exec_pure] using hrest : _ ∧ h₁ = h').2
        | error e => cases e <;> simp_all [exec_pure,exec_fail]
      | error error =>
        rcases bind_fails.mp hexec with hattempt | ⟨r₁,h₁,hattempt,hrest⟩
        · exact absurd hattempt attempt_never_fails
        refine ⟨r₁,h₁,attempt_returns.mp hattempt,?_⟩
        cases r₁ with
        | ok a => simp [exec_pure] at hrest
        | error e => cases e <;> simp_all [exec_pure,exec_fail]
    obtain ⟨r₁,h₁,hm,rfl⟩ := hexec'
    exact hall hm
  | eventAck ack =>
    cases r with
    | ok actions =>
      obtain ⟨frames,h₁,hack,hrest⟩ := bind_returns.mp hexec
      obtain ⟨-,rfl⟩ : _ ∧ h₁ = h' := by simpa [exec_pure] using hrest
      exact acceptEventAck_sound hs hack
    | error error =>
      rcases bind_fails.mp hexec with hack | ⟨frames,h₁,hack,hrest⟩
      · exact acceptEventAck_sound hs hack
      · simp [exec_pure] at hrest
  | protocolError code message =>
    obtain ⟨-,rfl⟩ : _ ∧ h = h' := by simpa [acceptServerFrame,exec_fail] using hexec
    exact hs
  | welcome =>
    obtain ⟨-,rfl⟩ : _ ∧ h = h' := by simpa [acceptServerFrame,exec_pure] using hexec
    exact hs
  | reconcile snapshot =>
    obtain ⟨-,rfl⟩ : _ ∧ h = h' := by simpa [acceptServerFrame,exec_pure] using hexec
    exact hs

theorem finishRuntime_sound {E : Set CommandEnvelope} {sessionId commandId : String}
    {outcome : DispatchOutcome} {events : List Event} (hs : Sound W E h)
    {r : Except CoordinationError RuntimeActions}
    (hexec : (finishRuntime W sessionId commandId outcome events).exec h = some (r,h')) :
    Sound W E h' := by
  have hcompletes := keeps_completeCommand (W := W) (E := E) commandId outcome events
  have hnexts := acceptNextReadyCommand_sound (W := W) (E := E) sessionId
  cases r with
  | ok actions =>
    obtain ⟨emitted,h₁,next,h₂,hcomplete,hnext,hcommands,rfl⟩ := finishRuntime_ok hexec
    obtain ⟨hs₂,hu⟩ := hnexts.ok (hcompletes.ok hs hcomplete) hnext
    rw [hcommands]
    refine hs₂.handOver fun c hc => ?_
    obtain ⟨a,ha,hac⟩ := Option.bind_eq_some_iff.mp hc
    exact hu a c ha hac
  | error error =>
    rcases bind_fails.mp hexec with hcomplete | ⟨emitted,h₁,hcomplete,hrest⟩
    · exact journaled_sound hcompletes hs hcomplete
    have hs₁ := hcompletes.ok hs (journaled_ok.mp hcomplete)
    rcases bind_fails.mp hrest with hnext | ⟨next,h₂,hnext,hrest⟩
    · obtain ⟨e',hfails⟩ := journaled_error hnext
      exact hnexts.error hs₁ hfails
    · cases next with
      | none => simp [exec_pure] at hrest
      | some a =>
        rcases bind_fails.mp hrest with hnote | ⟨u,h₃,hnote,hlast⟩
        · obtain ⟨e',hfails⟩ := journaled_error hnote
          simp [noteAcceptance_exec] at hfails
        · simp [exec_pure] at hlast

theorem replaySessions_same {sessions : List SessionReconcileState} {replay : List DaemonFrame}
    {r : Except CoordinationError (List DaemonFrame)}
    (hexec : (replaySessions sessions replay : CoordOp σ _).exec h = some (r,h')) : h' = h := by
  induction sessions generalizing replay with
  | nil => exact (by simpa [replaySessions,exec_pure] using hexec : _ ∧ h = h').2.symm
  | cons session sessions ih =>
    cases r with
    | ok frames =>
      obtain ⟨events,h₁,hlook,hrest⟩ := bind_returns.mp hexec
      obtain ⟨-,rfl⟩ : _ ∧ h = h₁ := by simpa [exec_look] using hlook
      exact ih hrest
    | error e =>
      rcases bind_fails.mp hexec with hlook | ⟨events,h₁,hlook,hrest⟩
      · simp [exec_look] at hlook
      · obtain ⟨-,rfl⟩ : _ ∧ h = h₁ := by simpa [exec_look] using hlook
        exact ih hrest

theorem reconcile_sound {E : Set CommandEnvelope} {snapshot : ReconcileSnapshot} (hs : Sound W E h)
    {r : Except CoordinationError (List DaemonFrame)}
    (hexec : (reconcile W snapshot).exec h = some (r,h')) : Sound W E h' ∧ Quiet h h' := by
  have hkeeps : Keeps W E (applyReconciliationOp W snapshot) := by
    refine (keeps_orFail _).bind fun _ => keeps_view fun _ s _ s' h => ?_
    obtain rfl : _ = s' := by simpa using h
    exact applyReconciliation_view s snapshot
  have hquiet : Within Quiet (applyReconciliationOp W snapshot) :=
    within_bind (within_orFail _) fun _ => quiet_update _
  cases r with
  | ok frames =>
    obtain ⟨u,h₁,happly,hrest⟩ := bind_returns.mp hexec
    obtain rfl := replaySessions_same hrest
    exact ⟨journaled_sound hkeeps hs happly,within_journaled hquiet _ _ _ happly⟩
  | error e =>
    rcases bind_fails.mp hexec with happly | ⟨u,h₁,happly,hrest⟩
    · exact ⟨journaled_sound hkeeps hs happly,within_journaled hquiet _ _ _ happly⟩
    · obtain rfl := replaySessions_same hrest
      exact ⟨journaled_sound hkeeps hs happly,within_journaled hquiet _ _ _ happly⟩

end Coordinator

/-! ### Commands that are over -/

/-- The command is Terminal in the journal, as a record or as a tombstone. -/
def JournalFile.Done (s : JournalFile) (commandId : String) : Prop :=
  Stage.rank .terminal ≤ (s.view.stage commandId).rank

theorem Later.stage_le {E : Set CommandEnvelope} (hlater : Later h h') (hs : Sound W E h)
    (hs' : Sound W E h') (id : String) :
    (h.state.view.stage id).rank ≤ (h'.state.view.stage id).rank := by
  obtain ⟨past,hpast,-⟩ := hs.trail
  obtain ⟨past',hpast',htrail'⟩ := hs'.trail
  have hmem : h.state ∈ h'.state::past' := hpast' ▸ hlater.subset (hpast ▸ List.mem_cons_self ..)
  rcases List.mem_cons.mp hmem with hsame | hold
  · rw [hsame]
  · exact List.rel_of_pairwise_cons htrail'.stages hold id

theorem Later.done {E : Set CommandEnvelope} (hlater : Later h h') (hs : Sound W E h)
    (hs' : Sound W E h') {id : String} (hdone : h.state.Done id) : h'.state.Done id :=
  le_trans hdone (hlater.stage_le hs hs' id)

theorem finishCommand_done {J : Handle} {s s' : JournalFile} {commandId : String}
    {outcome : DispatchOutcome} {events : List Event} {now : Clock} {emitted : List EventEnvelope}
    (hids : s.view.DistinctIds)
    (hfinish : finishCommand J commandId outcome events now s = some (.ok (emitted,s'))) :
    s'.Done commandId := by
  have hids' := (finishCommand_moves (E := Set.univ) hfinish).distinctIds hids
  obtain ⟨r,cursor,hfind,-,rfl⟩ := finishCommand_cases hfinish
  obtain ⟨-,rfl⟩ := Table.find?_key hfind
  have hmem : terminate outcome (now 0) r ∈ (s.updateCommand r.commandId
      (terminate outcome (now 0))).commands := Table.updated_mem hfind
  have hstage := CommandView.stage_of_mem hids' hmem
  exact (congrArg Stage.rank hstage).ge

theorem completeCommand_done {E : Set CommandEnvelope} {commandId : String} {outcome : DispatchOutcome}
    {events : List Event} {emitted : List EventEnvelope} (hs : Sound W E h)
    (hexec : (completeCommand W commandId outcome events).exec h = some (.ok emitted,h')) :
    h'.state.Done commandId := by
  obtain ⟨record,now,s,-,hfinish,hsettled⟩ := completeCommand_ok hexec
  have hids := (finishCommand_moves (E := Set.univ) hfinish).distinctIds hs.distinctIds
  have hmove := compactSession_moves (J := W.handle) (E := Set.univ) (s := s) record.sessionId
  rw [JournalFile.Done,hsettled.state]
  exact le_trans (finishCommand_done hs.distinctIds hfinish) (hmove.stage_le hids commandId)

theorem Coordinator.finishRuntime_done {E : Set CommandEnvelope} {sessionId commandId : String}
    {outcome : DispatchOutcome} {events : List Event} {actions : RuntimeActions} (hs : Sound W E h)
    (hexec : (finishRuntime W sessionId commandId outcome events).exec h = some (.ok actions,h')) :
    h'.state.Done commandId := by
  have hs' := finishRuntime_sound hs hexec
  obtain ⟨emitted,h₁,next,h₂,hcomplete,hnext,-,rfl⟩ := finishRuntime_ok hexec
  have hs₁ : Sound W E h₁ := (keeps_completeCommand commandId outcome events).ok hs hcomplete
  have hs₂ : Sound W E h₂ := ((acceptNextReadyCommand_sound sessionId).ok hs₁ hnext).1
  have hlater := (quiet_acceptNextReadyCommand sessionId _ _ _ hnext).2
  exact hlater.done hs₁ hs₂ (completeCommand_done hs hcomplete)

/-- A command that was started and is not over has a live record. -/
theorem JournalFile.exists_started {s : JournalFile} {id : String}
    (hstarted : Stage.rank .dispatchStarted ≤ (s.view.stage id).rank) (hopen : ¬ s.Done id) :
    ∃ r ∈ s.commands, r.commandId = id ∧ r.state = .dispatchStarted := by
  have hstage : s.view.stage id = .dispatchStarted := by
    rw [JournalFile.Done] at hopen
    cases hst : s.view.stage id <;> simp_all [Stage.rank]
  simp only [CommandView.stage] at hstage
  cases htomb : s.view.tombstones.any (fun t => t.commandId == id) with
  | true => simp [htomb,Stage.of] at hstage
  | false =>
    cases hfind : s.view.commands.find? (fun r => decide (r.commandId = id)) with
    | none => simp [htomb,hfind,Stage.of] at hstage
    | some r =>
      have hstate : Stage.ofState r.state = .dispatchStarted := by
        simpa only [htomb,hfind,Stage.of] using hstage
      obtain ⟨hmem,hid⟩ := Table.find?_key hfind
      refine ⟨r,hmem,hid,?_⟩
      cases hs : r.state <;> simp_all [Stage.ofState]

theorem resolveStarted_done {E : Set CommandEnvelope} {records : List CommandRecord}
    {results results' : List CommandProcessResult} (hs : Sound W E h)
    (hexec : (resolveStarted W records results).exec h = some (.ok results',h')) :
    ∀ r ∈ records, h'.state.Done r.commandId := by
  induction records generalizing results h with
  | nil => simp
  | cons record records ih =>
    obtain ⟨outcome,h₁,houtcome,hrest⟩ := bind_returns.mp hexec
    obtain ⟨emitted,h₂,hcomplete,hloop⟩ := bind_returns.mp hrest
    have hs₁ : Sound W E h₁ := (keeps_recoverOutcome record).ok hs houtcome
    have hs₂ : Sound W E h₂ := (keeps_completeCommand _ _ _).ok hs₁ hcomplete
    have hs' : Sound W E h' := (keeps_resolveStarted _ _).ok hs₂ hloop
    have hlater := (quiet_resolveStarted _ _ _ _ _ hloop).2
    intro r hr
    rcases List.mem_cons.mp hr with rfl | hr
    · exact hlater.done hs₂ hs' (completeCommand_done hs₁ hcomplete)
    · exact ih hs₂ hloop r hr

theorem recoverForScheduler_done {E : Set CommandEnvelope} {actions : RecoveryActions} (hs : Sound W E h)
    (hexec : (recoverForScheduler W).exec h = some (.ok actions,h')) {id : String}
    (hstarted : Stage.rank .dispatchStarted ≤ (h.state.view.stage id).rank) : h'.state.Done id := by
  have hs' : Sound W E h' := keeps_recoverForScheduler.ok hs hexec
  by_cases hdone : h.state.Done id
  · exact (later_recoverForScheduler _ _ _ hexec).done hs hs' hdone
  obtain ⟨r,hr,rfl,hstate⟩ := JournalFile.exists_started hstarted hdone
  obtain ⟨records,h₁,hlook,hrest⟩ := bind_returns.mp hexec
  obtain ⟨rfl,rfl⟩ : _ = records ∧ h = h₁ := by simpa [exec_look] using hlook
  obtain ⟨results,h₂,hresolve,hrest⟩ := bind_returns.mp hrest
  have hs₂ : Sound W E h₂ := (keeps_resolveStarted _ _).ok hs hresolve
  have hresolved := resolveStarted_done hs hresolve r (by simp [hr,hstate])
  obtain ⟨sessionIds,h₃,hlook',hloop⟩ := bind_returns.mp hrest
  obtain ⟨-,rfl⟩ : _ ∧ h₂ = h₃ := by simpa [exec_look] using hlook'
  exact (later_acceptReadySessions _ _ _ _ _ hloop).done hs₂ hs' hresolved

end Journal
end North
