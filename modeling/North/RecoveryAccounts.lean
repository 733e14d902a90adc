import North.EventIdentity
import North.RecoveryAgreement

/-! What a recovery makes of the commands that a crash interrupted. The runtime is asked
once about each, in the order of the journal, and nothing else; each gets the events of
the answer and no others, and none of them runs again. -/
namespace North
namespace Journal

open Machine Protocol Prog

section

variable {σ : Type} {W : World σ} {E : Set CommandEnvelope} {h h' : Host σ}

/-- Ask the runtime about every command in turn. -/
def recoveredOutcomes (W : World σ) : List CommandRecord → σ → List DispatchOutcome × σ
  | [], runtime => ([],runtime)
  | record::records, runtime =>
    let answer := W.executor.recoverForSession record.sessionId record.runtimeOperationId
      record.commandId record.command runtime
    let rest := recoveredOutcomes W records answer.2
    (recoveredOutcome record.commandId answer.1::rest.1,rest.2)

/-- The runtime was not called. -/
def Unasked (h h' : Host σ) : Prop := h'.runtime = h.runtime

instance : IsTrans (Host σ) Unasked := ⟨fun _ _ _ hu hu' => Eq.trans hu' hu⟩

instance : Std.Refl (Unasked (σ := σ)) := ⟨fun _ => rfl⟩

theorem unasked_update {α : Type} (section_ : Clock → Section α) : Within Unasked (update W section_) := by
  intro h r h' hexec
  simp only [exec,update] at hexec
  split at hexec
  · simp at hexec
  · obtain ⟨-,rfl⟩ : _ ∧ _ = h' := by simpa using hexec
    rfl
  · split at hexec <;>
    · obtain ⟨-,rfl⟩ : _ ∧ _ = h' := by simpa only [Option.some.injEq,Prod.mk.injEq] using hexec
      rfl

theorem unasked_commandRecord (commandId : String) :
    Within Unasked (commandRecord commandId : Op σ CommandRecord) := by
  refine within_bind (within_look _) fun found => ?_
  cases found with
  | none => exact within_fail _
  | some record => exact within_pure record

theorem unasked_completeCommand (commandId : String) (outcome : DispatchOutcome) (events : List Event) :
    Within Unasked (completeCommand W commandId outcome events) :=
  within_bind (unasked_commandRecord _) fun _ => within_bind (unasked_update _) fun _ =>
    within_bind (unasked_update _) fun _ => within_pure _

theorem unasked_acceptCommandWithControl (e : CommandEnvelope) (allow : Bool) :
    Within Unasked (acceptCommandWithControl W e allow) := by
  refine within_bind (within_orFail _) fun _ => within_bind (unasked_update _) fun p =>
    within_bind (within_look _) fun prior => ?_
  dsimp only
  split_ifs
  · exact within_pure _
  · refine within_bind (unasked_update _) fun started => ?_
    cases started with
    | true => exact within_pure _
    | false => exact within_bind (unasked_commandRecord _) fun _ => within_pure _

theorem acceptCommandWithControl_carried {e : CommandEnvelope} {allow : Bool} {a : CommandAcceptance}
    (hexec : (acceptCommandWithControl W e allow).exec h = some (.ok a,h')) : Carried h.state h'.state := by
  obtain ⟨-,now,p,s,hprepare,hcase⟩ := acceptCommandWithControl_ok hexec
  have hprepared : Carried h.state s := by
    obtain ⟨-,⟨-,rfl,-⟩ | ⟨rfl,-⟩ | ⟨-,-,-,-,-,rfl⟩⟩ := prepareCommand_cases hprepare
    · exact .refl _
    · exact .refl _
    · exact .of_maps rfl rfl fun _ _ hm => hm
  rcases hcase with ⟨-,hsettled,-⟩ | ⟨now',s',-,-,-,hmark,hsettled⟩
  · rwa [hsettled.state]
  · rw [hsettled.state]
    refine hprepared.trans ?_
    unfold markDispatchStarted at hmark
    split at hmark
    · simp at hmark
    · split_ifs at hmark
      · simp at hmark
      · obtain rfl : _ = s' := (Prod.mk.inj (Except.ok.inj hmark)).2
        exact updateCommand_carried s _ _

theorem acceptNextReadyCommand_carried {sessionId : String} {a : Option CommandAcceptance}
    (hexec : (acceptNextReadyCommand W sessionId).exec h = some (.ok a,h')) :
    Carried h.state h'.state ∧ Unasked h h' := by
  rcases acceptNextReadyCommand_ok hexec with ⟨-,-,rfl⟩ | ⟨e,accepted,-,-,haccept⟩
  · exact ⟨.refl _,rfl⟩
  · exact ⟨acceptCommandWithControl_carried haccept,unasked_acceptCommandWithControl _ _ _ _ _ haccept⟩

theorem acceptReadySessions_carried {sessionIds : List String} {actions actions' : RecoveryActions}
    (hexec : (acceptReadySessions W sessionIds actions).exec h = some (.ok actions',h')) :
    Carried h.state h'.state ∧ Unasked h h' ∧ actions.results <+: actions'.results := by
  induction sessionIds generalizing actions h with
  | nil =>
    obtain ⟨rfl,rfl⟩ : actions = actions' ∧ h = h' := by
      simpa [acceptReadySessions,exec_pure] using hexec
    exact ⟨.refl _,rfl,List.prefix_refl _⟩
  | cons sessionId sessionIds ih =>
    obtain ⟨accepted,h₁,haccept,hrest⟩ := bind_returns.mp hexec
    obtain ⟨hcarried,hsame⟩ := acceptNextReadyCommand_carried haccept
    cases accepted with
    | none =>
      obtain ⟨hcarried',hsame',hfirst⟩ := ih hrest
      exact ⟨hcarried.trans hcarried',Eq.trans hsame' hsame,hfirst⟩
    | some a =>
      obtain ⟨u,h₂,hnote,hloop⟩ := bind_returns.mp hrest
      rw [noteAcceptance_exec] at hnote
      obtain rfl := (Prod.mk.inj (Option.some.inj hnote)).2
      obtain ⟨hcarried',hsame',hfirst⟩ := ih hloop
      exact ⟨hcarried.trans hcarried',Eq.trans hsame' hsame,(List.prefix_append _ _).trans hfirst⟩

theorem reopen_handed (hexec : (reopen W).exec h = some (.ok (),h')) : h'.handed = h.handed := by
  obtain ⟨opened,h₁,hlook,hrest⟩ := bind_returns.mp hexec
  obtain ⟨-,rfl⟩ : _ ∧ h = h₁ := by simpa [exec_look] using hlook
  obtain ⟨s,h₂,hopen,hmodify⟩ := bind_returns.mp hrest
  obtain ⟨-,rfl⟩ : _ ∧ h = h₂ := by simpa [exec_orFail] using hopen
  obtain rfl : h.settle s h.file = h' := by simpa [exec_modify] using hmodify
  rfl

/-- The answers about the interrupted commands and what was made of them: the events of a
command are those that its end derives from the answer. -/
structure Accounts (W : World σ) (records : List CommandRecord) (results : List CommandProcessResult)
    (h h' : Host σ) : Prop where
  commands : results.map (·.acknowledgement.commandId) = records.map (·.commandId)
  outcomes : results.map (·.outcome) = (recoveredOutcomes W records h.runtime).1.map some
  runtime : h'.runtime = (recoveredOutcomes W records h.runtime).2
  emitted : results.map (fun result => result.emittedEvents.map (·.eventId)) =
    List.zipWith (fun record outcome => derivedIds record.commandId outcome 0) records
      (recoveredOutcomes W records h.runtime).1
  events : h'.state.eventIds.Perm
    (h.state.eventIds ++ results.flatMap fun result => result.emittedEvents.map (·.eventId))

theorem resolveStarted_accounts {records : List CommandRecord} {results results' : List CommandProcessResult}
    (hexec : (resolveStarted W records results).exec h = some (.ok results',h')) :
    ∃ resolved, results' = results ++ resolved ∧ Accounts W records resolved h h' := by
  induction records generalizing results h with
  | nil =>
    obtain ⟨rfl,rfl⟩ : results = results' ∧ h = h' := by simpa [resolveStarted,exec_pure] using hexec
    exact ⟨[],by simp,⟨rfl,rfl,rfl,rfl,by simp⟩⟩
  | cons record records ih =>
    obtain ⟨outcome,h₁,houtcome,hrest⟩ := bind_returns.mp hexec
    obtain ⟨emitted,h₂,hcomplete,hloop⟩ := bind_returns.mp hrest
    obtain ⟨answer,h₃,hcall,hpure⟩ := bind_returns.mp houtcome
    obtain ⟨rfl,rfl⟩ : _ = outcome ∧ h₃ = h₁ := by simpa [exec_pure] using hpure
    obtain ⟨rfl,rfl⟩ : _ = answer ∧ _ = h₃ := by simpa [exec,callRuntime] using hcall
    have hunasked : h₂.runtime = _ := unasked_completeCommand _ _ _ _ _ _ hcomplete
    obtain ⟨r,now,s,hfind,hfinish,hsettled⟩ := completeCommand_ok hcomplete
    obtain ⟨hadds,hids,-⟩ := finishCommand_adds hfinish
    have hevents : h₂.state.eventIds.Perm (h.state.eventIds ++ emitted.map (·.eventId)) := by
      rw [hsettled.state]
      exact ((compactSession_carried _ r.sessionId s).refs.map _).trans
        (hadds.ids_perm.trans List.perm_append_comm)
    obtain ⟨resolved,rfl,hacc⟩ := ih hloop
    refine ⟨_::resolved,by rw [List.append_assoc]; rfl,⟨?_,?_,?_,?_,?_⟩⟩
    · rw [List.map_cons,List.map_cons,hacc.commands]
      rfl
    · rw [List.map_cons,hacc.outcomes,hunasked]
      rfl
    · rw [hacc.runtime,hunasked]
      rfl
    · rw [List.map_cons,hacc.emitted,hunasked]
      exact congrArg (·::_) hids
    · refine hacc.events.trans ?_
      rw [List.flatMap_cons,← List.append_assoc]
      exact hevents.append_right _

/-- The started commands of a sound host are accounted for, over, and not handed over again. -/
theorem Sound.accounted {actions : RecoveryActions} {h₀ h₁ : Host σ}
    (hdigest : Set.InjOn W.handle.commandDigest E) (hs₀ : Sound W E h₀)
    (hexec : (recoverForScheduler W).exec h₀ = some (.ok actions,h₁)) :
    ∃ resolved, resolved <+: actions.results ∧
      Accounts W (h₀.state.commands.filter (·.state == .dispatchStarted)) resolved h₀ h₁ ∧
      ∀ x ∈ h₀.state.commands, x.state = .dispatchStarted → h₁.state.Done x.commandId ∧
        (∀ c ∈ actions.commands, c.commandId ≠ x.commandId) ∧
        (x.commandId ∈ h₁.handed ↔ x.commandId ∈ h₀.handed) := by
  obtain ⟨records,h₂,hlook,hrest⟩ := bind_returns.mp hexec
  obtain ⟨rfl,rfl⟩ : _ = records ∧ h₀ = h₂ := by simpa [exec_look] using hlook
  obtain ⟨results,h₃,hresolve,hrest⟩ := bind_returns.mp hrest
  obtain ⟨sessionIds,h₄,hlook',hloop⟩ := bind_returns.mp hrest
  obtain ⟨rfl,rfl⟩ : _ = sessionIds ∧ h₃ = h₄ := by simpa [exec_look] using hlook'
  obtain ⟨resolved,hresults,hacc⟩ := resolveStarted_accounts hresolve
  obtain rfl : results = resolved := hresults
  obtain ⟨hcarried,hunasked,hfirst⟩ := acceptReadySessions_carried hloop
  refine ⟨results,hfirst,⟨hacc.commands,hacc.outcomes,hunasked.trans hacc.runtime,hacc.emitted,
    (hcarried.refs.map _).trans hacc.events⟩,fun x hx hstarted => ?_⟩
  obtain ⟨hm,hres⟩ := recoverForScheduler_resolved hdigest hs₀ hexec
  have hnot : ∀ c ∈ actions.commands, c.commandId ≠ x.commandId := by
    intro c hc hid
    obtain ⟨r,hr,hreceived,rfl⟩ := hres.turns.waited c hc
    have hr₀ := hres.middle.proceeds.received r hr hreceived
    obtain rfl := List.inj_on_of_nodup_map hs₀.distinctIds.commands hr₀ hx hid
    simp [hstarted] at hreceived
  have hrank : Stage.rank .dispatchStarted ≤ (h₀.state.view.stage x.commandId).rank := by
    rw [CommandView.stage_of_mem hs₀.distinctIds hx,hstarted]
    exact le_rfl
  refine ⟨recoverForScheduler_done hs₀ hexec hrank,hnot,?_⟩
  rw [hres.turns.handed,hres.quiet]
  refine or_iff_right fun hin => ?_
  obtain ⟨c,hc,hid⟩ := List.mem_map.mp hin
  exact hnot c hc hid

/-- After any run, with any persist failures, and a restart, a recovery that returns has
asked the runtime once about every command that was started, in the order of the journal,
and about nothing else. The events it adds are those of the answers, one for every command
whose execution is unknown; these commands are over, and none of them is handed over. -/
theorem interrupted_commands_accounted (W : World σ) (runtime : σ) (calls : List Call) {h h₀ h₁ : Host σ}
    {actions : RecoveryActions}
    (hdigest : Set.InjOn W.handle.commandDigest {e | ∃ call ∈ calls, e ∈ call.envelopes})
    (hrun : runCalls W calls { runtime } = some h) (hopen : (reopen W).exec h = some (.ok (),h₀))
    (hexec : (recoverForScheduler W).exec h₀ = some (.ok actions,h₁)) :
    ∃ resolved, resolved <+: actions.results ∧
      Accounts W (h₀.state.commands.filter (·.state == .dispatchStarted)) resolved h₀ h₁ ∧
      ∀ x ∈ h₀.state.commands, x.state = .dispatchStarted → h₁.state.Done x.commandId ∧
        (∀ c ∈ actions.commands, c.commandId ≠ x.commandId) ∧
        (x.commandId ∈ h₁.handed ↔ x.commandId ∈ h.handed) := by
  have hs := runCalls_sound (E := {e | ∃ call ∈ calls, e ∈ call.envelopes})
    (fun call hcall e he => ⟨call,hcall,he⟩) (Sound.init runtime) hrun
  have hs₀ := keeps_reopen.ok hs hopen
  obtain ⟨resolved,hfirst,hacc,hstarted⟩ := hs₀.accounted hdigest hexec
  refine ⟨resolved,hfirst,hacc,fun x hx hxs => ?_⟩
  rw [← reopen_handed hopen]
  exact hstarted x hx hxs

/-- An interrupted command gets the events of the answer about it. -/
theorem Accounts.emits {records : List CommandRecord} {results : List CommandProcessResult}
    (hacc : Accounts W records results h h') {result : CommandProcessResult} (hmem : result ∈ results) :
    ∃ outcome, result.outcome = some outcome ∧ result.emittedEvents.map (·.eventId) =
      derivedIds result.acknowledgement.commandId outcome 0 := by
  obtain ⟨i,hi,rfl⟩ := List.getElem_of_mem hmem
  have hcommand := congrArg (·[i]?) hacc.commands
  have houtcome := congrArg (·[i]?) hacc.outcomes
  have hemitted := congrArg (·[i]?) hacc.emitted
  simp only [List.getElem?_map,List.getElem?_eq_getElem hi,Option.map_some] at hcommand houtcome hemitted
  obtain ⟨outcome,hout,hsome⟩ := Option.map_eq_some_iff.mp houtcome.symm
  obtain ⟨record,hrecord,hid⟩ := Option.map_eq_some_iff.mp hcommand.symm
  rw [List.getElem?_zipWith,hrecord,hout] at hemitted
  exact ⟨outcome,hsome.symm,by rw [← hid]; exact Option.some.inj hemitted⟩

/-! ### A recovery that misses nothing -/

/-- A recovery for the scheduler from `h₀` to `h₁` is complete, seen beside its drain to `h₂` and the
recovery that runs the commands itself, to `h₃`. -/
structure Complete (W : World σ) (h₀ h₁ h₂ h₃ : Host σ) (actions : RecoveryActions) : Prop where
  /-- Each interrupted command has one result, by the answer of the runtime, with one event where the
  answer is that its execution is unknown. -/
  resolved : ∃ resolved, resolved <+: actions.results ∧
    Accounts W (h₀.state.commands.filter (·.state == .dispatchStarted)) resolved h₀ h₁ ∧
    ∀ result ∈ resolved, ∀ reason, result.outcome = some (.unknown reason) →
      result.emittedEvents.map (·.eventId) = [unknownEventId result.acknowledgement.commandId]
  settled : ∀ x ∈ h₀.state.commands, x.state = .dispatchStarted → h₁.state.Done x.commandId
  /-- The command that is next in its session once the interrupted ones are over. -/
  returned : ∀ x ∈ h₀.state.commands, h₀.state.comesUp (·.state != .received) x = true →
    recordToEnvelope x ∈ actions.commands
  agrees : ∀ id, id ∈ h₂.handed ↔ id ∈ h₃.handed

/-- After any run, with any persist failures, and a restart: below the last sequence the recovery for
the scheduler ends, and it is complete just when every session with work left is found and no cancel
stands where it would overtake a gap. -/
theorem recovery_complete_iff (W : World σ) (runtime : σ) (calls : List Call) {h h₀ : Host σ}
    (hdigest : Set.InjOn W.handle.commandDigest {e | ∃ call ∈ calls, e ∈ call.envelopes})
    (hrun : runCalls W calls { runtime } = some h) (hopen : (reopen W).exec h = some (.ok (),h₀)) :
    ((∀ call ∈ calls, ∀ e ∈ call.envelopes, e.serverCommandSeq < u64Max) →
      (recoverForScheduler W).exec h₀ ≠ none) ∧
    ∀ actions h₁ h₂ results h₃, (recoverForScheduler W).exec h₀ = some (.ok actions,h₁) →
      Drains W h₁ actions.commands h₂ → (recover W).exec h₀ = some (.ok results,h₃) →
      (Complete W h₀ h₁ h₂ h₃ actions ↔ h₀.state.Recoverable) := by
  have hs := runCalls_sound (E := {e | ∃ call ∈ calls, e ∈ call.envelopes})
    (fun call hcall e he => ⟨call,hcall,he⟩) (Sound.init runtime) hrun
  have hs₀ := keeps_reopen.ok hs hopen
  refine ⟨fun hseq => ?_,fun actions h₁ h₂ results h₃ hscheduled hdrain hdirect => ⟨fun hcomplete => ?_,?_⟩⟩
  · exact recoverForScheduler_returns hdigest hs₀
      (hs₀.room hdigest fun e he => he.elim fun call hcall => hseq call hcall.1 e hcall.2)
  · exact (hs₀.agree_iff hdigest hscheduled hdrain hdirect).mp hcomplete.agrees
  · intro hrecoverable
    obtain ⟨resolved,hfirst,hacc,hstarted⟩ := hs₀.accounted hdigest hscheduled
    obtain ⟨hm,hres⟩ := recoverForScheduler_resolved hdigest hs₀ hscheduled
    refine ⟨⟨resolved,hfirst,hacc,fun result hmem reason hunknown => ?_⟩,fun x hx hxs => (hstarted x hx hxs).1,
      fun x hx hcomes => ?_,(hs₀.agree_iff hdigest hscheduled hdrain hdirect).mpr hrecoverable⟩
    · obtain ⟨outcome,hout,hemits⟩ := hacc.emits hmem
      obtain rfl := Option.some.inj (hunknown.symm.trans hout)
      exact hemits
    · exact (hres.returned_iff hs₀ hdigest hx hcomes).mpr (hrecoverable.turns x hx hcomes)

end

theorem interruptedRun_accounted : ∃ h h₀ h₁ : Host Unit, ∃ actions : RecoveryActions,
    h₁.state.eventIds = ["execution-unknown-a"] ∧ h₁.handed = ["b","a"] ∧
    ∃ resolved, resolved <+: actions.results ∧
      Accounts calmWorld (h₀.state.commands.filter (·.state == .dispatchStarted)) resolved h₀ h₁ ∧
      ∀ x ∈ h₀.state.commands, x.state = .dispatchStarted → h₁.state.Done x.commandId ∧
        (∀ c ∈ actions.commands, c.commandId ≠ x.commandId) ∧
        (x.commandId ∈ h₁.handed ↔ x.commandId ∈ h.handed) := by
  have hall : ((runCalls calmWorld interruptedRun { runtime := () }).bind fun h =>
      ((reopen calmWorld).exec h).bind fun p => ((recoverForScheduler calmWorld).exec p.2).map fun q =>
        (p.1.isOk,q.1.isOk,q.2.state.eventIds,q.2.handed)) =
      some (true,true,["execution-unknown-a"],["b","a"]) := by decide +kernel
  obtain ⟨h,hrun,hall⟩ := Option.bind_eq_some_iff.mp hall
  obtain ⟨⟨r,h₀⟩,hopen,hall⟩ := Option.bind_eq_some_iff.mp hall
  obtain ⟨⟨r',h₁⟩,hexec,hall⟩ := Option.map_eq_some_iff.mp hall
  simp only [Prod.mk.injEq] at hall
  obtain ⟨hopened,hrecovered,hevents,hhanded⟩ := hall
  cases r with
  | error e => cases hopened
  | ok u =>
    cases r' with
    | error e => cases hrecovered
    | ok actions =>
      refine ⟨h,h₀,h₁,actions,hevents,hhanded,?_⟩
      exact interrupted_commands_accounted calmWorld () interruptedRun interruptedRun_digest hrun hopen
        hexec

theorem interruptedRun_complete : ∃ h₀ h₁ h₂ h₃ : Host Unit, ∃ actions : RecoveryActions,
    actions.commands = [resumeEnvelope 2 "b"] ∧ Complete calmWorld h₀ h₁ h₂ h₃ actions := by
  obtain ⟨h,h₀,h₁,h₂,h₃,actions,results,hrun,hopen,hscheduled,hdrain,hdirect,hcommands,-,-,hplain⟩ :=
    interruptedRun_runs
  have hrecoverable : h₀.state.Recoverable := by
    refine ⟨fun x hx _ => (hplain x hx).2,fun x hx hint => ?_⟩
    have hcancel := hint.2.1
    simp [(hplain x hx).1] at hcancel
  exact ⟨h₀,h₁,h₂,h₃,actions,hcommands,((recovery_complete_iff calmWorld () interruptedRun
    interruptedRun_digest hrun hopen).2 actions h₁ h₂ results h₃ hscheduled hdrain hdirect).mpr hrecoverable⟩

/-- The disk fails once, when the first command was to be marked as started. -/
def unmarkedWorld : World Unit :=
  { calmWorld with weather := fun tick =>
      (if tick = 1 then .lost "disk full" true else .done,fun _ => "1") }

/-- The command is known and was never started. Its session was never in the map, so the recovery for
the scheduler returns nothing, and only the one that goes over the records runs it. -/
theorem unmarked_not_complete : ∃ h h₀ h₁ h₃ : Host Unit, ∃ actions : RecoveryActions,
    ∃ results : List CommandProcessResult,
    runCalls unmarkedWorld [.acceptCommand (resumeEnvelope 1 "a")] { runtime := () } = some h ∧
    (reopen unmarkedWorld).exec h = some (.ok (),h₀) ∧
    (recoverForScheduler unmarkedWorld).exec h₀ = some (.ok actions,h₁) ∧
    Drains unmarkedWorld h₁ actions.commands h₁ ∧ (recover unmarkedWorld).exec h₀ = some (.ok results,h₃) ∧
    h₀.state.commands.map recordToEnvelope = [resumeEnvelope 1 "a"] ∧ actions.commands = [] ∧
    ¬ Complete unmarkedWorld h₀ h₁ h₁ h₃ actions := by
  have hall : ((runCalls unmarkedWorld [.acceptCommand (resumeEnvelope 1 "a")] { runtime := () }).bind fun h =>
      ((reopen unmarkedWorld).exec h).bind fun p => ((recoverForScheduler unmarkedWorld).exec p.2).bind fun q =>
        ((recover unmarkedWorld).exec p.2).map fun a => ([p.1.isOk,a.1.isOk],q.1.toOption.map (·.commands),
          p.2.state.commands.map recordToEnvelope,[q.2.handed,a.2.handed])) =
      some ([true,true],some [],[resumeEnvelope 1 "a"],[[],["a"]]) := by decide +kernel
  obtain ⟨h,hrun,hall⟩ := Option.bind_eq_some_iff.mp hall
  obtain ⟨⟨r,h₀⟩,hopen,hall⟩ := Option.bind_eq_some_iff.mp hall
  obtain ⟨⟨scheduled,h₁⟩,hscheduled,hall⟩ := Option.bind_eq_some_iff.mp hall
  obtain ⟨⟨direct,h₃⟩,hdirect,hall⟩ := Option.map_eq_some_iff.mp hall
  simp only [Prod.mk.injEq,List.cons.injEq,and_true] at hall
  obtain ⟨⟨hopened,hran⟩,hout,hknown,hhanded,hhanded'⟩ := hall
  cases r with
  | error e => cases hopened
  | ok u =>
  cases scheduled with
  | error e => cases hout
  | ok actions =>
  cases direct with
  | error e => cases hran
  | ok results =>
    have hcommands : actions.commands = [] := Option.some.inj hout
    refine ⟨h,h₀,h₁,h₃,actions,results,hrun,hopen,hscheduled,hcommands ▸ .idle h₁,hdirect,hknown,hcommands,
      fun hcomplete => ?_⟩
    have hsame := hcomplete.agrees "a"
    rw [hhanded,hhanded'] at hsame
    simp at hsame

end Journal
end North
