import North.JournalLoops
import North.RecoverySweep

/-! The two recoveries side by side. After any run and a restart, the commands that get to
run when the scheduler drains a recovery are those that the other recovery runs itself,
just when every session is found and no cancel overtakes a gap. -/
namespace North
namespace Journal

open Machine Protocol Prog CommandView

section

variable {σ : Type} {W : World σ} {E : Set CommandEnvelope} {h₀ h h' : Host σ}

/-- The recovery for the scheduler: the started commands are resolved first, and then the
sessions of the map, among them those of the started commands, have their turn. -/
structure Resolved (W : World σ) (E : Set CommandEnvelope) (h₀ h₁ h' : Host σ)
    (commands : List CommandEnvelope) : Prop where
  middle : Recovering W E h₀ (h₀.state.gapless · = true) h₁
  idle : h₁.Idle
  quiet : h₁.handed = h₀.handed
  completes : Completes (·.state ≠ .received) h₀.state.view h₁.state.view
  final : Recovering W E h₀ (h₀.state.gapless · = true) h'
  turns : Turns h₁ h' h₁.state.sessions.keys commands
  found : ∀ x : CommandRecord, x.sessionId ∈ h₁.state.sessions.keys ↔ h₀.state.recoverable x = true

theorem recoverForScheduler_resolved {actions : RecoveryActions}
    (hdigest : Set.InjOn W.handle.commandDigest E) (hs₀ : Sound W E h₀)
    (hexec : (recoverForScheduler W).exec h₀ = some (.ok actions,h')) :
    ∃ h₁, Resolved W E h₀ h₁ h' actions.commands := by
  obtain ⟨records,h₁,hlook,hrest⟩ := bind_returns.mp hexec
  obtain ⟨rfl,rfl⟩ : _ = records ∧ h₀ = h₁ := by simpa [exec_look] using hlook
  obtain ⟨results,h₂,hresolve,hrest⟩ := bind_returns.mp hrest
  obtain ⟨sessionIds,h₃,hlook',hloop⟩ := bind_returns.mp hrest
  obtain ⟨rfl,rfl⟩ : _ = sessionIds ∧ h₂ = h₃ := by simpa [exec_look] using hlook'
  have hstart : Resolving W E h₀ (h₀.state.gapless · = true) _ h₀ := .init hs₀
  obtain ⟨hresolved,hquiet⟩ := resolveStarted_recovering hdigest hstart hresolve
  have hmiddle := hresolved.recovering
  have hidle : h₂.Idle := fun r hr hrs => by simpa using hresolved.all r hr hrs
  obtain ⟨hcompletes,hkeys⟩ := resolveStarted_completes hs₀.distinctIds hstart.live
    (.refl fun r _ hterm => by simp [hterm]) hresolve
  obtain ⟨hfinal,commands,hcommands,hturns⟩ := acceptReadySessions_turns hdigest (fun _ hx => hx) hmiddle hloop
  rw [List.nil_append] at hcommands
  refine ⟨h₂,hmiddle,hidle,hquiet,hcompletes,hfinal,hcommands ▸ hturns,fun x => ?_⟩
  rw [hkeys]
  simp only [JournalFile.recoverable,Bool.or_eq_true,List.any_eq_true,Bool.and_eq_true,beq_iff_eq,
    List.mem_filter,OrdMap.contains,Option.isSome_iff_ne_none,ne_eq,OrdMap.get_eq_none,not_not]
  constructor
  · rintro (⟨r,⟨hr,hrs⟩,hsession⟩ | hkey)
    · exact .inr ⟨r,hr,hsession,hrs⟩
    · exact .inl hkey
  · rintro (hkey | ⟨r,hr,hsession,hrs⟩)
    · exact .inr hkey
    · exact .inl ⟨r,⟨hr,hrs⟩,hsession⟩

namespace Resolved

variable {h₁ h₂ : Host σ} {commands : List CommandEnvelope}

/-- What comes up is handed over just when its session is found. -/
theorem returned_iff (hres : Resolved W E h₀ h₁ h' commands) (hs₀ : Sound W E h₀)
    (hdigest : Set.InjOn W.handle.commandDigest E) {x : CommandRecord} (hx : x ∈ h₀.state.commands)
    (hcomes : h₀.state.comesUp (·.state != .received) x = true) :
    recordToEnvelope x ∈ commands ↔ h₀.state.recoverable x = true := by
  have hreceived := (JournalFile.comesUp_iff.mp hcomes).1
  constructor
  · exact fun hmem => (hres.found x).mp (hres.turns.sessions _ hmem)
  · intro hfound
    have hlive := hres.middle.untouched x hx hreceived (hres.quiet ▸ hs₀.unhanded hx hreceived)
    refine hres.turns.released hlive hreceived ((hres.found x).mpr hfound) ?_
    refine hres.middle.next (hres.middle.sound.inOrder hdigest) hres.idle hlive
      (hs₀.genuine x hx).positive hcomes fun y hy hyr _ _ r hr hsame hended => ?_
    have hyr₀ := hres.middle.proceeds.received y hy hyr
    obtain rfl := List.inj_on_of_nodup_map hs₀.distinctIds.commands hyr₀ hr (congrArg (·.commandId) hsame)
    simp [hyr] at hended

theorem busy (hres : Resolved W E h₀ h₁ h' commands)
    (hturns : ∀ x ∈ h₀.state.commands, h₀.state.comesUp (·.state != .received) x = true →
      h₀.state.recoverable x = true) : Busy h₀ h' commands := by
  refine ⟨fun c hc => ?_,fun c hc => (hres.turns.handed _).mpr (.inl (List.mem_map_of_mem hc)),
    fun r hr hrs => ?_,fun id => ?_⟩
  · obtain ⟨r,hr,rfl⟩ := hres.turns.known c hc
    exact hres.middle.proceeds.back r hr
  · exact (hres.turns.started r hr hrs).resolve_left fun hold => hres.idle r hold hrs
  · by_cases hid : id ∈ h₁.state.sessions.keys
    · exact hres.turns.clear id hid
    · rintro x hx hreceived rfl hseq
      have hlive := hres.turns.received x hx hreceived
      have hx₀ := hres.middle.proceeds.received x hlive hreceived
      have hcomes : h₀.state.comesUp (·.state != .received) x = true := by
        refine JournalFile.comesUp_iff.mpr ⟨hreceived,fun n hlo hhi => ?_⟩
        rw [CommandView.expected,hres.turns.stays,saturatingSucc] at hseq
        obtain ⟨r,hr,hsession,hn,hended⟩ := hres.completes.passes x.sessionId n hlo (by omega)
        exact ⟨r,hr,hsession,hn,by simpa using hended⟩
      exact hid ((hres.found x).mpr (hturns x hx₀ hcomes))

/-- Drained, a recovery that finds every session has handed over what has nothing missing
before it, and no more. -/
theorem drained (hres : Resolved W E h₀ h₁ h' commands) (hs₀ : Sound W E h₀)
    (hdigest : Set.InjOn W.handle.commandDigest E)
    (hturns : ∀ x ∈ h₀.state.commands, h₀.state.comesUp (·.state != .received) x = true →
      h₀.state.recoverable x = true) (hdrain : Drains W h' commands h₂) :
    Recovering W E h₀ (h₀.state.gapless · = true) h₂ ∧
      ∀ x ∈ h₀.state.commands, h₀.state.gapless x = true → x.commandId ∈ h₂.handed := by
  obtain ⟨hr,hbusy⟩ := hdrain.recovering hdigest hres.final hs₀ (hres.busy hturns)
  refine ⟨hr,fun x hx hgapless => ?_⟩
  refine hr.reaches hs₀ (hr.sound.inOrder hdigest) (fun r hr hrs => ?_) hx hgapless (hbusy.clear _)
  simpa using hbusy.started r hr hrs

end Resolved

/-! ### Both recoveries return -/

/-- No session holds every sequence above its boundary. -/
def JournalFile.Room (s : JournalFile) : Prop :=
  ∀ id, ∃ n ≤ u64Max, s.view.processed id < n ∧ ¬ s.view.Holds id n

theorem not_closes {s s' : JournalFile} (hroom : s.Room) (hproceeds : s.view.Proceeds s'.view)
    (commandId : String) : ¬ ClosesProcessed s' commandId := by
  rintro ⟨r,hfind,-,hfull⟩
  obtain ⟨n,hn,hlo,hfree⟩ := hroom r.sessionId
  rcases Nat.lt_or_ge (s'.view.processed r.sessionId) n with hlt | hle
  · have hmark := hfull n hlt hn
    simp only [Bool.or_eq_true,beq_iff_eq] at hmark
    refine hfree (hproceeds.holds ?_)
    rcases hmark with hterm | rfl
    · obtain ⟨y,hy,hplace,-⟩ := (terminalIn_iff _ _ _).mp hterm
      exact ⟨y,hy,congrArg Prod.fst hplace,congrArg Prod.snd hplace⟩
    · exact ⟨r,List.mem_of_find?_eq_some hfind,rfl,rfl⟩
  · exact hfree (hproceeds.passes _ n hlo hle)

theorem total_callRuntime {β : Type} (f : σ → β × σ) : Total (callRuntime f : Op σ β) := by
  intro h
  simp [exec,callRuntime]

theorem total_recoverOutcome (record : CommandRecord) : Total (recoverOutcome W record) :=
  total_bind (total_callRuntime _) fun _ => total_pure _

theorem total_acceptReadySessions (sessionIds : List String) (actions : RecoveryActions) :
    Total (acceptReadySessions W sessionIds actions) := by
  induction sessionIds generalizing actions with
  | nil => exact total_pure actions
  | cons sessionId sessionIds ih =>
    refine total_bind (total_acceptNextReadyCommand sessionId) fun accepted => ?_
    cases accepted with
    | none => exact ih _
    | some a => exact total_bind (total_noteAcceptance a) fun _ => ih _

theorem processCommand_returns {x : CommandRecord} (hroom : h₀.state.Room) (hs : Sound W E h)
    (hproceeds : h₀.state.view.Proceeds h.state.view) (hx : x ∈ h.state.commands)
    (hreceived : x.state = .received) : (processCommand W (recordToEnvelope x)).exec h ≠ none := by
  intro hnone
  rcases bind_never.mp hnone with hfirst | ⟨accepted,h₁,haccept,hrest⟩
  · rw [Coordinator.intake_eq] at hfirst
    exact total_acceptCommandWithControl _ _ h hfirst
  rw [Coordinator.intake_eq] at haccept
  obtain ⟨-,⟨hcommand,-⟩ | ⟨hsome,-,hstarts⟩⟩ := acceptCommandWithControl_live hs hx hreceived haccept
  · simp [hcommand,exec_pure] at hrest
  simp only [hsome] at hrest
  rcases bind_never.mp hrest with hnote | ⟨u,h₂,hnote,hrest⟩
  · exact total_modify _ _ hnote
  rcases bind_never.mp hrest with hcall | ⟨outcome,h₃,hcall,hrest⟩
  · exact total_callRuntime _ _ hcall
  rcases bind_never.mp hrest with hcall' | ⟨events,h₄,hcall',hrest⟩
  · exact total_callRuntime _ _ hcall'
  obtain rfl := (Prod.mk.inj (Option.some.inj hnote)).2
  obtain rfl := (Prod.mk.inj (Option.some.inj hcall)).2
  obtain rfl := (Prod.mk.inj (Option.some.inj hcall')).2
  rw [bind_never_of_total fun _ => total_bind (total_compactSessionOp _) fun _ => total_pure _] at hrest
  have hcloses := finishCommand_none_iff.mp (update_none_iff.mp hrest)
  exact not_closes hroom (hproceeds.trans hstarts.toProceeds) _ hcloses

theorem resolveStarted_returns {allowed : CommandRecord → Prop} {records : List CommandRecord}
    {results : List CommandProcessResult} (hdigest : Set.InjOn W.handle.commandDigest E)
    (hroom : h₀.state.Room) (hr : Resolving W E h₀ allowed records h) :
    (resolveStarted W records results).exec h ≠ none := by
  induction records generalizing results h with
  | nil => exact total_pure _ h
  | cons record records ih =>
    intro hnone
    rcases bind_never.mp hnone with hfirst | ⟨outcome,h₁,houtcome,hrest⟩
    · exact total_recoverOutcome record h hfirst
    rcases bind_never.mp hrest with hfirst | ⟨emitted,h₂,hcomplete,hloop⟩
    · obtain ⟨answer,h₃,hcall,hpure⟩ := bind_returns.mp houtcome
      obtain ⟨-,rfl⟩ : _ ∧ h₃ = h₁ := by simpa [exec_pure] using hpure
      obtain rfl := (Prod.mk.inj (Option.some.inj hcall)).2
      have hcloses := completeCommand_never_iff.mp hfirst
      exact not_closes hroom hr.recovering.proceeds _ hcloses
    · exact ih (hr.turn hdigest houtcome hcomplete).1 hloop

theorem recoverForScheduler_returns (hdigest : Set.InjOn W.handle.commandDigest E) (hs₀ : Sound W E h₀)
    (hroom : h₀.state.Room) : (recoverForScheduler W).exec h₀ ≠ none := by
  intro hnone
  rcases bind_never.mp hnone with hfirst | ⟨records,h₁,hlook,hrest⟩
  · exact total_look _ h₀ hfirst
  obtain ⟨rfl,rfl⟩ : _ = records ∧ h₀ = h₁ := by simpa [exec_look] using hlook
  rcases bind_never.mp hrest with hfirst | ⟨results,h₂,-,hrest⟩
  · have hinit : Resolving W E h₀ (fun _ => True) _ h₀ := .init hs₀
    exact resolveStarted_returns hdigest hroom hinit hfirst
  · exact total_bind (total_look _) (fun _ => total_acceptReadySessions _ _) h₂ hrest

/-- The Received commands of a host, as a measure of what its loops have left to do. -/
def Host.left (h : Host σ) : List String :=
  (h.state.commands.filter (·.state == .received)).map (·.commandId)

/-- One command less is left when one that was Received has ended. -/
theorem left_lt {x : CommandRecord} (hs' : Sound W E h') (hx : x ∈ h.state.commands)
    (hreceived : x.state = .received) (hends : h.state.view.Ends x h'.state.view) :
    h'.left.length < h.left.length := by
  have hmem : ∀ {k : Host σ} {id : String}, id ∈ k.left ↔
      ∃ r ∈ k.state.commands, r.state = .received ∧ r.commandId = id := by
    intro k id
    simp [Host.left,and_assoc]
  have hnodup : (x.commandId::h'.left).Nodup := by
    refine List.nodup_cons.mpr ⟨fun hin => ?_,hs'.distinctIds.commands.sublist (List.filter_sublist.map _)⟩
    obtain ⟨r,hr,hrs,hid⟩ := hmem.mp hin
    simp [hends.ended r hr hid] at hrs
  have hsub : x.commandId::h'.left ⊆ h.left := by
    intro id hid
    rcases List.mem_cons.mp hid with rfl | hid
    · exact hmem.mpr ⟨x,hx,hreceived,rfl⟩
    · obtain ⟨r,hr,hrs,rfl⟩ := hmem.mp hid
      exact hmem.mpr ⟨r,hends.received r hr hrs,hrs,rfl⟩
  exact (List.subperm_of_subset hnodup hsub).length_le

theorem processReadyLoop_returns {allowed : CommandRecord → Prop} {sessionId : String} {fuel : ℕ}
    {results : List CommandProcessResult} (hdigest : Set.InjOn W.handle.commandDigest E)
    (hallowed : ∀ x, h₀.state.gapless x = true → allowed x) (hroom : h₀.state.Room)
    (hr : Recovering W E h₀ allowed h) (hidle : h.Idle) (hfuel : h.left.length < fuel) :
    (processReadyLoop W sessionId fuel results).exec h ≠ none := by
  induction fuel generalizing results h with
  | zero => omega
  | succ fuel ih =>
    intro hnone
    rcases bind_never.mp hnone with hfirst | ⟨next,h₁,hlook,hrest⟩
    · exact total_look _ h hfirst
    obtain ⟨rfl,rfl⟩ : _ = next ∧ h = h₁ := by simpa [exec_look] using hlook
    cases hnext : nextReady h.state sessionId with
    | none => simp [hnext,exec_pure] at hrest
    | some command =>
      simp only [hnext] at hrest
      rcases bind_never.mp hrest with hfirst | ⟨result,h₁,hprocess,hloop⟩
      · obtain ⟨x,hfind,rfl⟩ := Option.map_eq_some_iff.mp hnext
        have hready := List.find?_some hfind
        simp only [Bool.and_eq_true,beq_iff_eq] at hready
        exact processCommand_returns hroom hr.sound hr.proceeds (List.mem_of_find?_eq_some hfind)
          hready.2 hfirst
      · obtain ⟨hr₁,hidle₁,x,hx,hreceived,-,-,hends⟩ := ready_turn hdigest hallowed hr hidle hnext hprocess
        exact ih hr₁ hidle₁ (by have := left_lt hr₁.sound hx hreceived hends; omega) hloop

theorem processReadySessions_returns {allowed : CommandRecord → Prop} {sessionIds : List String}
    {results : List CommandProcessResult} (hdigest : Set.InjOn W.handle.commandDigest E)
    (hallowed : ∀ x, h₀.state.gapless x = true → allowed x) (hroom : h₀.state.Room)
    (hr : Recovering W E h₀ allowed h) (hidle : h.Idle) :
    (processReadySessions W sessionIds results).exec h ≠ none := by
  induction sessionIds generalizing results h with
  | nil => exact total_pure _ h
  | cons sessionId sessionIds ih =>
    intro hnone
    rcases bind_never.mp hnone with hfirst | ⟨ready,h₁,hready,hrest⟩
    · rcases bind_never.mp hfirst with hlook | ⟨fuel,h₂,hlook,hloop⟩
      · exact total_look _ h hlook
      obtain ⟨rfl,rfl⟩ : _ = fuel ∧ h = h₂ := by simpa [exec_look] using hlook
      refine processReadyLoop_returns hdigest hallowed hroom hr hidle ?_ hloop
      rw [Host.left,List.length_map]
      exact Nat.lt_succ_of_le (List.length_filter_le _ _)
    · obtain ⟨fuel,h₂,hlook,hloop⟩ := bind_returns.mp hready
      obtain ⟨-,rfl⟩ : _ ∧ h = h₂ := by simpa [exec_look] using hlook
      obtain ⟨hr₁,hidle₁,-⟩ := processReadyLoop_caughtUp hdigest hallowed hr hidle hloop
      exact ih hr₁ hidle₁ hrest

theorem recoverRecords_returns {before rest : List CommandRecord} {results : List CommandProcessResult}
    (hdigest : Set.InjOn W.handle.commandDigest E) (hs₀ : Sound W E h₀) (hroom : h₀.state.Room)
    (hw : Sweeping W E h₀ before rest h) : (recoverRecords W rest results).exec h ≠ none := by
  induction rest generalizing before results h with
  | nil => exact total_pure _ h
  | cons x rest ih =>
    intro hnone
    unfold recoverRecords at hnone
    split_ifs at hnone with hreceived
    · rcases bind_never.mp hnone with hfirst | ⟨result,h₁,hprocess,hloop⟩
      · exact processCommand_returns hroom hw.recovering.sound hw.recovering.proceeds
          (hw.live x (by simp)) hreceived hfirst
      · exact ih (hw.process hs₀ hdigest hreceived hprocess) hloop
    · rcases bind_never.mp hnone with hfirst | ⟨outcome,h₁,houtcome,hrest⟩
      · exact total_recoverOutcome x h hfirst
      rcases bind_never.mp hrest with hfirst | ⟨emitted,h₂,hfinish,hrest⟩
      · obtain ⟨answer,h₃,hcall,hpure⟩ := bind_returns.mp houtcome
        obtain ⟨-,rfl⟩ : _ ∧ h₃ = h₁ := by simpa [exec_pure] using hpure
        obtain rfl := (Prod.mk.inj (Option.some.inj hcall)).2
        have hcloses := finishCommand_none_iff.mp (update_none_iff.mp hfirst)
        exact not_closes hroom hw.recovering.proceeds _ hcloses
      rcases bind_never.mp hrest with hfirst | ⟨u,h₃,hcompact,hloop⟩
      · exact total_compactSessionOp _ _ hfirst
      · exact ih (hw.resolve hs₀ hdigest hreceived houtcome hfinish hcompact) hloop

theorem recover_returns (hdigest : Set.InjOn W.handle.commandDigest E) (hs₀ : Sound W E h₀)
    (hroom : h₀.state.Room) : (recover W).exec h₀ ≠ none := by
  intro hnone
  rcases bind_never.mp hnone with hfirst | ⟨records,h₁,hlook,hrest⟩
  · exact total_look _ h₀ hfirst
  obtain ⟨rfl,rfl⟩ : _ = records ∧ h₀ = h₁ := by simpa [exec_look] using hlook
  rcases bind_never.mp hrest with hfirst | ⟨results,h₂,hrecords,hrest⟩
  · exact recoverRecords_returns hdigest hs₀ hroom (.init hs₀) hfirst
  rcases bind_never.mp hrest with hfirst | ⟨sessionIds,h₃,hlook',hloop⟩
  · exact total_look _ h₂ hfirst
  obtain ⟨-,rfl⟩ : _ ∧ h₂ = h₃ := by simpa [exec_look] using hlook'
  have hw := recoverRecords_sweeps hdigest hs₀ (.init hs₀) hrecords
  exact processReadySessions_returns hdigest (fun _ hx => .inl hx) hroom hw.recovering
    (fun r hr hrs => by simpa using hw.started r hr hrs) hloop

theorem Sound.room (hdigest : Set.InjOn W.handle.commandDigest E)
    (hseq : ∀ e ∈ E, e.serverCommandSeq < u64Max) (hs : Sound W E h) : h.state.Room := by
  refine fun id => ⟨u64Max,le_rfl,(hs.inOrder hdigest).bound id,?_⟩
  rintro ⟨r,hr,-,hlast⟩
  exact absurd hlast (hseq _ (hs.genuine r hr).known).ne

/-- After any run without the last sequence, with any persist failures, and a restart,
neither recovery goes on for ever. -/
theorem recoveries_return (W : World σ) (runtime : σ) (calls : List Call) {h h₀ : Host σ}
    (hdigest : Set.InjOn W.handle.commandDigest {e | ∃ call ∈ calls, e ∈ call.envelopes})
    (hseq : ∀ call ∈ calls, ∀ e ∈ call.envelopes, e.serverCommandSeq < u64Max)
    (hrun : runCalls W calls { runtime } = some h) (hopen : (reopen W).exec h = some (.ok (),h₀)) :
    (recoverForScheduler W).exec h₀ ≠ none ∧ (recover W).exec h₀ ≠ none := by
  have hs := runCalls_sound (E := {e | ∃ call ∈ calls, e ∈ call.envelopes})
    (fun call hcall e he => ⟨call,hcall,he⟩) (Sound.init runtime) hrun
  have hs₀ := keeps_reopen.ok hs hopen
  have hroom := hs₀.room hdigest fun e he => he.elim fun call hcall => hseq call hcall.1 e hcall.2
  exact ⟨recoverForScheduler_returns hdigest hs₀ hroom,recover_returns hdigest hs₀ hroom⟩

/-! ### Which commands the two hand over -/

theorem Drains.stays {out : List CommandEnvelope} {sessionIds : List String}
    (hdigest : Set.InjOn W.handle.commandDigest E) (hdrain : Drains W h out h') (hs : Sound W E h)
    (hout : ∀ c ∈ out, c.sessionId ∈ sessionIds) :
    ∀ id ∈ h'.handed, id ∈ h.handed ∨ ∃ c ∈ h.state.view.envelopes, c.commandId = id ∧
      c.sessionId ∈ sessionIds := by
  induction hdrain with
  | idle h => exact fun _ hid => .inl hid
  | @finish h h₃ h' before after command outcome events actions hexec hrest ih =>
    have hs₃ : Sound W E h₃ := Coordinator.finishRuntime_sound hs hexec
    obtain ⟨emitted,h₁,next,h₂,hcomplete,hnext,hcommands,rfl⟩ := Coordinator.finishRuntime_ok hexec
    have hs₁ : Sound W E h₁ := (keeps_completeCommand _ _ _).ok hs hcomplete
    obtain ⟨hhanded,x,-,-,hends⟩ := completeCommand_closes hs (hs.inOrder hdigest) hcomplete
    have hinit : Recovering W E h₁ (fun _ => True) h₁ := .init hs₁
    obtain ⟨hr,ht⟩ := acceptNextReadyCommand_turns hdigest (fun _ _ => trivial) hinit hnext
    rw [← hcommands] at hr ht
    have hsession : command.sessionId ∈ sessionIds := hout command (by simp)
    have hback : ∀ c ∈ h₁.state.view.envelopes, c ∈ h.state.view.envelopes := by
      rintro _ ⟨r,hr,rfl⟩
      exact hends.back r hr
    have hout₃ : ∀ c ∈ before ++ after ++ actions.commands, c.sessionId ∈ sessionIds := by
      intro c hc
      rcases List.mem_append.mp hc with hc | hc
      · refine hout c ?_
        simp only [List.mem_append,List.mem_cons] at hc ⊢
        tauto
      · rw [List.mem_singleton.mp (ht.sessions c hc)]
        exact hsession
    intro id hid
    rcases ih hs₃ hout₃ id hid with hid | ⟨c,hc,hcid,hin⟩
    · rcases (ht.handed id).mp hid with hnew | hold
      · obtain ⟨c,hc,rfl⟩ := List.mem_map.mp hnew
        refine .inr ⟨c,hback c (ht.known c hc),rfl,?_⟩
        rw [List.mem_singleton.mp (ht.sessions c hc)]
        exact hsession
      · exact .inl (hhanded ▸ hold)
    · obtain ⟨r,hr,rfl⟩ := hc
      exact .inr ⟨_,hback _ (ht.back r hr),hcid,hin⟩

theorem Resolved.handed_found {h₁ h₂ : Host σ} {commands : List CommandEnvelope}
    (hres : Resolved W E h₀ h₁ h' commands) (hs₀ : Sound W E h₀)
    (hdigest : Set.InjOn W.handle.commandDigest E) (hdrain : Drains W h' commands h₂)
    {x : CommandRecord} (hx : x ∈ h₀.state.commands) (hreceived : x.state = .received)
    (hhanded : x.commandId ∈ h₂.handed) : h₀.state.recoverable x = true := by
  have hfound : ∀ c ∈ h₀.state.view.envelopes, c.commandId = x.commandId →
      c.sessionId ∈ h₁.state.sessions.keys → h₀.state.recoverable x = true := by
    rintro _ ⟨r,hr,rfl⟩ hid hsession
    obtain rfl := List.inj_on_of_nodup_map hs₀.distinctIds.commands hr hx hid
    exact (hres.found r).mp hsession
  have hback : ∀ c ∈ h'.state.view.envelopes, c ∈ h₀.state.view.envelopes := by
    rintro _ ⟨r,hr,rfl⟩
    exact hres.final.proceeds.back r hr
  rcases hdrain.stays hdigest hres.final.sound hres.turns.sessions _ hhanded with hid | ⟨c,hc,hcid,hin⟩
  · rcases (hres.turns.handed _).mp hid with hnew | hold
    · obtain ⟨c,hc,hcid⟩ := List.mem_map.mp hnew
      obtain ⟨r,hr,rfl⟩ := hres.turns.known c hc
      exact hfound _ (hres.middle.proceeds.back r hr) hcid (hres.turns.sessions _ hc)
    · exact absurd (hres.quiet ▸ hold) (hs₀.unhanded hx hreceived)
  · exact hfound c (hback c hc) hcid hin

/-- From a sound host, the two recoveries hand over the same commands just when every session with
work left is found and no cancel stands where it would overtake a gap. -/
theorem Sound.agree_iff {h₁ h₂ h₃ : Host σ} {actions : RecoveryActions} {results : List CommandProcessResult}
    (hdigest : Set.InjOn W.handle.commandDigest E) (hs₀ : Sound W E h₀)
    (hscheduled : (recoverForScheduler W).exec h₀ = some (.ok actions,h₁))
    (hdrain : Drains W h₁ actions.commands h₂) (hdirect : (recover W).exec h₀ = some (.ok results,h₃)) :
    (∀ id, id ∈ h₂.handed ↔ id ∈ h₃.handed) ↔ h₀.state.Recoverable := by
  obtain ⟨hr₃,hreach₃⟩ := recover_reaches hdigest hs₀ hdirect
  obtain ⟨hm,hres⟩ := recoverForScheduler_resolved hdigest hs₀ hscheduled
  have hgapless : ∀ x, h₀.state.comesUp (·.state != .received) x = true → h₀.state.gapless x = true := by
    intro x hcomes
    obtain ⟨hreceived,hheld⟩ := JournalFile.comesUp_iff.mp hcomes
    refine JournalFile.comesUp_iff.mpr ⟨hreceived,fun n hlo hhi => ?_⟩
    obtain ⟨r,hr,hsession,hseq,-⟩ := hheld n hlo hhi
    exact ⟨r,hr,hsession,hseq,rfl⟩
  constructor
  · intro hsame
    have hturns : ∀ x ∈ h₀.state.commands, h₀.state.comesUp (·.state != .received) x = true →
        h₀.state.recoverable x = true := fun x hx hcomes =>
      hres.handed_found hs₀ hdigest hdrain hx (JournalFile.comesUp_iff.mp hcomes).1
        ((hsame _).mpr (hreach₃ x hx (.inl (hgapless x hcomes))))
    refine ⟨hturns,fun x hx hint => ?_⟩
    obtain ⟨hr₂,-⟩ := hres.drained hs₀ hdigest hturns hdrain
    have hmem := (hsame _).mpr (hreach₃ x hx (.inr hint))
    obtain ⟨y,hy,hid,hgap⟩ := (hr₂.ours _ hmem).resolve_left (hs₀.unhanded hx hint.1)
    rwa [← List.inj_on_of_nodup_map hs₀.distinctIds.commands hy hx hid]
  · intro hrecoverable id
    obtain ⟨hr₂,hreach₂⟩ := hres.drained hs₀ hdigest hrecoverable.turns hdrain
    constructor
    · intro hid
      rcases hr₂.ours id hid with hold | ⟨x,hx,rfl,hgap⟩
      · exact hr₃.handed hold
      · exact hreach₃ x hx (.inl hgap)
    · intro hid
      rcases hr₃.ours id hid with hold | ⟨x,hx,rfl,hsweeps⟩
      · exact hr₂.handed hold
      · exact hreach₂ x hx (hsweeps.elim id fun hint => hrecoverable.cancels x hx hint)

/-- After any run, with any persist failures, and a restart: a recovery that lets the
scheduler run the commands, drained in any order, and one that runs them itself hand over
the same commands just when every session with work left is found and no cancel stands
where it would overtake a gap. -/
theorem recoveries_agree_iff (W : World σ) (runtime : σ) (calls : List Call) {h h₀ h₁ h₂ h₃ : Host σ}
    {actions : RecoveryActions} {results : List CommandProcessResult}
    (hdigest : Set.InjOn W.handle.commandDigest {e | ∃ call ∈ calls, e ∈ call.envelopes})
    (hrun : runCalls W calls { runtime } = some h) (hopen : (reopen W).exec h = some (.ok (),h₀))
    (hscheduled : (recoverForScheduler W).exec h₀ = some (.ok actions,h₁))
    (hdrain : Drains W h₁ actions.commands h₂) (hdirect : (recover W).exec h₀ = some (.ok results,h₃)) :
    (∀ id, id ∈ h₂.handed ↔ id ∈ h₃.handed) ↔ h₀.state.Recoverable := by
  have hs := runCalls_sound (E := {e | ∃ call ∈ calls, e ∈ call.envelopes})
    (fun call hcall e he => ⟨call,hcall,he⟩) (Sound.init runtime) hrun
  have hs₀ := keeps_reopen.ok hs hopen
  exact hs₀.agree_iff hdigest hscheduled hdrain hdirect

end

/-- The daemon stops while a command runs and the next one waits behind it. -/
def interruptedRun : List Call :=
  [.acceptCommand (resumeEnvelope 1 "a"),.acceptCommand (resumeEnvelope 2 "b")]

theorem interruptedRun_digest :
    Set.InjOn calmWorld.handle.commandDigest {e | ∃ call ∈ interruptedRun, e ∈ call.envelopes} := by
  have hdistinct : ∀ e ∈ interruptedRun.flatMap Call.envelopes,
      ∀ e' ∈ interruptedRun.flatMap Call.envelopes,
      calmWorld.handle.commandDigest e = calmWorld.handle.commandDigest e' → e = e' := by
    decide +kernel
  exact fun e he e' he' heq => hdistinct e (List.mem_flatMap.mpr he) e' (List.mem_flatMap.mpr he') heq

theorem interruptedRun_recovers : ∃ h h₀ : Host Unit,
    runCalls calmWorld interruptedRun { runtime := () } = some h ∧
    (reopen calmWorld).exec h = some (.ok (),h₀) ∧
    (recoverForScheduler calmWorld).exec h₀ ≠ none ∧ (recover calmWorld).exec h₀ ≠ none := by
  have hall : ((runCalls calmWorld interruptedRun { runtime := () }).bind fun h =>
      ((reopen calmWorld).exec h).map (·.1.isOk)) = some true := by decide +kernel
  obtain ⟨h,hrun,hall⟩ := Option.bind_eq_some_iff.mp hall
  obtain ⟨⟨r,h₀⟩,hopen,hopened⟩ := Option.map_eq_some_iff.mp hall
  cases r with
  | error e => cases hopened
  | ok u =>
    exact ⟨h,h₀,hrun,hopen,recoveries_return calmWorld () interruptedRun interruptedRun_digest
      (by decide +kernel) hrun hopen⟩

theorem interruptedRun_runs : ∃ h h₀ h₁ h₂ h₃ : Host Unit, ∃ actions : RecoveryActions,
    ∃ results : List CommandProcessResult,
    runCalls calmWorld interruptedRun { runtime := () } = some h ∧
    (reopen calmWorld).exec h = some (.ok (),h₀) ∧
    (recoverForScheduler calmWorld).exec h₀ = some (.ok actions,h₁) ∧
    Drains calmWorld h₁ actions.commands h₂ ∧ (recover calmWorld).exec h₀ = some (.ok results,h₃) ∧
    actions.commands = [resumeEnvelope 2 "b"] ∧ h₂.handed = ["b","a"] ∧ h₃.handed = ["b","a"] ∧
    ∀ x ∈ h₀.state.commands, x.command.isSessionCancel = false ∧ h₀.state.recoverable x = true := by
  have hall : ((runCalls calmWorld interruptedRun { runtime := () }).bind fun h =>
      ((reopen calmWorld).exec h).bind fun p => ((recoverForScheduler calmWorld).exec p.2).bind fun q =>
        ((Coordinator.finishRuntime calmWorld "session-1" "b" .dispatchSucceeded []).exec q.2).bind fun d =>
          ((recover calmWorld).exec p.2).map fun a =>
            ([p.1.isOk,a.1.isOk,p.2.state.commands.all fun x => !x.command.isSessionCancel &&
                p.2.state.recoverable x],[q.1.toOption.map (·.commands),d.1.toOption.map (·.commands)],
              [d.2.handed,a.2.handed])) =
      some ([true,true,true],[some [resumeEnvelope 2 "b"],some []],[["b","a"],["b","a"]]) := by
    decide +kernel
  obtain ⟨h,hrun,hall⟩ := Option.bind_eq_some_iff.mp hall
  obtain ⟨⟨r,h₀⟩,hopen,hall⟩ := Option.bind_eq_some_iff.mp hall
  obtain ⟨⟨scheduled,h₁⟩,hscheduled,hall⟩ := Option.bind_eq_some_iff.mp hall
  obtain ⟨⟨finished,h₂⟩,hfinish,hall⟩ := Option.bind_eq_some_iff.mp hall
  obtain ⟨⟨direct,h₃⟩,hdirect,hall⟩ := Option.map_eq_some_iff.mp hall
  simp only [Prod.mk.injEq,List.cons.injEq,and_true,List.all_eq_true,Bool.and_eq_true,Bool.not_eq_true'] at hall
  obtain ⟨⟨hopened,hran,hplain⟩,⟨hout,hdone⟩,⟨hhanded,hhanded'⟩⟩ := hall
  cases r with
  | error e => cases hopened
  | ok u =>
  cases scheduled with
  | error e => cases hout
  | ok actions =>
  cases finished with
  | error e => cases hdone
  | ok released =>
  cases direct with
  | error e => cases hran
  | ok results =>
    have hcommands : actions.commands = [resumeEnvelope 2 "b"] := Option.some.inj hout
    have hreleased : released.commands = [] := Option.some.inj hdone
    have hdrain : Drains calmWorld h₁ actions.commands h₂ := by
      rw [hcommands]
      refine @Drains.finish _ _ h₁ _ h₂ [] [] _ _ _ released hfinish ?_
      rw [hreleased]
      exact .idle h₂
    exact ⟨h,h₀,h₁,h₂,h₃,actions,results,hrun,hopen,hscheduled,hdrain,hdirect,hcommands,hhanded,hhanded',hplain⟩

theorem interruptedRun_agrees : ∃ h₀ h₂ h₃ : Host Unit,
    h₂.handed = ["b","a"] ∧ h₃.handed = ["b","a"] ∧ h₀.state.Recoverable := by
  obtain ⟨h,h₀,h₁,h₂,h₃,actions,results,hrun,hopen,hscheduled,hdrain,hdirect,-,hhanded,hhanded',-⟩ :=
    interruptedRun_runs
  refine ⟨h₀,h₂,h₃,hhanded,hhanded',?_⟩
  exact (recoveries_agree_iff calmWorld () interruptedRun interruptedRun_digest hrun hopen
    hscheduled hdrain hdirect).mp fun id => by rw [hhanded,hhanded']

end Journal
end North
