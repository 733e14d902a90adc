import North.JournalResults
import North.Lib.Keyed

/-! Which commands the journal lets go on, and when. A completion ends commands and brings
up the sequence that waits; the next command of the session is then released. -/
namespace North
namespace Journal

open Machine Protocol Prog

namespace CommandView

variable {v v' v'' : CommandView}

/-- Commands only come to an end: what is not Terminal was there before. -/
def Wanes (v v' : CommandView) : Prop := ∀ r ∈ v'.commands, r.state ≠ .terminal → r ∈ v.commands

theorem Wanes.refl (v : CommandView) : v.Wanes v := fun _ hr _ => hr

theorem Wanes.trans (h : v.Wanes v') (h' : v'.Wanes v'') : v.Wanes v'' :=
  fun r hr hopen => h r (h' r hr hopen) hopen

theorem wanes_of_eq (h : v' = v) : v.Wanes v' := h ▸ Wanes.refl v

end CommandView

variable {σ α : Type} {W : World σ} {E : Set CommandEnvelope} {h h' : Host σ} {J : Handle}
  {s s' : JournalFile}

theorem terminated_cases {commandId : String} {outcome : DispatchOutcome} {now : String}
    {r : CommandRecord} (hr : r ∈ (s.updateCommand commandId (terminate outcome now)).commands) :
    r ∈ s.commands ∨ ∃ r₀ ∈ s.commands, r₀.commandId = commandId ∧ r = terminate outcome now r₀ := by
  rcases Table.mem_updateFirst hr with hold | ⟨r₀,hfind,rfl⟩
  · exact .inl hold
  · obtain ⟨hmem,hid⟩ := Table.find?_key hfind
    exact .inr ⟨r₀,hmem,hid,rfl⟩

theorem finishCommand_wanes {commandId : String} {outcome : DispatchOutcome} {events : List Event}
    {now : Clock} {emitted : List EventEnvelope}
    (hfinish : finishCommand J commandId outcome events now s = some (.ok (emitted,s'))) :
    s.view.Wanes s'.view := by
  obtain ⟨r,cursor,-,-,rfl⟩ := finishCommand_cases hfinish
  intro x hx hopen
  rcases terminated_cases hx with hold | ⟨r₀,-,-,rfl⟩
  · exact hold
  · exact absurd rfl hopen

theorem compactSession_wanes (sessionId : String) : s.view.Wanes (compactSession J sessionId s).view :=
  fun _ hr _ => (List.mem_filter.mp hr).1

theorem finishCommand_passes {commandId : String} {outcome : DispatchOutcome} {events : List Event}
    {now : Clock} {emitted : List EventEnvelope}
    (hfinish : finishCommand J commandId outcome events now s = some (.ok (emitted,s')))
    {sessionId : String} {n : ℕ} (hlo : s.view.processed sessionId < n)
    (hhi : n ≤ s'.view.processed sessionId) :
    ∃ r ∈ s.commands, r.sessionId = sessionId ∧ r.serverCommandSeq = n ∧
      (r.state = .terminal ∨ r.commandId = commandId) := by
  obtain ⟨record,cursor,-,hadvance,rfl⟩ := finishCommand_cases hfinish
  simp only [JournalFile.view,JournalFile.session,OrdMap.get_modify] at hlo hhi
  split_ifs at hhi with hsession
  · subst hsession
    have hmark := Watermark.advance_marked hadvance n hlo hhi
    simp only [terminalIn,List.any_eq_true,Bool.and_eq_true,beq_iff_eq] at hmark
    obtain ⟨r,hr,⟨hrs,hrn⟩,hterm⟩ := hmark
    rcases terminated_cases hr with hold | ⟨r₀,hr₀,hid,rfl⟩
    · exact ⟨r,hold,hrs,hrn,.inl hterm⟩
    · exact ⟨r₀,hr₀,hrs,hrn,.inr hid⟩
  · exact absurd hhi (Nat.not_le.mpr hlo)

theorem finishCommand_ends {commandId : String} {outcome : DispatchOutcome} {events : List Event}
    {now : Clock} {emitted : List EventEnvelope}
    (hfinish : finishCommand J commandId outcome events now s = some (.ok (emitted,s'))) :
    ∀ r ∈ s'.commands, r.state = .terminal → ∃ r₀ ∈ s.commands, recordToEnvelope r₀ = recordToEnvelope r ∧
      (r₀.state = .terminal ∨ r₀.commandId = commandId) := by
  obtain ⟨record,cursor,-,-,rfl⟩ := finishCommand_cases hfinish
  intro r hr hterm
  rcases terminated_cases hr with hold | ⟨r₀,hr₀,hid,rfl⟩
  · exact ⟨r,hold,rfl,.inl hterm⟩
  · exact ⟨r₀,hr₀,rfl,.inr hid⟩

/-- From one view to a later one commands came to an end, all of them `ended` before, and
sessions went on past such commands only. -/
structure Completes (ended : CommandRecord → Prop) (v v' : CommandView) : Prop where
  wanes : v.Wanes v'
  ends : ∀ r ∈ v'.commands, r.state = .terminal → ∃ r₀ ∈ v.commands,
    recordToEnvelope r₀ = recordToEnvelope r ∧ ended r₀
  passes : ∀ sessionId n, v.processed sessionId < n → n ≤ v'.processed sessionId →
    ∃ r ∈ v.commands, r.sessionId = sessionId ∧ r.serverCommandSeq = n ∧ ended r

/-- The command itself, and what is Terminal already. -/
def endsWith (commandId : String) (r : CommandRecord) : Prop :=
  r.state = .terminal ∨ r.commandId = commandId

theorem Completes.refl {ended : CommandRecord → Prop} {v : CommandView}
    (hover : ∀ r ∈ v.commands, r.state = .terminal → ended r) : Completes ended v v where
  wanes := .refl v
  ends := fun r hr hterm => ⟨r,hr,rfl,hover r hr hterm⟩
  passes := fun _ _ hlo hhi => absurd hhi (Nat.not_le.mpr hlo)

theorem Completes.trans {ended ended' : CommandRecord → Prop} {v v' v'' : CommandView}
    (h : Completes ended v v') (h' : Completes ended' v' v'')
    (hover : ∀ r ∈ v'.commands, r.state ≠ .terminal → ended' r → ended r) : Completes ended v v'' := by
  have hback : ∀ r ∈ v'.commands, ended' r → ∃ r₀ ∈ v.commands,
      recordToEnvelope r₀ = recordToEnvelope r ∧ ended r₀ := by
    intro r hr hr'
    by_cases hterm : r.state = .terminal
    · exact h.ends r hr hterm
    · exact ⟨r,h.wanes r hr hterm,rfl,hover r hr hterm hr'⟩
  refine ⟨h.wanes.trans h'.wanes,fun r hr hterm => ?_,fun sessionId n hlo hhi => ?_⟩
  · obtain ⟨r₁,hr₁,hsame₁,hover₁⟩ := h'.ends r hr hterm
    obtain ⟨r₀,hr₀,hsame₀,hover₀⟩ := hback r₁ hr₁ hover₁
    exact ⟨r₀,hr₀,hsame₀.trans hsame₁,hover₀⟩
  · rcases Nat.lt_or_ge (v'.processed sessionId) n with hgt | hle
    · obtain ⟨r₁,hr₁,rfl,rfl,hover₁⟩ := h'.passes sessionId n hgt hhi
      obtain ⟨r₀,hr₀,hsame₀,hover₀⟩ := hback r₁ hr₁ hover₁
      exact ⟨r₀,hr₀,congrArg (·.sessionId) hsame₀,congrArg (·.serverCommandSeq) hsame₀,hover₀⟩
    · exact h.passes sessionId n hlo hle

theorem completeCommand_completes {commandId : String} {outcome : DispatchOutcome}
    {events : List Event} {emitted : List EventEnvelope}
    (hexec : (completeCommand W commandId outcome events).exec h = some (.ok emitted,h')) :
    Completes (endsWith commandId) h.state.view h'.state.view := by
  obtain ⟨record,now,s,-,hfinish,hsettled⟩ := completeCommand_ok hexec
  rw [hsettled.state]
  refine ⟨(finishCommand_wanes hfinish).trans (compactSession_wanes _),fun r hr hterm => ?_,
    fun sessionId n hlo hhi => finishCommand_passes hfinish hlo hhi⟩
  exact finishCommand_ends hfinish r (List.mem_filter.mp hr).1 hterm

theorem completeCommand_keys {commandId : String} {outcome : DispatchOutcome} {events : List Event}
    {emitted : List EventEnvelope}
    (hexec : (completeCommand W commandId outcome events).exec h = some (.ok emitted,h')) :
    ∃ record ∈ h.state.commands, record.commandId = commandId ∧ ∀ sessionId,
      sessionId ∈ h'.state.sessions.keys ↔
        sessionId = record.sessionId ∨ sessionId ∈ h.state.sessions.keys := by
  obtain ⟨record,now,s,hfind,hfinish,hsettled⟩ := completeCommand_ok hexec
  obtain ⟨hmem,hid⟩ := Table.find?_key hfind
  refine ⟨record,hmem,hid,fun sessionId => ?_⟩
  obtain ⟨record',cursor,hfind',-,rfl⟩ := finishCommand_cases hfinish
  obtain rfl := Option.some.inj (hfind.symm.trans hfind')
  rw [hsettled.state]
  simp only [compactSession]
  rw [← not_iff_not,← OrdMap.get_eq_none,OrdMap.get_modify]
  split_ifs with hsession
  · simp [hsession]
  · simp [hsession,OrdMap.get_eq_none]

/-- Recovery ends the started commands and no others. -/
theorem resolveStarted_completes {v : CommandView} {records : List CommandRecord}
    {results results' : List CommandProcessResult} (hids : v.DistinctIds)
    (hrecords : ∀ r ∈ records, r ∈ v.commands ∧ r.state = .dispatchStarted)
    (hsofar : Completes (·.state ≠ .received) v h.state.view)
    (hexec : (resolveStarted W records results).exec h = some (.ok results',h')) :
    Completes (·.state ≠ .received) v h'.state.view ∧ ∀ sessionId,
      sessionId ∈ h'.state.sessions.keys ↔
        (∃ r ∈ records, r.sessionId = sessionId) ∨ sessionId ∈ h.state.sessions.keys := by
  induction records generalizing results h with
  | nil =>
    obtain ⟨-,rfl⟩ : _ ∧ h = h' := by simpa [resolveStarted,exec_pure] using hexec
    exact ⟨hsofar,by simp⟩
  | cons record records ih =>
    obtain ⟨outcome,h₁,houtcome,hrest⟩ := bind_returns.mp hexec
    obtain ⟨emitted,h₂,hcomplete,hloop⟩ := bind_returns.mp hrest
    have hstate : h₁.state = h.state := by
      obtain ⟨answer,h₃,hcall,hpure⟩ := bind_returns.mp houtcome
      obtain ⟨-,rfl⟩ : _ ∧ h₃ = h₁ := by simpa [exec_pure] using hpure
      obtain ⟨-,rfl⟩ : _ ∧ _ = h₃ := by simpa [exec,callRuntime] using hcall
      rfl
    have hone := completeCommand_completes hcomplete
    obtain ⟨found,hfound,hfoundId,hkeys⟩ := completeCommand_keys hcomplete
    rw [hstate] at hone hfound hkeys
    obtain ⟨hrecord,hstarted⟩ := hrecords record (by simp)
    have hstep : Completes (·.state ≠ .received) v h₂.state.view := by
      refine hsofar.trans hone fun r hr hopen hover => ?_
      -- an open record with the id of a started one is that one
      have hid := hover.resolve_left hopen
      obtain rfl := List.inj_on_of_nodup_map hids.commands (hsofar.wanes r hr hopen) hrecord hid
      simp [hstarted]
    have hsession : found.sessionId = record.sessionId := by
      by_cases hterm : found.state = .terminal
      · obtain ⟨r₀,hr₀,hsame,-⟩ := hsofar.ends found hfound hterm
        have hid : r₀.commandId = record.commandId := (congrArg (·.commandId) hsame).trans hfoundId
        obtain rfl := List.inj_on_of_nodup_map hids.commands hr₀ hrecord hid
        exact (congrArg (·.sessionId) hsame).symm
      · obtain rfl := List.inj_on_of_nodup_map hids.commands (hsofar.wanes found hfound hterm) hrecord hfoundId
        rfl
    obtain ⟨hall,hallKeys⟩ := ih (fun r hr => hrecords r (List.mem_cons_of_mem _ hr)) hstep hloop
    refine ⟨hall,fun sessionId => ?_⟩
    rw [hallKeys,hkeys,hsession]
    simp only [List.mem_cons,exists_eq_or_imp,eq_comm (a := sessionId)]
    exact or_left_comm.trans or_assoc.symm

theorem acceptNextReadyCommand_cases {sessionId : String} {a : Option CommandAcceptance}
    (hs : Sound W E h) (hexec : (acceptNextReadyCommand W sessionId).exec h = some (.ok a,h')) :
    (a.bind (·.command) = none ∧ h'.state = h.state) ∨
      ∃ x ∈ h.state.commands, ∃ now : String, x.state = .received ∧ x.sessionId = sessionId ∧
        x.serverCommandSeq = h.state.view.expected sessionId ∧
        a.bind (·.command) = some (recordToEnvelope x) ∧
        h'.state.view = h.state.view.update x.commandId (startRecord now) := by
  rcases acceptNextReadyCommand_ok hexec with ⟨-,rfl,rfl⟩ | ⟨e,accepted,hnext,rfl,haccept⟩
  · exact .inl ⟨rfl,rfl⟩
  obtain ⟨x,hfind,rfl⟩ := Option.map_eq_some_iff.mp hnext
  have hx := List.mem_of_find?_eq_some hfind
  have hready := List.find?_some hfind
  simp only [Bool.and_eq_true,beq_iff_eq,JournalFile.expectedCommandSequence_eq] at hready
  obtain ⟨⟨hsession,hseq⟩,hstate⟩ := hready
  have hlive := Table.find?_key_of_mem hs.distinctIds.commands hx
  obtain ⟨-,now,p,s,hprepare,hcase⟩ := acceptCommandWithControl_ok haccept
  have hsame : s = h.state ∧ (p.record.state = .received → p.record = x) := by
    obtain ⟨-,⟨hfound,hs',-⟩ | ⟨hs',hterm⟩ | ⟨hnew,-⟩⟩ := prepareCommand_cases hprepare
    · exact ⟨hs',fun _ => Option.some.inj (hfound.symm.trans hlive)⟩
    · exact ⟨hs',fun hreceived => by simp [hterm] at hreceived⟩
    · exact absurd rfl (hnew x hx)
  obtain ⟨rfl,hrecord⟩ := hsame
  rcases hcase with ⟨hnone,hsettled,-⟩ | ⟨now',s',hsome,hreceived,-,hmark,hsettled⟩
  · exact .inl ⟨hnone,hsettled.state⟩
  · obtain rfl := hrecord hreceived
    rcases markDispatchStarted_cases hmark with ⟨hfalse,-⟩ | ⟨-,r,-,-,hview⟩
    · cases hfalse
    · exact .inr ⟨p.record,hx,now' 0,hstate,hsession,hseq,hsome,by rw [hsettled.state,hview]⟩

end Journal
end North
