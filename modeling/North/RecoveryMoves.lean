import North.JournalIntake
import North.JournalReleases

/-! What the operations of a recovery do to the commands. None is received there: commands
start and end, and a session goes past the sequences it holds. -/
namespace North
namespace Journal

open Machine Protocol Prog

namespace CommandView

variable {v v' v'' : CommandView}

/-- Some live record of the session has this sequence. -/
def Holds (v : CommandView) (sessionId : String) (seq : ℕ) : Prop :=
  ∃ r ∈ v.commands, r.sessionId = sessionId ∧ r.serverCommandSeq = seq

/-- The commands of the later view are those of the earlier one, further on: what is
Received was so before, and what is gone was passed by its session. -/
structure Proceeds (v v' : CommandView) : Prop where
  back : ∀ r ∈ v'.commands, ∃ r₀ ∈ v.commands, recordToEnvelope r₀ = recordToEnvelope r
  received : ∀ r ∈ v'.commands, r.state = .received → r ∈ v.commands
  onward : ∀ id, v.processed id ≤ v'.processed id
  passes : ∀ id n, v.processed id < n → n ≤ v'.processed id → v.Holds id n
  kept : ∀ r ∈ v.commands, r.serverCommandSeq ≤ v'.processed r.sessionId ∨
    ∃ r' ∈ v'.commands, recordToEnvelope r' = recordToEnvelope r

theorem Proceeds.refl (v : CommandView) : v.Proceeds v where
  back := fun r hr => ⟨r,hr,rfl⟩
  received := fun _ hr _ => hr
  onward := fun _ => le_rfl
  passes := fun _ _ hlo hhi => absurd hhi (Nat.not_le.mpr hlo)
  kept := fun r hr => .inr ⟨r,hr,rfl⟩

theorem Proceeds.holds (h : v.Proceeds v') {id : String} {n : ℕ} (hn : v'.Holds id n) : v.Holds id n := by
  obtain ⟨r,hr,rfl,rfl⟩ := hn
  obtain ⟨r₀,hr₀,hsame⟩ := h.back r hr
  exact ⟨r₀,hr₀,congrArg (·.sessionId) hsame,congrArg (·.serverCommandSeq) hsame⟩

theorem Proceeds.trans (h : v.Proceeds v') (h' : v'.Proceeds v'') : v.Proceeds v'' := by
  refine ⟨fun r hr => ?_,fun r hr hreceived => h.received r (h'.received r hr hreceived) hreceived,
    fun id => (h.onward id).trans (h'.onward id),fun id n hlo hhi => ?_,fun r hr => ?_⟩
  · obtain ⟨r₁,hr₁,hsame₁⟩ := h'.back r hr
    obtain ⟨r₀,hr₀,hsame₀⟩ := h.back r₁ hr₁
    exact ⟨r₀,hr₀,hsame₀.trans hsame₁⟩
  · rcases Nat.lt_or_ge (v'.processed id) n with hgt | hle
    · exact h.holds (h'.passes id n hgt hhi)
    · exact h.passes id n hlo hle
  · rcases h.kept r hr with hle | ⟨r₁,hr₁,hsame₁⟩
    · exact .inl (hle.trans (h'.onward _))
    · rcases h'.kept r₁ hr₁ with hle | ⟨r₂,hr₂,hsame₂⟩
      · have hsession : r₁.sessionId = r.sessionId := congrArg (·.sessionId) hsame₁
        have hseq : r₁.serverCommandSeq = r.serverCommandSeq := congrArg (·.serverCommandSeq) hsame₁
        exact .inl (by rwa [hsession,hseq] at hle)
      · exact .inr ⟨r₂,hr₂,hsame₂.trans hsame₁⟩

/-- The operation on one command: the others stay, and so do the other sessions. -/
structure Touches (x : CommandRecord) (v v' : CommandView) : Prop extends v.Proceeds v' where
  others : ∀ r ∈ v.commands, r.commandId ≠ x.commandId → r.state ≠ .terminal → r ∈ v'.commands
  started : ∀ r ∈ v'.commands, r.state = .dispatchStarted → r.commandId ≠ x.commandId → r ∈ v.commands
  elsewhere : ∀ id, id ≠ x.sessionId → v'.processed id = v.processed id

theorem Touches.trans {x : CommandRecord} (h : v.Touches x v') (h' : v'.Touches x v'') : v.Touches x v'' where
  toProceeds := h.toProceeds.trans h'.toProceeds
  others := fun r hr hid hopen => h'.others r (h.others r hr hid hopen) hid hopen
  started := fun r hr hstarted hid => h.started r (h'.started r hr hstarted hid) hstarted hid
  elsewhere := fun id hid => (h'.elsewhere id hid).trans (h.elsewhere id hid)

structure Starts (x : CommandRecord) (v v' : CommandView) : Prop extends v.Touches x v' where
  waits : ∀ r ∈ v'.commands, r.state = .received → r.commandId ≠ x.commandId
  stays : v'.processed = v.processed

structure Ends (x : CommandRecord) (v v' : CommandView) : Prop extends v.Touches x v' where
  ended : ∀ r ∈ v'.commands, r.commandId = x.commandId → r.state = .terminal

theorem Ends.after {x x' : CommandRecord} (h : v'.Ends x' v'') (hid : x'.commandId = x.commandId)
    (hsession : x'.sessionId = x.sessionId) (hx : v.Touches x v') : v.Ends x v'' where
  toTouches := hx.trans ⟨h.toProceeds,fun r hr hne => h.others r hr (hid ▸ hne),
    fun r hr hstarted hne => h.started r hr hstarted (hid ▸ hne),fun id hne => h.elsewhere id (hsession ▸ hne)⟩
  ended := fun r hr hrid => h.ended r hr (hrid.trans hid.symm)

theorem starts_update (hids : v.DistinctIds) {x : CommandRecord} (hx : x ∈ v.commands)
    (hstate : x.state = .received) (now : String) :
    v.Starts x (v.update x.commandId (startRecord now)) := by
  have honly : ∀ r ∈ v.commands, r.commandId = x.commandId → r = x :=
    fun r hr hid => List.inj_on_of_nodup_map hids.commands hr hx hid
  have hcommands := update_eq_map hids x.commandId (startRecord now)
  have hcases : ∀ r ∈ (v.update x.commandId (startRecord now)).commands,
      (r ∈ v.commands ∧ r.commandId ≠ x.commandId) ∨ r = startRecord now x := by
    intro r hr
    rw [hcommands] at hr
    obtain ⟨y,hy,rfl⟩ := List.mem_map.mp hr
    by_cases hid : y.commandId = x.commandId
    · rw [if_pos hid,honly y hy hid]
      exact .inr rfl
    · rw [if_neg hid]
      exact .inl ⟨hy,hid⟩
  have hothers : ∀ r ∈ v.commands, r.commandId ≠ x.commandId →
      r ∈ (v.update x.commandId (startRecord now)).commands := by
    intro r hr hid
    rw [hcommands]
    exact List.mem_map.mpr ⟨r,hr,if_neg hid⟩
  refine ⟨⟨⟨fun r hr => ?_,fun r hr hreceived => ?_,fun _ => le_rfl,
    fun _ _ hlo hhi => absurd hhi (Nat.not_le.mpr hlo),fun r hr => ?_⟩,fun r hr hid _ => hothers r hr hid,
    fun r hr hstarted hid => ?_,fun _ _ => rfl⟩,fun r hr hreceived => ?_,rfl⟩
  · rcases hcases r hr with ⟨hold,-⟩ | rfl
    · exact ⟨r,hold,rfl⟩
    · exact ⟨x,hx,rfl⟩
  · rcases hcases r hr with ⟨hold,-⟩ | rfl
    · exact hold
    · cases hreceived
  · by_cases hid : r.commandId = x.commandId
    · obtain rfl := honly r hr hid
      refine .inr ⟨startRecord now r,?_,rfl⟩
      rw [hcommands]
      exact List.mem_map.mpr ⟨r,hr,if_pos rfl⟩
    · exact .inr ⟨r,hothers r hr hid,rfl⟩
  · rcases hcases r hr with ⟨hold,-⟩ | rfl
    · exact hold
    · exact absurd rfl hid
  · rcases hcases r hr with ⟨-,hid⟩ | rfl
    · exact hid
    · cases hreceived

theorem Ends.passed {x : CommandRecord} (h : v.Ends x v') (horder : v'.InOrder) (hx : x ∈ v.commands)
    (hseq : x.serverCommandSeq ≤ v.processed x.sessionId+1) :
    x.serverCommandSeq ≤ v'.processed x.sessionId := by
  rcases h.kept x hx with hle | ⟨r,hr,hsame⟩
  · exact hle
  by_contra hlt
  have hsession : r.sessionId = x.sessionId := congrArg (·.sessionId) hsame
  have hplace : r.serverCommandSeq = v'.processed x.sessionId+1 := by
    have hn : r.serverCommandSeq = x.serverCommandSeq := congrArg (·.serverCommandSeq) hsame
    have hon := h.onward x.sessionId
    omega
  have hover := h.ended r hr (congrArg (·.commandId) hsame)
  exact (horder.watermark x.sessionId).next (.inl ⟨r,hr,hsession,hplace,hover⟩)

end CommandView

section

variable {J : Handle} {s s' : JournalFile}

open CommandView

theorem prepareCommand_live {e : CommandEnvelope} {digest : String} {m : Option String} {now : Clock}
    {p : Prepared} {x : CommandRecord}
    (hlive : s.commands.find? (fun r => decide (r.commandId = e.commandId)) = some x)
    (h : prepareCommand J e digest m now s = .ok (p,s')) :
    p = ⟨x,true,decide (s.view.expected e.sessionId < x.serverCommandSeq)⟩ ∧ s' = s := by
  unfold prepareCommand at h
  cases hid : validateCommandIdentity s J.daemonId e digest m with
  | error err => simp [hid,bind,Except.bind] at h
  | ok u =>
    simp only [hid,bind,Except.bind,hlive,JournalFile.expectedCommandSequence_eq,pure,Except.pure,
      Except.ok.injEq,Prod.mk.injEq] at h
    exact ⟨h.1.symm,h.2.symm⟩

/-- A finish and the compaction after it end the command. -/
theorem finishCommand_closes {x : CommandRecord} {outcome : DispatchOutcome} {events : List Event}
    {now : Clock} {emitted : List EventEnvelope} (hids : s.view.DistinctIds)
    (hbound : s.view.processed x.sessionId < u64Max) (hx : x ∈ s.commands)
    (hfinish : finishCommand J x.commandId outcome events now s = some (.ok (emitted,s'))) :
    s.view.Ends x (compactSession J x.sessionId s').view := by
  have honly : ∀ r ∈ s.commands, r.commandId = x.commandId → r = x :=
    fun r hr hid => List.inj_on_of_nodup_map hids.commands hr hx hid
  have hpasses := fun id n => @finishCommand_passes J s s' x.commandId outcome events now emitted hfinish id n
  obtain ⟨r₀,cursor,hfind,hadvance,hs'⟩ := finishCommand_cases hfinish
  obtain rfl := honly r₀ (List.mem_of_find?_eq_some hfind) (Table.find?_key hfind).2
  have hcommands : s'.commands = s.commands.map fun r =>
      if r.commandId = r₀.commandId then terminate outcome (now 0) r else r := by
    rw [hs']
    exact CommandView.update_eq_map hids r₀.commandId (terminate outcome (now 0))
  have hcases : ∀ r ∈ s'.commands, (r ∈ s.commands ∧ r.commandId ≠ r₀.commandId) ∨
      r = terminate outcome (now 0) r₀ := by
    intro r hr
    rw [hcommands] at hr
    obtain ⟨y,hy,rfl⟩ := List.mem_map.mp hr
    by_cases hid : y.commandId = r₀.commandId
    · rw [if_pos hid,honly y hy hid]
      exact .inr rfl
    · rw [if_neg hid]
      exact .inl ⟨hy,hid⟩
  have hothers : ∀ r ∈ s.commands, r.commandId ≠ r₀.commandId → r ∈ s'.commands := by
    intro r hr hid
    rw [hcommands]
    exact List.mem_map.mpr ⟨r,hr,if_neg hid⟩
  -- a record of the finish is compacted only below the boundary
  have hleft : ∀ r ∈ s'.commands, r ∈ (compactSession J r₀.sessionId s').commands ∨
      (r.state = .terminal ∧ r.serverCommandSeq ≤ s'.view.processed r.sessionId) := by
    intro r hr
    by_cases hc : compactableCommand r₀.sessionId (s'.session r₀.sessionId).processedThroughSeq r = true
    · have hc' := hc
      simp only [compactableCommand,Bool.and_eq_true,beq_iff_eq,decide_eq_true_eq] at hc'
      obtain ⟨⟨hsession,hterm⟩,hle⟩ := hc'
      exact .inr ⟨hterm,by rwa [hsession]⟩
    · exact .inl (List.mem_filter.mpr ⟨hr,by simpa using hc⟩)
  have hprocessed : s'.view.processed = Function.update s.view.processed r₀.sessionId cursor := by
    funext id
    simp only [hs',JournalFile.view,JournalFile.session,OrdMap.get_modify,Function.update_apply]
    split_ifs <;> rfl
  have hsub : ∀ r ∈ (compactSession J r₀.sessionId s').commands, r ∈ s'.commands :=
    fun r hr => List.mem_of_mem_filter hr
  refine ⟨⟨⟨fun r hr => ?_,fun r hr hreceived => ?_,fun id => ?_,fun id n hlo hhi => ?_,fun r hr => ?_⟩,
    fun r hr hid hopen => ?_,fun r hr hstarted _ => ?_,fun id hid => ?_⟩,fun r hr hid => ?_⟩
  · rcases hcases r (hsub r hr) with ⟨hold,-⟩ | rfl
    · exact ⟨r,hold,rfl⟩
    · exact ⟨r₀,hx,rfl⟩
  · rcases hcases r (hsub r hr) with ⟨hold,-⟩ | rfl
    · exact hold
    · cases hreceived
  · change s.view.processed id ≤ s'.view.processed id
    rw [hprocessed,Function.update_apply]
    split_ifs with hid
    · rw [hid]
      exact (Watermark.advance_spec hbound hadvance).1
    · exact le_rfl
  · obtain ⟨r,hr,hsession,hseq,-⟩ := hpasses id n hlo hhi
    exact ⟨r,hr,hsession,hseq⟩
  · by_cases hid : r.commandId = r₀.commandId
    · obtain rfl := honly r hr hid
      have hmem : terminate outcome (now 0) r ∈ s'.commands := by
        rw [hcommands]
        exact List.mem_map.mpr ⟨r,hr,if_pos rfl⟩
      rcases hleft _ hmem with hstays | ⟨-,hle⟩
      · exact .inr ⟨_,hstays,rfl⟩
      · exact .inl hle
    · rcases hleft r (hothers r hr hid) with hstays | ⟨-,hle⟩
      · exact .inr ⟨r,hstays,rfl⟩
      · exact .inl hle
  · exact (hleft r (hothers r hr hid)).resolve_right fun hgone => hopen hgone.1
  · rcases hcases r (hsub r hr) with ⟨hold,-⟩ | rfl
    · exact hold
    · cases hstarted
  · change s'.view.processed id = s.view.processed id
    rw [hprocessed,Function.update_of_ne hid]
  · rcases hcases r (hsub r hr) with ⟨-,hne⟩ | rfl
    · exact absurd hid hne
    · rfl

end

section

variable {σ : Type} {W : World σ} {E : Set CommandEnvelope} {h h' : Host σ}

open CommandView

/-- A started command runs, or a cancel may overtake one of its session. -/
def JournalFile.overtakes (s : JournalFile) (x : CommandRecord) : Bool :=
  x.command.isSessionCancel && hasPriorDispatchStarted (recordToEnvelope x) s

/-- An acceptance of a live Received command starts it, unless it has to wait. -/
theorem acceptCommandWithControl_live {x : CommandRecord} {allow : Bool} {a : CommandAcceptance}
    (hs : Sound W E h) (hx : x ∈ h.state.commands) (hreceived : x.state = .received)
    (hexec : (acceptCommandWithControl W (recordToEnvelope x) allow).exec h = some (.ok a,h')) :
    h'.handed = h.handed ∧
      ((a.command = none ∧ h'.state.view = h.state.view ∧
          h.state.view.expected x.sessionId < x.serverCommandSeq ∧
          ¬ (allow && h.state.overtakes x) = true) ∨
        (a.command = some (recordToEnvelope x) ∧
          (x.serverCommandSeq ≤ h.state.view.expected x.sessionId ∨
            (allow && h.state.overtakes x) = true) ∧
          h.state.view.Starts x h'.state.view)) := by
  have hlive := Table.find?_key_of_mem hs.distinctIds.commands hx
  obtain ⟨-,now,p,s,hprepare,hcase⟩ := acceptCommandWithControl_ok hexec
  obtain ⟨rfl,rfl⟩ := prepareCommand_live hlive hprepare
  have hover : (allow && (recordToEnvelope x).command.isSessionCancel &&
      decide (h.state.view.expected x.sessionId < x.serverCommandSeq) &&
        hasPriorDispatchStarted (recordToEnvelope x) h.state) =
      ((allow && h.state.overtakes x) &&
        decide (h.state.view.expected x.sessionId < x.serverCommandSeq)) := by
    simp only [JournalFile.overtakes,recordToEnvelope]
    ac_rfl
  rcases hcase with ⟨hnone,hsettled,hwait⟩ | ⟨now',s',hsome,-,hgo,hmark,hsettled⟩
  · refine ⟨hsettled.handed,.inl ⟨hnone,by rw [hsettled.state],?_⟩⟩
    rcases hwait with hwait | ⟨hbuffered,hwait⟩ | ⟨now',hmark⟩
    · exact absurd hreceived hwait
    · have hlt : h.state.view.expected x.sessionId < x.serverCommandSeq := of_decide_eq_true hbuffered
      refine ⟨hlt,fun hallow => hwait ?_⟩
      refine Eq.trans hover ?_
      simp [hallow,hlt]
    · have hlive' : h.state.commands.find? (fun r => decide (r.commandId = x.commandId)) = some x := hlive
      simp [markDispatchStarted,hlive',hreceived] at hmark
  · rcases markDispatchStarted_cases hmark with ⟨hfalse,-⟩ | ⟨-,r,-,-,hview⟩
    · cases hfalse
    refine ⟨hsettled.handed,.inr ⟨hsome,?_,?_⟩⟩
    · rcases Nat.lt_or_ge (h.state.view.expected x.sessionId) x.serverCommandSeq with hlt | hle
      · have hcontrol := hover.symm.trans (hgo (decide_eq_true hlt))
        exact .inr (Bool.and_eq_true_iff.mp hcontrol).1
      · exact .inl hle
    · rw [hsettled.state,hview]
      exact starts_update hs.distinctIds hx hreceived (now' 0)

/-- No Received command is next in the session. -/
def CommandView.Clear (v : CommandView) (sessionId : String) : Prop :=
  ∀ x ∈ v.commands, x.state = .received → x.sessionId = sessionId →
    x.serverCommandSeq ≠ v.expected sessionId

theorem acceptNextReadyCommand_starts {sessionId : String} {a : Option CommandAcceptance}
    (hs : Sound W E h) (horder : h.state.view.InOrder)
    (hexec : (acceptNextReadyCommand W sessionId).exec h = some (.ok a,h')) :
    h'.handed = h.handed ∧
      ((a.bind (·.command) = none ∧ h'.state.view = h.state.view ∧ h.state.view.Clear sessionId) ∨
        ∃ x ∈ h.state.commands, x.state = .received ∧ x.sessionId = sessionId ∧
          x.serverCommandSeq = h.state.view.expected sessionId ∧
          a.bind (·.command) = some (recordToEnvelope x) ∧ h.state.view.Starts x h'.state.view ∧
          h'.state.view.Clear sessionId) := by
  rcases acceptNextReadyCommand_ok hexec with ⟨hnone,rfl,rfl⟩ | ⟨e,accepted,hnext,rfl,haccept⟩
  · refine ⟨rfl,.inl ⟨rfl,rfl,fun x hx hreceived hsession hseq => ?_⟩⟩
    have hfind := List.find?_eq_none.mp (Option.map_eq_none_iff.mp hnone) x hx
    simp [hsession,hreceived,hseq,JournalFile.expectedCommandSequence_eq] at hfind
  obtain ⟨x,hfind,rfl⟩ := Option.map_eq_some_iff.mp hnext
  have hx := List.mem_of_find?_eq_some hfind
  have hready := List.find?_some hfind
  simp only [Bool.and_eq_true,beq_iff_eq,JournalFile.expectedCommandSequence_eq] at hready
  obtain ⟨⟨hsession,hseq⟩,hreceived⟩ := hready
  obtain ⟨hhanded,⟨-,-,hlt,-⟩ | ⟨hsome,-,hstarts⟩⟩ := acceptCommandWithControl_live hs hx hreceived haccept
  · rw [hsession,hseq] at hlt
    exact absurd hlt (lt_irrefl _)
  refine ⟨hhanded,.inr ⟨x,hx,hreceived,hsession,hseq,hsome,hstarts,fun y hy hyr hys hyn => ?_⟩⟩
  -- another Received command at the same place would be this one
  have hyold := hstarts.received y hy hyr
  rw [CommandView.expected,hstarts.stays] at hyn
  have hplace : y.place = x.place := Prod.ext (hys.trans hsession.symm) (hyn.trans hseq.symm)
  obtain rfl := List.inj_on_of_nodup_map (List.nodup_append'.mp horder.distinct).1 hyold hx hplace
  exact hstarts.waits y hy hyr rfl

theorem finish_closes {x : CommandRecord} {commandId sessionId : String} {outcome : DispatchOutcome}
    {events : List Event} {emitted : List EventEnvelope} {u : Unit} {h₁ : Host σ}
    (hfinish : (finishCommandOp W commandId outcome events).exec h = some (.ok emitted,h₁))
    (hcompact : (compactSessionOp W sessionId).exec h₁ = some (.ok u,h'))
    (hids : h.state.view.DistinctIds) (hbound : h.state.view.processed x.sessionId < u64Max)
    (hx : x ∈ h.state.commands) (hid : x.commandId = commandId) (hsession : x.sessionId = sessionId) :
    h'.handed = h.handed ∧ h.state.view.Ends x h'.state.view := by
  subst hid hsession
  obtain ⟨s,hsection,hsettled⟩ := update_ok hfinish
  obtain ⟨s',hsection',hsettled'⟩ := update_ok hcompact
  obtain rfl : compactSession W.handle x.sessionId s = s' := by
    rw [← hsettled.state]
    exact (Prod.mk.inj (Except.ok.inj (Option.some.inj hsection'))).2
  have hall := hsettled.trans hsettled'
  refine ⟨hall.handed,?_⟩
  rw [hall.state]
  exact finishCommand_closes hids hbound hx hsection

theorem completeCommand_closes {commandId : String} {outcome : DispatchOutcome} {events : List Event}
    {emitted : List EventEnvelope} (hs : Sound W E h) (horder : h.state.view.InOrder)
    (hexec : (completeCommand W commandId outcome events).exec h = some (.ok emitted,h')) :
    h'.handed = h.handed ∧ ∃ x ∈ h.state.commands, x.commandId = commandId ∧
      h.state.view.Ends x h'.state.view := by
  obtain ⟨x,now,s,hfind,hfinish,hsettled⟩ := completeCommand_ok hexec
  obtain ⟨hx,rfl⟩ := Table.find?_key hfind
  refine ⟨hsettled.handed,x,hx,rfl,?_⟩
  rw [hsettled.state]
  exact finishCommand_closes hs.distinctIds (horder.bound _) hx hfinish

/-- A live Received command that is processed starts and ends, unless it has to wait. -/
theorem processCommand_live {x : CommandRecord} {result : CommandProcessResult} (hs : Sound W E h)
    (horder : h.state.view.InOrder) (hx : x ∈ h.state.commands) (hreceived : x.state = .received)
    (hexec : (processCommand W (recordToEnvelope x)).exec h = some (.ok result,h')) :
    (h'.handed = h.handed ∧ h'.state.view = h.state.view ∧
        h.state.view.expected x.sessionId < x.serverCommandSeq ∧ h.state.overtakes x = false) ∨
      (h'.handed = x.commandId::h.handed ∧
        (x.serverCommandSeq ≤ h.state.view.expected x.sessionId ∨ h.state.overtakes x = true) ∧
        h.state.view.Ends x h'.state.view) := by
  have hallow : (x.command.isSessionCancel && h.state.overtakes x) = h.state.overtakes x := by
    simp [JournalFile.overtakes]
  obtain ⟨accepted,h₁,haccept,hrest⟩ := bind_returns.mp hexec
  rw [Coordinator.intake_eq] at haccept
  have hs₁ := ((acceptCommandWithControl_sound (hs.genuine x hx).known _).ok hs haccept).1
  obtain ⟨hhanded,⟨hnone,hview,hlt,hwait⟩ | ⟨hsome,hmay,hstarts⟩⟩ :=
    acceptCommandWithControl_live hs hx hreceived haccept
  · simp only [hnone] at hrest
    obtain ⟨-,rfl⟩ : _ ∧ h₁ = h' := by simpa [exec_pure] using hrest
    change ¬ (x.command.isSessionCancel && h.state.overtakes x) = true at hwait
    rw [hallow] at hwait
    exact .inl ⟨hhanded,hview,hlt,by simpa using hwait⟩
  · change _ ∨ (x.command.isSessionCancel && h.state.overtakes x) = true at hmay
    rw [hallow] at hmay
    simp only [hsome] at hrest
    obtain ⟨u,h₂,hnote,hrest⟩ := bind_returns.mp hrest
    obtain ⟨outcome,h₃,hcall,hrest⟩ := bind_returns.mp hrest
    obtain ⟨events,h₄,hcall',hrest⟩ := bind_returns.mp hrest
    obtain ⟨emitted,h₅,hfinish,hrest⟩ := bind_returns.mp hrest
    obtain ⟨u',h₆,hcompact,hlast⟩ := bind_returns.mp hrest
    obtain rfl := (Prod.mk.inj (Option.some.inj hnote)).2
    obtain rfl := (Prod.mk.inj (Option.some.inj hcall)).2
    obtain rfl := (Prod.mk.inj (Option.some.inj hcall')).2
    obtain ⟨-,rfl⟩ : _ ∧ h₆ = h' := by simpa [exec_pure] using hlast
    have habove := horder.above hx (hs.genuine x hx).positive (by simp [hreceived])
    obtain ⟨x₁,hx₁,hsame⟩ := (hstarts.kept x hx).resolve_left (by rw [hstarts.stays]; omega)
    have hid : x₁.commandId = x.commandId := congrArg (·.commandId) hsame
    have hsession : x₁.sessionId = x.sessionId := congrArg (·.sessionId) hsame
    have hbound : h₁.state.view.processed x₁.sessionId < u64Max := by
      rw [hstarts.stays]
      exact horder.bound _
    obtain ⟨hhanded',hends⟩ := finish_closes hfinish hcompact hs₁.distinctIds hbound hx₁ hid hsession
    exact .inr ⟨hhanded'.trans (congrArg _ hhanded),hmay,hends.after hid hsession hstarts.toTouches⟩

end

end Journal
end North
