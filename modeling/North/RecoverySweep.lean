import North.RecoveryReach

/-! The recovery that runs the commands itself. It takes the records one after the other,
so that a cancel that stands before a started command still overtakes it, and then gives
every session its turn until nothing of it is ready. -/
namespace North
namespace Journal

open Machine Protocol Prog CommandView

section

variable {σ : Type} {W : World σ} {E : Set CommandEnvelope} {h₀ h h' : Host σ}

/-- Nothing is started. -/
def Host.Idle (h : Host σ) : Prop := ∀ r ∈ h.state.commands, r.state ≠ .dispatchStarted

theorem Host.Idle.after {x : CommandRecord} (hidle : h.Idle) (hends : h.state.view.Ends x h'.state.view) :
    h'.Idle := by
  intro r hr hstarted
  by_cases hid : r.commandId = x.commandId
  · simp [hends.ended r hr hid] at hstarted
  · exact hidle r (hends.started r hr hstarted hid) hstarted

/-- The sessions were brought up to where nothing of them is ready. -/
structure CaughtUp (h h' : Host σ) (sessionIds : List String) : Prop
    extends h.state.view.Proceeds h'.state.view where
  keeps : h.handed ⊆ h'.handed
  elsewhere : ∀ id ∉ sessionIds, h'.state.view.processed id = h.state.view.processed id
  clear : ∀ id ∈ sessionIds, h'.state.view.Clear id

/-- A turn of the loop over one session: its next command starts and ends. -/
theorem ready_turn {allowed : CommandRecord → Prop} {sessionId : String} {command : CommandEnvelope}
    {result : CommandProcessResult} (hdigest : Set.InjOn W.handle.commandDigest E)
    (hallowed : ∀ x, h₀.state.gapless x = true → allowed x) (hr : Recovering W E h₀ allowed h)
    (hidle : h.Idle) (hnext : nextReady h.state sessionId = some command)
    (hexec : (processCommand W command).exec h = some (.ok result,h')) :
    Recovering W E h₀ allowed h' ∧ h'.Idle ∧ ∃ x ∈ h.state.commands, x.state = .received ∧
      x.sessionId = sessionId ∧ h'.handed = x.commandId::h.handed ∧ h.state.view.Ends x h'.state.view := by
  obtain ⟨x,hfind,rfl⟩ := Option.map_eq_some_iff.mp hnext
  have hx := List.mem_of_find?_eq_some hfind
  have hready := List.find?_some hfind
  simp only [Bool.and_eq_true,beq_iff_eq,JournalFile.expectedCommandSequence_eq] at hready
  obtain ⟨⟨hsession,hseq⟩,hreceived⟩ := hready
  have hle : x.serverCommandSeq ≤ h.state.view.expected x.sessionId := by rw [hsession]; exact hseq.le
  have horder := hr.sound.inOrder hdigest
  have hs' : Sound W E h' := (keeps_processCommand (hr.sound.genuine x hx).known).ok hr.sound hexec
  rcases processCommand_live hr.sound horder hx hreceived hexec with ⟨-,-,hlt,-⟩ | ⟨hhanded,-,hends⟩
  · exact absurd hle (Nat.not_le.mpr hlt)
  have hgapless := hr.gapless horder hreceived hle
  exact ⟨hr.take hs' hx hreceived (hallowed x hgapless) hends.toTouches hhanded,hidle.after hends,
    x,hx,hreceived,hsession,hhanded,hends⟩

theorem processReadyLoop_caughtUp {allowed : CommandRecord → Prop} {sessionId : String} {fuel : ℕ}
    {results results' : List CommandProcessResult} (hdigest : Set.InjOn W.handle.commandDigest E)
    (hallowed : ∀ x, h₀.state.gapless x = true → allowed x) (hr : Recovering W E h₀ allowed h)
    (hidle : h.Idle)
    (hexec : (processReadyLoop W sessionId fuel results).exec h = some (.ok results',h')) :
    Recovering W E h₀ allowed h' ∧ h'.Idle ∧ CaughtUp h h' [sessionId] := by
  induction fuel generalizing results h with
  | zero => simp [exec,processReadyLoop] at hexec
  | succ fuel ih =>
    obtain ⟨next,h₁,hlook,hrest⟩ := bind_returns.mp hexec
    obtain ⟨rfl,rfl⟩ : _ = next ∧ h = h₁ := by simpa [exec_look] using hlook
    cases hnext : nextReady h.state sessionId with
    | none =>
      obtain ⟨-,rfl⟩ : _ ∧ h = h' := by simpa [hnext,exec_pure] using hrest
      refine ⟨hr,hidle,.refl _,fun _ hid => hid,fun _ _ => rfl,fun id hid x hx hreceived hsession hseq => ?_⟩
      obtain rfl := List.mem_singleton.mp hid
      have hfind := List.find?_eq_none.mp (Option.map_eq_none_iff.mp hnext) x hx
      simp [hsession,hreceived,hseq,JournalFile.expectedCommandSequence_eq] at hfind
    | some command =>
      simp only [hnext] at hrest
      obtain ⟨result,h₁,hprocess,hloop⟩ := bind_returns.mp hrest
      obtain ⟨hr₁,hidle₁,x,-,-,hsession,hhanded,hends⟩ :=
        ready_turn hdigest hallowed hr hidle hnext hprocess
      obtain ⟨hr',hidle',hcaught⟩ := ih hr₁ hidle₁ hloop
      refine ⟨hr',hidle',hends.toProceeds.trans hcaught.toProceeds,fun id hid => ?_,fun id hid => ?_,
        hcaught.clear⟩
      · exact hcaught.keeps (by simp [hhanded,hid])
      refine (hcaught.elsewhere id hid).trans (hends.elsewhere id fun hsame => hid ?_)
      simp [hsame,hsession]

theorem processReadySessions_caughtUp {allowed : CommandRecord → Prop} {sessionIds : List String}
    {results results' : List CommandProcessResult} (hdigest : Set.InjOn W.handle.commandDigest E)
    (hallowed : ∀ x, h₀.state.gapless x = true → allowed x) (hr : Recovering W E h₀ allowed h)
    (hidle : h.Idle)
    (hexec : (processReadySessions W sessionIds results).exec h = some (.ok results',h')) :
    Recovering W E h₀ allowed h' ∧ h'.Idle ∧ CaughtUp h h' sessionIds := by
  induction sessionIds generalizing results h with
  | nil =>
    obtain ⟨-,rfl⟩ : _ ∧ h = h' := by simpa [processReadySessions,exec_pure] using hexec
    exact ⟨hr,hidle,.refl _,fun _ hid => hid,fun _ _ => rfl,by simp⟩
  | cons sessionId sessionIds ih =>
    obtain ⟨ready,h₁,hready,hrest⟩ := bind_returns.mp hexec
    obtain ⟨fuel,h₂,hlook,hloop⟩ := bind_returns.mp hready
    obtain ⟨-,rfl⟩ : _ ∧ h = h₂ := by simpa [exec_look] using hlook
    obtain ⟨hr₁,hidle₁,hfirst⟩ := processReadyLoop_caughtUp hdigest hallowed hr hidle hloop
    obtain ⟨hr',hidle',hcaught⟩ := ih hr₁ hidle₁ hrest
    refine ⟨hr',hidle',hfirst.toProceeds.trans hcaught.toProceeds,
      fun id hid => hcaught.keeps (hfirst.keeps hid),fun id hid => ?_,fun id hid => ?_⟩
    · simp only [List.mem_cons,not_or] at hid
      exact (hcaught.elsewhere id hid.2).trans (hfirst.elsewhere id (by simp [hid.1]))
    · by_cases hin : id ∈ sessionIds
      · exact hcaught.clear id hin
      · obtain rfl := (List.mem_cons.mp hid).resolve_right hin
        exact clear_of_proceeds (hfirst.clear _ (by simp)) hcaught.toProceeds (hcaught.elsewhere _ hin)

/-- What a recovery that runs the commands itself may hand over. -/
def JournalFile.Sweeps (s : JournalFile) (x : CommandRecord) : Prop :=
  s.gapless x = true ∨ s.Interrupts x

/-- The sweep over the records, with `before` done and `rest` to come. -/
structure Sweeping (W : World σ) (E : Set CommandEnvelope) (h₀ : Host σ) (before rest : List CommandRecord)
    (h : Host σ) : Prop where
  recovering : Recovering W E h₀ h₀.state.Sweeps h
  records : before ++ rest = h₀.state.commands.filter (·.state != .terminal)
  live : ∀ x ∈ rest, x ∈ h.state.commands
  started : ∀ r ∈ h.state.commands, r.state = .dispatchStarted → r ∈ rest
  passed : ∀ x ∈ before, x.serverCommandSeq ≤ h₀.state.view.processed x.sessionId+1 →
    x.serverCommandSeq ≤ h.state.view.processed x.sessionId
  overtook : ∀ x ∈ before, h₀.state.Interrupts x → x.commandId ∈ h.handed

namespace Sweeping

variable {before rest : List CommandRecord} {x : CommandRecord}

theorem distinct (hw : Sweeping W E h₀ before (x::rest) h) (hs₀ : Sound W E h₀) :
    ((before ++ x::rest).map (·.commandId)).Nodup := by
  rw [hw.records]
  exact hs₀.distinctIds.commands.sublist (List.filter_sublist.map _)

/-- A started command is after a cancel in the records just when it is still to come. -/
theorem after_iff (hw : Sweeping W E h₀ before (x::rest) h) (hs₀ : Sound W E h₀) {r : CommandRecord}
    (hr : r.state ≠ .terminal) : [x,r].Sublist h₀.state.commands ↔ r ∈ rest := by
  have hsub : (x::rest).Sublist h₀.state.commands := by
    have hfront : (x::rest).Sublist (before ++ x::rest) := List.sublist_append_right _ _
    rw [hw.records] at hfront
    exact hfront.trans List.filter_sublist
  constructor
  · intro hxr
    have hx : x ∈ h₀.state.commands.filter (·.state != .terminal) := hw.records ▸ by simp
    have hfilter := hxr.filter (·.state != .terminal)
    rw [← hw.records] at hfilter
    have hpair : [x,r].filter (·.state != .terminal) = [x,r] := by
      have hxs := (List.mem_filter.mp hx).2
      simp [hr] at hxs ⊢
      exact hxs
    rw [hpair] at hfilter
    obtain ⟨front,back,hsplit,hfront,hback⟩ := List.sublist_append_iff.mp hfilter
    have hnodup := hw.distinct hs₀
    rw [List.map_append] at hnodup
    cases front with
    | nil =>
      rw [List.nil_append] at hsplit
      rw [← hsplit] at hback
      exact (List.singleton_sublist.mp (List.cons_sublist_cons.mp hback))
    | cons y front =>
      obtain ⟨rfl,-⟩ := List.cons.inj hsplit
      have hmem : x ∈ before := hfront.subset (by simp)
      exact absurd (List.mem_map_of_mem (f := (·.commandId)) (List.mem_cons_self (a := x) (l := rest)))
        ((List.nodup_append'.mp hnodup).2.2 (List.mem_map_of_mem hmem))
  · exact fun hr => (List.Sublist.cons_cons x (List.singleton_sublist.mpr hr)).trans hsub

theorem ended (hw : Sweeping W E h₀ before (x::rest) h) (hs₀ : Sound W E h₀)
    (hdigest : Set.InjOn W.handle.commandDigest E) (hrecovering : Recovering W E h₀ h₀.state.Sweeps h')
    (hends : h.state.view.Ends x h'.state.view) (hsub : h.handed ⊆ h'.handed)
    (htaken : x.state = .received → x.commandId ∈ h'.handed) :
    Sweeping W E h₀ (before ++ [x]) rest h' := by
  have hid : ∀ r ∈ rest, r.commandId ≠ x.commandId := by
    intro r hr hrx
    have hnodup := (List.nodup_append'.mp ((List.map_append ..) ▸ hw.distinct hs₀)).2.1
    exact (List.nodup_cons.mp hnodup).1 (List.mem_map.mpr ⟨r,hr,hrx⟩)
  have hopen : ∀ r ∈ x::rest, r.state ≠ .terminal := by
    intro r hr
    have hmem : r ∈ h₀.state.commands.filter (·.state != .terminal) := by
      rw [← hw.records]
      exact List.mem_append_right _ hr
    simpa using (List.mem_filter.mp hmem).2
  refine ⟨hrecovering,by rw [List.append_assoc]; exact hw.records,fun r hr => ?_,fun r hr hrs => ?_,
    fun r hr hseq => ?_,fun r hr hint => ?_⟩
  · exact hends.others r (hw.live r (by simp [hr])) (hid r hr) (hopen r (by simp [hr]))
  · have hne : r.commandId ≠ x.commandId := fun hrx => by simp [hends.ended r hr hrx] at hrs
    refine (List.mem_cons.mp (hw.started r (hends.started r hr hrs hne) hrs)).resolve_left ?_
    rintro rfl
    exact hne rfl
  · rcases List.mem_append.mp hr with hr | hr
    · exact (hw.passed r hr hseq).trans (hends.onward _)
    · obtain rfl := List.mem_singleton.mp hr
      have hon := hw.recovering.proceeds.onward r.sessionId
      exact hends.passed (hrecovering.sound.inOrder hdigest) (hw.live r (by simp)) (by omega)
  · rcases List.mem_append.mp hr with hr | hr
    · exact hsub (hw.overtook r hr hint)
    · obtain rfl := List.mem_singleton.mp hr
      exact htaken hint.1

theorem waits (hw : Sweeping W E h₀ before (x::rest) h) (hs₀ : Sound W E h₀)
    (hdigest : Set.InjOn W.handle.commandDigest E) (hs : Sound W E h') (hreceived : x.state = .received)
    (hview : h'.state.view = h.state.view) (hhanded : h'.handed = h.handed)
    (hlt : h.state.view.expected x.sessionId < x.serverCommandSeq)
    (hwait : h.state.overtakes x = false) : Sweeping W E h₀ (before ++ [x]) rest h' := by
  have hcommands : h'.state.commands = h.state.commands := congrArg (·.commands) hview
  refine ⟨hw.recovering.same hs hview hhanded,by rw [List.append_assoc]; exact hw.records,
    fun r hr => ?_,fun r hr hrs => ?_,fun r hr hseq => ?_,fun r hr hint => ?_⟩
  · rw [hcommands]
    exact hw.live r (by simp [hr])
  · refine (List.mem_cons.mp (hw.started r (hcommands ▸ hr) hrs)).resolve_left ?_
    rintro rfl
    simp [hreceived] at hrs
  · rw [hview]
    rcases List.mem_append.mp hr with hr | hr
    · exact hw.passed r hr hseq
    · obtain rfl := List.mem_singleton.mp hr
      rw [(hw.recovering.sound.inOrder hdigest).expected] at hlt
      have hon := hw.recovering.proceeds.onward r.sessionId
      omega
  · rcases List.mem_append.mp hr with hr | hr
    · rw [hhanded]
      exact hw.overtook r hr hint
    · -- what it may overtake is still to come, so it would have been started
      obtain rfl := List.mem_singleton.mp hr
      obtain ⟨-,hcancel,q,hsub,hsession,hseq,hstarted⟩ := hint
      have hq := (hw.after_iff hs₀ (by simp [hstarted])).mp hsub
      have hover : h.state.overtakes r = true := by
        simp only [JournalFile.overtakes,hcancel,Bool.true_and,hasPriorDispatchStarted,
          List.any_eq_true,Bool.and_eq_true,beq_iff_eq,decide_eq_true_eq]
        exact ⟨q,hw.live q (by simp [hq]),⟨hsession,hseq⟩,hstarted⟩
      simp [hover] at hwait

/-- The record in turn is Received and was started: it was next, or it overtakes. -/
theorem sweeps (hw : Sweeping W E h₀ before (x::rest) h) (hs₀ : Sound W E h₀)
    (hdigest : Set.InjOn W.handle.commandDigest E) (hreceived : x.state = .received)
    (hmay : x.serverCommandSeq ≤ h.state.view.expected x.sessionId ∨ h.state.overtakes x = true) :
    h₀.state.Sweeps x := by
  rcases hmay with hle | hover
  · exact .inl (hw.recovering.gapless (hw.recovering.sound.inOrder hdigest) hreceived hle)
  · simp only [JournalFile.overtakes,Bool.and_eq_true,hasPriorDispatchStarted,List.any_eq_true,
      beq_iff_eq,decide_eq_true_eq] at hover
    obtain ⟨hcancel,q,hq,⟨hsession,hseq⟩,hstarted⟩ := hover
    have hmem : q ∈ rest := by
      refine (List.mem_cons.mp (hw.started q hq hstarted)).resolve_left ?_
      rintro rfl
      simp [hreceived] at hstarted
    exact .inr ⟨hreceived,hcancel,q,(hw.after_iff hs₀ (by simp [hstarted])).mpr hmem,hsession,hseq,hstarted⟩

theorem process {result : CommandProcessResult} (hw : Sweeping W E h₀ before (x::rest) h)
    (hs₀ : Sound W E h₀) (hdigest : Set.InjOn W.handle.commandDigest E) (hreceived : x.state = .received)
    (hexec : (processCommand W (recordToEnvelope x)).exec h = some (.ok result,h')) :
    Sweeping W E h₀ (before ++ [x]) rest h' := by
  have hlive := hw.live x (by simp)
  have hs := hw.recovering.sound
  have hs' : Sound W E h' := (keeps_processCommand (hs.genuine x hlive).known).ok hs hexec
  rcases processCommand_live hs (hs.inOrder hdigest) hlive hreceived hexec with
    ⟨hhanded,hview,hlt,hwait⟩ | ⟨hhanded,hmay,hends⟩
  · exact hw.waits hs₀ hdigest hs' hreceived hview hhanded hlt hwait
  · have hr' := hw.recovering.take hs' hlive hreceived (hw.sweeps hs₀ hdigest hreceived hmay)
      hends.toTouches hhanded
    exact hw.ended hs₀ hdigest hr' hends (fun id hid => by simp [hhanded,hid]) fun _ => by simp [hhanded]

theorem resolve {outcome : DispatchOutcome} {emitted : List EventEnvelope} {u : Unit} {h₁ h₂ : Host σ}
    (hw : Sweeping W E h₀ before (x::rest) h) (hs₀ : Sound W E h₀)
    (hdigest : Set.InjOn W.handle.commandDigest E) (hstate : x.state ≠ .received)
    (houtcome : (recoverOutcome W x).exec h = some (.ok outcome,h₁))
    (hfinish : (finishCommandOp W x.commandId outcome []).exec h₁ = some (.ok emitted,h₂))
    (hcompact : (compactSessionOp W x.sessionId).exec h₂ = some (.ok u,h')) :
    Sweeping W E h₀ (before ++ [x]) rest h' := by
  have hlive := hw.live x (by simp)
  have hs := hw.recovering.sound
  have hstarted : x.state = .dispatchStarted := by
    have hmem : x ∈ h₀.state.commands.filter (·.state != .terminal) := by simp [← hw.records]
    have hopen := (List.mem_filter.mp hmem).2
    cases hcase : x.state <;> simp_all
  obtain ⟨answer,h₃,hcall,hpure⟩ := bind_returns.mp houtcome
  obtain ⟨-,rfl⟩ : _ ∧ h₃ = h₁ := by simpa [exec_pure] using hpure
  obtain rfl := (Prod.mk.inj (Option.some.inj hcall)).2
  have hs₁ : Sound W E _ := (keeps_recoverOutcome x).ok hs houtcome
  have hs₂ : Sound W E h₂ := (keeps_finishCommand _ _ _).ok hs₁ hfinish
  have hs' : Sound W E h' := (keeps_compactSession _).ok hs₂ hcompact
  obtain ⟨hhanded,hends⟩ := finish_closes hfinish hcompact hs.distinctIds
    ((hs.inOrder hdigest).bound _) hlive rfl rfl
  have hr' := hw.recovering.finish hs' hlive hstarted hends hhanded
  exact hw.ended hs₀ hdigest hr' hends (fun id hid => hhanded ▸ hid)
    fun hreceived => absurd hreceived hstate

end Sweeping

theorem recoverRecords_sweeps {before rest : List CommandRecord} {results results' : List CommandProcessResult}
    (hdigest : Set.InjOn W.handle.commandDigest E) (hs₀ : Sound W E h₀)
    (hw : Sweeping W E h₀ before rest h)
    (hexec : (recoverRecords W rest results).exec h = some (.ok results',h')) :
    Sweeping W E h₀ (before ++ rest) [] h' := by
  induction rest generalizing before results h with
  | nil =>
    obtain ⟨-,rfl⟩ : _ ∧ h = h' := by simpa [recoverRecords,exec_pure] using hexec
    simpa using hw
  | cons x rest ih =>
    have happend : before ++ x::rest = (before ++ [x]) ++ rest := by simp
    rw [happend]
    unfold recoverRecords at hexec
    split_ifs at hexec with hreceived
    · obtain ⟨result,h₁,hprocess,hloop⟩ := bind_returns.mp hexec
      exact ih (hw.process hs₀ hdigest hreceived hprocess) hloop
    · obtain ⟨outcome,h₁,houtcome,hrest⟩ := bind_returns.mp hexec
      obtain ⟨emitted,h₂,hfinish,hrest⟩ := bind_returns.mp hrest
      obtain ⟨u,h₃,hcompact,hloop⟩ := bind_returns.mp hrest
      exact ih (hw.resolve hs₀ hdigest hreceived houtcome hfinish hcompact) hloop

theorem Sweeping.init (hs₀ : Sound W E h₀) :
    Sweeping W E h₀ [] (h₀.state.commands.filter (·.state != .terminal)) h₀ where
  recovering := .init hs₀
  records := rfl
  live := fun _ hx => List.mem_of_mem_filter hx
  started := fun _ hr hrs => List.mem_filter.mpr ⟨hr,by simp [hrs]⟩
  passed := by simp
  overtook := by simp

/-- Before a command with nothing missing stands one that the sweep has passed. -/
theorem Sweeping.entered {x : CommandRecord} (hdigest : Set.InjOn W.handle.commandDigest E)
    (hs₀ : Sound W E h₀) (hw : Sweeping W E h₀ (h₀.state.commands.filter (·.state != .terminal)) [] h)
    (hx : x ∈ h₀.state.commands) (hgapless : h₀.state.gapless x = true) :
    x.sessionId ∈ h.state.sessions.keys := by
  have horder₀ := hs₀.inOrder hdigest
  obtain ⟨hreceived,hheld⟩ := JournalFile.comesUp_iff.mp hgapless
  have habove := horder₀.above hx (hs₀.genuine x hx).positive (by simp [hreceived])
  obtain ⟨r,hr,hsession,hseq⟩ : ∃ r ∈ h₀.state.commands, r.sessionId = x.sessionId ∧
      r.serverCommandSeq = h₀.state.view.processed x.sessionId+1 := by
    rcases Nat.lt_or_ge (h₀.state.view.processed x.sessionId+1) x.serverCommandSeq with hlt | hge
    · obtain ⟨r,hr,hsession,hseq,-⟩ := hheld _ (Nat.lt_succ_self _) hlt
      exact ⟨r,hr,hsession,hseq⟩
    · exact ⟨x,hx,rfl,by omega⟩
  have hopen : r.state ≠ .terminal := fun hterm =>
    (horder₀.watermark x.sessionId).next (.inl ⟨r,hr,hsession,hseq,hterm⟩)
  have hpassed := hw.passed r (List.mem_filter.mpr ⟨hr,by simpa using hopen⟩) (by rw [hsession]; omega)
  rw [hsession,hseq] at hpassed
  by_contra hout
  -- a session that is not in the map has processed nothing
  have hnone : h.state.sessions.get x.sessionId = none := OrdMap.get_eq_none.mpr hout
  have hzero : h.state.view.processed x.sessionId = 0 := by
    simp [JournalFile.view,JournalFile.session,hnone]
  omega

/-- A recovery that runs the commands itself hands over just those that have nothing
missing before them and the cancels that overtake. -/
theorem recover_reaches {results : List CommandProcessResult} (hdigest : Set.InjOn W.handle.commandDigest E)
    (hs₀ : Sound W E h₀) (hexec : (recover W).exec h₀ = some (.ok results,h')) :
    Recovering W E h₀ h₀.state.Sweeps h' ∧
      ∀ x ∈ h₀.state.commands, h₀.state.Sweeps x → x.commandId ∈ h'.handed := by
  obtain ⟨records,h₁,hlook,hrest⟩ := bind_returns.mp hexec
  obtain ⟨rfl,rfl⟩ : _ = records ∧ h₀ = h₁ := by simpa [exec_look] using hlook
  obtain ⟨results',h₂,hrecords,hrest⟩ := bind_returns.mp hrest
  obtain ⟨sessionIds,h₃,hlook',hloop⟩ := bind_returns.mp hrest
  obtain ⟨rfl,rfl⟩ : _ = sessionIds ∧ h₂ = h₃ := by simpa [exec_look] using hlook'
  have hw := recoverRecords_sweeps hdigest hs₀ (.init hs₀) hrecords
  rw [List.nil_append] at hw
  have hidle : h₂.Idle := fun r hr hrs => by simpa using hw.started r hr hrs
  obtain ⟨hr',hidle',hcaught⟩ := processReadySessions_caughtUp hdigest (fun x hx => .inl hx)
    hw.recovering hidle hloop
  refine ⟨hr',fun x hx hsweeps => ?_⟩
  by_cases hgapless : h₀.state.gapless x = true
  · exact hr'.reaches hs₀ (hr'.sound.inOrder hdigest) hidle' hx hgapless
      (hcaught.clear _ (hw.entered hdigest hs₀ hx hgapless))
  · have hint := hsweeps.resolve_left hgapless
    have hmem : x ∈ h₀.state.commands.filter (·.state != .terminal) :=
      List.mem_filter.mpr ⟨hx,by simp [hint.1]⟩
    exact hcaught.keeps (hw.overtook x hmem hint)

end

end Journal
end North
