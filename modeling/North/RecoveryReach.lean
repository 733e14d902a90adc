import North.CancelArrival
import North.RecoveryMoves

/-! How far a recovery gets. The commands it runs are those with nothing missing before
them in their session; the two ways to recover differ in how they find the sessions, and
in what a cancel may overtake while they are at it. -/
namespace North
namespace Journal

open Machine Protocol Prog CommandView

namespace JournalFile

variable (s : JournalFile)

/-- A Received command whose session holds every sequence before it. -/
def gapless (x : CommandRecord) : Bool := s.comesUp (fun _ => true) x

/-- A Received cancel that stands before a started command it may overtake. -/
def Interrupts (x : CommandRecord) : Prop :=
  x.state = .received ∧ x.command.isSessionCancel = true ∧ ∃ r, [x,r].Sublist s.commands ∧
    r.sessionId = x.sessionId ∧ r.serverCommandSeq < x.serverCommandSeq ∧ r.state = .dispatchStarted

/-- Whatever comes up when the started commands end is in a session that gets its turn,
and no cancel stands where it would overtake a gap. -/
structure Recoverable : Prop where
  turns : ∀ x ∈ s.commands, s.comesUp (·.state != .received) x = true → s.recoverable x = true
  cancels : ∀ x ∈ s.commands, s.Interrupts x → s.gapless x = true

variable {s}

theorem comesUp_iff {ended : CommandRecord → Bool} {x : CommandRecord} :
    s.comesUp ended x = true ↔ x.state = .received ∧ ∀ n, s.view.processed x.sessionId < n →
      n < x.serverCommandSeq → ∃ r ∈ s.commands, r.sessionId = x.sessionId ∧ r.serverCommandSeq = n ∧
        ended r = true := by
  simp only [comesUp,Bool.and_eq_true,beq_iff_eq,List.all_eq_true,List.mem_range,Bool.or_eq_true,
    decide_eq_true_eq,List.any_eq_true]
  refine and_congr_right fun _ => ⟨fun h n hlo hhi => ?_,fun h n hhi => ?_⟩
  · obtain ⟨r,hr,⟨hsession,hseq⟩,hended⟩ := (h n hhi).resolve_left (Nat.not_le.mpr hlo)
    exact ⟨r,hr,hsession,hseq,hended⟩
  · rcases Nat.lt_or_ge (s.session x.sessionId).processedThroughSeq n with hlo | hle
    · obtain ⟨r,hr,hsession,hseq,hended⟩ := h n hlo hhi
      exact .inr ⟨r,hr,⟨hsession,hseq⟩,hended⟩
    · exact .inl hle

end JournalFile

section

variable {σ : Type} {W : World σ} {E : Set CommandEnvelope} {h₀ h h' : Host σ}

theorem Sound.inOrder (hdigest : Set.InjOn W.handle.commandDigest E) (hs : Sound W E h) :
    h.state.view.InOrder := by
  obtain ⟨past,-,htrail⟩ := hs.trail
  exact (htrail.inOrder hdigest h.state (by simp)).2.2

theorem Sound.unhanded (hs : Sound W E h) {x : CommandRecord} (hx : x ∈ h.state.commands)
    (hreceived : x.state = .received) : x.commandId ∉ h.handed := by
  intro hhanded
  have hrank := hs.started _ hhanded
  rw [CommandView.stage_of_mem hs.distinctIds hx,hreceived] at hrank
  exact absurd hrank (by decide)

/-- The host on the way of a recovery that began at `h₀` and hands over what is `allowed`. -/
structure Recovering (W : World σ) (E : Set CommandEnvelope) (h₀ : Host σ)
    (allowed : CommandRecord → Prop) (h : Host σ) : Prop where
  sound : Sound W E h
  proceeds : h₀.state.view.Proceeds h.state.view
  handed : h₀.handed ⊆ h.handed
  ours : ∀ id ∈ h.handed, id ∈ h₀.handed ∨ ∃ x ∈ h₀.state.commands, x.commandId = id ∧ allowed x
  untouched : ∀ x ∈ h₀.state.commands, x.state = .received → x.commandId ∉ h.handed →
    x ∈ h.state.commands

namespace Recovering

variable {allowed allowed' : CommandRecord → Prop}

theorem init (hs : Sound W E h₀) : Recovering W E h₀ allowed h₀ where
  sound := hs
  proceeds := .refl _
  handed := fun _ hid => hid
  ours := fun _ hid => .inl hid
  untouched := fun _ hx _ _ => hx

theorem mono (h : Recovering W E h₀ allowed h') (hle : ∀ x, allowed x → allowed' x) :
    Recovering W E h₀ allowed' h' where
  sound := h.sound
  proceeds := h.proceeds
  handed := h.handed
  ours := fun id hid => (h.ours id hid).imp_right fun ⟨x,hx,hxid,hallowed⟩ => ⟨x,hx,hxid,hle x hallowed⟩
  untouched := h.untouched

theorem same (hr : Recovering W E h₀ allowed h) (hs : Sound W E h')
    (hview : h'.state.view = h.state.view) (hhanded : h'.handed = h.handed) :
    Recovering W E h₀ allowed h' where
  sound := hs
  proceeds := hview ▸ hr.proceeds
  handed := hhanded ▸ hr.handed
  ours := hhanded ▸ hr.ours
  untouched := by
    intro x hx hreceived hnot
    have hcommands : h'.state.commands = h.state.commands := congrArg (·.commands) hview
    rw [hcommands]
    exact hr.untouched x hx hreceived (hhanded ▸ hnot)

theorem touch (hr : Recovering W E h₀ allowed h) (hs : Sound W E h') {x : CommandRecord}
    (htouch : h.state.view.Touches x h'.state.view) (hsub : h.handed ⊆ h'.handed)
    (hnew : ∀ id ∈ h'.handed, id ∈ h.handed ∨ ∃ y ∈ h₀.state.commands, y.commandId = id ∧ allowed y)
    (htaken : ∀ y ∈ h₀.state.commands, y.state = .received → y.commandId = x.commandId →
      y.commandId ∈ h'.handed) : Recovering W E h₀ allowed h' where
  sound := hs
  proceeds := hr.proceeds.trans htouch.toProceeds
  handed := fun id hid => hsub (hr.handed hid)
  ours := fun id hid => (hnew id hid).elim (hr.ours id) .inr
  untouched := by
    intro y hy hreceived hnot
    have hold := hr.untouched y hy hreceived fun hid => hnot (hsub hid)
    exact htouch.others y hold (fun hid => hnot (htaken y hy hreceived hid)) (by simp [hreceived])

/-- A Received command that is next in its session has nothing missing before it. -/
theorem gapless (hr : Recovering W E h₀ allowed h) (horder : h.state.view.InOrder) {x : CommandRecord}
    (hreceived : x.state = .received) (hseq : x.serverCommandSeq ≤ h.state.view.expected x.sessionId) : h₀.state.gapless x = true := by
  refine JournalFile.comesUp_iff.mpr ⟨hreceived,fun n hlo hhi => ?_⟩
  rw [horder.expected] at hseq
  obtain ⟨r,hr,hsession,hn⟩ := hr.proceeds.passes x.sessionId n hlo (by omega)
  exact ⟨r,hr,hsession,hn,rfl⟩

/-- When nothing is started and nothing that is Received blocks the way, a command that
comes up is next in its session. -/
theorem next (hr : Recovering W E h₀ allowed h) (horder : h.state.view.InOrder)
    (hidle : ∀ r ∈ h.state.commands, r.state ≠ .dispatchStarted) {ended : CommandRecord → Bool}
    {x : CommandRecord} (hx : x ∈ h.state.commands) (hpos : 0 < x.serverCommandSeq)
    (hcomes : h₀.state.comesUp ended x = true)
    (hfree : ∀ y ∈ h.state.commands, y.state = .received → y.sessionId = x.sessionId →
      y.serverCommandSeq = h.state.view.expected x.sessionId →
      ∀ r ∈ h₀.state.commands, recordToEnvelope y = recordToEnvelope r → ended r ≠ true) :
    x.serverCommandSeq = h.state.view.expected x.sessionId := by
  obtain ⟨hreceived,hheld⟩ := JournalFile.comesUp_iff.mp hcomes
  have habove := horder.above hx hpos (by simp [hreceived])
  rw [horder.expected]
  by_contra hne
  obtain ⟨r,hr₀,hsession,hseq,hended⟩ := hheld (h.state.view.processed x.sessionId+1)
    (Nat.lt_succ_of_le (hr.proceeds.onward _)) (by omega)
  obtain ⟨y,hy,hsame⟩ := (hr.proceeds.kept r hr₀).resolve_left (by rw [hsession,hseq]; omega)
  have hys : y.sessionId = x.sessionId := (congrArg (·.sessionId) hsame).trans hsession
  have hyn : y.serverCommandSeq = h.state.view.processed x.sessionId+1 :=
    (congrArg (·.serverCommandSeq) hsame).trans hseq
  cases hstate : y.state with
  | received => exact hfree y hy hstate hys (hyn.trans (horder.expected _).symm) r hr₀ hsame hended
  | dispatchStarted => exact hidle y hy hstate
  | terminal => exact (horder.watermark x.sessionId).next (.inl ⟨y,hy,hys,hyn,hstate⟩)

/-- When nothing is started and no session waits, all that could run was handed over. -/
theorem reaches (hr : Recovering W E h₀ allowed h) (hs₀ : Sound W E h₀) (horder : h.state.view.InOrder)
    (hidle : ∀ r ∈ h.state.commands, r.state ≠ .dispatchStarted) {x : CommandRecord}
    (hx : x ∈ h₀.state.commands) (hgapless : h₀.state.gapless x = true)
    (hclear : h.state.view.Clear x.sessionId) : x.commandId ∈ h.handed := by
  by_contra hnot
  have hreceived := (JournalFile.comesUp_iff.mp hgapless).1
  have hlive := hr.untouched x hx hreceived hnot
  refine hclear x hlive hreceived rfl (hr.next horder hidle hlive (hs₀.genuine x hx).positive hgapless ?_)
  exact fun y hy hyr hys hyn => absurd hyn (hclear y hy hyr hys)

theorem finish (hr : Recovering W E h₀ allowed h) (hs : Sound W E h') {x : CommandRecord}
    (hx : x ∈ h.state.commands) (hstarted : x.state = .dispatchStarted)
    (hends : h.state.view.Ends x h'.state.view) (hhanded : h'.handed = h.handed) :
    Recovering W E h₀ allowed h' := by
  refine hr.touch hs hends.toTouches (fun id hid => hhanded ▸ hid) (fun id hid => .inl (hhanded ▸ hid))
    fun y hy hreceived hid => ?_
  rw [hhanded]
  by_contra hnot
  have hlive := hr.untouched y hy hreceived hnot
  obtain rfl := List.inj_on_of_nodup_map hr.sound.distinctIds.commands hlive hx hid
  simp [hreceived] at hstarted

theorem take (hr : Recovering W E h₀ allowed h) (hs : Sound W E h') {x : CommandRecord}
    (hx : x ∈ h.state.commands) (hreceived : x.state = .received) (hallowed : allowed x)
    (htouch : h.state.view.Touches x h'.state.view) (hhanded : h'.handed = x.commandId::h.handed) :
    Recovering W E h₀ allowed h' := by
  refine hr.touch hs htouch (fun id hid => by simp [hhanded,hid]) (fun id hid => ?_)
    fun y _ _ hid => by simp [hhanded,hid]
  rw [hhanded] at hid
  rcases List.mem_cons.mp hid with rfl | hid
  · exact .inr ⟨x,hr.proceeds.received x hx hreceived,rfl,hallowed⟩
  · exact .inl hid

end Recovering

/-- The started commands are resolved one after the other: these are left. -/
structure Resolving (W : World σ) (E : Set CommandEnvelope) (h₀ : Host σ)
    (allowed : CommandRecord → Prop) (records : List CommandRecord) (h : Host σ) : Prop where
  recovering : Recovering W E h₀ allowed h
  distinct : (records.map (·.commandId)).Nodup
  live : ∀ r ∈ records, r ∈ h.state.commands ∧ r.state = .dispatchStarted
  all : ∀ r ∈ h.state.commands, r.state = .dispatchStarted → r ∈ records

theorem Resolving.turn {allowed : CommandRecord → Prop} {record : CommandRecord}
    {records : List CommandRecord} {outcome : DispatchOutcome} {emitted : List EventEnvelope} {h₁ : Host σ}
    (hdigest : Set.InjOn W.handle.commandDigest E)
    (hr : Resolving W E h₀ allowed (record::records) h)
    (houtcome : (recoverOutcome W record).exec h = some (.ok outcome,h₁))
    (hcomplete : (completeCommand W record.commandId outcome []).exec h₁ = some (.ok emitted,h')) :
    Resolving W E h₀ allowed records h' ∧ h'.handed = h.handed ∧
      h.state.view.Ends record h'.state.view := by
  obtain ⟨answer,h₃,hcall,hpure⟩ := bind_returns.mp houtcome
  obtain ⟨-,rfl⟩ : _ ∧ h₃ = h₁ := by simpa [exec_pure] using hpure
  obtain rfl := (Prod.mk.inj (Option.some.inj hcall)).2
  have hs₁ : Sound W E _ := (keeps_recoverOutcome record).ok hr.recovering.sound houtcome
  have hs' : Sound W E h' := (keeps_completeCommand _ _ _).ok hs₁ hcomplete
  obtain ⟨hhanded,x,hx,hid,hends⟩ := completeCommand_closes hs₁ (hs₁.inOrder hdigest) hcomplete
  obtain ⟨hlive,hstarted⟩ := hr.live record (by simp)
  obtain rfl := List.inj_on_of_nodup_map hr.recovering.sound.distinctIds.commands hx hlive hid
  have hne : ∀ r ∈ records, r.commandId ≠ x.commandId := fun r hr' hrid =>
    (List.nodup_cons.mp hr.distinct).1 (List.mem_map.mpr ⟨r,hr',hrid⟩)
  refine ⟨⟨hr.recovering.finish hs' hlive hstarted hends hhanded,(List.nodup_cons.mp hr.distinct).2,
    fun r hr' => ?_,fun r hr' hrs => ?_⟩,hhanded,hends⟩
  · obtain ⟨hmem,hrs⟩ := hr.live r (List.mem_cons_of_mem _ hr')
    exact ⟨hends.others r hmem (hne r hr') (by simp [hrs]),hrs⟩
  · -- what is still started is not the one that ended
    have hrid : r.commandId ≠ x.commandId := fun hrid => by simp [hends.ended r hr' hrid] at hrs
    refine (List.mem_cons.mp (hr.all r (hends.started r hr' hrs hrid) hrs)).resolve_left fun hrx => ?_
    exact hrid (congrArg (·.commandId) hrx)

theorem resolveStarted_recovering {allowed : CommandRecord → Prop} {records : List CommandRecord}
    {results results' : List CommandProcessResult} (hdigest : Set.InjOn W.handle.commandDigest E)
    (hr : Resolving W E h₀ allowed records h)
    (hexec : (resolveStarted W records results).exec h = some (.ok results',h')) :
    Resolving W E h₀ allowed [] h' ∧ h'.handed = h.handed := by
  induction records generalizing results h with
  | nil =>
    obtain ⟨-,rfl⟩ : _ ∧ h = h' := by simpa [resolveStarted,exec_pure] using hexec
    exact ⟨hr,rfl⟩
  | cons record records ih =>
    obtain ⟨outcome,h₁,houtcome,hrest⟩ := bind_returns.mp hexec
    obtain ⟨emitted,h₂,hcomplete,hloop⟩ := bind_returns.mp hrest
    obtain ⟨hr₂,hhanded,-⟩ := hr.turn hdigest houtcome hcomplete
    obtain ⟨hr',hsame⟩ := ih hr₂ hloop
    exact ⟨hr',hsame.trans hhanded⟩

theorem Resolving.init {allowed : CommandRecord → Prop} (hs₀ : Sound W E h₀) :
    Resolving W E h₀ allowed (h₀.state.commands.filter (·.state == .dispatchStarted)) h₀ where
  recovering := .init hs₀
  distinct := hs₀.distinctIds.commands.sublist (List.filter_sublist.map _)
  live := fun _ hr => ⟨(List.mem_filter.mp hr).1,by simpa using (List.mem_filter.mp hr).2⟩
  all := fun _ hr hrs => List.mem_filter.mpr ⟨hr,by simp [hrs]⟩

theorem clear_of_proceeds {v v' : CommandView} {id : String} (hclear : v.Clear id) (h : v.Proceeds v')
    (hsame : v'.processed id = v.processed id) : v'.Clear id := by
  intro x hx hreceived hsession hseq
  rw [CommandView.expected,hsame] at hseq
  exact hclear x (h.received x hx hreceived) hreceived hsession hseq

theorem acceptReadySessions_cons {sessionId : String} {sessionIds : List String}
    {actions actions' : RecoveryActions}
    (hexec : (acceptReadySessions W (sessionId::sessionIds) actions).exec h = some (.ok actions',h')) :
    ∃ a h₁ results, (acceptNextReadyCommand W sessionId).exec h = some (.ok a,h₁) ∧
      (acceptReadySessions W sessionIds ⟨results,actions.commands ++ (a.bind (·.command)).toList⟩).exec
        { h₁ with handed := (a.bind (·.command)).toList.map (·.commandId) ++ h₁.handed } =
          some (.ok actions',h') := by
  obtain ⟨accepted,h₁,haccept,hrest⟩ := bind_returns.mp hexec
  cases accepted with
  | none => exact ⟨none,h₁,actions.results,haccept,by simpa using hrest⟩
  | some a =>
    obtain ⟨u,h₂,hnote,hloop⟩ := bind_returns.mp hrest
    rw [noteAcceptance_exec] at hnote
    obtain rfl := (Prod.mk.inj (Option.some.inj hnote)).2
    exact ⟨some a,h₁,_,haccept,hloop⟩

/-- Some sessions had their turn, and `commands` were handed over. -/
structure Turns (h h' : Host σ) (sessionIds : List String) (commands : List CommandEnvelope) : Prop
    extends h.state.view.Proceeds h'.state.view where
  stays : h'.state.view.processed = h.state.view.processed
  sessions : ∀ c ∈ commands, c.sessionId ∈ sessionIds
  waited : ∀ c ∈ commands, ∃ x ∈ h.state.commands, x.state = .received ∧ recordToEnvelope x = c
  handed : ∀ id, id ∈ h'.handed ↔ id ∈ commands.map (·.commandId) ∨ id ∈ h.handed
  started : ∀ r ∈ h'.state.commands, r.state = .dispatchStarted → r ∈ h.state.commands ∨
    r.commandId ∈ commands.map (·.commandId)
  clear : ∀ id ∈ sessionIds, h'.state.view.Clear id
  waits : ∀ x ∈ h.state.commands, x.state = .received → x ∈ h'.state.commands ∨
    recordToEnvelope x ∈ commands

namespace Turns

variable {h'' : Host σ} {sessionIds sessionIds' : List String} {commands commands' : List CommandEnvelope}

theorem refl (h : Host σ) : Turns h h [] [] where
  toProceeds := .refl _
  stays := rfl
  sessions := by simp
  waited := by simp
  handed := by simp
  started := fun _ hr _ => .inl hr
  clear := by simp
  waits := fun _ hx _ => .inl hx

theorem trans (ht : Turns h h' sessionIds commands) (ht' : Turns h' h'' sessionIds' commands') :
    Turns h h'' (sessionIds ++ sessionIds') (commands ++ commands') where
  toProceeds := ht.toProceeds.trans ht'.toProceeds
  stays := ht'.stays.trans ht.stays
  sessions := by
    intro c hc
    rcases List.mem_append.mp hc with hc | hc
    · exact List.mem_append_left _ (ht.sessions c hc)
    · exact List.mem_append_right _ (ht'.sessions c hc)
  waited := by
    intro c hc
    rcases List.mem_append.mp hc with hc | hc
    · exact ht.waited c hc
    · obtain ⟨x,hx,hreceived,rfl⟩ := ht'.waited c hc
      exact ⟨x,ht.received x hx hreceived,hreceived,rfl⟩
  handed := by
    intro id
    rw [ht'.handed,ht.handed,List.map_append,List.mem_append]
    tauto
  started := by
    intro r hr hrs
    rw [List.map_append,List.mem_append]
    rcases ht'.started r hr hrs with hold | hnew
    · exact (ht.started r hold hrs).imp_right .inl
    · exact .inr (.inr hnew)
  clear := by
    intro id hid
    rcases List.mem_append.mp hid with hid | hid
    · exact clear_of_proceeds (ht.clear id hid) ht'.toProceeds (congrFun ht'.stays id)
    · exact ht'.clear id hid
  waits := by
    intro x hx hreceived
    rw [List.mem_append]
    rcases ht.waits x hx hreceived with hold | hnew
    · exact (ht'.waits x hold hreceived).imp_right .inr
    · exact .inr (.inl hnew)

theorem known (ht : Turns h h' sessionIds commands) : ∀ c ∈ commands, c ∈ h.state.view.envelopes := by
  intro c hc
  obtain ⟨x,hx,-,hsame⟩ := ht.waited c hc
  exact ⟨x,hx,hsame⟩

/-- The next command of a session whose turn it was has been handed over. -/
theorem released (ht : Turns h h' sessionIds commands) {x : CommandRecord} (hx : x ∈ h.state.commands)
    (hreceived : x.state = .received) (hsession : x.sessionId ∈ sessionIds)
    (hseq : x.serverCommandSeq = h.state.view.expected x.sessionId) : recordToEnvelope x ∈ commands := by
  refine (ht.waits x hx hreceived).resolve_left fun hlive => ?_
  refine ht.clear _ hsession x hlive hreceived rfl ?_
  rwa [CommandView.expected,ht.stays]

end Turns

theorem acceptNextReadyCommand_turns {allowed : CommandRecord → Prop} {sessionId : String}
    {a : Option CommandAcceptance} (hdigest : Set.InjOn W.handle.commandDigest E)
    (hallowed : ∀ x, h₀.state.gapless x = true → allowed x) (hr : Recovering W E h₀ allowed h)
    (hexec : (acceptNextReadyCommand W sessionId).exec h = some (.ok a,h')) :
    let after := { h' with handed := (a.bind (·.command)).toList.map (·.commandId) ++ h'.handed }
    Recovering W E h₀ allowed after ∧ Turns h after [sessionId] (a.bind (·.command)).toList := by
  have horder := hr.sound.inOrder hdigest
  obtain ⟨hs',hunhanded⟩ := (acceptNextReadyCommand_sound sessionId).ok hr.sound hexec
  obtain ⟨hhanded,⟨hnone,hview,hclear⟩ | ⟨x,hx,hreceived,hsession,hseq,hsome,hstarts,hclear⟩⟩ :=
    acceptNextReadyCommand_starts hr.sound horder hexec
  · have hcommands : h'.state.commands = h.state.commands := congrArg (·.commands) hview
    simp only [hnone,Option.toList_none,List.map_nil,List.nil_append]
    refine ⟨hr.same hs' hview hhanded,hview ▸ .refl _,congrArg (·.processed) hview,by simp,by simp,
      by simp [hhanded],fun r hr _ => .inl (hcommands ▸ hr),fun id hid => ?_,fun y hy _ => ?_⟩
    · rw [hview,List.mem_singleton.mp hid]
      exact hclear
    · rw [hcommands]
      exact .inl hy
  · have hfresh : ∀ c, a.bind (·.command) = some c → Unhanded h' c.commandId := by
      intro c hc
      obtain ⟨accepted,ha,hac⟩ := Option.bind_eq_some_iff.mp hc
      exact hunhanded accepted c ha hac
    have hs₂ := hs'.handOver hfresh
    have hgapless := hr.gapless horder hreceived (by rw [hsession]; exact hseq.le)
    rw [hsome] at hs₂ ⊢
    refine ⟨hr.take hs₂ hx hreceived (hallowed x hgapless) hstarts.toTouches (congrArg _ hhanded),
      hstarts.toProceeds,hstarts.stays,?_,?_,?_,fun r hr hrs => ?_,fun id hid => ?_,fun y hy hyr => ?_⟩
    · simp [recordToEnvelope,hsession]
    · exact fun c hc => ⟨x,hx,hreceived,(List.mem_singleton.mp hc).symm⟩
    · simp [hhanded]
    · by_cases hid : r.commandId = x.commandId
      · exact .inr (by simp [hid,recordToEnvelope])
      · exact .inl (hstarts.started r hr hrs hid)
    · rw [List.mem_singleton.mp hid]
      exact hclear
    · by_cases hid : y.commandId = x.commandId
      · obtain rfl := List.inj_on_of_nodup_map hr.sound.distinctIds.commands hy hx hid
        exact .inr (by simp)
      · exact .inl (hstarts.others y hy hid (by simp [hyr]))

theorem acceptReadySessions_turns {allowed : CommandRecord → Prop} {sessionIds : List String}
    {actions actions' : RecoveryActions} (hdigest : Set.InjOn W.handle.commandDigest E)
    (hallowed : ∀ x, h₀.state.gapless x = true → allowed x) (hr : Recovering W E h₀ allowed h)
    (hexec : (acceptReadySessions W sessionIds actions).exec h = some (.ok actions',h')) :
    Recovering W E h₀ allowed h' ∧ ∃ commands, actions'.commands = actions.commands ++ commands ∧
      Turns h h' sessionIds commands := by
  induction sessionIds generalizing actions h with
  | nil =>
    obtain ⟨rfl,rfl⟩ : actions = actions' ∧ h = h' := by
      simpa [acceptReadySessions,exec_pure] using hexec
    exact ⟨hr,[],by simp,.refl _⟩
  | cons sessionId sessionIds ih =>
    obtain ⟨a,h₁,results,haccept,hrest⟩ := acceptReadySessions_cons hexec
    obtain ⟨hr₁,ht₁⟩ := acceptNextReadyCommand_turns hdigest hallowed hr haccept
    obtain ⟨hr',commands,hcommands,ht⟩ := ih hr₁ hrest
    exact ⟨hr',_,by rw [hcommands,List.append_assoc],ht₁.trans ht⟩

/-- Let the commands that are out run to their end, in any order and with any outcome; a
command that a completion releases is out from then on. -/
inductive Drains (W : World σ) : Host σ → List CommandEnvelope → Host σ → Prop
  | idle (h : Host σ) : Drains W h [] h
  | finish {h h₁ h' : Host σ} {before after : List CommandEnvelope} {command : CommandEnvelope}
      {outcome : DispatchOutcome} {events : List Event} {actions : RuntimeActions}
      (hexec : (Coordinator.finishRuntime W command.sessionId command.commandId outcome events).exec h =
        some (.ok actions,h₁))
      (hrest : Drains W h₁ (before ++ after ++ actions.commands) h') :
      Drains W h (before ++ command::after) h'

/-- The commands that are out while nothing else can go on: what is started is among them,
and no session has its next command waiting. -/
structure Busy (h₀ h : Host σ) (out : List CommandEnvelope) : Prop where
  known : ∀ c ∈ out, c ∈ h₀.state.view.envelopes
  handed : ∀ c ∈ out, c.commandId ∈ h.handed
  started : ∀ r ∈ h.state.commands, r.state = .dispatchStarted → r.commandId ∈ out.map (·.commandId)
  clear : ∀ id, h.state.view.Clear id

theorem Drains.recovering {out : List CommandEnvelope} (hdigest : Set.InjOn W.handle.commandDigest E)
    (hdrain : Drains W h out h') (hr : Recovering W E h₀ (h₀.state.gapless · = true) h)
    (hs₀ : Sound W E h₀) (hbusy : Busy h₀ h out) :
    Recovering W E h₀ (h₀.state.gapless · = true) h' ∧ Busy h₀ h' [] := by
  induction hdrain with
  | idle h => exact ⟨hr,hbusy⟩
  | @finish h h₃ h' before after command outcome events actions hexec hrest ih =>
    obtain ⟨emitted,h₁,next,h₂,hcomplete,hnext,hcommands,rfl⟩ := Coordinator.finishRuntime_ok hexec
    have hs₁ : Sound W E h₁ := (keeps_completeCommand _ _ _).ok hr.sound hcomplete
    obtain ⟨hhanded,x,hx,hid,hends⟩ := completeCommand_closes hr.sound (hr.sound.inOrder hdigest) hcomplete
    have hcommand : command ∈ before ++ command::after := by simp
    -- the completed record is the one that is out
    have hsame : recordToEnvelope x = command := by
      obtain ⟨x₀,hx₀,hx₀same⟩ := hr.proceeds.back x hx
      obtain ⟨y,hy,rfl⟩ := hbusy.known command hcommand
      have hxy : x₀.commandId = y.commandId := (congrArg (·.commandId) hx₀same).trans hid
      rw [← hx₀same,List.inj_on_of_nodup_map hs₀.distinctIds.commands hx₀ hy hxy]
    have hr₁ : Recovering W E h₀ (h₀.state.gapless · = true) h₁ :=
      hr.touch hs₁ hends.toTouches (fun id hid => hhanded ▸ hid) (fun id hid => .inl (hhanded ▸ hid))
        fun y _ _ hyid => by
          rw [hhanded,hyid,hid]
          exact hbusy.handed command hcommand
    have hsession : x.sessionId = command.sessionId := congrArg (·.sessionId) hsame
    have hclear₁ : ∀ id, id ≠ command.sessionId → h₁.state.view.Clear id := fun id hne =>
      clear_of_proceeds (hbusy.clear id) hends.toProceeds (hends.elsewhere id (hsession ▸ hne))
    have hstarted₁ : ∀ r ∈ h₁.state.commands, r.state = .dispatchStarted →
        r.commandId ∈ (before ++ after).map (·.commandId) := by
      intro r hr hrs
      have hrid : r.commandId ≠ command.commandId := fun hrid => by
        simp [hends.ended r hr (hrid.trans hid.symm)] at hrs
      have hout := hbusy.started r (hends.started r hr hrs (hid ▸ hrid)) hrs
      simp only [List.map_append,List.map_cons,List.mem_append,List.mem_cons] at hout ⊢
      exact hout.imp_right fun hor => hor.resolve_left hrid
    have hrest₁ : ∀ c ∈ before ++ after, c ∈ h₀.state.view.envelopes ∧ c.commandId ∈ h₁.handed := by
      intro c hc
      have hmem : c ∈ before ++ command::after := by
        simp only [List.mem_append,List.mem_cons] at hc ⊢
        tauto
      rw [hhanded]
      exact ⟨hbusy.known c hmem,hbusy.handed c hmem⟩
    obtain ⟨hr₃,ht⟩ := acceptNextReadyCommand_turns hdigest (fun _ hx => hx) hr₁ hnext
    rw [← hcommands] at hr₃ ht
    refine ih hr₃ ⟨fun c hc => ?_,fun c hc => (ht.handed _).mpr ?_,fun r hr hrs => ?_,fun id => ?_⟩
    · rcases List.mem_append.mp hc with hc | hc
      · exact (hrest₁ c hc).1
      · obtain ⟨r,hr,rfl⟩ := ht.known c hc
        exact hr₁.proceeds.back r hr
    · rcases List.mem_append.mp hc with hc | hc
      · exact .inr (hrest₁ c hc).2
      · exact .inl (List.mem_map_of_mem hc)
    · rw [List.map_append,List.mem_append]
      exact (ht.started r hr hrs).imp_left fun hold => hstarted₁ r hold hrs
    · by_cases hne : id = command.sessionId
      · exact ht.clear id (by simp [hne])
      · exact clear_of_proceeds (hclear₁ id hne) ht.toProceeds (congrFun ht.stays id)

end

end Journal
end North
