import North.JournalReleases
import North.LoopCustody

/-! A cancel may overtake the commands it is meant to interrupt, and whether it does is
decided when it arrives. One that arrives too early stays behind a command that starts
later; this module says when that cannot happen. -/
namespace North
namespace Journal

open Machine Protocol Prog

namespace JournalFile

variable (s : JournalFile)

/-- A cancel of the session above this sequence is Received and waits. -/
def waitingCancel (sessionId : String) (seq : ℕ) : Bool :=
  s.commands.any fun c => c.sessionId == sessionId && decide (seq < c.serverCommandSeq) &&
    c.command.isSessionCancel && c.state == .received

/-- The command of a frame is next in its session and was not started before. -/
def startable (e : CommandEnvelope) : Bool :=
  decide (e.serverCommandSeq ≤ s.expectedCommandSequence e.sessionId) &&
    match s.commands.find? (fun r => decide (r.commandId = e.commandId)) with
    | some r => r.state == .received
    | none => decide (e.serverCommandSeq = s.expectedCommandSequence e.sessionId) &&
        !s.commandTombstones.any fun t => t.commandId == e.commandId

/-- The record waits for sequences that are processed or `ended`. -/
def comesUp (ended : CommandRecord → Bool) (x : CommandRecord) : Bool :=
  x.state == .received && (List.range x.serverCommandSeq).all fun n =>
    decide (n ≤ (s.session x.sessionId).processedThroughSeq) ||
      s.commands.any fun r => r.sessionId == x.sessionId && r.serverCommandSeq == n && ended r

/-- No record that comes up (one of those that `may`) has a cancel waiting above it. -/
def clears (may ended : CommandRecord → Bool) : Bool :=
  s.commands.all fun x => !(may x && s.comesUp ended x) ||
    !s.waitingCancel x.sessionId x.serverCommandSeq

end JournalFile

namespace CommandView

variable {v v' : CommandView}

/-- No cancel waits above a started command of its session. -/
def Unblocked (v : CommandView) : Prop := ∀ r ∈ v.commands, ∀ c ∈ v.commands,
  r.state = .dispatchStarted → c.state = .received → c.command.isSessionCancel = true →
    c.sessionId = r.sessionId → c.serverCommandSeq ≤ r.serverCommandSeq

theorem Unblocked.wanes (h : v.Unblocked) (hw : v.Wanes v') : v'.Unblocked := by
  intro r hr c hc hstarted hreceived hcancel hsession
  exact h r (hw r hr (by simp [hstarted])) c (hw c hc (by simp [hreceived])) hstarted hreceived
    hcancel hsession

theorem Unblocked.receive (h : v.Unblocked) {x : CommandRecord} (hx : x.state = .received)
    (hprior : x.command.isSessionCancel = true → ∀ r ∈ v.commands, r.state = .dispatchStarted →
      r.sessionId = x.sessionId → x.serverCommandSeq ≤ r.serverCommandSeq)
    (hv : v'.commands = v.commands ++ [x]) : v'.Unblocked := by
  intro r hr c hc hstarted hreceived hcancel hsession
  rw [hv] at hr hc
  have hrold : r ∈ v.commands := by
    refine (List.mem_append.mp hr).resolve_right fun hnew => ?_
    obtain rfl := List.mem_singleton.mp hnew
    simp [hx] at hstarted
  rcases List.mem_append.mp hc with hc | hc
  · exact h r hrold c hc hstarted hreceived hcancel hsession
  · obtain rfl := List.mem_singleton.mp hc
    exact hprior hcancel r hrold hstarted hsession.symm

theorem Unblocked.start (h : v.Unblocked) (hids : v'.DistinctIds) {x : CommandRecord} {now : String}
    (hsub : ∀ r ∈ v'.commands, r ∈ v.commands ∨ r = x) (hx : x ∈ v'.commands)
    (hclear : ∀ c ∈ v.commands, c.state = .received → c.command.isSessionCancel = true →
      c.sessionId = x.sessionId → c.serverCommandSeq ≤ x.serverCommandSeq) :
    (v'.update x.commandId (startRecord now)).Unblocked := by
  have hmap : (v'.update x.commandId (startRecord now)).commands =
      v'.commands.map fun r => if r.commandId = x.commandId then startRecord now r else r :=
    Table.updateFirst_eq_map _ _ _ _ hids.commands
  have hold : ∀ r ∈ (v'.update x.commandId (startRecord now)).commands,
      r ∈ v.commands ∨ r = startRecord now x := by
    intro r hr
    rw [hmap] at hr
    obtain ⟨y,hy,rfl⟩ := List.mem_map.mp hr
    by_cases hid : y.commandId = x.commandId
    · obtain rfl := List.inj_on_of_nodup_map hids.commands hy hx hid
      exact .inr (if_pos rfl)
    · rw [if_neg hid]
      exact (hsub y hy).imp_right fun hyx => absurd (congrArg _ hyx) hid
  intro r hr c hc hstarted hreceived hcancel hsession
  have hcold : c ∈ v.commands := by
    refine (hold c hc).resolve_right fun hnew => ?_
    rw [hnew] at hreceived
    cases hreceived
  rcases hold r hr with hr | rfl
  · exact h r hr c hcold hstarted hreceived hcancel hsession
  · exact hclear c hcold hreceived hcancel hsession

theorem mem_started {commandId now : String} {r : CommandRecord}
    (hr : r ∈ (v.update commandId (startRecord now)).commands) :
    r ∈ v.commands ∨ r.commandId = commandId := by
  rcases Table.mem_updateFirst hr with hr | ⟨y,hy,rfl⟩
  · exact .inl hr
  · exact .inr (Table.find?_key hy).2

end CommandView

theorem JournalFile.waitingCancel_false {s : JournalFile} {sessionId : String} {seq : ℕ} :
    s.waitingCancel sessionId seq = false ↔ ∀ c ∈ s.commands, c.state = .received →
      c.command.isSessionCancel = true → c.sessionId = sessionId → c.serverCommandSeq ≤ seq := by
  simp only [JournalFile.waitingCancel,List.any_eq_false,Bool.and_eq_true,beq_iff_eq,
    decide_eq_true_eq,not_and]
  constructor
  · intro h c hc hreceived hcancel hsession
    by_contra hlt
    exact h c hc ⟨⟨hsession,Nat.not_le.mp hlt⟩,hcancel⟩ hreceived
  · rintro h c hc ⟨⟨hsession,hlt⟩,hcancel⟩ hreceived
    exact absurd (h c hc hreceived hcancel hsession) (Nat.not_le.mpr hlt)

section

variable {σ : Type} {W : World σ} {E : Set CommandEnvelope} {h h' : Host σ}

theorem startable_of_prepare {J : Handle} {s s' : JournalFile} {e : CommandEnvelope} {digest : String}
    {m : Option String} {now : Clock} {p : Prepared}
    (howned : ∀ r ∈ s.commands, r.daemonId = J.daemonId)
    (hprepare : prepareCommand J e digest m now s = .ok (p,s')) (hreceived : p.record.state = .received)
    (hbuffered : p.buffered = false) : s.startable e = true := by
  have hwaiting := waiting_of_prepare howned hprepare hreceived
  rcases (prepareCommand_cases hprepare).2 with ⟨hfind,rfl,-⟩ | ⟨-,hterm⟩ |
    ⟨hnew,hnew',⟨hle,-⟩,-,hb,-⟩
  · have hle := hwaiting.buffered.symm.trans hbuffered
    rw [JournalFile.startable,hfind,JournalFile.expectedCommandSequence_eq]
    simpa [hreceived] using hle
  · simp [hreceived] at hterm
  · have hge : e.serverCommandSeq ≤ s.view.expected e.sessionId := by
      simpa using hb.symm.trans hbuffered
    have hnone : s.commands.find? (fun r => decide (r.commandId = e.commandId)) = none :=
      Table.find?_key_none.mpr hnew
    have htomb : s.commandTombstones.any (fun t => t.commandId == e.commandId) = false := by
      simpa using hnew'
    simp [JournalFile.startable,hnone,htomb,JournalFile.expectedCommandSequence_eq,
      le_antisymm hge hle]

theorem acceptCommandWithControl_unblocked {e : CommandEnvelope} {a : CommandAcceptance}
    (he : e ∈ E) (hs : Sound W E h) (hu : h.state.view.Unblocked)
    (hclear : h.state.startable e = true → h.state.waitingCancel e.sessionId e.serverCommandSeq = false)
    (hexec : (acceptCommandWithControl W e e.command.isSessionCancel).exec h = some (.ok a,h')) :
    h'.state.view.Unblocked ∧ ∀ r ∈ h'.state.commands, r.state = .dispatchStarted →
      r ∈ h.state.commands ∨ r.commandId ∈ a.command.toList.map (·.commandId) := by
  obtain ⟨hvalid,now,p,s,hprepare,hcase⟩ := acceptCommandWithControl_ok hexec
  have hwaiting := waiting_of_prepare (fun r hr => (hs.genuine r hr).owned) hprepare
  have hids := (prepareCommand_moves he hvalid hprepare).distinctIds hs.distinctIds
  have hcases := (prepareCommand_cases hprepare).2
  rcases hcase with ⟨hnone,hsettled,hwait⟩ | ⟨now',s',hsome,hreceived,hgo,hmark,hsettled⟩
  · rw [hsettled.state]
    rcases hcases with ⟨-,rfl,-⟩ | ⟨rfl,-⟩ | ⟨-,-,-,hrecord,-,hs'⟩
    · exact ⟨hu,fun r hr _ => .inl hr⟩
    · exact ⟨hu,fun r hr _ => .inl hr⟩
    · have hreceived : p.record.state = .received := by rw [hrecord]; rfl
      have hlive := hwaiting hreceived
      refine ⟨hu.receive hreceived (fun hcancel r hr hstarted hsession => ?_) (by rw [hs']; rfl),
        fun r hr hstarted => ?_⟩
      · rw [hlive.command] at hcancel
        rw [hlive.session] at hsession
        rw [hlive.seq]
        by_contra hlt
        have hprior : hasPriorDispatchStarted e s = true := by
          simp only [hasPriorDispatchStarted,List.any_eq_true,Bool.and_eq_true,beq_iff_eq,
            decide_eq_true_eq]
          exact ⟨r,by rw [hs']; exact List.mem_append_left _ hr,⟨hsession,Nat.not_le.mp hlt⟩,hstarted⟩
        rcases hwait with hwait | ⟨hbuffered,hwait⟩ | ⟨now',hmark⟩
        · exact hwait hreceived
        · simp [hcancel,hbuffered,hprior] at hwait
        · simp [markDispatchStarted,hlive.live,hreceived] at hmark
      · rw [hs'] at hr
        refine .inl ((List.mem_append.mp hr).resolve_right fun hnew => ?_)
        obtain rfl := List.mem_singleton.mp hnew
        simp [hreceived] at hstarted
  · have hlive := hwaiting hreceived
    have hmem : p.record ∈ s.commands := List.mem_of_find?_eq_some hlive.live
    have hsub : ∀ r ∈ s.commands, r ∈ h.state.commands ∨ r = p.record := by
      rcases hcases with ⟨-,rfl,-⟩ | ⟨rfl,-⟩ | ⟨-,-,-,-,-,hs'⟩
      · exact fun r hr => .inl hr
      · exact fun r hr => .inl hr
      · intro r hr
        rw [hs'] at hr
        exact (List.mem_append.mp hr).imp_right List.mem_singleton.mp
    rcases markDispatchStarted_cases hmark with ⟨hfalse,-⟩ | ⟨-,r₀,-,-,hview⟩
    · cases hfalse
    have hfree : ∀ c ∈ h.state.commands, c.state = .received → c.command.isSessionCancel = true →
        c.sessionId = p.record.sessionId → c.serverCommandSeq ≤ p.record.serverCommandSeq := by
      rw [hlive.session,hlive.seq]
      cases hbuffered : p.buffered with
      | false =>
        exact JournalFile.waitingCancel_false.mp (hclear (startable_of_prepare
          (fun r hr => (hs.genuine r hr).owned) hprepare hreceived hbuffered))
      | true =>
        have hcontrol := hgo hbuffered
        simp only [Bool.and_eq_true,hasPriorDispatchStarted,List.any_eq_true,beq_iff_eq,
          decide_eq_true_eq] at hcontrol
        obtain ⟨-,q,hq,⟨hqs,hlt⟩,hstarted⟩ := hcontrol
        have hqold : q ∈ h.state.commands := (hsub q hq).resolve_right fun hnew => by
          rw [hnew,hreceived] at hstarted
          cases hstarted
        intro c hc hcr hcancel hsession
        exact le_of_lt (lt_of_le_of_lt (hu q hqold c hc hstarted hcr hcancel (hsession.trans hqs.symm)) hlt)
    rw [hsettled.state,hview]
    refine ⟨hu.start hids hsub hmem hfree,fun r hr hstarted => ?_⟩
    have hr' : r ∈ (s.view.update p.record.commandId (startRecord (now' 0))).commands := by
      rw [← hview]
      exact hsettled.state ▸ hr
    rcases CommandView.mem_started hr' with hold | hid
    · refine (hsub r hold).imp_right fun hnew => ?_
      rw [hnew,hsome]
      exact List.mem_singleton.mpr rfl
    · rw [hsome]
      exact .inr (List.mem_singleton.mpr hid)

theorem JournalFile.clears_above {s : JournalFile} {may ended : CommandRecord → Bool} {v : CommandView}
    (hclears : s.clears may ended = true) (hdone : Completes (ended · = true) s.view v)
    {x : CommandRecord} (hx : x ∈ v.commands) (hreceived : x.state = .received) (hmay : may x = true)
    (hseq : x.serverCommandSeq = v.expected x.sessionId) :
    ∀ c ∈ v.commands, c.state = .received → c.command.isSessionCancel = true →
      c.sessionId = x.sessionId → c.serverCommandSeq ≤ x.serverCommandSeq := by
  have hcomes : s.comesUp ended x = true := by
    simp only [JournalFile.comesUp,hreceived,beq_self_eq_true,Bool.true_and,List.all_eq_true,
      List.mem_range,Bool.or_eq_true,decide_eq_true_eq]
    intro n hn
    rcases Nat.lt_or_ge ((s.session x.sessionId).processedThroughSeq) n with hlt | hle
    · have hhi : n ≤ v.processed x.sessionId := by
        rw [hseq,CommandView.expected,saturatingSucc] at hn
        omega
      obtain ⟨r,hr,hrs,hrn,hover⟩ := hdone.passes x.sessionId n hlt hhi
      refine .inr (List.any_eq_true.mpr ⟨r,hr,?_⟩)
      simp [hrs,hrn,hover]
    · exact .inl hle
  have hall := List.all_eq_true.mp hclears x (hdone.wanes x hx (by simp [hreceived]))
  have hfree : s.waitingCancel x.sessionId x.serverCommandSeq = false := by
    simpa [hmay,hcomes] using hall
  intro c hc hcr hcancel hsession
  exact JournalFile.waitingCancel_false.mp hfree c (hdone.wanes c hc (by simp [hcr])) hcr hcancel hsession

theorem acceptNextReadyCommand_unblocked {sessionId : String} {a : Option CommandAcceptance}
    (hs : Sound W E h) (hu : h.state.view.Unblocked)
    (hclear : ∀ x ∈ h.state.commands, x.state = .received → x.sessionId = sessionId →
      x.serverCommandSeq = h.state.view.expected x.sessionId → ∀ c ∈ h.state.commands,
        c.state = .received → c.command.isSessionCancel = true → c.sessionId = x.sessionId →
          c.serverCommandSeq ≤ x.serverCommandSeq)
    (hexec : (acceptNextReadyCommand W sessionId).exec h = some (.ok a,h')) :
    h'.state.view.Unblocked ∧ (∀ r ∈ h'.state.commands, r.state = .received → r ∈ h.state.commands) ∧
      h'.state.view.processed = h.state.view.processed ∧
      ∀ r ∈ h'.state.commands, r.state = .dispatchStarted → r ∈ h.state.commands ∨
        r.commandId ∈ (a.bind (·.command)).toList.map (·.commandId) := by
  rcases acceptNextReadyCommand_cases hs hexec with ⟨-,hsame⟩ |
    ⟨x,hx,now,hreceived,hsession,hseq,hsome,hview⟩
  · rw [hsame]
    exact ⟨hu,fun r hr _ => hr,rfl,fun r hr _ => .inl hr⟩
  · have hcommands : h'.state.commands =
        (h.state.view.update x.commandId (startRecord now)).commands := congrArg (·.commands) hview
    refine ⟨?_,fun r hr hrr => ?_,by rw [hview]; rfl,fun r hr _ => ?_⟩
    · rw [hview]
      exact hu.start hs.distinctIds (fun r hr => .inl hr) hx
        (hclear x hx hreceived hsession (hsession.symm ▸ hseq))
    · rw [hcommands] at hr
      rcases Table.mem_updateFirst hr with hold | ⟨y,-,rfl⟩
      · exact hold
      · cases hrr
    · rw [hcommands] at hr
      rw [hsome]
      exact (CommandView.mem_started hr).imp_right List.mem_singleton.mpr

theorem Coordinator.finishRuntime_unblocked {sessionId commandId : String} {outcome : DispatchOutcome}
    {events : List Event} {actions : RuntimeActions} (hs : Sound W E h) (hu : h.state.view.Unblocked)
    (hclears : h.state.clears (·.sessionId == sessionId)
      (fun r => r.state == .terminal || r.commandId == commandId) = true)
    (hexec : (finishRuntime W sessionId commandId outcome events).exec h = some (.ok actions,h')) :
    h'.state.view.Unblocked ∧ ∀ r ∈ h'.state.commands, r.state = .dispatchStarted →
      r ∈ h.state.commands ∨ r.commandId ∈ actions.commands.map (·.commandId) := by
  obtain ⟨emitted,h₁,next,h₂,hcomplete,hnext,hcommands,rfl⟩ := finishRuntime_ok hexec
  have hs₁ : Sound W E h₁ := (keeps_completeCommand commandId outcome events).ok hs hcomplete
  have hdone : Completes (fun r => (r.state == .terminal || r.commandId == commandId) = true)
      h.state.view h₁.state.view := by
    have hsame : (fun r : CommandRecord => (r.state == .terminal || r.commandId == commandId) = true) =
        endsWith commandId := by
      funext r
      simp [endsWith]
    rw [hsame]
    exact completeCommand_completes hcomplete
  obtain ⟨hu₂,-,-,hstarted⟩ := acceptNextReadyCommand_unblocked hs₁ (hu.wanes hdone.wanes)
    (fun x hx hreceived hsession hseq =>
      JournalFile.clears_above hclears hdone hx hreceived (by simp [hsession]) hseq) hnext
  refine ⟨hu₂,fun r hr hrs => ?_⟩
  rw [hcommands]
  exact (hstarted r hr hrs).imp_left fun hold => hdone.wanes r hold (by simp [hrs])

theorem acceptReadySessions_unblocked {sessionIds : List String} {actions actions' : RecoveryActions}
    (hs : Sound W E h) (hu : h.state.view.Unblocked)
    (hclear : ∀ x ∈ h.state.commands, x.state = .received → x.sessionId ∈ sessionIds →
      x.serverCommandSeq = h.state.view.expected x.sessionId → ∀ c ∈ h.state.commands,
        c.state = .received → c.command.isSessionCancel = true → c.sessionId = x.sessionId →
          c.serverCommandSeq ≤ x.serverCommandSeq)
    (hexec : (acceptReadySessions W sessionIds actions).exec h = some (.ok actions',h')) :
    h'.state.view.Unblocked ∧ ∀ r ∈ h'.state.commands, r.state = .dispatchStarted →
      r ∈ h.state.commands ∨ r.commandId ∈ actions'.commands.map (·.commandId) := by
  induction sessionIds generalizing actions h with
  | nil =>
    obtain ⟨-,rfl⟩ : _ ∧ h = h' := by simpa [acceptReadySessions,exec_pure] using hexec
    exact ⟨hu,fun r hr _ => .inl hr⟩
  | cons sessionId sessionIds ih =>
    obtain ⟨accepted,h₁,haccept,hrest⟩ := bind_returns.mp hexec
    obtain ⟨hu₁,hreceived,hprocessed,hstarted⟩ := acceptNextReadyCommand_unblocked hs hu
      (fun x hx hxr hsession => hclear x hx hxr (by simp [hsession])) haccept
    have hclear₁ : ∀ x ∈ h₁.state.commands, x.state = .received → x.sessionId ∈ sessionIds →
        x.serverCommandSeq = h₁.state.view.expected x.sessionId → ∀ c ∈ h₁.state.commands,
          c.state = .received → c.command.isSessionCancel = true → c.sessionId = x.sessionId →
            c.serverCommandSeq ≤ x.serverCommandSeq := by
      intro x hx hxr hsession hseq c hc hcr
      rw [CommandView.expected,hprocessed] at hseq
      exact hclear x (hreceived x hx hxr) hxr (List.mem_cons_of_mem _ hsession) hseq c
        (hreceived c hc hcr) hcr
    cases accepted with
    | none =>
      have hs₁ : Sound W E h₁ := ((acceptNextReadyCommand_sound sessionId).ok hs haccept).1
      obtain ⟨hu',hall⟩ := ih hs₁ hu₁ hclear₁ hrest
      refine ⟨hu',fun r hr hrs => ?_⟩
      rcases hall r hr hrs with hold | hnew
      · exact (hstarted r hold hrs).imp_right fun hempty => by simp at hempty
      · exact .inr hnew
    | some a =>
      obtain ⟨hs₁,hunhanded⟩ := (acceptNextReadyCommand_sound sessionId).ok hs haccept
      obtain ⟨u,h₂,hnote,hloop⟩ := bind_returns.mp hrest
      rw [noteAcceptance_exec] at hnote
      obtain rfl := (Prod.mk.inj (Option.some.inj hnote)).2
      obtain ⟨hu',hall⟩ := ih (hs₁.handOver fun c hc => hunhanded a c rfl hc) hu₁ hclear₁ hloop
      refine ⟨hu',fun r hr hrs => ?_⟩
      rcases hall r hr hrs with hold | hnew
      · refine (hstarted r hold hrs).imp_right fun hid => ?_
        obtain ⟨commands,hcommands,-⟩ := acceptReadySessions_hands hloop
        rw [hcommands,List.map_append,List.map_append]
        exact List.mem_append_left _ (List.mem_append_right _ (by simpa using hid))
      · exact .inr hnew

theorem acknowledgeEventOp_wanes {ack : EventAck} {r : Except JournalError Unit}
    (hexec : (acknowledgeEventOp W ack).exec h = some (r,h')) (hio : ∀ reason, r ≠ .error (.io reason)) :
    h.state.view.Wanes h'.state.view := by
  cases r with
  | ok u =>
    obtain ⟨u',h₁,hcheck,hrest⟩ := bind_returns.mp hexec
    obtain ⟨-,rfl⟩ : _ ∧ h = h₁ := by simpa [exec_orFail] using hcheck
    obtain ⟨s,hsection,hsettled⟩ := update_ok hrest
    rw [hsettled.state]
    exact CommandView.wanes_of_eq (acknowledgeEvent_view hsection)
  | error e =>
    rcases bind_fails.mp hexec with hcheck | ⟨u',h₁,hcheck,hrest⟩
    · obtain ⟨-,rfl⟩ : _ ∧ h = h' := by simpa [exec_orFail] using hcheck
      exact .refl _
    · obtain ⟨-,rfl⟩ : _ ∧ h = h₁ := by simpa [exec_orFail] using hcheck
      rcases (update_error hrest).2 with ⟨reason,rfl⟩ | ⟨-,hsettled⟩
      · exact absurd rfl (hio reason)
      · rw [hsettled.state]
        exact .refl _

theorem Coordinator.acceptEventAck_wanes {ack : EventAck} {frames : List DaemonFrame}
    (hexec : (acceptEventAck W ack).exec h = some (.ok frames,h')) :
    h.state.view.Wanes h'.state.view := by
  obtain ⟨r,h₁,hattempt,hrest⟩ := bind_returns.mp hexec
  have hack := attempt_returns.mp hattempt
  cases r with
  | ok u =>
    obtain ⟨u',h₂,hcompact,hlast⟩ := bind_returns.mp hrest
    obtain ⟨-,rfl⟩ : _ ∧ h₂ = h' := by simpa [exec_pure] using hlast
    obtain ⟨s,hsection,hsettled⟩ := update_ok (journaled_ok.mp hcompact)
    obtain rfl := (Prod.mk.inj (Except.ok.inj (Option.some.inj hsection))).2
    rw [hsettled.state]
    exact (acknowledgeEventOp_wanes hack (by simp)).trans (compactSession_wanes _)
  | error e =>
    cases e with
    | identityConflict reason =>
      obtain ⟨-,rfl⟩ : _ ∧ h₁ = h' := by simpa [exec_pure] using hrest
      exact acknowledgeEventOp_wanes hack (by simp)
    | io reason => simp [exec_fail] at hrest
    | format reason => simp [exec_fail] at hrest
    | protocol error => simp [exec_fail] at hrest
    | gapOverflow sessionId limit => simp [exec_fail] at hrest

theorem Coordinator.acceptServerFrame_unblocked {frame : ServerFrame} {actions : RuntimeActions}
    (hs : Sound W Set.univ h) (hu : h.state.view.Unblocked)
    (hclear : ∀ e, frame = .command e → h.state.startable e = true →
      h.state.waitingCancel e.sessionId e.serverCommandSeq = false)
    (hexec : (acceptServerFrame W frame).exec h = some (.ok actions,h')) :
    h'.state.view.Unblocked ∧ ∀ r ∈ h'.state.commands, r.state = .dispatchStarted →
      r ∈ h.state.commands ∨ r.commandId ∈ actions.commands.map (·.commandId) := by
  have hwaned : h.state.view.Wanes h'.state.view → h'.state.view.Unblocked ∧
      ∀ r ∈ h'.state.commands, r.state = .dispatchStarted →
        r ∈ h.state.commands ∨ r.commandId ∈ actions.commands.map (·.commandId) :=
    fun hw => ⟨hu.wanes hw,fun r hr hrs => .inl (hw r hr (by simp [hrs]))⟩
  cases frame with
  | command e =>
    rcases answerCommand_cases hs hexec with ⟨actions',heq,haccept⟩ | ⟨-,hsettled⟩ | ⟨error,heq⟩
    · obtain rfl := Except.ok.inj heq
      obtain ⟨accepted,h₁,hexec',rfl,rfl⟩ := acceptCommand_ok haccept
      have haccepted := acceptCommandWithControl_unblocked (Set.mem_univ e) hs hu (hclear e rfl) hexec'
      exact haccepted
    · exact hwaned (hsettled.state ▸ .refl _)
    · cases heq
  | eventAck ack =>
    obtain ⟨frames,h₁,hack,hrest⟩ := bind_returns.mp hexec
    obtain ⟨-,rfl⟩ : _ ∧ h₁ = h' := by simpa [exec_pure] using hrest
    exact hwaned (acceptEventAck_wanes hack)
  | protocolError code message => simp [acceptServerFrame,exec_fail] at hexec
  | welcome =>
    obtain ⟨-,rfl⟩ : _ ∧ h = h' := by simpa [acceptServerFrame,exec_pure] using hexec
    exact hwaned (.refl _)
  | reconcile snapshot =>
    obtain ⟨-,rfl⟩ : _ ∧ h = h' := by simpa [acceptServerFrame,exec_pure] using hexec
    exact hwaned (.refl _)

theorem Coordinator.reconcile_wanes {snapshot : ReconcileSnapshot} {frames : List DaemonFrame}
    (hexec : (reconcile W snapshot).exec h = some (.ok frames,h')) :
    h.state.view.Wanes h'.state.view := by
  obtain ⟨u,h₁,happly,hrest⟩ := bind_returns.mp hexec
  obtain rfl := replaySessions_same hrest
  obtain ⟨u',h₂,hcheck,hupdate⟩ := bind_returns.mp (journaled_ok.mp happly)
  obtain ⟨-,rfl⟩ : _ ∧ h = h₂ := by simpa [exec_orFail] using hcheck
  obtain ⟨s,hsection,hsettled⟩ := update_ok hupdate
  obtain rfl := (Prod.mk.inj (Except.ok.inj (Option.some.inj hsection))).2
  rw [hsettled.state]
  exact CommandView.wanes_of_eq (applyReconciliation_view _ snapshot)

theorem reopen_state (hexec : (reopen W).exec h = some (.ok (),h')) : h'.state = h.file := by
  obtain ⟨opened,h₁,hlook,hrest⟩ := bind_returns.mp hexec
  obtain ⟨rfl,rfl⟩ : _ = opened ∧ h = h₁ := by simpa [exec_look] using hlook
  obtain ⟨s,h₂,hopen,hmodify⟩ := bind_returns.mp hrest
  obtain ⟨hok,rfl⟩ : openWithConfig W.handle.daemonId h.file = .ok s ∧ h = h₂ := by
    simpa [exec_orFail] using hopen
  obtain rfl : h.settle s h.file = h' := by simpa [exec_modify] using hmodify
  exact openWithConfig_ok hok

/-- The session of the record gets its turn in a recovery: it is in the map, or a started
command of it is. -/
def JournalFile.recoverable (s : JournalFile) (x : CommandRecord) : Bool :=
  s.sessions.contains x.sessionId ||
    s.commands.any fun r => r.sessionId == x.sessionId && r.state == .dispatchStarted

/-- A recovery leaves nothing started but what it returns, and no cancel behind that. -/
theorem recoverForScheduler_unblocked {actions : RecoveryActions} (hs : Sound W E h)
    (hclears : h.state.clears h.state.recoverable (·.state != .received) = true)
    (hexec : (recoverForScheduler W).exec h = some (.ok actions,h')) :
    h'.state.view.Unblocked ∧ ∀ r ∈ h'.state.commands, r.state = .dispatchStarted →
      r.commandId ∈ actions.commands.map (·.commandId) := by
  obtain ⟨records,h₁,hlook,hrest⟩ := bind_returns.mp hexec
  obtain ⟨rfl,rfl⟩ : _ = records ∧ h = h₁ := by simpa [exec_look] using hlook
  obtain ⟨results,h₂,hresolve,hrest⟩ := bind_returns.mp hrest
  obtain ⟨sessionIds,h₃,hlook',hloop⟩ := bind_returns.mp hrest
  obtain ⟨rfl,rfl⟩ : _ = sessionIds ∧ h₂ = h₃ := by simpa [exec_look] using hlook'
  have hs₂ : Sound W E h₂ := (keeps_resolveStarted _ _).ok hs hresolve
  obtain ⟨hdone,hkeys⟩ := resolveStarted_completes hs.distinctIds
    (fun r hr => ⟨(List.mem_filter.mp hr).1,by simpa using (List.mem_filter.mp hr).2⟩) (.refl fun r _ hterm => by simp [hterm]) hresolve
  have hnone : ∀ r ∈ h₂.state.commands, r.state ≠ .dispatchStarted := by
    intro r hr hstarted
    have hold := hdone.wanes r hr (by simp [hstarted])
    have hover := resolveStarted_done hs hresolve r (List.mem_filter.mpr ⟨hold,by simp [hstarted]⟩)
    rw [JournalFile.Done,CommandView.stage_of_mem hs₂.distinctIds hr,hstarted] at hover
    simp [Stage.ofState,Stage.rank] at hover
  have hdone' : Completes (fun r => (r.state != .received) = true) h.state.view h₂.state.view := by
    simpa only [bne_iff_ne] using hdone
  obtain ⟨hu,hall⟩ := acceptReadySessions_unblocked hs₂
    (fun r hr _ _ hstarted => absurd hstarted (hnone r hr))
    (fun x hx hreceived hsession hseq => JournalFile.clears_above hclears hdone' hx hreceived (by
      rcases (hkeys _).mp hsession with ⟨r,hr,hrs⟩ | hkey
      · obtain ⟨hmem,hstate⟩ := List.mem_filter.mp hr
        have hany : h.state.commands.any
            (fun r => r.sessionId == x.sessionId && r.state == .dispatchStarted) = true :=
          List.any_eq_true.mpr ⟨r,hmem,by simpa [hrs] using hstate⟩
        simp [JournalFile.recoverable,hany]
      · have hget : h.state.sessions.get x.sessionId ≠ none := fun hnone => OrdMap.get_eq_none.mp hnone hkey
        simp [JournalFile.recoverable,OrdMap.contains,Option.isSome_iff_ne_none.mpr hget]) hseq) hloop
  exact ⟨hu,fun r hr hrs => (hall r hr hrs).resolve_left fun hold => hnone r hold hrs⟩

end

end Journal

namespace StartLoop

open Protocol Journal Scheduler Prog

namespace Loop

variable {σ : Type} {W : World σ} {L : Loop σ}

/-- No command that the step starts has a cancel waiting above it: not the command of a
frame, not the one a finished command brings up, and none that a restart brings up. -/
def clear (L : Loop σ) : Move → Bool
  | .frame (.command e) => !L.host.state.startable e ||
      !L.host.state.waitingCancel e.sessionId e.serverCommandSeq
  | .next => match L.phase with
    | .finishing completion _ => L.host.state.clears (·.sessionId == completion.sessionId)
        fun r => r.state == .terminal || r.commandId == completion.commandId
    | .emitting [] (.followup (.finishCancellation command)) =>
      L.host.state.clears (·.sessionId == command.sessionId)
        fun r => r.state == .terminal || r.commandId == command.commandId
    | _ => true
  | .restart => L.host.file.clears L.host.file.recoverable (·.state != .received)
  | _ => true

def clearRun (W : World σ) : Loop σ → List Move → Bool
  | _, [] => true
  | L, move::moves => L.clear move && clearRun W (L.step W move) moves

/-- What is started was returned for scheduling, and no cancel waits above it. -/
structure Heard (L : Loop σ) : Prop where
  unblocked : L.host.state.view.Unblocked
  returned : ∀ r ∈ L.host.state.commands, r.state = .dispatchStarted → r.commandId ∈ L.host.handed

structure Hears (W : World σ) (L : Loop σ) : Prop where
  sound : Sound W Set.univ L.host
  heard : L.running = true → L.Heard

theorem Hears.halted (hs : Sound W Set.univ L.host) (hhalted : L.running = false) : Hears W L :=
  ⟨hs,fun hrunning => absurd hrunning (by simp [hhalted])⟩

theorem Heard.wanes (h : L.Heard) {L' : Loop σ} (hw : L.host.state.view.Wanes L'.host.state.view)
    (hhanded : L'.host.handed = L.host.handed) : L'.Heard where
  unblocked := h.unblocked.wanes hw
  returned := fun r hr hrs => hhanded ▸ h.returned r (hw r hr (by simp [hrs])) hrs

theorem Heard.hands (h : L.Heard) {L' : Loop σ} {commands : List CommandEnvelope}
    (hu : L'.host.state.view.Unblocked) (hhands : Hands L.host L'.host commands)
    (hstarted : ∀ r ∈ L'.host.state.commands, r.state = .dispatchStarted →
      r ∈ L.host.state.commands ∨ r.commandId ∈ commands.map (·.commandId)) : L'.Heard where
  unblocked := hu
  returned := fun r hr hrs => by
    rw [hhands.handed.mem_iff]
    rcases hstarted r hr hrs with hold | hnew
    · exact List.mem_append_right _ (h.returned r hold hrs)
    · exact List.mem_append_left _ hnew

theorem restart_hears (hs : Sound W Set.univ L.host) (hclear : L.clear .restart = true) :
    Hears W (L.restart W) := by
  rcases L.restart_cases hs with ⟨host,hs',hrestart⟩ | ⟨h₁,recovery,h₂,hopen,hrecover,hrestart⟩
  · rw [hrestart]
    exact .halted hs' rfl
  · have hs₁ : Sound W Set.univ h₁ := keeps_reopen.ok hs hopen
    have hclears : h₁.state.clears h₁.state.recoverable (·.state != .received) = true := by
      rw [reopen_state hopen]
      exact hclear
    obtain ⟨hu,hstarted⟩ := recoverForScheduler_unblocked hs₁ hclears hrecover
    have hhands := recoverForScheduler_hands hrecover
    rw [hrestart]
    refine ⟨keeps_recoverForScheduler.ok hs₁ hrecover,fun _ => ⟨hu,fun r hr hrs => ?_⟩⟩
    rw [hhands.handed.mem_iff]
    exact List.mem_append_left _ (hstarted r hr hrs)

theorem handshake_hears (h : Hears W L) (hidle : L.phase = .idle) (snapshot : ReconcileSnapshot) :
    Hears W (L.handshake W snapshot) := by
  rcases handshake_cases snapshot h.sound with ⟨host,hs',hhand⟩ | ⟨frames,host,hexec,hhand⟩
  · rw [hhand]
    exact .halted hs' rfl
  · obtain ⟨hs',hquiet⟩ := Coordinator.reconcile_sound h.sound hexec
    have hheard := h.heard (by simp [running,hidle])
    rw [hhand]
    exact ⟨hs',fun _ => hheard.wanes (Coordinator.reconcile_wanes hexec) hquiet.1⟩

theorem takeFrame_hears (h : Hears W L) (hidle : L.phase = .idle) {frame : ServerFrame}
    (hclear : L.clear (.frame frame) = true) : Hears W (L.takeFrame W frame) := by
  have hheard := h.heard (by simp [running,hidle])
  rcases takeFrame_cases frame h.sound with ⟨host,hs',hframe⟩ | ⟨host,hsettled,hs',hframe⟩ |
    ⟨actions,host,hexec,hframe⟩
  · rw [hframe]
    exact .halted hs' rfl
  · rw [hframe]
    refine ⟨hs',fun _ => hheard.wanes ?_ hsettled.handed⟩
    show L.host.state.view.Wanes host.state.view
    rw [hsettled.state]
    exact .refl _
  · have hs' := Coordinator.acceptServerFrame_sound (fun _ _ => Set.mem_univ _) h.sound hexec
    obtain ⟨hu,hstarted⟩ := Coordinator.acceptServerFrame_unblocked h.sound hheard.unblocked
      (fun e he hstartable => by
        subst he
        simpa [clear,hstartable] using hclear) hexec
    rw [hframe]
    exact ⟨hs',fun _ => hheard.hands hu (Coordinator.acceptServerFrame_hands h.sound hexec) hstarted⟩

theorem finishRuntime_hears (h : Hears W L) (hrunning : L.running = true) {sessionId commandId : String}
    {outcome : DispatchOutcome} {events : List Event} {rest : Rest}
    (hclears : L.host.state.clears (·.sessionId == sessionId)
      (fun r => r.state == .terminal || r.commandId == commandId) = true) :
    Hears W (L.act (Coordinator.finishRuntime W sessionId commandId outcome events) rest) := by
  have hheard := h.heard hrunning
  rcases L.act_cases rest (fun r h' hexec => Coordinator.finishRuntime_sound h.sound hexec) h.sound with
    ⟨host,hs',hact⟩ | ⟨actions,host,hexec,hact⟩
  · rw [hact]
    exact .halted hs' rfl
  · obtain ⟨hu,hstarted⟩ := Coordinator.finishRuntime_unblocked h.sound hheard.unblocked hclears hexec
    rw [hact]
    exact ⟨Coordinator.finishRuntime_sound h.sound hexec,
      fun _ => hheard.hands hu (Coordinator.finishRuntime_hands hexec) hstarted⟩

theorem Hears.same (h : Hears W L) {L' : Loop σ} (hhost : L'.host = L.host)
    (hrunning : L'.running = true → L.running = true) : Hears W L' := by
  refine ⟨hhost ▸ h.sound,fun hr => ?_⟩
  have hheard := h.heard (hrunning hr)
  exact ⟨hhost ▸ hheard.unblocked,hhost ▸ hheard.returned⟩

theorem next_hears (h : Hears W L) (hclear : L.clear .next = true) : Hears W (L.next W) := by
  unfold next
  cases hphase : L.phase with
  | idle => exact h
  | halted phase => exact h
  | draining f =>
    refine h.same ?_ fun _ => by simp [running,hphase]
    dsimp only [drain]
    cases f.remaining with
    | zero => rfl
    | succ remaining =>
      cases L.scheduler.drainTurn with
      | error reason => rfl
      | ok turn =>
        obtain ⟨more,scheduler⟩ := turn
        cases more <;> rfl
  | finishing completion followup =>
    refine finishRuntime_hears h (by simp [running,hphase]) ?_
    simpa [clear,hphase] using hclear
  | emitting commands rest =>
    have hrunning : L.running = true := by simp [running,hphase]
    cases commands with
    | cons command commands =>
      dsimp only
      cases L.scheduler.schedule command with
      | ok scheduler => exact h.same rfl fun _ => hrunning
      | error reason => exact h.same rfl fun _ => hrunning
    | nil =>
      cases rest with
      | done => exact h.same rfl fun _ => hrunning
      | cleanup command => exact h.same rfl fun _ => hrunning
      | followup followup =>
        cases followup with
        | finishCancellation command =>
          refine finishRuntime_hears h hrunning ?_
          simpa [clear,hphase] using hclear
        | rescheduleCancellation command =>
          dsimp only
          cases L.scheduler.scheduleRuntime command with
          | ok scheduler => exact h.same rfl fun _ => hrunning
          | error reason => exact h.same rfl fun _ => hrunning

theorem step_hears (h : Hears W L) {move : Move} (hclear : L.clear move = true) :
    Hears W (L.step W move) := by
  cases move with
  | restart => exact restart_hears h.sound hclear
  | handshake snapshot =>
    simp only [step]
    split_ifs with hidle
    · exact handshake_hears h hidle snapshot
    · exact h
  | frame frame =>
    simp only [step]
    split_ifs with hidle
    · exact takeFrame_hears h hidle.1 hclear
    · exact h
  | completion =>
    simp only [step]
    split_ifs with hidle
    · refine h.same ?_ fun _ => by simp [running,hidle]
      unfold takeCompletion
      split
      · rfl
      · split <;> rfl
    · exact h
  | next => exact next_hears h hclear
  | work place move => exact h.same rfl id
  | stop =>
    simp only [step]
    cases hphase : L.phase <;> first | exact h | exact .halted h.sound rfl

theorem run_hears (h : Hears W L) {moves : List Move} (hclear : clearRun W L moves = true) :
    Hears W (L.run W moves) := by
  induction moves generalizing L with
  | nil => exact h
  | cons move moves ih =>
    simp only [clearRun,Bool.and_eq_true] at hclear
    exact ih (step_hears h hclear.1) hclear.2

/-- A cancel above a started command of its session was started itself, and returned. -/
def CancelsHeard (L : Loop σ) : Prop := ∀ r ∈ L.host.state.commands, ∀ c ∈ L.host.state.commands,
  r.state = .dispatchStarted → c.command.isSessionCancel = true → c.sessionId = r.sessionId →
    r.serverCommandSeq < c.serverCommandSeq →
      c.state ≠ .received ∧ (c.state = .dispatchStarted → c.commandId ∈ L.host.handed)

end Loop

/-- In every run of the daemon in which no command starts while a cancel waits above it: a
cancel above a started command is not Received, and one that is DispatchStarted was returned for
scheduling. Of a cancel that is Terminal already it says no more than that. -/
theorem cancel_reaches_running_session {σ : Type} (W : World σ) (runtime : σ) (moves : List Move)
    (hclear : Loop.clearRun W (Loop.fresh runtime) moves = true)
    (hrunning : ((Loop.fresh runtime).run W moves).running = true) :
    ((Loop.fresh runtime).run W moves).CancelsHeard := by
  have hfresh : Loop.Hears W (Loop.fresh runtime) := .halted (Sound.init runtime) rfl
  have hheard := (Loop.run_hears hfresh hclear).heard hrunning
  intro r hr c hc hstarted hcancel hsession hlt
  refine ⟨fun hreceived => ?_,hheard.returned c hc⟩
  exact absurd (hheard.unblocked r hr c hc hstarted hreceived hcancel hsession) (Nat.not_le.mpr hlt)

theorem cancelledRun_heard : Loop.clearRun calmWorld (Loop.fresh ()) cancelledRun = true ∧
    ((Loop.fresh ()).run calmWorld cancelledRun).CancelsHeard :=
  ⟨by decide +kernel,cancel_reaches_running_session calmWorld () cancelledRun (by decide +kernel)
    (by decide +kernel)⟩

/-- The cancel comes before the command it is meant for. -/
def earlyCancelRun : List Move :=
  [.restart,.handshake ⟨1,[]⟩,.next] ++ [.frame (.command (cancelEnvelope 2 "b")),.next] ++
    taken (.command (resumeEnvelope 1 "a"))

/-- The command runs, and the cancel stays Received behind it. -/
theorem earlyCancelRun_unheard : ((Loop.fresh ()).run calmWorld earlyCancelRun).phase = .idle ∧
    ¬ ((Loop.fresh ()).run calmWorld earlyCancelRun).CancelsHeard := by
  refine ⟨by decide +kernel,fun hheard => ?_⟩
  have hleft : ∃ r ∈ ((Loop.fresh ()).run calmWorld earlyCancelRun).host.state.commands,
      ∃ c ∈ ((Loop.fresh ()).run calmWorld earlyCancelRun).host.state.commands,
        r.state = .dispatchStarted ∧ c.command.isSessionCancel = true ∧ c.sessionId = r.sessionId ∧
          r.serverCommandSeq < c.serverCommandSeq ∧ c.state = .received := by
    decide +kernel
  obtain ⟨r,hr,c,hc,hstarted,hcancel,hsession,hlt,hreceived⟩ := hleft
  exact (hheard r hr c hc hstarted hcancel hsession hlt).1 hreceived

end StartLoop
end North
