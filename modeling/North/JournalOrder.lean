import North.JournalRuns

/-! In-order dispatch: each session's commands start one after the other, cancels apart,
and the processed boundary is the watermark of the Terminal sequences. -/
namespace North
namespace Journal

open Machine Protocol Prog

/-- Session and sequence of a record. -/
def CommandRecord.place (r : CommandRecord) : String × ℕ := (r.sessionId,r.serverCommandSeq)

def CommandTombstone.place (t : CommandTombstone) : String × ℕ := (t.sessionId,t.serverCommandSeq)

namespace CommandView

variable (v : CommandView)

def DistinctPlaces : Prop := (v.commands.map (·.place) ++ v.tombstones.map (·.place)).Nodup

/-- The boundary of each session is the watermark of its Terminal sequences. -/
structure InOrder : Prop where
  distinct : v.DistinctPlaces
  buried : ∀ t ∈ v.tombstones, t.serverCommandSeq ≤ v.processed t.sessionId
  bound : ∀ id, v.processed id < u64Max
  watermark : ∀ id, Watermark (v.Terminal id) (v.processed id)

variable {v}

theorem terminal_iff_place (id : String) (seq : ℕ) : v.Terminal id seq ↔
    (∃ r ∈ v.commands, r.place = (id,seq) ∧ r.state = .terminal) ∨
      ∃ t ∈ v.tombstones, t.place = (id,seq) := by
  simp [Terminal,CommandRecord.place,CommandTombstone.place,and_assoc]

theorem InOrder.expected (h : v.InOrder) (id : String) : v.expected id = v.processed id+1 :=
  saturatingSucc_of_lt (h.bound id)

/-- The only Terminal entry at a live record's place is the record itself. -/
theorem terminal_place (h : v.DistinctPlaces) {r : CommandRecord} (hr : r ∈ v.commands) :
    v.Terminal r.sessionId r.serverCommandSeq ↔ r.state = .terminal := by
  rw [terminal_iff_place]
  obtain ⟨hcommands,-,hdisj⟩ := List.nodup_append'.mp h
  constructor
  · rintro (⟨r',hr',hplace,hstate⟩ | ⟨t,ht,hplace⟩)
    · rwa [← List.inj_on_of_nodup_map hcommands hr' hr hplace]
    · exact absurd (List.mem_map.mpr ⟨t,ht,hplace⟩) (hdisj (List.mem_map_of_mem hr))
  · exact fun hstate => .inl ⟨r,hr,rfl,hstate⟩

theorem InOrder.above (h : v.InOrder) {r : CommandRecord} (hr : r ∈ v.commands)
    (hpos : 0 < r.serverCommandSeq) (hstate : r.state ≠ .terminal) :
    v.processed r.sessionId < r.serverCommandSeq := by
  by_contra hle
  have hterm := (h.watermark r.sessionId).all hpos (by omega)
  exact hstate ((terminal_place h.distinct hr).mp hterm)

/-- A record allowed to start is the next of its session, or a cancel that overtakes. -/
theorem InOrder.start_next (h : v.InOrder) {r : CommandRecord} (hr : r ∈ v.commands)
    (hpos : 0 < r.serverCommandSeq) (hstate : r.state = .received) (hmay : v.MayStart r) :
    (r.serverCommandSeq = v.processed r.sessionId+1 ∧
      ∀ n, 0 < n → n < r.serverCommandSeq → v.Terminal r.sessionId n) ∨ v.Overtakes r := by
  have habove := h.above hr hpos (by simp [hstate])
  rcases hmay with hle | hover
  · rw [h.expected] at hle
    refine .inl ⟨by omega,fun n hn hlt => (h.watermark _).all hn (by omega)⟩
  · exact .inr hover

theorem update_eq_map (h : v.DistinctIds) (commandId : String)
    (f : CommandRecord → CommandRecord) : (v.update commandId f).commands =
      v.commands.map fun r => if r.commandId = commandId then f r else r :=
  Table.updateFirst_eq_map CommandRecord.commandId commandId f v.commands h.commands

theorem DistinctPlaces.update (h : v.DistinctPlaces) (commandId : String)
    {f : CommandRecord → CommandRecord} (hf : ∀ r, (f r).place = r.place) :
    (v.update commandId f).DistinctPlaces := by
  unfold DistinctPlaces CommandView.update
  rwa [Table.map_updateFirst _ f _ hf]

/-- Updating the record `r` changes what is Terminal at its place only. -/
theorem terminal_update (h : v.DistinctIds) {r : CommandRecord} (hr : r ∈ v.commands)
    {f : CommandRecord → CommandRecord} (hf : (f r).place = r.place) (id : String) (seq : ℕ) :
    (v.update r.commandId f).Terminal id seq ↔
      (∃ x ∈ v.commands, x ≠ r ∧ x.place = (id,seq) ∧ x.state = .terminal) ∨
      (r.place = (id,seq) ∧ (f r).state = .terminal) ∨ ∃ t ∈ v.tombstones, t.place = (id,seq) := by
  have honly : ∀ x ∈ v.commands, x.commandId = r.commandId → x = r :=
    fun x hx hid => List.inj_on_of_nodup_map h.commands hx hr hid
  rw [terminal_iff_place,update_eq_map h]
  constructor
  · rintro (⟨y,hy,hplace,hstate⟩ | hbury)
    · obtain ⟨x,hx,rfl⟩ := List.mem_map.mp hy
      by_cases hid : x.commandId = r.commandId
      · obtain rfl := honly x hx hid
        simp only [if_true] at hplace hstate
        exact .inr (.inl ⟨hf ▸ hplace,hstate⟩)
      · simp only [hid,if_false] at hplace hstate
        exact .inl ⟨x,hx,fun hxr => hid (hxr ▸ rfl),hplace,hstate⟩
    · exact .inr (.inr hbury)
  · rintro (⟨x,hx,hne,hplace,hstate⟩ | ⟨hplace,hstate⟩ | hbury)
    · have hid : x.commandId ≠ r.commandId := fun hid => hne (honly x hx hid)
      exact .inl ⟨x,List.mem_map.mpr ⟨x,hx,by simp [hid]⟩,hplace,hstate⟩
    · exact .inl ⟨f r,List.mem_map.mpr ⟨r,hr,by simp⟩,hf ▸ hplace,hstate⟩
    · exact .inr hbury

theorem terminalIn_iff (commands : List CommandRecord) (id : String) (seq : ℕ) :
    terminalIn commands id seq = true ↔
      ∃ r ∈ commands, r.place = (id,seq) ∧ r.state = .terminal := by
  simp [terminalIn,CommandRecord.place,and_assoc]

end CommandView

section

variable {J : Handle} {E : Set CommandEnvelope} {v v' : CommandView}

open CommandView

/-- With digests that tell the envelopes apart, a received envelope takes a free place. -/
theorem receive_place (hdigest : Set.InjOn J.commandDigest E) (hv : v.InOrder)
    (hgen : ∀ r ∈ v.commands, Genuine J E r) {e : CommandEnvelope} (he : e ∈ E)
    (hfree : ∀ r ∈ v.commands,
      recordConflicts J.daemonId e (J.commandDigest e) (messageIdOf e.command) r = false)
    (hnew : ∀ r ∈ v.commands, r.commandId ≠ e.commandId)
    (hseq : v.expected e.sessionId ≤ e.serverCommandSeq) :
    (e.sessionId,e.serverCommandSeq) ∉ v.commands.map (·.place) ++ v.tombstones.map (·.place) := by
  rw [List.mem_append,not_or]
  constructor
  · intro hmem
    obtain ⟨r,hr,hplace⟩ := List.mem_map.mp hmem
    simp only [CommandRecord.place,Prod.mk.injEq] at hplace
    have hclear := hfree r hr
    simp only [recordConflicts,(hgen r hr).owned,hplace.1,hplace.2,beq_self_eq_true,Bool.and_self,
      Bool.or_true,Bool.true_or,Bool.true_and,Bool.or_eq_false_iff,bne_eq_false_iff_eq] at hclear
    have hdig : J.commandDigest (recordToEnvelope r) = J.commandDigest e :=
      (hgen r hr).digest.symm.trans hclear.1.2
    have henv := hdigest (hgen r hr).known he hdig
    exact hnew r hr (congrArg CommandEnvelope.commandId henv)
  · intro hmem
    obtain ⟨t,ht,hplace⟩ := List.mem_map.mp hmem
    simp only [CommandTombstone.place,Prod.mk.injEq] at hplace
    have hle := hv.buried t ht
    rw [hv.expected] at hseq
    rw [hplace.1,hplace.2] at hle
    omega

theorem InOrder.receive (hv : v.InOrder) {r : CommandRecord} (hstate : r.state = .received)
    (hfree : r.place ∉ v.commands.map (·.place) ++ v.tombstones.map (·.place)) :
    ({ v with commands := v.commands ++ [r] } : CommandView).InOrder where
  distinct := by
    have hperm : ((v.commands.map (·.place) ++ [r.place]) ++ v.tombstones.map (·.place)).Perm
        (r.place::(v.commands.map (·.place) ++ v.tombstones.map (·.place))) := by
      rw [List.append_assoc]
      exact List.perm_middle
    simp only [DistinctPlaces,List.map_append,List.map_cons,List.map_nil]
    exact hperm.nodup_iff.mpr (List.nodup_cons.mpr ⟨hfree,hv.distinct⟩)
  buried := hv.buried
  bound := hv.bound
  watermark id := (hv.watermark id).congr fun m _ => by
    simp [Terminal,or_and_right,exists_or,hstate]

theorem InOrder.start (hv : v.InOrder) (hids : v.DistinctIds) {r : CommandRecord} {now : String}
    (hr : r ∈ v.commands) (hstate : r.state = .received) :
    (v.update r.commandId (startRecord now)).InOrder where
  distinct := hv.distinct.update _ fun _ => rfl
  buried := hv.buried
  bound := hv.bound
  watermark id := (hv.watermark id).congr fun m _ => by
    rw [terminal_update hids hr rfl,terminal_iff_place]
    have hne : ∀ x ∈ v.commands, x.state = .terminal → x ≠ r := by
      rintro x - hx rfl
      simp [hstate] at hx
    constructor
    · rintro (⟨x,hx,hplace,hs⟩ | hbury)
      · exact .inl ⟨x,hx,hne x hx hs,hplace,hs⟩
      · exact .inr (.inr hbury)
    · rintro (⟨x,hx,-,hplace,hs⟩ | ⟨-,hs⟩ | hbury)
      · exact .inl ⟨x,hx,hplace,hs⟩
      · simp [startRecord] at hs
      · exact .inr hbury

theorem InOrder.finish (hv : v.InOrder) (hids : v.DistinctIds) {r : CommandRecord}
    {outcome : DispatchOutcome} {now : String} {fuel cursor : ℕ} (hr : r ∈ v.commands)
    (hadvance : Watermark.advance u64Max
      (terminalIn (v.update r.commandId (terminate outcome now)).commands r.sessionId) fuel
      (v.processed r.sessionId) = some cursor) :
    ({ v.update r.commandId (terminate outcome now) with
      processed := Function.update v.processed r.sessionId cursor } : CommandView).InOrder := by
  obtain ⟨hle,hbound,-,-⟩ := Watermark.advance_spec (hv.bound _) hadvance
  have hgrow : ∀ id, v.processed id ≤ Function.update v.processed r.sessionId cursor id := by
    intro id
    rw [Function.update_apply]
    split_ifs with hid
    · rwa [hid]
    · exact le_rfl
  -- finishing adds one Terminal place, in the session of the record
  have hterm : ∀ id m, (v.update r.commandId (terminate outcome now)).Terminal id m ↔
      v.Terminal id m ∨ r.place = (id,m) := by
    intro id m
    rw [terminal_update hids hr rfl,terminal_iff_place]
    constructor
    · rintro (⟨x,hx,-,hplace,hs⟩ | ⟨hplace,-⟩ | hbury)
      · exact .inl (.inl ⟨x,hx,hplace,hs⟩)
      · exact .inr hplace
      · exact .inl (.inr hbury)
    · rintro ((⟨x,hx,hplace,hs⟩ | hbury) | hplace)
      · by_cases hxr : x = r
        · exact .inr (.inl ⟨hxr ▸ hplace,rfl⟩)
        · exact .inl ⟨x,hx,hxr,hplace,hs⟩
      · exact .inr (.inr hbury)
      · exact .inr (.inl ⟨hplace,rfl⟩)
  refine ⟨hv.distinct.update _ fun _ => rfl,fun t ht => (hv.buried t ht).trans (hgrow _),
    fun id => ?_,fun id => ?_⟩
  · simp only [Function.update_apply]
    split_ifs
    · exact hbound
    · exact hv.bound id
  · change Watermark ((v.update r.commandId (terminate outcome now)).Terminal id)
      (Function.update v.processed r.sessionId cursor id)
    by_cases hid : id = r.sessionId
    · subst hid
      simp only [Function.update_self]
      refine Watermark.of_advance (fun m hm => ?_) (fun m hlt hm => ?_) (hv.bound _)
        (fun m hm hmle => ?_) hadvance
      · exact (terminal_iff_place _ _).mpr (.inl ((terminalIn_iff _ _ _).mp hm))
      · rcases (terminal_iff_place _ _).mp hm with hlive | ⟨t,ht,hplace⟩
        · exact (terminalIn_iff _ _ _).mpr hlive
        · -- tombstones lie at or below the old boundary
          simp only [CommandTombstone.place,Prod.mk.injEq] at hplace
          have hb := hv.buried t ht
          rw [hplace.1,hplace.2] at hb
          omega
      · exact (hterm _ _).mpr (.inl ((hv.watermark _).all hm hmle))
    · rw [Function.update_of_ne hid]
      refine (hv.watermark id).congr fun m _ => ?_
      rw [hterm]
      have hne : r.place ≠ (id,m) := fun h => hid (congrArg Prod.fst h).symm
      simp [hne]

theorem InOrder.compact (hv : v.InOrder) (sessionId : String) :
    ({ v with
      commands := v.commands.filter fun r =>
        !compactableCommand sessionId (v.processed sessionId) r
      tombstones := v.tombstones ++ (v.commands.filter
        (compactableCommand sessionId (v.processed sessionId))).map commandTombstone } :
        CommandView).InOrder := by
  let q := compactableCommand sessionId (v.processed sessionId)
  have hq : ∀ r, q r = true ↔ r.sessionId = sessionId ∧ r.state = .terminal ∧
      r.serverCommandSeq ≤ v.processed sessionId := fun r => by
    simp [q,compactableCommand,and_assoc]
  refine ⟨?_,fun t ht => ?_,hv.bound,fun id => (hv.watermark id).congr fun m _ => ?_⟩
  · have hsplit : ((v.commands.filter fun r => !q r) ++ v.commands.filter q).Perm v.commands :=
      (List.perm_append_comm).trans (List.filter_append_perm q v.commands)
    have hmap : (v.commands.filter q).map ((·.place) ∘ commandTombstone) =
        (v.commands.filter q).map (·.place) := List.map_congr_left fun r _ => rfl
    simp only [DistinctPlaces,List.map_append,List.map_map]
    refine List.Perm.nodup_iff ?_ |>.mp hv.distinct
    rw [hmap]
    refine ((hsplit.map (·.place)).symm.append_right _).trans ?_
    rw [List.map_append,List.append_assoc]
    exact List.perm_append_comm.append_left _
  · rcases List.mem_append.mp ht with ht | ht
    · exact hv.buried t ht
    · obtain ⟨r,hr,rfl⟩ := List.mem_map.mp ht
      obtain ⟨hsession,-,hle⟩ := (hq r).mp (List.mem_filter.mp hr).2
      simpa [commandTombstone,hsession] using hle
  · rw [terminal_iff_place,terminal_iff_place]
    constructor
    · rintro (⟨r,hr,hplace,hs⟩ | ⟨t,ht,hplace⟩)
      · by_cases hqr : q r = true
        · exact .inr ⟨commandTombstone r,List.mem_append_right _
            (List.mem_map_of_mem (List.mem_filter.mpr ⟨hr,hqr⟩)),hplace⟩
        · exact .inl ⟨r,List.mem_filter.mpr ⟨hr,by simpa using hqr⟩,hplace,hs⟩
      · exact .inr ⟨t,List.mem_append_left _ ht,hplace⟩
    · rintro (⟨r,hr,hplace,hs⟩ | ⟨t,ht,hplace⟩)
      · exact .inl ⟨r,List.mem_of_mem_filter hr,hplace,hs⟩
      · rcases List.mem_append.mp ht with ht | ht
        · exact .inr ⟨t,ht,hplace⟩
        · obtain ⟨r,hr,rfl⟩ := List.mem_map.mp ht
          have hr' := List.mem_filter.mp hr
          exact .inl ⟨r,hr'.1,hplace,((hq r).mp hr'.2).2.1⟩

theorem Moves.inOrder (hdigest : Set.InjOn J.commandDigest E) (hmove : Moves J E v v')
    (hids : v.DistinctIds) (hgen : ∀ r ∈ v.commands, Genuine J E r) (hv : v.InOrder) :
    v'.InOrder := by
  cases hmove with
  | still => exact hv
  | receive he hvalid hfree hburied hnew hnew' hseq hroom =>
    exact InOrder.receive hv rfl (receive_place hdigest hv hgen he hfree hnew hseq)
  | start hr hstate hmay => exact InOrder.start hv hids (List.mem_of_find?_eq_some hr) hstate
  | finish hr hadvance => exact InOrder.finish hv hids (List.mem_of_find?_eq_some hr) hadvance
  | compact sessionId => exact InOrder.compact hv sessionId

theorem inOrder_fresh : ({} : CommandView).InOrder where
  distinct := by simp [DistinctPlaces]
  buried := by simp
  bound _ := Nat.zero_lt_of_lt (by decide : 1 < u64Max)
  watermark id := by
    rw [Watermark.iff_next]
    exact ⟨fun m hm hle => by simp at hle; omega,by simp [Terminal]⟩

theorem Moves.starts (hmove : Moves J E v v') (hids : v.DistinctIds) {r : CommandRecord}
    (hr : r ∈ v'.commands) (hstate : r.state = .dispatchStarted) :
    v.stage r.commandId = .dispatchStarted ∨
      ∃ r₀ ∈ v.commands, r₀.state = .received ∧ v.MayStart r₀ ∧ r₀.place = r.place ∧
        r₀.command = r.command := by
  have hbefore : ∀ x ∈ v.commands, x.state = .dispatchStarted →
      v.stage x.commandId = .dispatchStarted := fun x hx hs => by
    rw [stage_of_mem hids hx,hs]
    rfl
  cases hmove with
  | still => exact .inl (hbefore r hr hstate)
  | receive he hvalid hfree hburied hnew hnew' hseq hroom =>
    rcases List.mem_append.mp hr with hr | hr
    · exact .inl (hbefore r hr hstate)
    · rw [List.mem_singleton.mp hr] at hstate
      simp [receivedRecord] at hstate
  | @start r₀ now hr₀ hreceived hmay =>
    rw [update_eq_map hids] at hr
    obtain ⟨x,hx,rfl⟩ := List.mem_map.mp hr
    have hmem := List.mem_of_find?_eq_some hr₀
    split_ifs at hstate ⊢ with hid
    · obtain rfl := List.inj_on_of_nodup_map hids.commands hx hmem hid
      exact .inr ⟨x,hx,hreceived,hmay,rfl,rfl⟩
    · exact .inl (hbefore x hx hstate)
  | @finish r₀ outcome now fuel cursor hr₀ hadvance =>
    change r ∈ (v.update r₀.commandId (terminate outcome now)).commands at hr
    rw [update_eq_map hids] at hr
    obtain ⟨x,hx,rfl⟩ := List.mem_map.mp hr
    split_ifs at hstate ⊢ with hid
    · simp [terminate] at hstate
    · exact .inl (hbefore x hx hstate)
  | compact sessionId => exact .inl (hbefore r (List.mem_of_mem_filter hr) hstate)

theorem Trail.inOrder (hdigest : Set.InjOn J.commandDigest E) {s : JournalFile}
    {past : List JournalFile} (h : Trail J E s past) : ∀ x ∈ s::past, x.view.DistinctIds ∧
      (∀ r ∈ x.view.commands, Genuine J E r) ∧ x.view.InOrder :=
  h.invariant (P := fun v => v.DistinctIds ∧ (∀ r ∈ v.commands, Genuine J E r) ∧ v.InOrder)
    ⟨by simp [DistinctIds],by simp,inOrder_fresh⟩ fun _ _ hv hmove =>
      ⟨hmove.distinctIds hv.1,hmove.genuine hv.2.1,hmove.inOrder hdigest hv.1 hv.2.1 hv.2.2⟩

theorem Trail.adjacent {s : JournalFile} {past : List JournalFile} (h : Trail J E s past)
    {newer older : JournalFile} (hin : [newer,older] <:+: s::past) :
    Moves J E older.view newer.view := by
  induction h with
  | fresh =>
    have hlen := hin.length_le
    simp at hlen
  | @step s s' past h hmove ih =>
    rcases List.infix_cons_iff.mp hin with hpre | hin
    · obtain ⟨rest,hrest⟩ := hpre
      simp only [List.cons_append,List.cons.injEq] at hrest
      obtain ⟨rfl,rfl,-⟩ := hrest
      exact hmove
    · exact ih hin

end

/-- Over any run whose envelopes the digest tells apart: the processed boundary of every
session is in every state the watermark of its Terminal sequences, and a command that a
state shows DispatchStarted for the first time is the next of its session, with all
before it Terminal, or a cancel that overtakes a running command. -/
theorem dispatched_in_order {σ : Type} (W : World σ) (runtime : σ) (calls : List Call)
    (hdigest : Set.InjOn W.handle.commandDigest {e | ∃ call ∈ calls, e ∈ call.envelopes})
    (h : Host σ) (hrun : runCalls W calls { runtime } = some h) :
    (∀ s ∈ h.history, ∀ id, Watermark (s.view.Terminal id) (s.session id).processedThroughSeq) ∧
    ∀ newer older, [newer,older] <:+: h.history → ∀ r ∈ newer.commands,
      r.state = .dispatchStarted → older.view.stage r.commandId ≠ .dispatchStarted →
      (r.serverCommandSeq = (older.session r.sessionId).processedThroughSeq+1 ∧
        ∀ n, 0 < n → n < r.serverCommandSeq → older.view.Terminal r.sessionId n) ∨
      (r.command.isSessionCancel = true ∧ ∃ r' ∈ older.commands, r'.sessionId = r.sessionId ∧
        r'.serverCommandSeq < r.serverCommandSeq ∧ r'.state = .dispatchStarted) := by
  have hs := runCalls_sound (E := {e | ∃ call ∈ calls, e ∈ call.envelopes})
    (fun call hcall e he => ⟨call,hcall,he⟩) (Sound.init runtime) hrun
  obtain ⟨past,hpast,htrail⟩ := hs.trail
  have hall := htrail.inOrder hdigest
  rw [hpast]
  refine ⟨fun s hs id => (hall s hs).2.2.watermark id,fun newer older hin r hr hstate hfirst => ?_⟩
  have hold : older ∈ h.state::past := hin.subset (by simp)
  obtain ⟨hids,hgen,horder⟩ := hall older hold
  obtain hbefore | ⟨r₀,hr₀,hreceived,hmay,hplace,hcommand⟩ :=
    (htrail.adjacent hin).starts hids hr hstate
  · exact absurd hbefore hfirst
  · simp only [CommandRecord.place,Prod.mk.injEq] at hplace
    have hnext := horder.start_next hr₀ (hgen r₀ hr₀).positive hreceived hmay
    simp only [CommandView.Overtakes,hplace.1,hplace.2,hcommand] at hnext
    exact hnext

def cancelEnvelope (seq : ℕ) (commandId : String) : CommandEnvelope :=
  ⟨commandId,"session-1",seq,"1",1,.sessionCancel "stop"⟩

/-- A cancel overtakes the running command, and the gap below it closes later. -/
def overtakingRun : List Call :=
  [.acceptCommand (resumeEnvelope 1 "a"),.acceptControlCommand (cancelEnvelope 3 "c"),
    .completeCommand "c" .dispatchSucceeded [],.acceptCommand (resumeEnvelope 2 "b"),
    .completeCommand "a" .dispatchSucceeded [],.reopen,.acceptNextReadyCommand "session-1",
    .completeCommand "b" .dispatchSucceeded []]

theorem overtakingRun_in_order : ∃ h : Host Unit,
    runCalls calmWorld overtakingRun { runtime := () } = some h ∧
    (h.handed = ["b","c","a"] ∧ (h.state.session "session-1").processedThroughSeq = 3) ∧
    (∀ s ∈ h.history, ∀ id, Watermark (s.view.Terminal id) (s.session id).processedThroughSeq) ∧
    ∀ newer older, [newer,older] <:+: h.history → ∀ r ∈ newer.commands,
      r.state = .dispatchStarted → older.view.stage r.commandId ≠ .dispatchStarted →
      (r.serverCommandSeq = (older.session r.sessionId).processedThroughSeq+1 ∧
        ∀ n, 0 < n → n < r.serverCommandSeq → older.view.Terminal r.sessionId n) ∨
      (r.command.isSessionCancel = true ∧ ∃ r' ∈ older.commands, r'.sessionId = r.sessionId ∧
        r'.serverCommandSeq < r.serverCommandSeq ∧ r'.state = .dispatchStarted) := by
  have hfinal : (runCalls calmWorld overtakingRun { runtime := () }).map (fun h =>
      (h.handed,(h.state.session "session-1").processedThroughSeq)) = some (["b","c","a"],3) := by
    decide +kernel
  obtain ⟨h,hrun,hh⟩ := Option.map_eq_some_iff.mp hfinal
  have hdistinct : ∀ e ∈ overtakingRun.flatMap Call.envelopes,
      ∀ e' ∈ overtakingRun.flatMap Call.envelopes,
      calmWorld.handle.commandDigest e = calmWorld.handle.commandDigest e' → e = e' := by
    decide +kernel
  refine ⟨h,hrun,Prod.mk.inj hh,dispatched_in_order calmWorld () overtakingRun ?_ h hrun⟩
  intro e he e' he' heq
  exact hdistinct e (List.mem_flatMap.mpr he) e' (List.mem_flatMap.mpr he') heq

end Journal
end North
