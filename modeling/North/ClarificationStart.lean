import North.StartLedger

/-! The start of a clarification as its callers see it: over any run of the store a requirement has
one open run, a repeated start finds it, and every other start is refused while it is open. -/
namespace North
namespace Store

open Machine Protocol Domain

/-- A new command id and a clock reading, as the server draws them. -/
structure Draw.Fresh (db : Db) (draw : Draw) : Prop where
  named : Text.blank draw.commandId = false
  timed : Text.blank draw.sentAt = false
  outbox : ∀ r ∈ db.outbox, r.commandId ≠ draw.commandId
  attempts : ∀ a ∈ db.attempts, a.commandId ≠ draw.commandId

/-- What a repeated start does: it returns the open run and writes nothing once the run has its
start command. -/
structure Repeated (db : Db) (s : Session) (result : ClarificationStartResult) (db' : Db) : Prop where
  run : result.run.runId = s.id
  reused : result.reused = true
  runs : db'.sessions.map (·.id) = db.sessions.map (·.id)
  discussion : db'.requirements = db.requirements ∧ db'.audit = db.audit
  settled : s.startCommandId.isSome = true → db' = db

/-- The slots of the requirements over the history: one open run each, and each run was started by
one command at most. -/
structure SequentialRuns (w : World) : Prop where
  slot : ∀ s ∈ w.db.sessions, ∀ t ∈ w.db.sessions, s.requirementId = t.requirementId →
    s.state.terminal = false → t.state.terminal = false → s = t
  starts : ∀ sid, (startCommands (issuedFor w.issued sid)).length ≤ 1 ∧
    (startAttempts (w.db.attemptsOf sid)).length ≤ 1

/-- A start that is refused leaves the store as it was. -/
def Refuses (d : Digests) (db : Db) (now : ℕ) (runId : String) (draw : Draw)
    (input : ClarificationStartInput) : Prop :=
  (∃ e, startClarification d now runId draw input db = .error e) ∧
    RunAct.apply d db (.start now runId draw input) = db

section

variable {d : Digests} {db db' : Db} {now : ℕ} {runId : String} {draw : Draw}
  {input : ClarificationStartInput} {s : Session} {issued : List OutboxRow}

/-! ### The ids of attempts -/

theorem dash_notMem_toString (n : ℕ) : '-' ∉ (toString n).toList := by
  intro hmem
  have htext : toString n = String.ofList (Nat.toDigits 10 n) := Nat.repr_eq_ofList_toDigits
  rw [htext,String.toList_ofList] at hmem
  have hdigit := Nat.isDigit_of_mem_toDigits (by omega) le_rfl hmem
  exact absurd hdigit (by decide)

/-- An attempt id names the digest of its session: the number stands behind the last dash. -/
theorem executionAttemptId_text {sid sid' : String} {n n' : ℕ}
    (h : executionAttemptId d sid n = executionAttemptId d sid' n') : d.text sid = d.text sid' := by
  have hlist := congrArg (fun t : String => t.toList.reverse) h
  simp only [executionAttemptId,String.toList_append,List.reverse_append] at hlist
  have hdash : ∀ m : ℕ, '-' ∉ (toString m).toList.reverse := fun m => by
    simpa using dash_notMem_toString m
  have hsplit := (Text.append_separator (hdash n) (hdash n')).mp hlist
  have hback := List.reverse_injective (List.append_cancel_right hsplit.2)
  exact String.toList_injective hback

/-! ### A waiting run can be assigned -/

/-- A run without daemon has no commands, so its start command is the first. -/
theorem StartLedger.nextSequence (h : StartLedger d db) (hk : db.Keyed) (found : db.session? s.id = some s)
    (unassigned : s.daemonId = none) : nextCommandSequence db s.id = some 1 := by
  have hnot : ¬ Assigned db s.id := by
    rintro ⟨t,ht,hid,hdaemon⟩
    obtain rfl := List.inj_on_of_nodup_map hk ht (session?_some found).1 hid
    rw [unassigned] at hdaemon
    cases hdaemon
  have houtbox : db.outboxOf s.id = [] := by
    apply List.filter_eq_nil_iff.mpr
    intro r hr heq
    exact hnot (of_decide_eq_true heq ▸ h.outbox r hr)
  have htombstones : db.tombstonesOf s.id = [] := by
    apply List.filter_eq_nil_iff.mpr
    intro t ht heq
    exact hnot (of_decide_eq_true heq ▸ h.tombstones t ht)
  have hwatermark := h.watermark s (session?_some found).1 unassigned
  simp only [nextCommandSequence,found,houtbox,htombstones,hwatermark]
  decide

theorem Buildable.frame {context : Option SessionStart} (h : Buildable s.id context) (fresh : draw.Fresh db) :
    ∃ start payload, context = some start ∧
      commandFrame draw.sentAt s.id draw.commandId 1 (.sessionStart start) = some payload := by
  obtain ⟨start,hstart,hvalid⟩ := h.valid
  have hframe : CommandEnvelope.validate
      ⟨draw.commandId,s.id,1,draw.sentAt,Protocol.schemaVersion,.sessionStart start⟩ = .ok () := by
    simp [CommandEnvelope.validate,schema,nonEmpty,Protocol.sequence,fresh.named,fresh.timed,h.named,hvalid,
      bind,Except.bind]
  refine ⟨start,⟨draw.commandId,s.id,1,draw.sentAt,Protocol.schemaVersion,.sessionStart start⟩,hstart,?_⟩
  simp only [commandFrame,hframe]

theorem StartLedger.assignable (hd : Set.InjOn d.text {sid | ∃ t ∈ db.sessions, t.id = sid})
    (h : StartLedger d db) (hr : RunsInv db issued) (found : db.session? s.id = some s) (idle : s.state = .idle) (unassigned : s.daemonId = none)
    (fresh : draw.Fresh db) : Assignable d db draw s := by
  obtain ⟨start,payload,hstart,hframe⟩ := (h.stored s (session?_some found).1).frame fresh
  refine ⟨⟨1,start,payload,h.nextSequence hr.keyed found unassigned,hstart,hframe⟩,
    ⟨fresh.outbox,fresh.attempts⟩,fun a ha hid => ?_⟩
  rw [h.attempts a ha] at hid
  obtain ⟨owner,howner⟩ := Option.isSome_iff_exists.mp (hr.attempts a ha)
  have hsession := hd ⟨owner,session?_some howner⟩ ⟨s,(session?_some found).1,rfl⟩ (executionAttemptId_text hid)
  have hmem : a ∈ db.attemptsOf s.id := List.mem_filter.mpr ⟨ha,by simp [hsession]⟩
  rw [attemptsOf_waiting hr found idle unassigned] at hmem
  cases hmem

/-! ### The slot decides -/

theorem startClarification_occupied (h : Slots db) (admissible : Admissible db input) (hs : s ∈ db.sessions)
    (hopen : openRunOf input.requirementId s = true) :
    startClarification d now runId draw input db = reuseRun d now draw input s db := by
  obtain ⟨requirement,hrequirement⟩ := Option.isSome_iff_exists.mp admissible.requirement
  have hmessage : (db.requesterMessage? input.requirementId input.startMessageId).isNone = false := by
    simpa using admissible.message
  have hoccupant : db.sessions.find? (openRunOf input.requirementId) = some s := by
    cases hfind : db.sessions.find? (openRunOf input.requirementId) with
    | none => exact absurd hopen (List.find?_eq_none.mp hfind s hs)
    | some t =>
      have ht := List.find?_some hfind
      simp only [openRunOf,Bool.and_eq_true,Bool.not_eq_true',decide_eq_true_eq] at ht hopen
      rw [h.slot t (List.mem_of_find?_eq_some hfind) s hs (ht.1.1.trans hopen.1.1.symm) ht.2 hopen.2]
  unfold startClarification
  simp only [admissible.valid,hrequirement,hmessage,hoccupant,orError,bind,Except.bind]
  simp

theorem startClarification_granted {result : ClarificationStartResult}
    (hok : startClarification d now runId draw input db = .ok (result,db')) :
    (∃ t ∈ db.sessions, openRunOf input.requirementId t = true ∧
      t.startMessageId = some input.startMessageId) ∨ Vacant db input := by
  unfold startClarification at hok
  split at hok
  · cases hok
  · simp only [bind_eq_ok] at hok
    obtain ⟨requirement,-,hok⟩ := hok
    split at hok
    · cases hok
    · split at hok
      · rename_i occupant hocc
        refine .inl ⟨occupant,List.mem_of_find?_eq_some hocc,List.find?_some hocc,?_⟩
        unfold reuseRun at hok
        split_ifs at hok with hstart
        exact not_ne_iff.mp hstart
      · rename_i hnone
        refine .inr (vacant_of_free (fun t ht => ?_) ?_)
        · simpa using List.find?_eq_none.mp hnone t ht
        · unfold createRun at hok
          split_ifs at hok with hended
          simpa using hended

theorem refuses_of_not_ok
    (h : ∀ result db', startClarification d now runId draw input db ≠ .ok (result,db')) :
    Refuses d db now runId draw input := by
  cases hstart : startClarification d now runId draw input db with
  | error e =>
    refine ⟨⟨e,hstart⟩,?_⟩
    simp only [RunAct.apply,hstart,committed]
  | ok p => exact absurd hstart (h p.1 p.2)

theorem startClarification_refuses (h : SlotInv db) (hs : s ∈ db.sessions)
    (requirement : s.requirementId = some input.requirementId)
    (other : s.state.terminal = false ∧ s.startMessageId ≠ some input.startMessageId ∨
      s.state.terminal = true ∧ s.startMessageId = some input.startMessageId) :
    Refuses d db now runId draw input := by
  refine refuses_of_not_ok fun result db' hok => ?_
  rcases startClarification_granted hok with ⟨t,ht,hopen,hstart⟩ | vacant
  · simp only [openRunOf,Bool.and_eq_true,Bool.not_eq_true',decide_eq_true_eq] at hopen
    have hsame : s.requirementId = t.requirementId := requirement.trans hopen.1.1.symm
    rcases other with ⟨hrunning,hdifferent⟩ | ⟨hended,hown⟩
    · rw [h.slots.slot s hs t ht hsame hrunning hopen.2] at hdifferent
      exact hdifferent hstart
    · rw [h.slots.messages s hs t ht hsame (hown.trans hstart.symm),hopen.2] at hended
      cases hended
  · rcases other with ⟨hrunning,-⟩ | ⟨-,hown⟩
    · have hfree := vacant.slot s hs
      simp [openRunOf,requirement,(h.pinned s hs).run.1,hrunning] at hfree
    · exact vacant.unused s hs requirement hown

/-- A start with the message of the open run finds that run, and gives it a daemon at most. -/
theorem startClarification_repeats (hd : Set.InjOn d.text {sid | ∃ t ∈ db.sessions, t.id = sid})
    (h : SlotInv db) (hr : RunsInv db issued) (ledger : StartLedger d db) (hs : s ∈ db.sessions) (requirement : s.requirementId = some input.requirementId)
    (running : s.state.terminal = false) (start : s.startMessageId = some input.startMessageId)
    (admissible : Admissible db input) (fresh : draw.Fresh db) :
    ∃ result db', startClarification d now runId draw input db = .ok (result,db') ∧
      Repeated db s result db' := by
  have found := session?_of_mem hr.keyed hs
  have pinned := h.pinned s hs
  rw [startClarification_occupied h.slots admissible hs (by simp [openRunOf,requirement,start,running])]
  by_cases hassign : Waiting s ∧ (chooseEligibleDaemon db now input.requiredCapabilities).isSome = true
  · obtain ⟨hwaiting,heligible⟩ := hassign
    obtain ⟨daemonId,hdaemon⟩ := Option.isSome_iff_exists.mp heligible
    have hidle := pinned.idle running hwaiting.1
    have hassignable := ledger.assignable hd hr found hidle hwaiting.1 fresh
    obtain ⟨result,db',hok⟩ := (reuseRun_assigns hr found pinned start running hwaiting hdaemon).mpr hassignable
    obtain ⟨hrun,hreused,hdiscussion,hruns⟩ := reuseRun_same hok
    refine ⟨result,db',hok,hrun,hreused,hruns,hdiscussion,fun hcommand => ?_⟩
    rw [pinned.named,hwaiting.1] at hcommand
    cases hcommand
  · have hrest : Waiting s → chooseEligibleDaemon db now input.requiredCapabilities = none := by
      intro hwaiting
      by_contra hsome
      exact hassign ⟨hwaiting,Option.isSome_iff_ne_none.mpr hsome⟩
    obtain ⟨result,hok,hrun,hreused⟩ := @reuseRun_finds d db now draw input s found pinned start hrest
    exact ⟨result,db,hok,hrun,hreused,rfl,⟨rfl,rfl⟩,fun _ => rfl⟩

end

/-! ### Over every run -/

theorem sequentialRuns {w : World} (h : SlotInv w.db) (hr : RunsInv w.db w.issued) : SequentialRuns w := by
  refine ⟨h.slots.slot,fun sid => ?_⟩
  cases hs : w.db.session? sid with
  | none => simp [issuedFor_eq_nil hr hs,attemptsOf_eq_nil hr hs,startCommands,startAttempts,executions]
  | some s =>
    rw [startCommands_eq (hr.runs sid s hs),h.starts sid s hs]
    cases s.startCommandId <;> simp

/-- One open run for each requirement, however starts, ends and cancellations interleave: a repeated
start returns it and starts it once at most, and the other starts are refused. -/
theorem clarification_slot (d : Digests) (acts : List RunAct) (promised : ∀ act ∈ acts, act.Promised) :
    let w := runTransactions d acts
    SequentialRuns w ∧ ∀ (now : ℕ) (runId : String) (draw : Draw) (input : ClarificationStartInput),
      ∀ s ∈ w.db.sessions, s.requirementId = some input.requirementId →
        (s.state.terminal = false → s.startMessageId = some input.startMessageId →
          Set.InjOn d.text {sid | ∃ t ∈ w.db.sessions, t.id = sid} →
          Admissible w.db input → draw.Fresh w.db → ∃ result db',
            startClarification d now runId draw input w.db = .ok (result,db') ∧ Repeated w.db s result db') ∧
        (s.state.terminal = false ∧ s.startMessageId ≠ some input.startMessageId ∨
          s.state.terminal = true ∧ s.startMessageId = some input.startMessageId →
            Refuses d w.db now runId draw input) := by
  intro w
  have hslots := runTransactions_slotInv d acts
  have hruns := runTransactions_inv d acts
  refine ⟨sequentialRuns hslots hruns,fun now runId draw input s hs requirement => ⟨?_,?_⟩⟩
  · intro running start hd admissible fresh
    exact startClarification_repeats hd hslots hruns (runTransactions_startLedger d promised) hs requirement
      running start admissible fresh
  · exact startClarification_refuses hslots hs requirement

namespace Sample

/-- A run that waits for a daemon, and the daemon that appears after it. -/
def awaited : List RunAct :=
  [.outside [] [requirement] [] [⟨"conv","req"⟩],
   .post { id := "m1", conversationId := "conv", kind := .requester, body := "Hello" },
   .start 1 "run" ⟨"c1","1"⟩ input,
   .outside [{ daemonId := "daemon", connected := true, lastSeenAt := some 0
               capabilities := some ["agent"] }] [requirement] [] [⟨"conv","req"⟩]]

theorem awaited_promised : ∀ act ∈ awaited, act.Promised := by
  simp only [awaited,List.forall_mem_cons,RunAct.Promised]
  exact ⟨trivial,trivial,⟨by decide,context,rfl,by decide⟩,trivial,nofun⟩

end Sample

namespace Sample

/-- Short digests, which tell the two runs below apart. -/
def checksums : Digests :=
  { digests with text := fun t => toString (t.toList.foldl (fun n c => (31*n+c.toNat)%4096) 7) }

/-- Beside the waiting run, a run of another requirement that has its daemon and its first attempt. -/
def neighboured : List RunAct :=
  awaited ++ [.outside [{ daemonId := "daemon", connected := true, lastSeenAt := some 0
                          capabilities := some ["agent"] }] [requirement,{ requirement with id := "next" }] []
                [⟨"conv","req"⟩,⟨"talk","next"⟩],
    .post { id := "m2", conversationId := "talk", kind := .requester, body := "Hello" },
    .start 1 "neighbour" ⟨"c2","1"⟩ { input with
      requirementId := "next", startMessageId := "m2"
      context := { context with
        requirement := { context.requirement with id := "next" }, excerpt := [⟨"m2",.requester,"Hello"⟩] } }]

theorem neighboured_promised : ∀ act ∈ neighboured, act.Promised := by
  simp only [neighboured,List.forall_mem_append,List.forall_mem_cons,RunAct.Promised]
  exact ⟨awaited_promised,trivial,trivial,⟨by decide,_,rfl,by decide⟩,nofun⟩

theorem checksums_injOn : Set.InjOn checksums.text
    {sid | ∃ t ∈ (runTransactions checksums neighboured).db.sessions, t.id = sid} := by
  have hids : ∀ t ∈ (runTransactions checksums neighboured).db.sessions, t.id = "run" ∨ t.id = "neighbour" := by
    decide
  have happart : checksums.text "run" ≠ checksums.text "neighbour" := by decide
  rintro _ ⟨s,hs,rfl⟩ _ ⟨t,ht,rfl⟩ htext
  rcases hids s hs with hsid | hsid
  · rcases hids t ht with htid | htid
    · rw [hsid,htid]
    · exact absurd (hsid ▸ htid ▸ htext) happart
  · rcases hids t ht with htid | htid
    · exact absurd (hsid ▸ htid ▸ htext.symm) happart
    · rw [hsid,htid]

end Sample

/-- The repeat carries a later version and assigns the run. -/
theorem awaited_repeats : ∃ s ∈ (runTransactions Sample.checksums Sample.neighboured).db.sessions,
    s.daemonId = none ∧ ∃ result db', startClarification Sample.checksums 2 "other" ⟨"c3","2"⟩
      { Sample.input with expectedStateVersion := 7 } (runTransactions Sample.checksums Sample.neighboured).db =
        .ok (result,db') ∧ Repeated (runTransactions Sample.checksums Sample.neighboured).db s result db' := by
  have hs : ∃ s ∈ (runTransactions Sample.checksums Sample.neighboured).db.sessions, s.daemonId = none ∧
      s.requirementId = some "req" ∧ s.state.terminal = false ∧ s.startMessageId = some "m1" := by decide
  obtain ⟨s,hs,hdaemon,hrequirement,hrunning,hstart⟩ := hs
  have hslot := (clarification_slot Sample.checksums Sample.neighboured Sample.neighboured_promised).2 2 "other"
    ⟨"c3","2"⟩ { Sample.input with expectedStateVersion := 7 } s hs hrequirement
  exact ⟨s,hs,hdaemon,hslot.1 hrunning hstart Sample.checksums_injOn ⟨by decide,by decide,by decide⟩
    ⟨by decide,by decide,by decide,by decide⟩⟩

/-- The zero version is refused before the slot is looked at. -/
theorem zero_version_refused : ∃ s ∈ (runTransactions Sample.digests Sample.awaited).db.sessions,
    s.requirementId = some Sample.input.requirementId ∧ s.state.terminal = false ∧
      s.startMessageId = some Sample.input.startMessageId ∧
      startClarification Sample.digests 2 "other" ⟨"c2","2"⟩ { Sample.input with expectedStateVersion := 0 }
        (runTransactions Sample.digests Sample.awaited).db = .error .invalidContext := by
  decide

end Store
end North
