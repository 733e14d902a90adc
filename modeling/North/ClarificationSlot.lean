import North.RunInvariant
import North.CommandLedger

/-! The clarification slot of a requirement. The runs of a requirement come one after the
other, each under a start message of its own, and a repeated start finds the run that its
message has opened. -/
namespace North
namespace Store

open Machine Protocol Domain

variable {ev : Bool}

/-! ### Rows that share a slot -/

/-- What the slot looks at in a row: it stays, and a finished run stays finished. -/
structure SlotKept (s s' : Session) : Prop where
  id : s'.id = s.id
  requirement : s'.requirementId = s.requirementId
  start : s'.startMessageId = s.startMessageId
  ended : s.state.terminal = true → s'.state.terminal = true

theorem SlotKept.refl (s : Session) : SlotKept s s := ⟨rfl,rfl,rfl,fun h => h⟩

theorem SlotKept.running {s s' : Session} (h : SlotKept s s') (hs' : s'.state.terminal = false) :
    s.state.terminal = false := by
  by_contra hs
  have hended := h.ended (by simpa using hs)
  rw [hs'] at hended
  cases hended

/-- Of the runs of a requirement at most one is open, and each has its own start message. -/
structure Slots (db : Db) : Prop where
  messages : ∀ s ∈ db.sessions, ∀ t ∈ db.sessions, s.requirementId = t.requirementId →
    s.startMessageId = t.startMessageId → s = t
  slot : ∀ s ∈ db.sessions, ∀ t ∈ db.sessions, s.requirementId = t.requirementId →
    s.state.terminal = false → t.state.terminal = false → s = t

theorem Slots.kept {db db' : Db} (h : Slots db) (keyed : db'.Keyed)
    (old : ∀ x ∈ db'.sessions, ∃ s ∈ db.sessions, SlotKept s x) : Slots db' := by
  refine ⟨fun x hx y hy hreq hmsg => ?_,fun x hx y hy hreq hxo hyo => ?_⟩
  · obtain ⟨s,hs,hsx⟩ := old x hx
    obtain ⟨t,ht,hty⟩ := old y hy
    obtain rfl := h.messages s hs t ht (by rw [← hsx.requirement,← hty.requirement,hreq])
      (by rw [← hsx.start,← hty.start,hmsg])
    exact List.inj_on_of_nodup_map keyed hx hy (hsx.id.trans hty.id.symm)
  · obtain ⟨s,hs,hsx⟩ := old x hx
    obtain ⟨t,ht,hty⟩ := old y hy
    obtain rfl := h.slot s hs t ht (by rw [← hsx.requirement,← hty.requirement,hreq])
      (hsx.running hxo) (hty.running hyo)
    exact List.inj_on_of_nodup_map keyed hx hy (hsx.id.trans hty.id.symm)

theorem Slots.add {db db' : Db} (h : Slots db) {input : ClarificationStartInput} {x : Session}
    (vacant : Vacant db input) (requirement : x.requirementId = some input.requirementId)
    (start : x.startMessageId = some input.startMessageId)
    (runs : ∀ s ∈ db.sessions, s.startMessageId.isSome = true)
    (sessions : db'.sessions = db.sessions ++ [x]) : Slots db' := by
  have hslot : ∀ s ∈ db.sessions, s.requirementId = x.requirementId → s.state.terminal = true := by
    intro s hs hreq
    have hfree := vacant.slot s hs
    simpa [openRunOf,hreq,requirement,runs s hs] using hfree
  have hmessage : ∀ s ∈ db.sessions, s.requirementId = x.requirementId →
      s.startMessageId ≠ x.startMessageId := by
    intro s hs hreq
    rw [start]
    exact vacant.unused s hs (hreq.trans requirement)
  have hcases : ∀ s ∈ db'.sessions, s ∈ db.sessions ∨ s = x := by
    intro s hs
    simpa [sessions] using hs
  constructor
  · intro s hs t ht hreq hmsg
    rcases hcases s hs with hold | rfl <;> rcases hcases t ht with hold' | rfl
    · exact h.messages s hold t hold' hreq hmsg
    · exact absurd hmsg (hmessage s hold hreq)
    · exact absurd hmsg.symm (hmessage t hold' hreq.symm)
    · rfl
  · intro s hs t ht hreq hso hto
    rcases hcases s hs with hold | rfl <;> rcases hcases t ht with hold' | rfl
    · exact h.slot s hold t hold' hreq hso hto
    · rw [hslot s hold hreq] at hso
      cases hso
    · rw [hslot t hold' hreq.symm] at hto
      cases hto
    · rfl

/-! ### The pin of a run -/

/-- The start command and the daemon of a run come together, and before them it only waits. -/
structure Pinned (s : Session) : Prop where
  run : s.startMessageId.isSome = true ∧ s.requirementId.isSome = true
  named : s.startCommandId.isSome = s.daemonId.isSome
  waiting : s.daemonId = none → s.state ≠ .running ∧ s.state ≠ .retrying ∧ s.currentAttemptId = none

def startAttempts (attempts : List ExecutionAttempt) : List String :=
  attempts.filterMap fun a => if a.commandKind = .sessionStart then some a.commandId else none

def startCommands (rows : List OutboxRow) : List String :=
  (executions rows).filterMap fun e => if e.2 = .sessionStart then some e.1 else none

theorem startAttempts_append (a b : List ExecutionAttempt) :
    startAttempts (a ++ b) = startAttempts a ++ startAttempts b := List.filterMap_append ..

theorem startCommands_eq {attempts : List ExecutionAttempt} {issued : List OutboxRow} {s : Session}
    (h : RunInv attempts issued s) : startCommands issued = startAttempts attempts := by
  rw [startCommands,h.executed,List.filterMap_map]
  rfl

theorem startAttempts_close {attemptId sid : String} {outcome : AttemptOutcome}
    (attempts : List ExecutionAttempt) :
    startAttempts (Table.updateFirst (openUnder attemptId sid) (·.close outcome) attempts) =
      startAttempts attempts := by
  have hsame := Table.map_updateFirst (openUnder attemptId sid) (·.close outcome)
    (fun a : ExecutionAttempt => (a.commandId,a.commandKind)) (fun _ => rfl) attempts
  have hmap : ∀ xs : List ExecutionAttempt, startAttempts xs =
      (xs.map fun a => (a.commandId,a.commandKind)).filterMap
        fun e => if e.2 = .sessionStart then some e.1 else none := by
    intro xs
    rw [List.filterMap_map]
    rfl
  rw [hmap,hsame,← hmap]

/-- A database of runs whose slots, pins and start attempts are in order. -/
structure SlotInv (db : Db) : Prop where
  slots : Slots db
  pinned : ∀ s ∈ db.sessions, Pinned s
  starts : ∀ sid s, db.session? sid = some s → startAttempts (db.attemptsOf sid) = s.startCommandId.toList

section

variable {d : Digests} {db db' : Db} {issued rows : List OutboxRow}

/-- One row moves, perhaps with a start attempt that it names. -/
theorem SlotInv.update {sid : String} {s : Session} {f : Session → Session} (new : List String)
    (h : SlotInv db) (found : db.session? sid = some s) (hf : ∀ t, (f t).id = t.id) (keyed : db'.Keyed)
    (sessions : db'.sessions = (db.updateSession sid f).sessions) (moves : AttemptsMove db db' sid)
    (kept : SlotKept s (f s)) (pinned : Pinned s → Pinned (f s))
    (starts : startAttempts (db'.attemptsOf sid) = startAttempts (db.attemptsOf sid) ++ new)
    (named : (f s).startCommandId.toList = s.startCommandId.toList ++ new) : SlotInv db' := by
  have hmem := (session?_some found).1
  have hrow : ∀ x ∈ db'.sessions, x ∈ db.sessions ∨ x = f s := by
    intro x hx
    rw [sessions] at hx
    rcases Table.mem_updateFirst hx with hx | ⟨t,ht,rfl⟩
    · exact .inl hx
    · have hts : db.session? sid = some t := ht
      rw [found] at hts
      obtain rfl := Option.some.inj hts
      exact .inr rfl
  refine ⟨h.slots.kept keyed fun x hx => ?_,fun x hx => ?_,fun other t ht => ?_⟩
  · rcases hrow x hx with hx | rfl
    · exact ⟨x,hx,.refl x⟩
    · exact ⟨s,hmem,kept⟩
  · rcases hrow x hx with hx | rfl
    · exact h.pinned x hx
    · exact pinned (h.pinned s hmem)
  · have hlook : db'.session? other = (db.updateSession sid f).session? other := by
      unfold Db.session?
      rw [sessions]
    rw [hlook,session?_updateSession _ _ _ _ hf] at ht
    by_cases hother : other = sid
    · subst hother
      obtain rfl : f s = t := by simpa [found] using ht
      rw [starts,h.starts other s found,named]
    · rw [if_neg hother] at ht
      rw [moves.others other hother]
      exact h.starts other t ht

/-- A step that neither opens nor closes a run for its slot, and names no start command. -/
theorem SlotInv.rewrite {sid : String} {s : Session} {f : Session → Session}
    (h : SlotInv db) (found : db.session? sid = some s) (hf : ∀ t, (f t).id = t.id) (keyed : db'.Keyed)
    (sessions : db'.sessions = (db.updateSession sid f).sessions) (moves : AttemptsMove db db' sid)
    (kept : SlotKept s (f s)) (pinned : Pinned s → Pinned (f s))
    (starts : startAttempts (db'.attemptsOf sid) = startAttempts (db.attemptsOf sid))
    (named : (f s).startCommandId = s.startCommandId) : SlotInv db' :=
  h.update [] found hf keyed sessions moves kept pinned (by rw [starts,List.append_nil])
    (by rw [named,List.append_nil])

theorem SlotInv.add {input : ClarificationStartInput} {x : Session} (h : SlotInv db)
    (fresh : db.session? x.id = none) (vacant : Vacant db input)
    (sessions : db'.sessions = db.sessions ++ [x]) (moves : AttemptsMove db db' x.id)
    (requirement : x.requirementId = some input.requirementId)
    (start : x.startMessageId = some input.startMessageId) (pinned : Pinned x)
    (starts : startAttempts (db'.attemptsOf x.id) = x.startCommandId.toList) : SlotInv db' := by
  refine ⟨h.slots.add vacant requirement start (fun s hs => (h.pinned s hs).run.1) sessions,
    fun y hy => ?_,fun other t ht => ?_⟩
  · rw [sessions] at hy
    rcases List.mem_append.mp hy with hy | hy
    · exact h.pinned y hy
    · rw [List.mem_singleton.mp hy]
      exact pinned
  · have hlook : db'.session? other = (db.addSession x).session? other := by
      unfold Db.session?
      rw [sessions]
      rfl
    rw [hlook,session?_addSession fresh] at ht
    by_cases hother : other = x.id
    · subst hother
      obtain rfl : x = t := by simpa using ht
      exact starts
    · rw [if_neg hother] at ht
      rw [moves.others other hother]
      exact h.starts other t ht

theorem SlotInv.same (h : SlotInv db) (keyed : db'.Keyed) (sessions : db'.sessions = db.sessions)
    (attempts : db'.attempts = db.attempts) : SlotInv db' := by
  refine ⟨h.slots.kept keyed fun x hx => ⟨x,sessions ▸ hx,.refl x⟩,
    fun s hs => h.pinned s (sessions ▸ hs),fun sid s hs => ?_⟩
  unfold Db.attemptsOf
  rw [attempts]
  refine h.starts sid s ?_
  unfold Db.session? at *
  rwa [sessions] at hs

theorem pinned_freshRun (input : ClarificationStartInput) (runId : String) :
    Pinned (freshRun input runId none none) :=
  ⟨⟨rfl,rfl⟩,rfl,fun _ => ⟨nofun,nofun,rfl⟩⟩

theorem pinned_startedRun (input : ClarificationStartInput) (attemptId runId daemonId commandId : String) :
    Pinned (beginRun attemptId (freshRun input runId (some daemonId) (some commandId))) :=
  ⟨⟨rfl,rfl⟩,rfl,nofun⟩

theorem Pinned.daemon {s : Session} (h : Pinned s) (hs : s.currentAttemptId.isSome = true) :
    s.daemonId ≠ none := by
  intro hnone
  rw [(h.waiting hnone).2.2] at hs
  cases hs

theorem SlotInv.newRun {input : ClarificationStartInput} {runId : String} (h : SlotInv db) (hr : RunsInv db issued)
    (fresh : db.session? runId = none) (vacant : Vacant db input) :
    SlotInv (db.addSession (freshRun input runId none none)) := by
  refine h.add (x := freshRun input runId none none) fresh vacant rfl
    (.same hr.attemptCommands (by rfl) _) rfl rfl (pinned_freshRun input runId) ?_
  show startAttempts (db.attemptsOf runId) = []
  rw [attemptsOf_eq_nil hr fresh]
  rfl

theorem SlotInv.newStartedRun {input : ClarificationStartInput} {row : OutboxRow} {a : ExecutionAttempt}
    (h : SlotInv db) (hr : RunsInv db issued) (fresh : db.session? row.sessionId = none) (opens : Opens db a)
    (executes : Executes row a 1 .sessionStart) (vacant : Vacant db input) :
    SlotInv (((db.addSession (beginRun a.id (freshRun input row.sessionId (some row.daemonId)
      (some row.commandId)))).addCommand row).addAttempt a) := by
  refine h.add (x := beginRun a.id (freshRun input row.sessionId (some row.daemonId) (some row.commandId)))
    fresh vacant rfl ?_ rfl rfl (pinned_startedRun input _ _ _ _) ?_
  · show AttemptsMove db _ row.sessionId
    rw [← executes.session]
    exact .add hr.attemptCommands opens rfl
  · show startAttempts (Db.attemptsOf _ row.sessionId) = [row.commandId]
    rw [← executes.session,attemptsOf_add db rfl,executes.session,attemptsOf_eq_nil hr fresh]
    simp [startAttempts,executes.attemptKind,executes.command]

theorem SlotInv.assign {row : OutboxRow} {a : ExecutionAttempt} {t : Session} (h : SlotInv db)
    (hr : RunsInv db issued) (found : db.session? row.sessionId = some t) (unassigned : t.daemonId = none)
    (opens : Opens db a) (executes : Executes row a 1 .sessionStart)
    (keyed : (((db.addCommand row).addAttempt a).updateSession row.sessionId
      (assignRun row.daemonId row.commandId a.id)).Keyed) :
    SlotInv (((db.addCommand row).addAttempt a).updateSession row.sessionId
      (assignRun row.daemonId row.commandId a.id)) := by
  have hunnamed : t.startCommandId = none := by
    have hnamed := (h.pinned t (session?_some found).1).named
    rw [unassigned] at hnamed
    simpa using hnamed
  refine h.update (f := assignRun row.daemonId row.commandId a.id) [row.commandId] found
    (fun _ => rfl) keyed rfl ?_ ⟨rfl,rfl,rfl,fun h => h⟩ (fun hp => ⟨hp.run,rfl,nofun⟩) ?_ ?_
  · rw [← executes.session]
    exact .add hr.attemptCommands opens rfl
  · show startAttempts (Db.attemptsOf _ row.sessionId) = _
    rw [← executes.session,attemptsOf_add db rfl,startAttempts_append]
    simp [startAttempts,executes.attemptKind,executes.command]
  · rw [hunnamed]
    rfl

theorem SlotInv.cancelMark {t : Session} (h : SlotInv db) (hr : RunsInv db issued)
    (found : db.session? t.id = some t) (keyed : (db.updateSession t.id markCancelled).Keyed) :
    SlotInv (db.updateSession t.id markCancelled) := by
  refine h.rewrite found markCancelled_id keyed rfl (.same hr.attemptCommands (by rfl) _) ?_ ?_ rfl ?_
  · unfold markCancelled
    split
    · exact ⟨rfl,rfl,rfl,fun h => h⟩
    · exact ⟨rfl,rfl,rfl,fun _ => rfl⟩
  · intro hp
    unfold markCancelled
    split
    · exact ⟨hp.run,hp.named,hp.waiting⟩
    · exact ⟨hp.run,hp.named,fun hd => ⟨nofun,nofun,(hp.waiting hd).2.2⟩⟩
  · unfold markCancelled
    split <;> rfl

theorem SlotInv.resume {row : OutboxRow} {a : ExecutionAttempt} {t : Session} (h : SlotInv db)
    (hr : RunsInv db issued) (found : db.session? row.sessionId = some t) (retrying : t.state = .retrying)
    (opens : Opens db a) (executes : Executes row a (t.attemptCount+1) .sessionResume)
    (keyed : (((db.addCommand row).addAttempt a).updateSession row.sessionId
      (resumeRun (t.attemptCount+1) a.id)).Keyed) :
    SlotInv (((db.addCommand row).addAttempt a).updateSession row.sessionId
      (resumeRun (t.attemptCount+1) a.id)) := by
  refine h.rewrite (f := resumeRun (t.attemptCount+1) a.id) found (fun _ => rfl) keyed rfl ?_
    ⟨rfl,rfl,rfl,fun he => ?_⟩ (fun hp => ⟨hp.run,hp.named,fun hd => ?_⟩) ?_ rfl
  · rw [← executes.session]
    exact .add hr.attemptCommands opens rfl
  · rw [retrying] at he
    cases he
  · exact absurd retrying (hp.waiting hd).2.1
  · show startAttempts (Db.attemptsOf _ row.sessionId) = _
    rw [← executes.session,attemptsOf_add db rfl,startAttempts_append]
    simp [startAttempts,executes.attemptKind]

/-- A run whose attempt is closed has a daemon. -/
theorem SlotInv.closes {t : Session} {attemptId : String} {outcome : AttemptOutcome} {f : Session → Session}
    {db₁ : Db} (h : SlotInv db) (hr : RunsInv db issued) (found : db.session? t.id = some t)
    (current : t.currentAttemptId = some attemptId) (closes : closeAttempt db attemptId t.id outcome = some db₁)
    (hf : ∀ u, (f u).id = u.id) (keyed : (db₁.updateSession t.id f).Keyed) (kept : SlotKept t (f t))
    (pinned : t.daemonId ≠ none → Pinned t → Pinned (f t)) (named : (f t).startCommandId = t.startCommandId) :
    SlotInv (db₁.updateSession t.id f) := by
  obtain ⟨-,hdb₁,hattempts⟩ := closeAttempt_some closes
  have hsessions : db₁.sessions = db.sessions := by rw [hdb₁]
  refine h.rewrite found hf keyed ?_ (.close hr.attemptCommands hattempts) kept
    (fun hp => pinned (hp.daemon (by simp [current])) hp) ?_ named
  · simp [Db.updateSession,hsessions]
  · show startAttempts (db₁.attemptsOf t.id) = _
    rw [attemptsOf_close hattempts,startAttempts_close]

theorem Change.slotInv (hc : Change ev d db rows db') (hr : RunsInv db issued) (h : SlotInv db) :
    SlotInv db' := by
  have keyed := hc.keyed hr.keyed
  cases hc with
  | outer sessions attempts => exact h.same keyed sessions attempts
  | newRun fresh vacant => exact h.newRun hr fresh vacant
  | newStartedRun fresh _ opens executes vacant => exact h.newStartedRun hr fresh opens executes vacant
  | assign found _ _ unassigned _ _ opens executes => exact h.assign hr found unassigned opens executes keyed
  | send => exact ⟨⟨h.slots.messages,h.slots.slot⟩,h.pinned,h.starts⟩
  | cancelMark found => exact h.cancelMark hr found keyed
  | @cancelSend t row _ found =>
    exact h.rewrite (f := nameCancel row.commandId) found (fun _ => rfl) keyed rfl
      (.same hr.attemptCommands (by rfl) _) ⟨rfl,rfl,rfl,fun h => h⟩ (fun hp => ⟨hp.run,hp.named,hp.waiting⟩) rfl rfl
  | @giveUp t failure found =>
    exact h.rewrite (f := failRetry failure) found (fun _ => rfl) keyed rfl
      (.same hr.attemptCommands (by rfl) _) ⟨rfl,rfl,rfl,fun _ => rfl⟩
      (fun hp => ⟨hp.run,hp.named,fun _ => ⟨nofun,nofun,rfl⟩⟩) rfl rfl
  | resume found retrying _ _ _ _ opens executes => exact h.resume hr found retrying opens executes keyed
  | @started t runtimeId found running active =>
    refine h.rewrite (f := startedSession runtimeId) found (fun _ => rfl) keyed rfl
      (.same hr.attemptCommands (by rfl) _) ⟨rfl,rfl,rfl,fun he => ?_⟩
      (fun hp => ⟨hp.run,hp.named,fun hd => absurd hd (hp.daemon active)⟩) rfl rfl
    rw [running] at he
    cases he
  | @completed db₁ t attemptId summary found running current closes =>
    exact h.closes (f := completedSession summary) hr found current closes (fun _ => rfl) keyed
      ⟨rfl,rfl,rfl,fun _ => rfl⟩ (fun hd hp => ⟨hp.run,hp.named,fun hnone => absurd hnone hd⟩) rfl
  | @failed db₁ t attemptId eventId failure state retryAt found running current closes =>
    refine h.closes (f := failedSession state retryAt failure) hr found current closes (fun _ => rfl) keyed
      ⟨rfl,rfl,rfl,fun he => ?_⟩ (fun hd hp => ⟨hp.run,hp.named,fun hnone => absurd hnone hd⟩) rfl
    rw [running] at he
    cases he
  | @recorded t row advance _ records =>
    exact h.rewrite (f := setCursor advance row.daemonEventSeq) records.found (fun _ => rfl) keyed rfl
      (.same hr.attemptCommands (by rfl) _) ⟨rfl,rfl,rfl,fun h => h⟩ (fun hp => ⟨hp.run,hp.named,hp.waiting⟩) rfl rfl

theorem Delivers.slotInv (hd : Delivers db db') (hr : RunsInv db issued) (h : SlotInv db) : SlotInv db' := by
  have keyed := (hd.runsInv hr).keyed
  have hattempts : db'.attempts = db.attempts := by rw [hd.frame]
  rcases hd.sessions with hsame | ⟨id,watermark,hset⟩
  · exact h.same keyed hsame hattempts
  · cases hfound : db.session? id with
    | some s =>
      have hstarts : ∀ sid, db'.attemptsOf sid = db.attemptsOf sid := by
        intro sid
        unfold Db.attemptsOf
        rw [hattempts]
      refine h.rewrite (f := setCommandAck watermark) hfound (fun _ => rfl) keyed hset
        (.same hr.attemptCommands hattempts _) ⟨rfl,rfl,rfl,fun h => h⟩
        (fun hp => ⟨hp.run,hp.named,hp.waiting⟩) ?_ rfl
      rw [hstarts]
    | none =>
      have hnone : ∀ t ∈ db.sessions, decide (t.id = id) = false := fun t ht =>
        decide_eq_false (Table.find?_key_none.mp hfound t ht)
      have hupdate := @Table.updateFirst_append_of_none _ _ (setCommandAck watermark) _ [] hnone
      refine h.same keyed ?_ hattempts
      rw [hset]
      simpa [Db.updateSession,Table.updateFirst] using hupdate

end

theorem SlotInv.empty : SlotInv {} := by
  refine ⟨⟨by simp,by simp⟩,by simp,fun sid s hs => ?_⟩
  cases hs

theorem runTransactions_slotInv (d : Digests) (acts : List RunAct) :
    SlotInv (runTransactions d acts).db := by
  induction acts using List.reverseRecOn with
  | nil => exact SlotInv.empty
  | append_singleton acts act ih =>
    have hruns := runTransactions_inv d acts
    rw [runTransactions_snoc]
    rcases act.step_cases hruns.keyed with ⟨rows,hchanges,-⟩ | ⟨hdelivers,-⟩
    · exact (hchanges.induction (P := fun db issued => RunsInv db issued ∧ SlotInv db)
        (fun hc h => ⟨hc.runsInv h.1,hc.slotInv h.1 h.2⟩) ⟨hruns,ih⟩).2
    · exact hdelivers.slotInv hruns ih

/-! ### Repeated starts -/

/-- The checks that a start passes before it looks at the slot. -/
structure Admissible (db : Db) (input : ClarificationStartInput) : Prop where
  valid : input.valid = true
  requirement : (db.requirement? input.requirementId).isSome = true
  message : (db.requesterMessage? input.requirementId input.startMessageId).isSome = true

/-- A run that no daemon has and that nobody cancelled. -/
def Waiting (s : Session) : Prop := s.daemonId = none ∧ s.cancelRequested = false

/-- What an assignment needs: the stored context makes a valid frame at the next sequence, and
no row has the new ids. -/
structure Assignable (d : Digests) (db : Db) (draw : Draw) (s : Session) : Prop where
  frame : ∃ sequence context payload, nextCommandSequence db s.id = some sequence ∧
    s.startContext = some context ∧
    commandFrame draw.sentAt s.id draw.commandId sequence (.sessionStart context) = some payload
  command : (∀ r ∈ db.outbox, r.commandId ≠ draw.commandId) ∧
    ∀ a ∈ db.attempts, a.commandId ≠ draw.commandId
  attempt : ∀ a ∈ db.attempts, a.id ≠ executionAttemptId d s.id 1

section

variable {d : Digests} {db db' : Db} {now : ℕ} {draw : Draw} {input : ClarificationStartInput}
  {s : Session} {issued : List OutboxRow}

theorem Pinned.phase (h : Pinned s) : ∃ phase, runPhase s.state s.daemonId.isSome = some phase := by
  cases hd : s.daemonId with
  | some daemonId => cases s.state <;> exact ⟨_,rfl⟩
  | none =>
    obtain ⟨hrunning,hretrying,-⟩ := h.waiting hd
    cases hs : s.state with
    | running => exact absurd hs hrunning
    | retrying => exact absurd hs hretrying
    | idle => exact ⟨_,rfl⟩
    | completed => exact ⟨_,rfl⟩
    | failed => exact ⟨_,rfl⟩

theorem Pinned.idle (h : Pinned s) (running : s.state.terminal = false) (unassigned : s.daemonId = none) :
    s.state = .idle := by
  obtain ⟨hrunning,hretrying,-⟩ := h.waiting unassigned
  cases hs : s.state with
  | idle => rfl
  | running => exact absurd hs hrunning
  | retrying => exact absurd hs hretrying
  | completed => simp [hs,SessionState.terminal] at running
  | failed => simp [hs,SessionState.terminal] at running

theorem Pinned.decodes (h : Pinned s) (db : Db) (now : ℕ) : ∃ run, intoRun db now s = .ok run := by
  obtain ⟨messageId,hmessage⟩ := Option.isSome_iff_exists.mp h.run.1
  obtain ⟨requirementId,hrequirement⟩ := Option.isSome_iff_exists.mp h.run.2
  obtain ⟨phase,hphase⟩ := h.phase
  simp [intoRun,hmessage,hrequirement,hphase,orError,bind,Except.bind]

theorem reusedResult_answers (now : ℕ) (found : db.session? s.id = some s) (h : Pinned s)
    (commandId : String) :
    ∃ result, reusedResult db now s.id commandId = .ok (result,db) ∧ result.run.runId = s.id ∧
      result.reused = true := by
  obtain ⟨run,hrun⟩ := h.decodes db now
  have hrow : runRow db now s.id = .ok run := by simp [runRow,found,hrun,orError,bind,Except.bind]
  exact ⟨_,by simp only [reusedResult,hrow]; rfl,(intoRun_ok hrun).id,rfl⟩

theorem reuseRun_finds (found : db.session? s.id = some s) (h : Pinned s)
    (start : s.startMessageId = some input.startMessageId)
    (rest : Waiting s → chooseEligibleDaemon db now input.requiredCapabilities = none) :
    ∃ result, reuseRun d now draw input s db = .ok (result,db) ∧ result.run.runId = s.id ∧
      result.reused = true := by
  obtain ⟨run,hrun⟩ := h.decodes db now
  have of := intoRun_ok hrun
  unfold reuseRun
  rw [if_neg (by simpa using start),hrun]
  simp only [bind,Except.bind]
  by_cases hwaiting : Waiting s
  · have hfree : (run.daemonId.isNone && !run.cancelRequested) = true := by
      simp [of.daemon,of.cancel,hwaiting.1,hwaiting.2]
    rw [if_pos hfree,rest hwaiting]
    exact ⟨_,rfl,of.id,rfl⟩
  · have hheld : (run.daemonId.isNone && !run.cancelRequested) = false := by
      by_contra hfree
      exact hwaiting (by simpa [Waiting,of.daemon,of.cancel] using hfree)
    rw [if_neg (by simp [hheld]),of.id]
    exact reusedResult_answers now found h _

theorem attemptsOf_waiting (hr : RunsInv db issued) (found : db.session? s.id = some s)
    (idle : s.state = .idle) (unassigned : s.daemonId = none) : db.attemptsOf s.id = [] := by
  have hrun := hr.runs s.id s found
  have hshape := hrun.shape
  simp only [RunShape,idle,unassigned] at hshape
  have hnumbered := hrun.numbered
  rw [hshape.2.2] at hnumbered
  simpa using hnumbered

/-- The first attempt of a waiting run and its command can be inserted. -/
theorem insertStart_of_assignable (payload : CommandEnvelope) (hr : RunsInv db issued)
    (found : db.session? s.id = some s) (idle : s.state = .idle) (unassigned : s.daemonId = none) (h : Assignable d db draw s)
    {sequence : ℕ} (hsequence : nextCommandSequence db s.id = some sequence)
    (daemonId : String) : ∃ db', insertStart d db draw s.id daemonId sequence payload = .ok db' := by
  have hcommand : ¬ (db.outbox.any fun r => decide (r.commandId = draw.commandId) ||
      (decide (r.sessionId = s.id) && decide (r.serverCommandSeq = sequence))) = true := by
    simp only [nextCommandSequence,found,checkedSucc_eq_some] at hsequence
    obtain ⟨-,rfl⟩ := hsequence
    rw [List.any_eq_true]
    rintro ⟨r,hmem,hbad⟩
    rcases Bool.or_eq_true_iff.mp hbad with hid | hseq
    · exact h.command.1 r hmem (of_decide_eq_true hid)
    · obtain ⟨hsession,hseq⟩ := Bool.and_eq_true_iff.mp hseq
      have hle : r.serverCommandSeq ≤ Db.maxSeq ((db.outboxOf s.id).map (·.serverCommandSeq)) :=
        le_maxSeq (List.mem_map.mpr ⟨r,List.mem_filter.mpr ⟨hmem,hsession⟩,rfl⟩)
      have heq := of_decide_eq_true hseq
      omega
  have hnone := attemptsOf_waiting hr found idle unassigned
  have hattempt : ¬ (db.attempts.any fun a => decide (a.id = executionAttemptId d s.id 1) ||
      decide (a.commandId = draw.commandId) ||
      (decide (a.sessionId = s.id) && decide (a.attemptNumber = 1))) = true := by
    rw [List.any_eq_true]
    rintro ⟨a,hmem,hbad⟩
    have hother : a.sessionId ≠ s.id := by
      intro hsession
      have hin : a ∈ db.attemptsOf s.id := List.mem_filter.mpr ⟨hmem,by simp [hsession]⟩
      rw [hnone] at hin
      cases hin
    simp [h.attempt a hmem,h.command.2 a hmem,hother] at hbad
  have hrow : insertCommand d db draw.commandId s.id daemonId sequence payload =
      some (db.addCommand (commandRow d draw.commandId s.id daemonId sequence payload)) := if_neg hcommand
  have hopened : ∃ db', insertExecutionAttempt
      (db.addCommand (commandRow d draw.commandId s.id daemonId sequence payload))
      { id := executionAttemptId d s.id 1
        sessionId := s.id
        attemptNumber := 1
        commandId := draw.commandId
        commandKind := .sessionStart } = some db' := ⟨_,if_neg hattempt⟩
  obtain ⟨db',hdb'⟩ := hopened
  refine ⟨db',?_⟩
  simp only [insertStart,bind_eq_ok,orError_eq_ok]
  exact ⟨_,hrow,hdb'⟩

/-- A waiting run is assigned to the daemon that can take it, exactly when it can be. -/
theorem reuseRun_assigns (hr : RunsInv db issued) (found : db.session? s.id = some s) (h : Pinned s)
    (start : s.startMessageId = some input.startMessageId) (running : s.state.terminal = false)
    (waiting : Waiting s) {daemonId : String}
    (eligible : chooseEligibleDaemon db now input.requiredCapabilities = some daemonId) :
    (∃ result db', reuseRun d now draw input s db = .ok (result,db')) ↔ Assignable d db draw s := by
  obtain ⟨run,hrun⟩ := h.decodes db now
  have of := intoRun_ok hrun
  have hidle := h.idle running waiting.1
  have hfree : (run.daemonId.isNone && !run.cancelRequested) = true := by
    simp [of.daemon,of.cancel,waiting.1,waiting.2]
  have hreuse : reuseRun d now draw input s db = (do
      let sequence ← orError .database (nextCommandSequence db s.id)
      let startContext ← orError .database s.startContext
      let payload ← orError .invalidContext (commandFrame draw.sentAt s.id draw.commandId sequence
        (.sessionStart startContext))
      let db ← insertStart d db draw s.id daemonId sequence payload
      reusedResult (db.updateSession s.id (assignRun daemonId draw.commandId (executionAttemptId d s.id 1)))
        now s.id draw.commandId) := by
    unfold reuseRun
    rw [if_neg (by simpa using start),hrun]
    simp only [bind,Except.bind]
    rw [if_pos hfree,eligible,of.id]
  rw [hreuse]
  constructor
  · rintro ⟨result,db',hok⟩
    simp only [bind_eq_ok,orError_eq_ok] at hok
    obtain ⟨sequence,hsequence,context,hcontext,payload,hpayload,db₁,hins,-⟩ := hok
    obtain ⟨a,unused,opens,ha,-,hcommand,-⟩ := insertStart_ok hins
    exact ⟨⟨sequence,context,payload,hsequence,hcontext,hpayload⟩,
      ⟨unused,fun b hb => hcommand ▸ opens.commands b hb⟩,fun b hb => ha ▸ opens.ids b hb⟩
  · intro hassignable
    obtain ⟨sequence,context,payload,hsequence,hcontext,hpayload⟩ := hassignable.frame
    obtain ⟨db₁,hins⟩ := insertStart_of_assignable payload hr found hidle waiting.1
      hassignable hsequence daemonId
    obtain ⟨a,-,-,-,-,-,-,-,rfl⟩ := insertStart_ok hins
    have hassigned : (((db.addCommand (commandRow d draw.commandId s.id daemonId sequence payload)).addAttempt
        a).updateSession s.id (assignRun daemonId draw.commandId (executionAttemptId d s.id 1))).session?
          s.id = some (assignRun daemonId draw.commandId (executionAttemptId d s.id 1) s) := by
      rw [session?_updateSession (f := assignRun daemonId draw.commandId (executionAttemptId d s.id 1))
        _ _ _ fun _ => rfl,if_pos rfl]
      show Option.map _ (db.session? s.id) = _
      rw [found]
      rfl
    obtain ⟨result,hresult,-⟩ := reusedResult_answers now
      (s := assignRun daemonId draw.commandId (executionAttemptId d s.id 1) s) hassigned
      ⟨h.run,rfl,fun h => absurd h (Option.some_ne_none _)⟩ draw.commandId
    refine ⟨result,((db.addCommand (commandRow d draw.commandId s.id daemonId sequence payload)).addAttempt
      a).updateSession s.id (assignRun daemonId draw.commandId (executionAttemptId d s.id 1)),?_⟩
    simp only [bind_eq_ok,orError_eq_ok]
    exact ⟨sequence,hsequence,context,hcontext,payload,hpayload,_,hins,hresult⟩

/-- Whatever a reuse answers, it is the same run, and the discussion does not begin again. -/
theorem reuseRun_same {result : ClarificationStartResult}
    (hok : reuseRun d now draw input s db = .ok (result,db')) : result.run.runId = s.id ∧
      result.reused = true ∧ (db'.requirements = db.requirements ∧ db'.audit = db.audit) ∧
        db'.sessions.map (·.id) = db.sessions.map (·.id) := by
  unfold reuseRun at hok
  split_ifs at hok with hstart
  simp only [bind_eq_ok] at hok
  obtain ⟨run,hrun,hok⟩ := hok
  have of := intoRun_ok hrun
  rw [of.id] at hok
  have hresult : ∀ {db₁ : Db} {commandId : String}, reusedResult db₁ now s.id commandId = .ok (result,db') →
      result.run.runId = s.id ∧ result.reused = true ∧ db' = db₁ := by
    intro db₁ commandId h₁
    have hsame := reusedResult_ok h₁
    simp only [reusedResult,bind_eq_ok] at h₁
    obtain ⟨run₁,hrow,h₁⟩ := h₁
    obtain ⟨t,ht,of₁⟩ := runRow_ok hrow
    cases h₁
    exact ⟨of₁.id.trans (session?_some ht).2,rfl,hsame⟩
  split at hok
  · split at hok
    · cases hok
      exact ⟨of.id,rfl,⟨rfl,rfl⟩,rfl⟩
    · simp only [bind_eq_ok,orError_eq_ok] at hok
      obtain ⟨sequence,-,context,-,payload,-,db₁,hins,hok⟩ := hok
      obtain ⟨a,-,-,-,-,-,-,-,rfl⟩ := insertStart_ok hins
      obtain ⟨hid,hreused,rfl⟩ := hresult hok
      exact ⟨hid,hreused,⟨rfl,rfl⟩,@Table.map_updateFirst _ _ _ (assignRun _ _ _) (·.id) (fun _ => rfl) _⟩
  · obtain ⟨hid,hreused,rfl⟩ := hresult hok
    exact ⟨hid,hreused,⟨rfl,rfl⟩,rfl⟩

end

end Store
end North
