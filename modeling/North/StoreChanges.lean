import North.EventCalls

/-! What the transactions of the store can do to its tables. `Change` lists the ways in
which sessions, attempts, commands and the event ledger move, each with the checks that
guard it; a committed transaction is a chain of changes. The invariants of the store are
proved once per change. -/
namespace North
namespace Store

open Machine Protocol Domain

/-! ### Sessions under their primary key -/

/-- Session ids are distinct. -/
def Db.Keyed (db : Db) : Prop := (db.sessions.map (·.id)).Nodup

theorem session?_some {db : Db} {id : String} {s : Session} (h : db.session? id = some s) :
    s ∈ db.sessions ∧ s.id = id :=
  Table.find?_key h

theorem session?_of_mem {db : Db} (h : db.Keyed) {s : Session} (hs : s ∈ db.sessions) :
    db.session? s.id = some s :=
  @Table.find?_key_of_mem _ _ _ (fun t : Session => t.id) _ _ h hs

theorem session?_updateSession (db : Db) (id sid : String) (f : Session → Session)
    (hf : ∀ s, (f s).id = s.id) :
    (db.updateSession id f).session? sid =
      if sid = id then (db.session? id).map f else db.session? sid :=
  Table.find?_updateFirst (fun t : Session => t.id) id sid f hf db.sessions

theorem session?_addSession {db : Db} {s : Session} (fresh : db.session? s.id = none) (sid : String) :
    (db.addSession s).session? sid = if sid = s.id then some s else db.session? sid := by
  unfold Db.session? Db.addSession at *
  rw [List.find?_append]
  by_cases h : sid = s.id
  · subst h
    simp [fresh]
  · have hne : ¬ s.id = sid := fun hs => h hs.symm
    simp [h,hne]

theorem keyed_updateSession {db : Db} (h : db.Keyed) (id : String) (f : Session → Session)
    (hf : ∀ s, (f s).id = s.id) : (db.updateSession id f).Keyed := by
  unfold Db.Keyed Db.updateSession
  rw [Table.map_updateFirst _ _ _ hf]
  exact h

theorem keyed_addSession {db : Db} (h : db.Keyed) {s : Session} (fresh : db.session? s.id = none) :
    (db.addSession s).Keyed := by
  have hout : ∀ t ∈ db.sessions, t.id ≠ s.id := Table.find?_key_none.mp fresh
  unfold Db.Keyed Db.addSession
  rw [List.map_append,List.nodup_append]
  refine ⟨h,by simp,?_⟩
  intro a ha b hb
  obtain ⟨t,ht,rfl⟩ := List.mem_map.mp ha
  obtain rfl : b = s.id := by simpa using hb
  exact hout t ht

/-! ### Commands and attempts as they are inserted -/

/-- The row is inserted under a new id, at the next sequence of its session. -/
structure Inserts (d : Digests) (db : Db) (row : OutboxRow) : Prop where
  unused : ∀ r ∈ db.outbox, r.commandId ≠ row.commandId
  sequence : nextCommandSequence db row.sessionId = some row.serverCommandSeq ∨
    db.session? row.sessionId = none ∧ row.serverCommandSeq = 1
  pending : row.acknowledged = false
  digests : row.payloadDigest = d.payload row.payload ∧
    row.commandIdentityDigest = d.identity row.payload
  identity : row.payload.commandId = row.commandId ∧ row.payload.sessionId = row.sessionId ∧
    row.payload.serverCommandSeq = row.serverCommandSeq
  valid : row.payload.validate = .ok ()

theorem commandFrame_some {sentAt sessionId commandId : String} {sequence : ℕ} {command : Command}
    {e : CommandEnvelope} (h : commandFrame sentAt sessionId commandId sequence command = some e) :
    e = ⟨commandId,sessionId,sequence,sentAt,Protocol.schemaVersion,command⟩ ∧
      e.validate = .ok () := by
  unfold commandFrame at h
  simp only at h
  split at h
  · rename_i u hv
    cases h
    exact ⟨rfl,hv⟩
  · cases h

theorem insertCommand_some {d : Digests} {db db' : Db} {commandId sessionId daemonId : String}
    {sequence : ℕ} {payload : CommandEnvelope}
    (h : insertCommand d db commandId sessionId daemonId sequence payload = some db') :
    (∀ r ∈ db.outbox, r.commandId ≠ commandId) ∧
      db' = db.addCommand (commandRow d commandId sessionId daemonId sequence payload) := by
  unfold insertCommand at h
  split_ifs at h with hc
  have hnone : ∀ r ∈ db.outbox, r.commandId ≠ commandId ∧
      (r.sessionId = sessionId → r.serverCommandSeq ≠ sequence) := by simpa using hc
  exact ⟨fun r hr => (hnone r hr).1,by simpa using h.symm⟩

theorem inserts_commandRow {d : Digests} {db : Db} {draw : Draw} {sessionId daemonId : String}
    {sequence : ℕ} {command : Command} {payload : CommandEnvelope}
    (hp : commandFrame draw.sentAt sessionId draw.commandId sequence command = some payload)
    (unused : ∀ r ∈ db.outbox, r.commandId ≠ draw.commandId)
    (hs : nextCommandSequence db sessionId = some sequence ∨
      db.session? sessionId = none ∧ sequence = 1) :
    Inserts d db (commandRow d draw.commandId sessionId daemonId sequence payload) := by
  obtain ⟨rfl,hvalid⟩ := commandFrame_some hp
  exact ⟨unused,hs,rfl,⟨rfl,rfl⟩,⟨rfl,rfl,rfl⟩,hvalid⟩

/-- The attempt is inserted under its unique columns. -/
structure Opens (db : Db) (a : ExecutionAttempt) : Prop where
  ids : ∀ b ∈ db.attempts, b.id ≠ a.id
  commands : ∀ b ∈ db.attempts, b.commandId ≠ a.commandId
  isOpen : a.outcome = none

theorem insertExecutionAttempt_some {db db' : Db} {a : ExecutionAttempt}
    (h : insertExecutionAttempt db a = some db') (ho : a.outcome = none) :
    Opens db a ∧ db' = db.addAttempt a := by
  unfold insertExecutionAttempt at h
  split_ifs at h with hc
  have hnone : ∀ b ∈ db.attempts, (b.id ≠ a.id ∧ b.commandId ≠ a.commandId) ∧
      (b.sessionId = a.sessionId → b.attemptNumber ≠ a.attemptNumber) := by simpa using hc
  exact ⟨⟨fun b hb => (hnone b hb).1.1,fun b hb => (hnone b hb).1.2,ho⟩,by simpa using h.symm⟩

/-! ### The changes -/

/-- The command executes the agent, as one of the two kinds an attempt records. -/
def executionKind : Command → Option AttemptKind
  | .sessionStart _ => some .sessionStart
  | .sessionResume => some .sessionResume
  | .sessionCancel _ | .messageSend _ _ => none

/-- The attempt belongs to the command row. -/
structure Executes (row : OutboxRow) (a : ExecutionAttempt) (number : ℕ) (kind : AttemptKind) :
    Prop where
  session : a.sessionId = row.sessionId
  command : a.commandId = row.commandId
  attemptNumber : a.attemptNumber = number
  attemptKind : a.commandKind = kind
  commandKind : executionKind row.payload.command = some kind

/-- The messages that events wrote. -/
def sourced (messages : List Message) : List Message := messages.filter (·.sourceEventId.isSome)

/-- The audit rows of promotions that an assessment caused. -/
def promotions (audit : List TransitionAudit) : List TransitionAudit :=
  audit.filter (·.assessmentId.isSome)

/-- The rows that events write stay. -/
structure EffectsKept (db db' : Db) : Prop where
  messages : sourced db'.messages = sourced db.messages
  activities : db'.activities = db.activities
  assessments : db'.assessments = db.assessments
  promoted : promotions db'.audit = promotions db.audit

/-- The slot of the requirement is free, and no earlier run had this start message. -/
structure Vacant (db : Db) (input : ClarificationStartInput) : Prop where
  slot : ∀ s ∈ db.sessions, openRunOf input.requirementId s = false
  unused : ∀ s ∈ db.sessions, s.requirementId = some input.requirementId →
    s.startMessageId ≠ some input.startMessageId

/-- One change of the tables with the commands it inserts; `ev` says whether the
transaction ingests an event and may write to the event ledger and the rows of effects. -/
inductive Change (ev : Bool) (d : Digests) : Db → List OutboxRow → Db → Prop
  /-- Only tables that no invariant of the store speaks about. -/
  | outer {db db' : Db} (sessions : db'.sessions = db.sessions) (attempts : db'.attempts = db.attempts)
      (outbox : db'.outbox = db.outbox) (tombstones : db'.tombstones = db.tombstones)
      (dedupe : db'.dedupe = db.dedupe) (effects : ev = true ∨ EffectsKept db db') :
      Change ev d db [] db'
  | newRun {db : Db} {input : ClarificationStartInput} {runId : String}
      (fresh : db.session? runId = none) (vacant : Vacant db input) :
      Change ev d db [] (db.addSession (freshRun input runId none none))
  | newStartedRun {db : Db} {input : ClarificationStartInput} {row : OutboxRow} {a : ExecutionAttempt}
      (fresh : db.session? row.sessionId = none) (inserts : Inserts d db row) (opens : Opens db a)
      (executes : Executes row a 1 .sessionStart) (vacant : Vacant db input) :
      Change ev d db [row] (((db.addSession (beginRun a.id (freshRun input row.sessionId
        (some row.daemonId) (some row.commandId)))).addCommand row).addAttempt a)
  | assign {db : Db} {s : Session} {row : OutboxRow} {a : ExecutionAttempt}
      (found : db.session? row.sessionId = some s) (run : s.startMessageId.isSome = true)
      (idle : s.state = .idle) (unassigned : s.daemonId = none) (wanted : s.cancelRequested = false)
      (inserts : Inserts d db row) (opens : Opens db a) (executes : Executes row a 1 .sessionStart) :
      Change ev d db [row] (((db.addCommand row).addAttempt a).updateSession row.sessionId
        (assignRun row.daemonId row.commandId a.id))
  | send {db : Db} {s : Session} {row : OutboxRow} {messageId content : String}
      (found : db.session? row.sessionId = some s) (running : s.state.terminal = false)
      (wanted : s.cancelRequested = false) (inserts : Inserts d db row)
      (message : row.payload.command = .messageSend messageId content) :
      Change ev d db [row] (db.addCommand row)
  | cancelMark {db : Db} {s : Session} (found : db.session? s.id = some s)
      (running : s.state.terminal = false) : Change ev d db [] (db.updateSession s.id markCancelled)
  | cancelSend {db : Db} {s : Session} {row : OutboxRow} {reason : String}
      (found : db.session? row.sessionId = some s) (requested : s.cancelRequested = true)
      (unsent : s.cancelCommandId = none) (inserts : Inserts d db row)
      (cancel : row.payload.command = .sessionCancel reason) :
      Change ev d db [row] ((db.addCommand row).updateSession row.sessionId (nameCancel row.commandId))
  | giveUp {db : Db} {s : Session} {failure : FailureClass} (found : db.session? s.id = some s)
      (retrying : s.state = .retrying) : Change ev d db [] (db.updateSession s.id (failRetry failure))
  | resume {db : Db} {s : Session} {row : OutboxRow} {a : ExecutionAttempt}
      (found : db.session? row.sessionId = some s) (retrying : s.state = .retrying)
      (closed : s.currentAttemptId = none) (wanted : s.cancelRequested = false)
      (left : s.attemptCount < s.maxAttempts) (inserts : Inserts d db row) (opens : Opens db a)
      (executes : Executes row a (s.attemptCount+1) .sessionResume) :
      Change ev d db [row] (((db.addCommand row).addAttempt a).updateSession row.sessionId
        (resumeRun (s.attemptCount+1) a.id))
  | started {db : Db} {s : Session} {runtimeId : String} (found : db.session? s.id = some s)
      (running : s.state.terminal = false) (active : s.currentAttemptId.isSome = true) :
      Change ev d db [] (db.updateSession s.id (startedSession runtimeId))
  | completed {db db' : Db} {s : Session} {attemptId summary : String}
      (found : db.session? s.id = some s) (running : s.state.terminal = false)
      (current : s.currentAttemptId = some attemptId)
      (closes : closeAttempt db attemptId s.id .completed = some db') :
      Change ev d db [] (db'.updateSession s.id (completedSession summary))
  | failed {db db' : Db} {s : Session} {attemptId eventId : String} {failure : FailureClass}
      {state : SessionState} {retryAt : Option ℕ} (found : db.session? s.id = some s)
      (running : s.state.terminal = false) (current : s.currentAttemptId = some attemptId)
      (closes : closeAttempt db attemptId s.id (.failed eventId failure) = some db')
      (policy : state = .failed ∧ retryAt = none ∨
        state = .retrying ∧ retryAt.isSome = true ∧ s.cancelRequested = false ∧
          s.attemptCount < s.maxAttempts) :
      Change ev d db [] (db'.updateSession s.id (failedSession state retryAt failure))
  | recorded {db : Db} {s : Session} {row : EventDedupe} {advance : ℕ → List ℕ → ℕ → ℕ × List ℕ}
      (ingests : ev = true) (records : Records db s row)
      (cursor : advance = advanceCursor ∨ advance = advanceProjectionCursor) :
      Change ev d db [] ((db.addDedupe row).updateSession row.sessionId
        (setCursor advance row.daemonEventSeq))

/-- A chain of changes with the commands it inserts. -/
inductive Changes (ev : Bool) (d : Digests) : Db → List OutboxRow → Db → Prop
  | refl (db : Db) : Changes ev d db [] db
  | step {db db₁ db₂ : Db} {rows rows' : List OutboxRow} (head : Change ev d db rows db₁)
      (tail : Changes ev d db₁ rows' db₂) : Changes ev d db (rows ++ rows') db₂

section

variable {ev : Bool}

theorem Change.single {d : Digests} {db db' : Db} {rows : List OutboxRow} (h : Change ev d db rows db') :
    Changes ev d db rows db' := by
  have hc := Changes.step h (.refl db')
  rwa [List.append_nil] at hc

theorem Changes.trans {d : Digests} {db db₁ db₂ : Db} {rows rows' : List OutboxRow}
    (h : Changes ev d db rows db₁) (h' : Changes ev d db₁ rows' db₂) : Changes ev d db (rows ++ rows') db₂ := by
  induction h with
  | refl db => exact h'
  | step head tail ih =>
    rw [List.append_assoc]
    exact .step head (ih h')

/-! ### Starting a run -/

/-- What a decoded run says about its row. -/
structure RunOf (s : Session) (run : ClarificationRun) : Prop where
  id : run.runId = s.id
  start : s.startMessageId.isSome = true
  phase : runPhase s.state s.daemonId.isSome = some run.phase
  daemon : run.daemonId = s.daemonId
  cancel : run.cancelRequested = s.cancelRequested
  current : run.currentAttemptId = s.currentAttemptId
  cancelCommand : run.cancelCommandId = s.cancelCommandId

theorem intoRun_ok {db : Db} {now : ℕ} {s : Session} {run : ClarificationRun}
    (h : intoRun db now s = .ok run) : RunOf s run := by
  simp only [intoRun,bind_eq_ok,orError_eq_ok] at h
  obtain ⟨requirementId,-,startMessageId,hm,phase,hp,h⟩ := h
  cases h
  exact ⟨rfl,by simp [hm],hp,rfl,rfl,rfl,rfl⟩

theorem runRow_ok {db : Db} {now : ℕ} {runId : String} {run : ClarificationRun}
    (h : runRow db now runId = .ok run) : ∃ s, db.session? runId = some s ∧ RunOf s run := by
  simp only [runRow,bind_eq_ok,orError_eq_ok] at h
  obtain ⟨s,hs,h⟩ := h
  exact ⟨s,hs,intoRun_ok h⟩

theorem reusedResult_ok {db db' : Db} {now : ℕ} {runId commandId : String}
    {result : ClarificationStartResult} (h : reusedResult db now runId commandId = .ok (result,db')) :
    db' = db := by
  simp only [reusedResult,bind_eq_ok] at h
  obtain ⟨run,-,h⟩ := h
  cases h
  rfl

theorem insertStart_ok {d : Digests} {db db' : Db} {draw : Draw} {runId daemonId : String}
    {sequence : ℕ} {payload : CommandEnvelope}
    (h : insertStart d db draw runId daemonId sequence payload = .ok db') :
    ∃ a : ExecutionAttempt, (∀ r ∈ db.outbox, r.commandId ≠ draw.commandId) ∧ Opens db a ∧
      a.id = executionAttemptId d runId 1 ∧ a.sessionId = runId ∧ a.commandId = draw.commandId ∧
      a.attemptNumber = 1 ∧ a.commandKind = .sessionStart ∧
      db' = (db.addCommand (commandRow d draw.commandId runId daemonId sequence payload)).addAttempt a := by
  simp only [insertStart,bind_eq_ok,orError_eq_ok] at h
  obtain ⟨db₁,h₁,h₂⟩ := h
  obtain ⟨unused,rfl⟩ := insertCommand_some h₁
  obtain ⟨opens,rfl⟩ := insertExecutionAttempt_some h₂ rfl
  exact ⟨_,unused,⟨opens.ids,opens.commands,opens.isOpen⟩,rfl,rfl,rfl,rfl,rfl,rfl⟩

theorem reuseRun_changes {d : Digests} {now : ℕ} {draw : Draw} {input : ClarificationStartInput}
    {occupant : Session} {db db' : Db} {result : ClarificationStartResult}
    (found : db.session? occupant.id = some occupant) (running : occupant.state.terminal = false)
    (h : reuseRun d now draw input occupant db = .ok (result,db')) :
    ∃ rows, Changes ev d db rows db' ∧ ∀ r ∈ rows, r.commandId = draw.commandId := by
  unfold reuseRun at h
  split_ifs at h with hstart
  simp only [bind_eq_ok] at h
  obtain ⟨run,hrun,h⟩ := h
  have of := intoRun_ok hrun
  rw [of.id] at h
  by_cases hfree : (run.daemonId.isNone && !run.cancelRequested) = true
  · rw [if_pos hfree] at h
    obtain ⟨hd,hc⟩ : occupant.daemonId = none ∧ occupant.cancelRequested = false := by
      simpa [of.daemon,of.cancel] using hfree
    have hidle : occupant.state = .idle := by
      have hphase := of.phase
      cases hstate : occupant.state <;> simp_all [runPhase,SessionState.terminal]
    cases hdaemon : chooseEligibleDaemon db now input.requiredCapabilities with
    | none =>
      simp only [hdaemon] at h
      cases h
      exact ⟨[],.refl _,by simp⟩
    | some daemonId =>
      simp only [hdaemon,bind_eq_ok,orError_eq_ok] at h
      obtain ⟨sequence,hseq,context,-,payload,hpayload,db₁,hins,h⟩ := h
      obtain ⟨a,unused,opens,ha,hsession,hcommand,hnumber,hkind,rfl⟩ := insertStart_ok hins
      obtain rfl := reusedResult_ok h
      have inserts : Inserts d db (commandRow d draw.commandId occupant.id daemonId sequence payload) :=
        inserts_commandRow hpayload unused (.inl hseq)
      have hexec : Executes (commandRow d draw.commandId occupant.id daemonId sequence payload) a 1
          .sessionStart := by
        obtain ⟨rfl,-⟩ := commandFrame_some hpayload
        exact ⟨hsession,hcommand,hnumber,hkind,rfl⟩
      rw [← ha]
      exact ⟨_,(Change.assign found of.start hidle hd hc inserts opens hexec).single,
        by simp [commandRow]⟩
  · rw [if_neg hfree] at h
    obtain rfl := reusedResult_ok h
    exact ⟨[],.refl _,by simp⟩

theorem openDiscussion_outer {db db' : Db} {r : Requirement} {expected : ℕ}
    (h : openDiscussion db r expected = .ok db') :
    db' = { db with requirements := db'.requirements, audit := db'.audit } := by
  unfold openDiscussion at h
  split_ifs at h with hstatus
  · cases h
    rfl
  · split at h
    · cases h
    · simp only [bind_eq_ok,mapError_eq_ok] at h
      obtain ⟨db₁,h₁,h⟩ := h
      have hdb := updateRequirement_outer h₁
      split_ifs at h
      cases h
      rw [hdb]

theorem openDiscussion_effects {db db' : Db} {r : Requirement} {expected : ℕ}
    (h : openDiscussion db r expected = .ok db') : EffectsKept db db' := by
  unfold openDiscussion at h
  split_ifs at h with hstatus
  · cases h
    exact ⟨rfl,rfl,rfl,rfl⟩
  · split at h
    · cases h
    · simp only [bind_eq_ok,mapError_eq_ok] at h
      obtain ⟨db₁,h₁,h⟩ := h
      split_ifs at h
      cases h
      rw [updateRequirement_outer h₁]
      exact ⟨rfl,rfl,rfl,by simp [promotions]⟩

theorem insertRun_some {db db' : Db} {s : Session} (h : insertRun db s = some db') :
    db.session? s.id = none ∧
      (∀ t ∈ db.sessions, ∀ r, s.requirementId = some r → openRunOf r t = false) ∧
      db' = db.addSession s := by
  unfold insertRun at h
  split_ifs at h with hc
  refine ⟨?_,fun t ht r hr => ?_,by simpa using h.symm⟩
  · apply Table.find?_key_none.mpr
    intro t ht hid
    apply hc
    rw [List.any_eq_true]
    exact ⟨t,ht,by simp [hid]⟩
  · by_contra hopen
    apply hc
    rw [List.any_eq_true]
    exact ⟨t,ht,by simp [hr,Bool.not_eq_false _ |>.mp hopen]⟩

/-- The checks of a new run leave its slot and its start message to it. -/
theorem vacant_of_free {db : Db} {input : ClarificationStartInput}
    (free : ∀ t ∈ db.sessions, openRunOf input.requirementId t = false)
    (ended : (db.sessions.any fun s => decide (s.requirementId = some input.requirementId) &&
      decide (s.startMessageId = some input.startMessageId) && s.state.terminal) = false) :
    Vacant db input := by
  refine ⟨free,fun s hs hreq hmsg => ?_⟩
  have hopen := free s hs
  have hrunning := List.any_eq_false.mp ended s hs
  simp only [hreq,hmsg,decide_true,Bool.true_and] at hrunning
  simp [openRunOf,hreq,hmsg,hrunning] at hopen

theorem createRun_changes {d : Digests} {now : ℕ} {runId : String} {draw : Draw}
    {input : ClarificationStartInput} {requirement : Requirement} {db db' : Db}
    {result : ClarificationStartResult}
    (h : createRun d now runId draw input requirement db = .ok (result,db')) :
    ∃ rows, Changes ev d db rows db' ∧ ∀ r ∈ rows, r.commandId = draw.commandId := by
  unfold createRun at h
  split_ifs at h with hended
  simp only [bind_eq_ok] at h
  obtain ⟨db₁,h₁,h⟩ := h
  have hdb₁ := openDiscussion_outer h₁
  have hsessions : db₁.sessions = db.sessions := by rw [hdb₁]
  have hvacant : (∀ t ∈ db₁.sessions, openRunOf input.requirementId t = false) → Vacant db₁ input :=
    fun free => vacant_of_free free (by rw [hsessions]; simpa using hended)
  have houter : Change ev d db [] db₁ := by
    refine .outer ?_ ?_ ?_ ?_ ?_ (.inr (openDiscussion_effects h₁)) <;> rw [hdb₁]
  split_ifs at h
  split at h
  · simp only [bind_eq_ok,orError_eq_ok] at h
    obtain ⟨db₂,h₂,run,-,h⟩ := h
    obtain ⟨fresh,free,rfl⟩ := insertRun_some h₂
    cases h
    have hnew := @Change.newRun ev d _ _ _ fresh (hvacant fun t ht => free t ht _ rfl)
    exact ⟨_,houter.single.trans hnew.single,by simp⟩
  · rename_i daemonId hdaemon
    simp only [bind_eq_ok,orError_eq_ok] at h
    obtain ⟨payload,hpayload,db₂,h₂,db₃,h₃,run,-,h⟩ := h
    obtain ⟨fresh,free,rfl⟩ := insertRun_some h₂
    obtain ⟨a,unused,opens,ha,hsession,hcommand,hnumber,hkind,rfl⟩ := insertStart_ok h₃
    cases h
    have inserts : Inserts d db₁ (commandRow d draw.commandId runId daemonId 1 payload) :=
      inserts_commandRow hpayload unused (.inr ⟨fresh,rfl⟩)
    have hexec : Executes (commandRow d draw.commandId runId daemonId 1 payload) a 1
        .sessionStart := by
      obtain ⟨rfl,-⟩ := commandFrame_some hpayload
      exact ⟨hsession,hcommand,hnumber,hkind,rfl⟩
    have hstart := @Change.newStartedRun ev d db₁ input _ a fresh inserts
      ⟨opens.ids,opens.commands,opens.isOpen⟩ hexec (hvacant fun t ht => free t ht _ rfl)
    -- the update of the new row commutes with its insertion
    have hnone : ∀ t ∈ db₁.sessions, decide (t.id = runId) = false := by
      intro t ht
      exact decide_eq_false (Table.find?_key_none.mp fresh t ht)
    rw [← ha]
    refine ⟨[] ++ [commandRow d draw.commandId runId daemonId 1 payload],houter.single.trans ?_,?_⟩
    · convert hstart.single using 1
      simp [Db.updateSession,Db.addAttempt,Db.addCommand,Db.addSession,
        Table.updateFirst_append_of_none hnone,Table.updateFirst,freshRun,commandRow]
    · simp [commandRow]

theorem startClarification_changes {d : Digests} {now : ℕ} {runId : String} {draw : Draw}
    {input : ClarificationStartInput} {db db' : Db} {result : ClarificationStartResult}
    (hk : db.Keyed) (h : startClarification d now runId draw input db = .ok (result,db')) :
    ∃ rows, Changes ev d db rows db' ∧ ∀ r ∈ rows, r.commandId = draw.commandId := by
  unfold startClarification at h
  split at h
  · cases h
  · simp only [bind_eq_ok] at h
    obtain ⟨requirement,-,h⟩ := h
    split at h
    · cases h
    · split at h
      · rename_i occupant hocc
        have hmem := List.mem_of_find?_eq_some hocc
        have hopen := List.find?_some hocc
        simp only [openRunOf,Bool.and_eq_true,Bool.not_eq_true'] at hopen
        exact reuseRun_changes (session?_of_mem hk hmem) hopen.2 h
      · exact createRun_changes h

/-! ### Messages and cancellation -/

theorem runOfRequirement_some {db : Db} {requirementId runId : String} {s : Session}
    (h : runOfRequirement db requirementId runId = some s) : db.session? runId = some s := by
  unfold runOfRequirement at h
  rw [Option.filter_eq_some_iff] at h
  exact h.1

theorem runPhase_terminal {state : SessionState} {assigned : Bool} {phase : ClarificationPhase}
    (h : runPhase state assigned = some phase) : phase = .terminal ↔ state.terminal = true := by
  cases state <;> cases assigned <;> simp_all [runPhase,SessionState.terminal]
  all_goals subst h; simp

theorem RunOf.running {s : Session} {run : ClarificationRun} (of : RunOf s run)
    (h : run.phase ≠ .terminal) : s.state.terminal = false := by
  have hterminal := runPhase_terminal of.phase
  rw [← Bool.not_eq_true]
  exact fun ht => h (hterminal.mpr ht)

theorem dispatch_changes {d : Digests} {now : ℕ} {draw : Draw} {requirementId runId messageId : String}
    {db db' : Db} {result : ClarificationCommandResult}
    (h : dispatchClarificationMessage d now draw requirementId runId messageId db = .ok (result,db')) :
    ∃ rows, Changes ev d db rows db' ∧ ∀ r ∈ rows, r.commandId = draw.commandId := by
  simp only [dispatchClarificationMessage,bind_eq_ok,orError_eq_ok] at h
  obtain ⟨s,hs,run,hrun,h⟩ := h
  have found := runOfRequirement_some hs
  have of := intoRun_ok hrun
  split at h
  · cases h
  · rename_i daemonId hdaemon
    split at h
    · cases h
    · rename_i heligible
      push Not at heligible
      obtain ⟨hphase,hcancel,-⟩ := heligible
      split at h
      · cases h
      · simp only [bind_eq_ok,orError_eq_ok] at h
        obtain ⟨message,-,h⟩ := h
        split at h
        · split at h
          · cases h
          · simp only [bind_eq_ok] at h
            obtain ⟨_,-,h⟩ := h
            cases h
            exact ⟨[],.refl _,by simp⟩
        · simp only [bind_eq_ok] at h
          obtain ⟨db₁,h₁,_,-,h⟩ := h
          cases h
          simp only [sendMessage,bind_eq_ok,orError_eq_ok] at h₁
          obtain ⟨sequence,hseq,payload,hpayload,db₂,h₂,h₁⟩ := h₁
          have hmap : db₂ = { db with messageCommands := db₂.messageCommands } := by
            unfold mapMessage at h₂
            split_ifs at h₂
            cases h₂
            rfl
          have houter : Change ev d db [] db₂ := by
            rw [hmap]
            exact .outer rfl rfl rfl rfl rfl (.inr ⟨rfl,rfl,rfl,rfl⟩)
          obtain ⟨unused,rfl⟩ := insertCommand_some h₁
          have hseq₂ : nextCommandSequence db₂ runId = some sequence := by
            rw [hmap]
            exact hseq
          have found₂ : db₂.session? runId = some s := by
            rw [hmap]
            exact found
          have hrunning : s.state.terminal = false := of.running (by simp [hphase])
          have hwanted : s.cancelRequested = false := by
            rw [← of.cancel]
            simpa using hcancel
          have hcommand : payload.command = .messageSend messageId message.body := by
            rw [(commandFrame_some hpayload).1]
          refine ⟨[] ++ [_],houter.single.trans (Change.single (Change.send found₂ hrunning hwanted
            (inserts_commandRow hpayload unused (.inl hseq₂)) hcommand)),?_⟩
          simp [commandRow]

theorem markCancelled_id (s : Session) : (markCancelled s).id = s.id := by
  unfold markCancelled
  split <;> rfl

theorem cancel_changes {d : Digests} {now : ℕ} {draw : Draw} {requirementId runId : String}
    {db db' : Db} {result : ClarificationCommandResult}
    (h : cancelClarification d now draw requirementId runId db = .ok (result,db')) :
    (∃ s, db'.session? runId = some s ∧ s.cancelRequested = true) ∧
      ∃ rows, Changes ev d db rows db' ∧ (∀ r ∈ rows, r.commandId = draw.commandId) ∧
        ∀ r ∈ rows, r.payload.command.isSessionCancel = true := by
  simp only [cancelClarification,bind_eq_ok,orError_eq_ok] at h
  obtain ⟨s,hs,run,hrun,h⟩ := h
  have found := runOfRequirement_some hs
  obtain ⟨-,hid⟩ := session?_some found
  have of := intoRun_ok hrun
  split at h
  · split at h
    · cases h
    · rename_i hcancel
      cases h
      refine ⟨⟨s,found,?_⟩,[],.refl _,by simp,by simp⟩
      rw [← of.cancel]
      simpa using hcancel
  · rename_i hphase
    have hrunning : s.state.terminal = false := of.running hphase
    subst hid
    have hmark : Change ev d db [] (db.updateSession s.id markCancelled) := .cancelMark found hrunning
    have hafter : (db.updateSession s.id markCancelled).session? s.id = some (markCancelled s) := by
      rw [session?_updateSession _ _ _ _ markCancelled_id]
      simp [found]
    have hrequested : (markCancelled s).cancelRequested = true := by
      unfold markCancelled
      split <;> rfl
    simp only [bind_eq_ok] at h
    obtain ⟨current,hcurrent,h⟩ := h
    obtain ⟨s',hs',of'⟩ := runRow_ok hcurrent
    obtain rfl : markCancelled s = s' := by simpa [hafter] using hs'
    split at h
    · cases h
      exact ⟨⟨_,hafter,hrequested⟩,[],hmark.single,by simp,by simp⟩
    · split at h
      · cases h
        exact ⟨⟨_,hafter,hrequested⟩,[],hmark.single,by simp,by simp⟩
      · rename_i daemonId hdaemon
        split at h
        · simp only [bind_eq_ok] at h
          obtain ⟨_,-,h⟩ := h
          cases h
          exact ⟨⟨_,hafter,hrequested⟩,[],hmark.single,by simp,by simp⟩
        · rename_i hunsent
          simp only [bind_eq_ok] at h
          obtain ⟨db₁,h₁,_,-,h⟩ := h
          cases h
          simp only [sendCancel,bind_eq_ok,orError_eq_ok] at h₁
          obtain ⟨sequence,hseq,payload,hpayload,db₂,h₂,h₁⟩ := h₁
          obtain ⟨unused,rfl⟩ := insertCommand_some h₂
          cases h₁
          have hcommand : payload.command = .sessionCancel "requester_cancelled" := by
            rw [(commandFrame_some hpayload).1]
          have hsend := @Change.cancelSend ev d _ _
            (commandRow d draw.commandId s.id daemonId sequence payload) _ hafter hrequested
            (by rw [← of'.cancelCommand]; exact hunsent)
            (inserts_commandRow hpayload unused (.inl hseq)) hcommand
          refine ⟨⟨nameCancel draw.commandId (markCancelled s),?_,hrequested⟩,[] ++ [_],
            hmark.single.trans hsend.single,by simp [commandRow],
            by simp [commandRow,hcommand,Command.isSessionCancel]⟩
          rw [session?_updateSession _ _ _ (nameCancel draw.commandId) fun _ => rfl]
          have hsame : ((db.updateSession s.id markCancelled).addCommand
              (commandRow d draw.commandId s.id daemonId sequence payload)).session? s.id =
              some (markCancelled s) := hafter
          simp [hsame]

/-! ### Claiming due retries -/

theorem claimRetry_changes {d : Digests} {draw : String → Draw} {work work' : List RetryWork}
    {db db' : Db} {row : Session} (found : db.session? row.id = some row)
    (hretrying : row.state = .retrying) (hclosed : row.currentAttemptId = none)
    (h : claimRetry d draw (work,db) row = .ok (work',db')) :
    (∃ rows, Changes ev d db rows db' ∧ ∀ r ∈ rows, r.commandId = (draw row.id).commandId) ∧
      ∀ sid, sid ≠ row.id → db'.session? sid = db.session? sid := by
  unfold claimRetry at h
  simp only at h
  split at h
  · rename_i failure hrefusal
    cases h
    refine ⟨⟨[],(Change.giveUp found hretrying).single,by simp⟩,fun sid hsid => ?_⟩
    rw [session?_updateSession _ _ _ (failRetry failure) fun _ => rfl,if_neg hsid]
  · rename_i hgranted
    simp only [bind_eq_ok,orError_eq_ok] at h
    obtain ⟨daemonId,hdaemon,number,hnumber,sequence,hseq,payload,hpayload,db₁,h₁,db₂,h₂,h⟩ := h
    obtain ⟨-,rfl⟩ := checkedSucc_eq_some.mp hnumber
    obtain ⟨unused,rfl⟩ := insertCommand_some h₁
    obtain ⟨opens,rfl⟩ := insertExecutionAttempt_some h₂ rfl
    cases h
    have hopen : row.cancelRequested = false ∧ row.attemptCount < row.maxAttempts := by
      unfold retryRefusal at hgranted
      split_ifs at hgranted with hc hm ho
      exact ⟨by simpa using hc,by omega⟩
    have hcommand : payload.command = .sessionResume := by
      rw [(commandFrame_some hpayload).1]
    have hresume := @Change.resume ev d db row
      (commandRow d (draw row.id).commandId row.id daemonId sequence payload) _ found hretrying hclosed
      hopen.1 hopen.2 (inserts_commandRow hpayload unused (.inl hseq))
      ⟨opens.ids,opens.commands,opens.isOpen⟩ ⟨rfl,rfl,rfl,rfl,by
        rw [show (commandRow d (draw row.id).commandId row.id daemonId sequence payload).payload.command =
          .sessionResume from hcommand]
        rfl⟩
    refine ⟨⟨[_],hresume.single,by simp [commandRow]⟩,fun sid hsid => ?_⟩
    rw [session?_updateSession _ _ _ (resumeRun _ _) fun _ => rfl,if_neg hsid]
    rfl

theorem claimLoop_changes {d : Digests} {draw : String → Draw} {rows : List Session} :
    ∀ {work work' : List RetryWork} {db db' : Db},
    (∀ row ∈ rows, db.session? row.id = some row ∧ row.state = .retrying ∧ row.currentAttemptId = none) →
    (rows.map (·.id)).Nodup →
    rows.foldlM (claimRetry d draw) (work,db) = .ok (work',db') →
    ∃ commands, Changes ev d db commands db' ∧
      ∀ r ∈ commands, r.commandId ∈ rows.map fun row => (draw row.id).commandId := by
  induction rows with
  | nil =>
    intro work work' db db' _ _ h
    cases h
    exact ⟨[],.refl _,by simp⟩
  | cons row rows ih =>
    intro work work' db db' hrows hnodup h
    rw [List.foldlM_cons,bind_eq_ok] at h
    obtain ⟨⟨work₁,db₁⟩,h₁,h⟩ := h
    obtain ⟨hfound,hretrying,hclosed⟩ := hrows row (by simp)
    obtain ⟨⟨commands,hchanges,hids⟩,hframe⟩ := claimRetry_changes hfound hretrying hclosed h₁
    rw [List.map_cons,List.nodup_cons] at hnodup
    have hrest : ∀ r ∈ rows, db₁.session? r.id = some r ∧ r.state = .retrying ∧
        r.currentAttemptId = none := by
      intro r hr
      have hne : r.id ≠ row.id := fun he => hnodup.1 (List.mem_map.mpr ⟨r,hr,he⟩)
      rw [hframe r.id hne]
      exact hrows r (by simp [hr])
    obtain ⟨commands',hchanges',hids'⟩ := ih hrest hnodup.2 h
    refine ⟨commands ++ commands',hchanges.trans hchanges',fun r hr => ?_⟩
    rw [List.map_cons,List.mem_cons]
    rcases List.mem_append.mp hr with hr | hr
    · exact .inl (hids r hr)
    · exact .inr (hids' r hr)

theorem claim_changes {d : Digests} {now limit : ℕ} {locked : String → Bool} {draw : String → Draw}
    {db db' : Db} {work : List RetryWork} (hk : db.Keyed)
    (h : claimDueRetries d now limit locked draw db = .ok (work,db')) :
    ∃ commands, Changes ev d db commands db' ∧ ∀ r ∈ commands,
      r.commandId ∈ (dueRetries db now limit locked).map fun row => (draw row.id).commandId := by
  unfold claimDueRetries at h
  split_ifs at h
  have hsub : (dueRetries db now limit locked).Subperm
      (db.sessions.filter fun s => dueRetry now s && !locked s.id) :=
    (List.take_sublist _ _).subperm.trans (List.perm_insertionSort _ _).subperm
  apply claimLoop_changes _ _ h
  · intro row hrow
    obtain ⟨hmem,hdue⟩ := List.mem_filter.mp (hsub.subset hrow)
    have hparts : (row.state = .retrying ∧ (row.nextRetryAt.any fun due => decide (due ≤ now)) = true) ∧
        row.currentAttemptId.isNone = true := by
      simp only [dueRetry,Bool.and_eq_true,decide_eq_true_eq] at hdue
      exact hdue.1
    exact ⟨session?_of_mem hk hmem,hparts.1.1,by simpa using hparts.2⟩
  · have hnodup : ((db.sessions.filter fun s => dueRetry now s && !locked s.id).map (·.id)).Nodup :=
      (List.filter_sublist.map _).nodup hk
    have hsorted : (((db.sessions.filter fun s => dueRetry now s && !locked s.id).insertionSort
        retryOrder).map (·.id)).Nodup :=
      ((List.perm_insertionSort _ _).map _).nodup_iff.mpr hnodup
    exact ((List.take_sublist _ _).map _).nodup hsorted

/-! ### Ingesting events -/

theorem closeAttempt_some {db db' : Db} {attemptId sessionId : String} {outcome : AttemptOutcome}
    (h : closeAttempt db attemptId sessionId outcome = some db') :
    (∃ a ∈ db.attempts, a.id = attemptId ∧ a.sessionId = sessionId ∧ a.outcome = none) ∧
      db' = { db with attempts := db'.attempts } ∧
      db'.attempts = Table.updateFirst (openUnder attemptId sessionId) (·.close outcome) db.attempts := by
  unfold closeAttempt at h
  split_ifs at h with hany
  cases h
  refine ⟨?_,rfl,rfl⟩
  obtain ⟨a,ha,hp⟩ := List.any_eq_true.mp hany
  have hparts : (a.id = attemptId ∧ a.sessionId = sessionId) ∧ a.outcome = none := by
    simpa [openUnder] using hp
  exact ⟨a,ha,hparts.1.1,hparts.1.2,hparts.2⟩

/-- The event cursor of a session and the ledger, which effects leave alone. -/
structure SameLedger (db db' : Db) (s : Session) : Prop where
  dedupe : db'.dedupe = db.dedupe
  session : ∃ s', db'.session? s.id = some s' ∧ s'.eventAckThroughSeq = s.eventAckThroughSeq ∧
    s'.eventAckSparse = s.eventAckSparse

theorem failurePolicy_cases {db : Db} {s : Session} {reason : String} (failure : FailureClass)
    (h : failurePolicy db s reason = .ok failure) :
    s.cancelRequested = false ∧ isUnknownFailure reason = false ∧ s.attemptCount < s.maxAttempts := by
  unfold failurePolicy at h
  split_ifs at h with hc hu ho hm
  exact ⟨by simpa using hc,by simpa using hu,by omega⟩

theorem applyFailure_changes {d : Digests} {db db' : Db} {now : ℕ} {jitter : Fin 26} {s : Session}
    {eventId reason : String} (found : db.session? s.id = some s) (running : s.state.terminal = false)
    (h : applyFailure db now jitter s eventId reason = .ok db') :
    Changes true d db [] db' ∧ SameLedger db db' s := by
  simp only [applyFailure,bind_eq_ok,orError_eq_ok] at h
  obtain ⟨attemptId,hcurrent,db₁,hcloses,h⟩ := h
  split_ifs at h
  cases h
  obtain ⟨-,hdb₁,-⟩ := closeAttempt_some hcloses
  have found₁ : db₁.session? s.id = some s := by
    rw [hdb₁]
    exact found
  refine ⟨(Change.failed found running hcurrent hcloses ?_).single,?_,?_⟩
  · cases hpolicy : failurePolicy db s reason with
    | ok failure =>
      obtain ⟨hc,-,hm⟩ := failurePolicy_cases failure hpolicy
      exact .inr ⟨rfl,rfl,hc,hm⟩
    | error failure => exact .inl ⟨rfl,rfl⟩
  · rw [hdb₁]
    rfl
  · rw [session?_updateSession _ _ _ (failedSession _ _ _) fun _ => rfl,if_pos rfl,found₁]
    exact ⟨_,rfl,rfl,rfl⟩

theorem applyEvent_changes {d : Digests} {db db' : Db} {now : ℕ} {jitter : Fin 26} {s : Session}
    {eventId : String} {event : ClarificationEvent} (found : db.session? s.id = some s)
    (running : s.state.terminal = false) (active : s.currentAttemptId.isSome = true)
    (h : applyEvent db now jitter s eventId event = .ok db') :
    Changes true d db [] db' ∧ SameLedger db db' s := by
  cases event with
  | sessionStarted runtimeId =>
    cases h
    refine ⟨(Change.started found running active).single,rfl,?_⟩
    rw [session?_updateSession _ _ _ (startedSession runtimeId) fun _ => rfl,if_pos rfl,found]
    exact ⟨_,rfl,rfl,rfl⟩
  | agentMessage messageId content =>
    simp only [applyEvent,bind_eq_ok,orError_eq_ok] at h
    obtain ⟨conversation,-,h⟩ := h
    unfold insertAgentMessage at h
    split_ifs at h
    cases h
    refine ⟨Change.single ?_,rfl,s,found,rfl,rfl⟩
    exact .outer rfl rfl rfl rfl rfl (.inl rfl)
  | activity activity =>
    simp only [applyEvent] at h
    split_ifs at h
    cases h
    refine ⟨Change.single ?_,rfl,s,found,rfl,rfl⟩
    exact .outer rfl rfl rfl rfl rfl (.inl rfl)
  | completed summary =>
    simp only [applyEvent,bind_eq_ok,orError_eq_ok] at h
    obtain ⟨attemptId,hcurrent,db₁,hcloses,h⟩ := h
    cases h
    obtain ⟨-,hdb₁,-⟩ := closeAttempt_some hcloses
    have found₁ : db₁.session? s.id = some s := by
      rw [hdb₁]
      exact found
    refine ⟨(Change.completed found running hcurrent hcloses).single,?_,?_⟩
    · rw [hdb₁]
      rfl
    · rw [session?_updateSession _ _ _ (completedSession summary) fun _ => rfl,if_pos rfl,found₁]
      exact ⟨_,rfl,rfl,rfl⟩
  | failed recoverable reason => exact applyFailure_changes found running h

theorem Applies.changes {d : Digests} {db db₁ : Db} {s : Session} {call : EventCall} {row : EventDedupe}
    (found : db.session? s.id = some s) (h : Applies db s call row db₁) :
    Changes true d db [] db₁ ∧ SameLedger db db₁ s := by
  cases h with
  | noted => exact ⟨.refl _,rfl,s,found,rfl,rfl⟩
  | rejected => exact ⟨.refl _,rfl,s,found,rfl,rfl⟩
  | projected _ policy effect =>
    unfold projectionRejection at policy
    split_ifs at policy with ht hd hc hs
    exact applyEvent_changes found (by simpa using ht)
      (by simpa [Option.isSome_iff_ne_none] using hc) effect
  | assessed _ effect =>
    have houter := applyAssessment_outer effect
    refine ⟨Change.single ?_,?_,s,?_,rfl,rfl⟩
    · rw [houter]
      exact .outer rfl rfl rfl rfl rfl (.inl rfl)
    · rw [houter]
    · rw [houter]
      exact found

theorem Commits.changes {d : Digests} {db db' : Db} {call : EventCall} {row : EventDedupe}
    (h : Commits d db call row db') : Changes true d db [] db' := by
  obtain ⟨s,db₁,advance,records,applies,cursor,rfl⟩ := h.steps
  obtain ⟨-,hid⟩ := session?_some records.found
  have found : db.session? s.id = some s := by
    rw [hid]
    exact records.found
  obtain ⟨hchanges,same⟩ := applies.changes (d := d) found
  obtain ⟨s',found',hthrough,hsparse⟩ := same.session
  rw [hid] at found'
  have records' : Records db₁ s' row := by
    refine ⟨found',?_,?_,?_,?_⟩
    · unfold dedupeById
      rw [same.dedupe]
      exact records.newId
    · unfold dedupeBySequence
      rw [same.dedupe]
      exact records.newSequence
    · unfold expectedSequence
      rw [hthrough,hsparse]
      exact records.next
    · rw [hthrough]
      exact records.above
  exact hchanges.trans (Change.recorded rfl records' cursor).single

theorem EventCall.changes {d : Digests} {db db' : Db} {call : EventCall} {receipt : EventReceipt}
    (h : call.exec d db = .ok (receipt,db')) : Changes true d db [] db' := by
  rcases call.exec_ok h with ⟨rfl,-⟩ | ⟨row,hcommits,-⟩
  · exact .refl _
  · exact hcommits.changes

end

end Store
end North
