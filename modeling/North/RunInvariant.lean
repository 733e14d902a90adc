import North.StoreRuns

/-! The invariant of clarification runs. It ties a session row to its attempts and to the
commands issued for it, and every change of the store keeps it. -/
namespace North
namespace Store

open Machine Protocol Domain

variable {ev : Bool}

/-- The start and resume commands among the rows, with their kinds. -/
def executions (rows : List OutboxRow) : List (String × AttemptKind) :=
  rows.filterMap fun r => (executionKind r.payload.command).map fun kind => (r.commandId,kind)

/-- The ids of the cancel commands among the rows. -/
def cancels (rows : List OutboxRow) : List String :=
  rows.filterMap fun r => if r.payload.command.isSessionCancel then some r.commandId else none

theorem executions_append (a b : List OutboxRow) : executions (a ++ b) = executions a ++ executions b :=
  List.filterMap_append ..

theorem cancels_append (a b : List OutboxRow) : cancels (a ++ b) = cancels a ++ cancels b :=
  List.filterMap_append ..

/-- What the state of a run says about its current attempt and its retry time. -/
def RunShape (s : Session) : Prop :=
  match s.state with
  | .idle => s.nextRetryAt = none ∧
      (if s.daemonId.isNone then s.currentAttemptId = none ∧ s.attemptCount = 0
        else s.currentAttemptId.isSome = true)
  | .running => s.nextRetryAt = none ∧ s.currentAttemptId.isSome = true
  | .retrying => s.nextRetryAt.isSome = true ∧ s.currentAttemptId = none
  | .failed | .completed => s.nextRetryAt = none ∧ s.currentAttemptId = none

/-- A run with its attempts and the commands issued for it. -/
structure RunInv (attempts : List ExecutionAttempt) (issued : List OutboxRow) (s : Session) : Prop where
  numbered : attempts.map (·.attemptNumber) = List.range' 1 s.attemptCount
  bounded : s.attemptCount ≤ s.maxAttempts
  positive : 0 < s.maxAttempts
  opened : (attempts.filter (·.outcome.isNone)).map (·.id) = s.currentAttemptId.toList
  executed : executions issued = attempts.map fun a => (a.commandId,a.commandKind)
  cancelled : cancels issued = s.cancelCommandId.toList
  shape : RunShape s

/-- Every session is a run in order, and every attempt and command has a session. -/
structure RunsInv (db : Db) (issued : List OutboxRow) : Prop where
  keyed : db.Keyed
  runs : ∀ sid s, db.session? sid = some s → RunInv (db.attemptsOf sid) (issuedFor issued sid) s
  attempts : ∀ a ∈ db.attempts, (db.session? a.sessionId).isSome = true
  commands : ∀ r ∈ issued, (db.session? r.sessionId).isSome = true
  attemptCommands : (db.attempts.map (·.commandId)).Nodup

theorem attemptsOf_eq_nil {db : Db} {issued : List OutboxRow} (h : RunsInv db issued) {sid : String}
    (hs : db.session? sid = none) : db.attemptsOf sid = [] := by
  apply List.filter_eq_nil_iff.mpr
  intro a ha heq
  have hsome := h.attempts a ha
  rw [of_decide_eq_true heq,hs] at hsome
  cases hsome

theorem issuedFor_eq_nil {db : Db} {issued : List OutboxRow} (h : RunsInv db issued) {sid : String}
    (hs : db.session? sid = none) : issuedFor issued sid = [] := by
  apply List.filter_eq_nil_iff.mpr
  intro r hr heq
  have hsome := h.commands r hr
  rw [of_decide_eq_true heq,hs] at hsome
  cases hsome

/-- The part of a step that concerns the attempts: only those of one session, under new
command ids. -/
structure AttemptsMove (db db' : Db) (sid : String) : Prop where
  others : ∀ other, other ≠ sid → db'.attemptsOf other = db.attemptsOf other
  owned : ∀ a ∈ db'.attempts, a.sessionId = sid ∨ ∃ b ∈ db.attempts, b.sessionId = a.sessionId
  commands : (db'.attempts.map (·.commandId)).Nodup

theorem AttemptsMove.same {db db' : Db} (hc : (db.attempts.map (·.commandId)).Nodup)
    (h : db'.attempts = db.attempts) (sid : String) : AttemptsMove db db' sid := by
  refine ⟨fun other _ => ?_,fun a ha => .inr ⟨a,?_,rfl⟩,?_⟩
  · unfold Db.attemptsOf
    rw [h]
  · rw [← h]
    exact ha
  · rw [h]
    exact hc

theorem AttemptsMove.add {db db' : Db} {a : ExecutionAttempt} (hc : (db.attempts.map (·.commandId)).Nodup)
    (opens : Opens db a) (h : db'.attempts = db.attempts ++ [a]) : AttemptsMove db db' a.sessionId := by
  refine ⟨fun other hother => ?_,fun b hb => ?_,?_⟩
  · have hne : a.sessionId ≠ other := fun he => hother he.symm
    unfold Db.attemptsOf
    rw [h]
    simp [hne]
  · rw [h] at hb
    rcases List.mem_append.mp hb with hb | hb
    · exact .inr ⟨b,hb,rfl⟩
    · simp_all
  · rw [h,List.map_append,List.nodup_append]
    refine ⟨hc,by simp,?_⟩
    intro x hx y hy
    obtain ⟨b,hb,rfl⟩ := List.mem_map.mp hx
    obtain rfl : y = a.commandId := by simpa using hy
    exact opens.commands b hb

theorem attemptsOf_add (db : Db) {db' : Db} {a : ExecutionAttempt}
    (h : db'.attempts = db.attempts ++ [a]) :
    db'.attemptsOf a.sessionId = db.attemptsOf a.sessionId ++ [a] := by
  unfold Db.attemptsOf
  rw [h]
  simp

theorem AttemptsMove.close {db db' : Db} {attemptId sid : String} {outcome : AttemptOutcome}
    (hc : (db.attempts.map (·.commandId)).Nodup)
    (h : db'.attempts = Table.updateFirst (openUnder attemptId sid) (·.close outcome) db.attempts) :
    AttemptsMove db db' sid := by
  refine ⟨fun other hother => ?_,fun a ha => ?_,?_⟩
  · unfold Db.attemptsOf
    rw [h]
    apply Table.filter_updateFirst_of_out
    intro a ha
    have hs : a.sessionId = sid := by
      simp only [openUnder,Bool.and_eq_true,decide_eq_true_eq] at ha
      exact ha.1.2
    have hne : ¬ a.sessionId = other := fun he => hother (he.symm.trans hs)
    simp [hne,ExecutionAttempt.close]
  · rw [h] at ha
    rcases Table.mem_updateFirst ha with ha | ⟨b,hb,rfl⟩
    · exact .inr ⟨a,ha,rfl⟩
    · exact .inr ⟨b,List.mem_of_find?_eq_some hb,rfl⟩
  · rw [h,Table.map_updateFirst _ (·.close outcome) (fun a : ExecutionAttempt => a.commandId) fun _ => rfl]
    exact hc

theorem RunsInv.update {db db' : Db} {issued rows : List OutboxRow} {sid : String} {s : Session}
    {f : Session → Session} (h : RunsInv db issued) (found : db.session? sid = some s)
    (hf : ∀ t, (f t).id = t.id) (hsessions : db'.sessions = (db.updateSession sid f).sessions)
    (hattempts : AttemptsMove db db' sid) (hrows : ∀ r ∈ rows, r.sessionId = sid)
    (hrun : RunInv (db'.attemptsOf sid) (issuedFor (issued ++ rows) sid) (f s)) :
    RunsInv db' (issued ++ rows) := by
  have hlook : ∀ other, db'.session? other = (db.updateSession sid f).session? other := by
    intro other
    unfold Db.session?
    rw [hsessions]
  have hsome : ∀ other, (db.session? other).isSome = true → (db'.session? other).isSome = true := by
    intro other ho
    rw [hlook,session?_updateSession _ _ _ _ hf]
    split
    · simp [found]
    · exact ho
  refine ⟨?_,fun other t ht => ?_,fun a ha => ?_,fun r hr => ?_,hattempts.commands⟩
  · unfold Db.Keyed
    rw [hsessions]
    exact keyed_updateSession h.keyed _ _ hf
  · rw [hlook,session?_updateSession _ _ _ _ hf] at ht
    by_cases hother : other = sid
    · subst hother
      obtain rfl : f s = t := by simpa [found] using ht
      exact hrun
    · rw [if_neg hother] at ht
      have hnil : issuedFor rows other = [] := by
        apply List.filter_eq_nil_iff.mpr
        intro r hr heq
        exact hother ((of_decide_eq_true heq).symm.trans (hrows r hr))
      rw [hattempts.others other hother,issuedFor_append,hnil,List.append_nil]
      exact h.runs other t ht
  · rcases hattempts.owned a ha with hs | ⟨b,hb,hs⟩
    · rw [hs]
      exact hsome sid (by simp [found])
    · rw [← hs]
      exact hsome _ (h.attempts b hb)
  · rcases List.mem_append.mp hr with hr | hr
    · exact hsome _ (h.commands r hr)
    · rw [hrows r hr]
      exact hsome sid (by simp [found])

theorem RunsInv.add {db db' : Db} {issued rows : List OutboxRow} {s : Session} (h : RunsInv db issued)
    (fresh : db.session? s.id = none) (hsessions : db'.sessions = (db.addSession s).sessions)
    (hattempts : AttemptsMove db db' s.id) (hrows : ∀ r ∈ rows, r.sessionId = s.id)
    (hrun : RunInv (db'.attemptsOf s.id) (issuedFor rows s.id) s) : RunsInv db' (issued ++ rows) := by
  have hlook : ∀ other, db'.session? other = if other = s.id then some s else db.session? other := by
    intro other
    rw [← session?_addSession fresh]
    unfold Db.session?
    rw [hsessions]
  have hsome : ∀ other, (db.session? other).isSome = true → (db'.session? other).isSome = true := by
    intro other ho
    rw [hlook]
    split
    · rfl
    · exact ho
  have hself : (db'.session? s.id).isSome = true := by
    rw [hlook,if_pos rfl]
    rfl
  refine ⟨?_,fun other t ht => ?_,fun a ha => ?_,fun r hr => ?_,hattempts.commands⟩
  · unfold Db.Keyed
    rw [hsessions]
    exact keyed_addSession h.keyed fresh
  · rw [hlook] at ht
    by_cases hother : other = s.id
    · subst hother
      obtain rfl : s = t := by simpa using ht
      rw [issuedFor_append,issuedFor_eq_nil h fresh,List.nil_append]
      exact hrun
    · rw [if_neg hother] at ht
      have hnil : issuedFor rows other = [] := by
        apply List.filter_eq_nil_iff.mpr
        intro r hr heq
        exact hother ((of_decide_eq_true heq).symm.trans (hrows r hr))
      rw [hattempts.others other hother,issuedFor_append,hnil,List.append_nil]
      exact h.runs other t ht
  · rcases hattempts.owned a ha with hs | ⟨b,hb,hs⟩
    · rw [hs]
      exact hself
    · rw [← hs]
      exact hsome _ (h.attempts b hb)
  · rcases List.mem_append.mp hr with hr | hr
    · exact hsome _ (h.commands r hr)
    · rw [hrows r hr]
      exact hself

/-! ### The three ways in which a run moves -/

variable {attempts : List ExecutionAttempt} {issued : List OutboxRow} {s s' : Session}

/-- The counters and the two command ids of a row are kept. -/
structure SameCounters (s s' : Session) : Prop where
  count : s'.attemptCount = s.attemptCount
  max : s'.maxAttempts = s.maxAttempts
  cancelCommand : s'.cancelCommandId = s.cancelCommandId

theorem RunInv.keep (h : RunInv attempts issued s) (same : SameCounters s s')
    (current : s'.currentAttemptId = s.currentAttemptId) (shape : RunShape s') :
    RunInv attempts issued s' where
  numbered := by rw [same.count]; exact h.numbered
  bounded := by rw [same.count,same.max]; exact h.bounded
  positive := by rw [same.max]; exact h.positive
  opened := by rw [current]; exact h.opened
  executed := h.executed
  cancelled := by rw [same.cancelCommand]; exact h.cancelled
  shape := shape

/-- A new attempt is the next one in number and belongs to the one command issued with it. -/
theorem RunInv.opens {row : OutboxRow} {a : ExecutionAttempt} {kind : AttemptKind}
    (h : RunInv attempts issued s) (closed : s.currentAttemptId = none)
    (left : s.attemptCount < s.maxAttempts) (executes : Executes row a (s.attemptCount+1) kind)
    (isOpen : a.outcome = none) (count : s'.attemptCount = s.attemptCount+1)
    (max : s'.maxAttempts = s.maxAttempts) (cancelCommand : s'.cancelCommandId = s.cancelCommandId)
    (current : s'.currentAttemptId = some a.id) (shape : RunShape s') :
    RunInv (attempts ++ [a]) (issued ++ [row]) s' where
  numbered := by
    rw [List.map_append,h.numbered,count,List.range'_concat]
    simp [executes.attemptNumber,Nat.add_comm]
  bounded := by omega
  positive := by rw [max]; exact h.positive
  opened := by
    rw [List.filter_append,List.map_append,h.opened,closed,current]
    simp [isOpen]
  executed := by
    rw [executions_append,h.executed,List.map_append]
    simp [executions,executes.commandKind,executes.command,executes.attemptKind]
  cancelled := by
    have hnone : cancels [row] = [] := by
      have hkind := executes.commandKind
      unfold cancels
      cases hcommand : row.payload.command <;> simp_all [executionKind,Command.isSessionCancel]
    rw [cancels_append,hnone,List.append_nil,cancelCommand]
    exact h.cancelled
  shape := shape

theorem RunInv.closes {attemptId sid : String} {outcome : AttemptOutcome} (h : RunInv attempts issued s)
    (owned : ∀ a ∈ attempts, a.sessionId = sid) (current : s.currentAttemptId = some attemptId)
    (same : SameCounters s s') (closed : s'.currentAttemptId = none) (shape : RunShape s') :
    RunInv (Table.updateFirst (openUnder attemptId sid) (·.close outcome) attempts) issued s' where
  numbered := by
    rw [Table.map_updateFirst _ (·.close outcome) (fun a : ExecutionAttempt => a.attemptNumber)
      fun _ => rfl,same.count]
    exact h.numbered
  bounded := by rw [same.count,same.max]; exact h.bounded
  positive := by rw [same.max]; exact h.positive
  opened := by
    have hopened := h.opened
    rw [current,Option.toList_some,List.map_eq_singleton_iff] at hopened
    obtain ⟨a,hfilter,hid⟩ := hopened
    obtain ⟨ha,hnone⟩ := List.mem_filter.mp (show a ∈ attempts.filter (·.outcome.isNone) by simp [hfilter])
    rw [Table.filter_updateFirst_drop,hfilter,closed]
    · simp [openUnder,hid,owned a ha,hnone]
    · intro b hb
      simp only [openUnder,Bool.and_eq_true] at hb
      exact ⟨hb.2,rfl⟩
  executed := by
    rw [Table.map_updateFirst _ (·.close outcome) (fun a : ExecutionAttempt => (a.commandId,a.commandKind))
      fun _ => rfl]
    exact h.executed
  cancelled := by rw [same.cancelCommand]; exact h.cancelled
  shape := shape

/-- A command that executes nothing: a message, or the cancel command the row then names. -/
theorem RunInv.sends {row : OutboxRow} (h : RunInv attempts issued s)
    (quiet : executionKind row.payload.command = none) (count : s'.attemptCount = s.attemptCount)
    (max : s'.maxAttempts = s.maxAttempts) (current : s'.currentAttemptId = s.currentAttemptId)
    (cancelCommand : s.cancelCommandId.toList ++ cancels [row] = s'.cancelCommandId.toList)
    (shape : RunShape s') : RunInv attempts (issued ++ [row]) s' where
  numbered := by rw [count]; exact h.numbered
  bounded := by rw [count,max]; exact h.bounded
  positive := by rw [max]; exact h.positive
  opened := by rw [current]; exact h.opened
  executed := by
    rw [executions_append,h.executed]
    simp [executions,quiet]
  cancelled := by
    rw [cancels_append,h.cancelled]
    exact cancelCommand
  shape := shape

/-! ### Every change keeps every run in order -/

variable {d : Digests} {db db' : Db} {rows : List OutboxRow}

theorem freshRun_inv (input : ClarificationStartInput) (runId : String) :
    RunInv [] [] (freshRun input runId none none) where
  numbered := rfl
  bounded := Nat.zero_le 3
  positive := Nat.zero_lt_succ 2
  opened := rfl
  executed := rfl
  cancelled := rfl
  shape := ⟨rfl,rfl,rfl⟩

theorem startedRun_inv (input : ClarificationStartInput) {row : OutboxRow} {a : ExecutionAttempt}
    (executes : Executes row a 1 .sessionStart) (isOpen : a.outcome = none) :
    RunInv [a] [row] (beginRun a.id (freshRun input row.sessionId (some row.daemonId)
      (some row.commandId))) := by
  have hrun : RunInv ([] ++ [a]) ([] ++ [row]) (beginRun a.id (freshRun input row.sessionId
      (some row.daemonId) (some row.commandId))) := by
    exact (freshRun_inv input row.sessionId).opens rfl (Nat.zero_lt_succ 2) executes isOpen rfl rfl rfl
      rfl ⟨rfl,rfl⟩
  exact hrun

theorem attemptsOf_of_eq (hattempts : db'.attempts = db.attempts) (sid : String) :
    db'.attemptsOf sid = db.attemptsOf sid := by
  unfold Db.attemptsOf
  rw [hattempts]

theorem attemptsOf_owned (db : Db) (sid : String) : ∀ a ∈ db.attemptsOf sid, a.sessionId = sid := by
  intro a ha
  simpa using (List.mem_filter.mp ha).2

theorem attemptsOf_close {attemptId sid : String} {outcome : AttemptOutcome}
    (h : db'.attempts = Table.updateFirst (openUnder attemptId sid) (·.close outcome) db.attempts) :
    db'.attemptsOf sid =
      Table.updateFirst (openUnder attemptId sid) (·.close outcome) (db.attemptsOf sid) := by
  unfold Db.attemptsOf
  rw [h]
  apply Table.filter_updateFirst
  intro a ha
  simp only [openUnder,Bool.and_eq_true,decide_eq_true_eq] at ha
  simp [ha.1.2,ExecutionAttempt.close]

theorem RunsInv.rewrite {sid : String} {f : Session → Session} (h : RunsInv db issued)
    (found : db.session? sid = some s) (hf : ∀ t, (f t).id = t.id) (same : SameCounters s (f s))
    (current : (f s).currentAttemptId = s.currentAttemptId) (shape : RunShape s → RunShape (f s))
    (hsessions : db'.sessions = (db.updateSession sid f).sessions)
    (hattempts : db'.attempts = db.attempts) : RunsInv db' issued := by
  have hrun := h.runs sid s found
  have hupdate : RunsInv db' (issued ++ []) := by
    refine h.update found hf hsessions (.same h.attemptCommands hattempts sid) (by simp) ?_
    rw [attemptsOf_of_eq hattempts,List.append_nil]
    exact hrun.keep same current (shape hrun.shape)
  rwa [List.append_nil] at hupdate

theorem RunsInv.outer (h : RunsInv db issued) (hsessions : db'.sessions = db.sessions)
    (hattempts : db'.attempts = db.attempts) : RunsInv db' issued := by
  have hlook : ∀ sid, db'.session? sid = db.session? sid := by
    intro sid
    unfold Db.session?
    rw [hsessions]
  refine ⟨?_,fun sid t ht => ?_,fun a ha => ?_,fun r hr => ?_,?_⟩
  · unfold Db.Keyed
    rw [hsessions]
    exact h.keyed
  · rw [attemptsOf_of_eq hattempts]
    exact h.runs sid t (by rw [← hlook]; exact ht)
  · rw [hlook]
    exact h.attempts a (by rw [← hattempts]; exact ha)
  · rw [hlook]
    exact h.commands r hr
  · rw [hattempts]
    exact h.attemptCommands

/-! One lemma for each change; a new command comes with its row. -/

section

variable {input : ClarificationStartInput} {row : OutboxRow} {a : ExecutionAttempt} {t : Session}

theorem RunsInv.newRun (h : RunsInv db issued) {runId : String} (fresh : db.session? runId = none) :
    RunsInv (db.addSession (freshRun input runId none none)) (issued ++ []) := by
  refine h.add fresh rfl ?_ (by simp) ?_
  · refine .same h.attemptCommands ?_ _
    rfl
  · have hnil : db.attemptsOf runId = [] := attemptsOf_eq_nil h fresh
    show RunInv (db.attemptsOf runId) [] _
    rw [hnil]
    exact freshRun_inv input runId

theorem RunsInv.newStartedRun (h : RunsInv db issued) (fresh : db.session? row.sessionId = none)
    (opens : Opens db a) (executes : Executes row a 1 .sessionStart) :
    RunsInv (((db.addSession (beginRun a.id (freshRun input row.sessionId (some row.daemonId)
      (some row.commandId)))).addCommand row).addAttempt a) (issued ++ [row]) := by
  refine h.add (s := beginRun a.id (freshRun input row.sessionId (some row.daemonId)
      (some row.commandId))) fresh rfl ?_ ?_ ?_
  · show AttemptsMove db _ row.sessionId
    rw [← executes.session]
    exact .add h.attemptCommands opens rfl
  · intro r hr
    obtain rfl : r = row := by simpa using hr
    rfl
  · have hnil : db.attemptsOf row.sessionId = [] := attemptsOf_eq_nil h fresh
    show RunInv (Db.attemptsOf _ row.sessionId) (issuedFor [row] row.sessionId) _
    rw [← executes.session,attemptsOf_add db rfl,executes.session,hnil,issuedFor_single]
    exact startedRun_inv input executes opens.isOpen

theorem RunsInv.opens {n : ℕ} {kind : AttemptKind} {f : Session → Session} (h : RunsInv db issued)
    (found : db.session? row.sessionId = some t) (hf : ∀ u, (f u).id = u.id) (opens : Opens db a)
    (executes : Executes row a n kind)
    (hrun : RunInv (db.attemptsOf row.sessionId) (issuedFor issued row.sessionId) t →
      RunInv (db.attemptsOf row.sessionId ++ [a]) (issuedFor issued row.sessionId ++ [row]) (f t)) :
    RunsInv (((db.addCommand row).addAttempt a).updateSession row.sessionId f) (issued ++ [row]) := by
  refine h.update found hf rfl ?_ (by simp) ?_
  · rw [← executes.session]
    exact .add h.attemptCommands opens rfl
  · rw [issuedFor_append,issuedFor_single]
    show RunInv (Db.attemptsOf _ row.sessionId) _ _
    rw [← executes.session,attemptsOf_add db rfl,executes.session]
    exact hrun (h.runs _ t found)

theorem RunsInv.assign (h : RunsInv db issued) (found : db.session? row.sessionId = some t)
    (idle : t.state = .idle) (unassigned : t.daemonId = none) (opens : Opens db a)
    (executes : Executes row a 1 .sessionStart) :
    RunsInv (((db.addCommand row).addAttempt a).updateSession row.sessionId
      (assignRun row.daemonId row.commandId a.id)) (issued ++ [row]) := by
  refine h.opens found (fun _ => rfl) opens executes fun hrun => ?_
  have hshape := hrun.shape
  simp only [RunShape,idle,unassigned] at hshape
  obtain ⟨-,hcurrent,hcount⟩ := hshape
  have hnext : Executes row a (t.attemptCount+1) .sessionStart := by
    rw [hcount]
    exact executes
  refine hrun.opens hcurrent ?_ hnext opens.isOpen ?_ rfl rfl rfl ?_
  · rw [hcount]
    exact hrun.positive
  · rw [hcount]
    rfl
  · have hs := hrun.shape
    simp only [RunShape,idle] at hs
    simp [RunShape,assignRun,beginRun,idle,hs.1]

theorem RunsInv.resume (h : RunsInv db issued) (found : db.session? row.sessionId = some t)
    (closed : t.currentAttemptId = none) (left : t.attemptCount < t.maxAttempts) (opens : Opens db a)
    (executes : Executes row a (t.attemptCount+1) .sessionResume) :
    RunsInv (((db.addCommand row).addAttempt a).updateSession row.sessionId
      (resumeRun (t.attemptCount+1) a.id)) (issued ++ [row]) :=
  h.opens found (fun _ => rfl) opens executes fun hrun =>
    hrun.opens closed left executes opens.isOpen rfl rfl rfl rfl ⟨rfl,rfl⟩

theorem RunsInv.send {messageId content : String} (h : RunsInv db issued)
    (found : db.session? row.sessionId = some t) (message : row.payload.command = .messageSend messageId content) :
    RunsInv (db.addCommand row) (issued ++ [row]) := by
  refine ⟨h.keyed,fun sid u hu => ?_,h.attempts,fun r hr => ?_,h.attemptCommands⟩
  · have hrun := h.runs sid u hu
    rw [issuedFor_append]
    by_cases hsid : sid = row.sessionId
    · subst hsid
      rw [issuedFor_single]
      refine hrun.sends ?_ rfl rfl rfl ?_ hrun.shape
      · rw [message]
        rfl
      · simp [cancels,message,Command.isSessionCancel]
    · rw [issuedFor_other hsid,List.append_nil]
      exact hrun
  · rcases List.mem_append.mp hr with hr | hr
    · exact h.commands r hr
    · obtain rfl : r = row := by simpa using hr
      show (db.session? r.sessionId).isSome = true
      simp [found]

theorem RunsInv.cancelMark (h : RunsInv db issued) (found : db.session? t.id = some t) :
    RunsInv (db.updateSession t.id markCancelled) issued := by
  refine h.rewrite found markCancelled_id ?_ ?_ ?_ rfl rfl
  · unfold markCancelled
    split <;> exact ⟨rfl,rfl,rfl⟩
  · unfold markCancelled
    split <;> rfl
  · intro hs
    unfold markCancelled
    split
    · exact hs
    · rename_i hnone
      exact ⟨rfl,hnone⟩

theorem RunsInv.cancelSend {reason : String} (h : RunsInv db issued)
    (found : db.session? row.sessionId = some t) (unsent : t.cancelCommandId = none)
    (cancel : row.payload.command = .sessionCancel reason) :
    RunsInv ((db.addCommand row).updateSession row.sessionId (nameCancel row.commandId)) (issued ++ [row]) := by
  have hrun := h.runs _ t found
  refine h.update found (f := nameCancel row.commandId) (fun _ => rfl) rfl ?_ (by simp) ?_
  · refine .same h.attemptCommands ?_ _
    rfl
  · rw [issuedFor_append,issuedFor_single]
    refine hrun.sends ?_ rfl rfl rfl ?_ hrun.shape
    · rw [cancel]
      rfl
    · simp [cancels,cancel,Command.isSessionCancel,unsent,nameCancel]

theorem RunsInv.giveUp {failure : FailureClass} (h : RunsInv db issued) (found : db.session? t.id = some t)
    (retrying : t.state = .retrying) : RunsInv (db.updateSession t.id (failRetry failure)) issued := by
  have hshape := (h.runs _ t found).shape
  simp only [RunShape,retrying] at hshape
  refine h.rewrite found (f := failRetry failure) (fun _ => rfl) ⟨rfl,rfl,rfl⟩ ?_ (fun _ => ⟨rfl,rfl⟩) rfl rfl
  rw [hshape.2]
  rfl

theorem RunsInv.closes {attemptId : String} {outcome : AttemptOutcome} {f : Session → Session} {db₁ : Db}
    (h : RunsInv db issued) (found : db.session? t.id = some t) (current : t.currentAttemptId = some attemptId)
    (closes : closeAttempt db attemptId t.id outcome = some db₁) (hf : ∀ u, (f u).id = u.id)
    (same : SameCounters t (f t)) (released : (f t).currentAttemptId = none) (shape : RunShape (f t)) :
    RunsInv (db₁.updateSession t.id f) (issued ++ []) := by
  have hrun := h.runs _ t found
  obtain ⟨-,hdb₁,hattempts⟩ := closeAttempt_some closes
  have hsessions : db₁.sessions = db.sessions := by rw [hdb₁]
  refine h.update found hf ?_ (.close h.attemptCommands hattempts) (by simp) ?_
  · simp [Db.updateSession,hsessions]
  · rw [List.append_nil]
    show RunInv (db₁.attemptsOf t.id) _ _
    rw [attemptsOf_close hattempts]
    exact hrun.closes (attemptsOf_owned db t.id) current same released shape

end

theorem Change.runsInv (hc : Change ev d db rows db') (h : RunsInv db issued) :
    RunsInv db' (issued ++ rows) := by
  cases hc with
  | outer sessions attempts =>
    rw [List.append_nil]
    exact h.outer sessions attempts
  | newRun fresh => exact h.newRun fresh
  | newStartedRun fresh _ opens executes => exact h.newStartedRun fresh opens executes
  | assign found _ idle unassigned _ _ opens executes => exact h.assign found idle unassigned opens executes
  | send found _ _ _ message => exact h.send found message
  | cancelMark found =>
    rw [List.append_nil]
    exact h.cancelMark found
  | cancelSend found _ unsent _ cancel => exact h.cancelSend found unsent cancel
  | giveUp found retrying =>
    rw [List.append_nil]
    exact h.giveUp found retrying
  | resume found _ closed _ left _ opens executes => exact h.resume found closed left opens executes
  | @started t runtimeId found _ active =>
    rw [List.append_nil]
    exact h.rewrite found (f := startedSession runtimeId) (fun _ => rfl) ⟨rfl,rfl,rfl⟩ rfl
      (fun _ => ⟨rfl,active⟩) rfl rfl
  | completed found _ current closes =>
    exact h.closes found current closes (fun _ => rfl) ⟨rfl,rfl,rfl⟩ rfl ⟨rfl,rfl⟩
  | failed found _ current closes policy =>
    refine h.closes found current closes (fun _ => rfl) ⟨rfl,rfl,rfl⟩ rfl ?_
    rcases policy with ⟨rfl,rfl⟩ | ⟨rfl,hretry,-,-⟩
    · exact ⟨rfl,rfl⟩
    · exact ⟨hretry,rfl⟩
  | @recorded t row advance _ records =>
    rw [List.append_nil]
    exact h.rewrite records.found (f := setCursor advance row.daemonEventSeq) (fun _ => rfl) ⟨rfl,rfl,rfl⟩ rfl
      (fun hs => hs) rfl rfl

theorem Delivers.session? (h : Delivers db db') (sid : String) :
    ∃ f : Session → Session, (f = id ∨ ∃ watermark, f = setCommandAck watermark) ∧
      db'.session? sid = (db.session? sid).map f := by
  have hlook : ∀ other : Db, db'.sessions = other.sessions → db'.session? sid = other.session? sid := by
    intro other ho
    unfold Db.session?
    rw [ho]
  rcases h.sessions with hs | ⟨k,watermark,hs⟩
  · exact ⟨id,.inl rfl,by rw [hlook db hs,Option.map_id]; rfl⟩
  · rw [hlook _ hs,session?_updateSession _ _ _ (setCommandAck watermark) fun _ => rfl]
    by_cases hk : sid = k
    · subst hk
      exact ⟨_,.inr ⟨watermark,rfl⟩,by simp⟩
    · exact ⟨id,.inl rfl,by simp [hk]⟩

theorem Delivers.runsInv (hd : Delivers db db') (h : RunsInv db issued) : RunsInv db' issued := by
  have hattempts : db'.attempts = db.attempts := by rw [hd.frame]
  have hsome : ∀ sid, (db.session? sid).isSome = true → (db'.session? sid).isSome = true := by
    intro sid hs
    obtain ⟨f,-,hf⟩ := hd.session? sid
    rw [hf]
    simpa using hs
  refine ⟨?_,fun sid t ht => ?_,fun a ha => ?_,fun r hr => ?_,?_⟩
  · unfold Db.Keyed
    rcases hd.sessions with hs | ⟨k,watermark,hs⟩
    · rw [hs]
      exact h.keyed
    · rw [hs]
      exact keyed_updateSession h.keyed _ _ fun _ => rfl
  · obtain ⟨f,hf,hlook⟩ := hd.session? sid
    rw [hlook,Option.map_eq_some_iff] at ht
    obtain ⟨u,hu,rfl⟩ := ht
    have hrun := h.runs sid u hu
    rw [attemptsOf_of_eq hattempts]
    rcases hf with rfl | ⟨watermark,rfl⟩
    · exact hrun
    · exact hrun.keep ⟨rfl,rfl,rfl⟩ rfl hrun.shape
  · exact hsome _ (h.attempts a (by rw [← hattempts]; exact ha))
  · exact hsome _ (h.commands r hr)
  · rw [hattempts]
    exact h.attemptCommands

theorem RunsInv.empty : RunsInv {} [] where
  keyed := List.nodup_nil
  runs := fun sid s h => by cases h
  attempts := by simp
  commands := by simp
  attemptCommands := List.nodup_nil

def runTransactions (d : Digests) (acts : List RunAct) : World := runActs d (acts.map .run)

theorem runTransactions_append (acts more : List RunAct) :
    runTransactions d (acts ++ more) = (runTransactions d acts).run d (more.map .run) := by
  unfold runTransactions runActs
  rw [List.map_append,World.run_append]

theorem runTransactions_snoc (acts : List RunAct) (act : RunAct) :
    runTransactions d (acts ++ [act]) = (runTransactions d acts).step d (.run act) := by
  rw [runTransactions_append]
  rfl

theorem RunAct.runsInv {w : World} (h : RunsInv w.db w.issued) (act : RunAct) :
    RunsInv (w.step d (.run act)).db (w.step d (.run act)).issued := by
  rcases act.step_cases h.keyed with ⟨rows,hchanges,hissued⟩ | ⟨hdelivers,hissued⟩
  · rw [hissued]
    exact hchanges.induction (P := RunsInv) (fun hc h => hc.runsInv h) h
  · rw [hissued]
    exact hdelivers.runsInv h

theorem runTransactions_inv (d : Digests) (acts : List RunAct) :
    RunsInv (runTransactions d acts).db (runTransactions d acts).issued := by
  induction acts using List.reverseRecOn with
  | nil => exact RunsInv.empty
  | append_singleton acts act ih =>
    rw [runTransactions_snoc]
    exact act.runsInv ih

/-! ### What a stopped run can still do -/

/-- One change, seen from one run: a finished run keeps its state, a cancelled one stays
cancelled, and neither gets an attempt or a command that executes. -/
structure RunStep (db db' : Db) (rows : List OutboxRow) (sid : String) (s s' : Session) : Prop where
  found : db'.session? sid = some s'
  final : s.state.terminal = true → s'.state = s.state
  cancel : s.cancelRequested = true → s'.cancelRequested = true
  attempts : s.cancelRequested = true ∨ s.state.terminal = true →
    (db'.attemptsOf sid).map (·.id) = (db.attemptsOf sid).map (·.id)
  cancelled : s.cancelRequested = true →
    ∀ r ∈ issuedFor rows sid, r.payload.command.isSessionCancel = true
  finished : s.state.terminal = true →
    ∀ r ∈ issuedFor rows sid, executionKind r.payload.command = none

theorem RunStep.other {sid : String} (found : db'.session? sid = some s)
    (hattempts : db'.attemptsOf sid = db.attemptsOf sid) (hrows : issuedFor rows sid = []) :
    RunStep db db' rows sid s s :=
  ⟨found,fun _ => rfl,fun h => h,fun _ => by rw [hattempts],by simp [hrows],by simp [hrows]⟩

theorem RunStep.rewrite {sid k : String} {t : Session} {f : Session → Session}
    (hs : db.session? sid = some s) (found : db.session? k = some t) (hf : ∀ u, (f u).id = u.id)
    (hsessions : db'.sessions = (db.updateSession k f).sessions)
    (hattempts : (db'.attemptsOf sid).map (·.id) = (db.attemptsOf sid).map (·.id))
    (final : t.state.terminal = true → (f t).state = t.state)
    (cancel : t.cancelRequested = true → (f t).cancelRequested = true) :
    ∃ s', RunStep db db' [] sid s s' := by
  have hlook : db'.session? sid = if sid = k then (db.session? k).map f else db.session? sid := by
    rw [← session?_updateSession _ _ _ _ hf]
    unfold Db.session?
    rw [hsessions]
  by_cases hk : sid = k
  · subst hk
    obtain rfl : s = t := by simpa [hs] using found
    refine ⟨f s,?_,final,cancel,fun _ => hattempts,by simp [issuedFor],by simp [issuedFor]⟩
    rw [hlook,if_pos rfl,hs]
    rfl
  · refine ⟨s,?_,fun _ => rfl,fun h => h,fun _ => hattempts,by simp [issuedFor],by simp [issuedFor]⟩
    rw [hlook,if_neg hk]
    exact hs

theorem attemptIds_close {attemptId sid k : String} {outcome : AttemptOutcome}
    (h : db'.attempts = Table.updateFirst (openUnder attemptId k) (·.close outcome) db.attempts)
    (hc : (db.attempts.map (·.commandId)).Nodup) :
    (db'.attemptsOf sid).map (·.id) = (db.attemptsOf sid).map (·.id) := by
  by_cases hk : sid = k
  · subst hk
    rw [attemptsOf_close h,Table.map_updateFirst _ (·.close outcome) (fun a : ExecutionAttempt => a.id)
      fun _ => rfl]
  · rw [(AttemptsMove.close hc h).others sid hk]

section

variable {row : OutboxRow} {a : ExecutionAttempt} {t : Session} {sid : String}

theorem RunStep.newStartedRun {input : ClarificationStartInput} (h : RunsInv db issued)
    (hs : db.session? sid = some s) (fresh : db.session? row.sessionId = none) (opens : Opens db a)
    (executes : Executes row a 1 .sessionStart) :
    RunStep db (((db.addSession (beginRun a.id (freshRun input row.sessionId (some row.daemonId)
      (some row.commandId)))).addCommand row).addAttempt a) [row] sid s s := by
  have hne : sid ≠ row.sessionId := by
    rintro rfl
    simp [hs] at fresh
  refine .other ?_ ?_ (issuedFor_other hne)
  · show (db.addSession (beginRun a.id (freshRun input row.sessionId (some row.daemonId)
      (some row.commandId)))).session? sid = some s
    rw [session?_addSession fresh]
    exact (if_neg hne).trans hs
  · exact (AttemptsMove.add h.attemptCommands opens rfl).others sid (by rw [executes.session]; exact hne)

/-- A run that is neither cancelled nor over takes its next attempt. -/
theorem RunStep.opens {n : ℕ} {kind : AttemptKind} {f : Session → Session} (h : RunsInv db issued)
    (hs : db.session? sid = some s) (found : db.session? row.sessionId = some t) (hf : ∀ u, (f u).id = u.id)
    (running : t.state.terminal = false) (wanted : t.cancelRequested = false) (opens : Opens db a)
    (executes : Executes row a n kind) :
    ∃ s', RunStep db (((db.addCommand row).addAttempt a).updateSession row.sessionId f) [row] sid s s' := by
  have hlook := session?_updateSession ((db.addCommand row).addAttempt a) row.sessionId sid f hf
  by_cases hk : sid = row.sessionId
  · subst hk
    obtain rfl : s = t := by simpa [hs] using found
    refine ⟨f s,?_,by simp [running],by simp [wanted],by simp [wanted,running],by simp [wanted],by simp [running]⟩
    rw [hlook,if_pos rfl]
    show (db.session? row.sessionId).map _ = _
    rw [hs]
    rfl
  · refine ⟨s,.other ?_ ?_ (issuedFor_other hk)⟩
    · rw [hlook,if_neg hk]
      exact hs
    · exact (AttemptsMove.add h.attemptCommands opens rfl).others sid (by rw [executes.session]; exact hk)

theorem RunStep.send (hs : db.session? sid = some s) (found : db.session? row.sessionId = some t)
    (running : t.state.terminal = false) (wanted : t.cancelRequested = false) :
    RunStep db (db.addCommand row) [row] sid s s := by
  by_cases hk : sid = row.sessionId
  · subst hk
    obtain rfl : s = t := by simpa [hs] using found
    exact ⟨hs,fun _ => rfl,fun h => h,fun _ => rfl,by simp [wanted],by simp [running]⟩
  · exact .other hs rfl (issuedFor_other hk)

theorem RunStep.cancelSend {reason : String} (hs : db.session? sid = some s)
    (found : db.session? row.sessionId = some t) (cancel : row.payload.command = .sessionCancel reason) :
    ∃ s', RunStep db ((db.addCommand row).updateSession row.sessionId (nameCancel row.commandId)) [row] sid s s' := by
  have hlook := session?_updateSession (db.addCommand row) row.sessionId sid (nameCancel row.commandId)
    fun _ => rfl
  by_cases hk : sid = row.sessionId
  · subst hk
    obtain rfl : s = t := by simpa [hs] using found
    have honly : ∀ r ∈ issuedFor [row] row.sessionId, r = row := by
      simp [issuedFor_single]
    refine ⟨nameCancel row.commandId s,?_,fun _ => rfl,fun h => h,fun _ => rfl,fun _ r hr => ?_,fun _ r hr => ?_⟩
    · rw [hlook,if_pos rfl]
      show (db.session? row.sessionId).map _ = _
      rw [hs]
      rfl
    · rw [honly r hr,cancel]
      rfl
    · rw [honly r hr,cancel]
      rfl
  · refine ⟨s,.other ?_ rfl (issuedFor_other hk)⟩
    rw [hlook,if_neg hk]
    exact hs

theorem RunStep.closes {attemptId : String} {outcome : AttemptOutcome} {f : Session → Session} {db₁ : Db}
    (h : RunsInv db issued) (hs : db.session? sid = some s) (found : db.session? t.id = some t)
    (running : t.state.terminal = false) (closes : closeAttempt db attemptId t.id outcome = some db₁)
    (hf : ∀ u, (f u).id = u.id) (cancel : (f t).cancelRequested = t.cancelRequested) :
    ∃ s', RunStep db (db₁.updateSession t.id f) [] sid s s' := by
  obtain ⟨-,hdb₁,hattempts⟩ := closeAttempt_some closes
  have hsessions : db₁.sessions = db.sessions := by rw [hdb₁]
  refine RunStep.rewrite hs found hf ?_ ?_ ?_ fun hc => by rw [cancel,hc]
  · simp [Db.updateSession,hsessions]
  · exact attemptIds_close hattempts h.attemptCommands
  · simp [running]

end

theorem Change.runStep (hc : Change ev d db rows db') (h : RunsInv db issued) {sid : String}
    (hs : db.session? sid = some s) : ∃ s', RunStep db db' rows sid s s' := by
  cases hc with
  | outer sessions attempts =>
    refine ⟨s,.other ?_ (attemptsOf_of_eq attempts sid) rfl⟩
    unfold Db.session? at *
    rw [sessions]
    exact hs
  | newRun fresh =>
    refine ⟨s,.other ?_ rfl rfl⟩
    rw [session?_addSession fresh,if_neg]
    · exact hs
    · rintro rfl
      simp [hs] at fresh
  | newStartedRun fresh _ opens executes => exact ⟨s,.newStartedRun h hs fresh opens executes⟩
  | assign found _ idle _ wanted _ opens executes =>
    exact RunStep.opens h hs found (fun _ => rfl) (by rw [idle]; rfl) wanted opens executes
  | send found running wanted => exact ⟨s,.send hs found running wanted⟩
  | cancelMark found running =>
    refine RunStep.rewrite hs found markCancelled_id rfl rfl ?_ ?_
    · simp [running]
    · intro _
      unfold markCancelled
      split <;> rfl
  | cancelSend found _ _ _ cancel => exact RunStep.cancelSend hs found cancel
  | @giveUp t failure found retrying =>
    refine RunStep.rewrite hs found (f := failRetry failure) (fun _ => rfl) rfl rfl ?_ fun h => h
    simp [retrying,SessionState.terminal]
  | resume found retrying _ wanted _ _ opens executes =>
    exact RunStep.opens h hs found (fun _ => rfl) (by rw [retrying]; rfl) wanted opens executes
  | @started t runtimeId found running =>
    refine RunStep.rewrite hs found (f := startedSession runtimeId) (fun _ => rfl) rfl rfl ?_ fun h => h
    simp [running]
  | completed found running _ closes => exact RunStep.closes h hs found running closes (fun _ => rfl) rfl
  | failed found running _ closes => exact RunStep.closes h hs found running closes (fun _ => rfl) rfl
  | @recorded t row advance _ records =>
    exact RunStep.rewrite hs records.found (f := setCursor advance row.daemonEventSeq) (fun _ => rfl) rfl rfl
      (fun _ => rfl) fun h => h

theorem RunStep.trans {db₁ : Db} {rows₁ rows₂ : List OutboxRow} {sid : String} {s₁ : Session}
    (h : RunStep db db₁ rows₁ sid s s₁) (h' : RunStep db₁ db' rows₂ sid s₁ s') :
    RunStep db db' (rows₁ ++ rows₂) sid s s' := by
  have hterminal : s.state.terminal = true → s₁.state.terminal = true := by
    intro ht
    rw [h.final ht]
    exact ht
  refine ⟨h'.found,fun ht => ?_,fun hc => h'.cancel (h.cancel hc),fun hstop => ?_,fun hc r hr => ?_,
    fun ht r hr => ?_⟩
  · rw [h'.final (hterminal ht),h.final ht]
  · rw [h'.attempts (hstop.imp h.cancel hterminal),h.attempts hstop]
  · rw [issuedFor_append] at hr
    rcases List.mem_append.mp hr with hr | hr
    · exact h.cancelled hc r hr
    · exact h'.cancelled (h.cancel hc) r hr
  · rw [issuedFor_append] at hr
    rcases List.mem_append.mp hr with hr | hr
    · exact h.finished ht r hr
    · exact h'.finished (hterminal ht) r hr

theorem Changes.runStep (hc : Changes ev d db rows db') (h : RunsInv db issued) {sid : String}
    (hs : db.session? sid = some s) : ∃ s', RunStep db db' rows sid s s' := by
  induction hc generalizing issued s with
  | refl db => exact ⟨s,.other hs rfl rfl⟩
  | step head tail ih =>
    obtain ⟨s₁,h₁⟩ := head.runStep h hs
    obtain ⟨s₂,h₂⟩ := ih (head.runsInv h) h₁.found
    exact ⟨s₂,h₁.trans h₂⟩

theorem Delivers.runStep (hd : Delivers db db') {sid : String} (hs : db.session? sid = some s) :
    ∃ s', RunStep db db' [] sid s s' := by
  obtain ⟨f,hf,hlook⟩ := hd.session? sid
  have hattempts : db'.attemptsOf sid = db.attemptsOf sid := by
    unfold Db.attemptsOf
    rw [hd.frame]
  have hsame : (f s).state = s.state ∧ (f s).cancelRequested = s.cancelRequested := by
    rcases hf with rfl | ⟨watermark,rfl⟩ <;> exact ⟨rfl,rfl⟩
  refine ⟨f s,?_,fun _ => hsame.1,fun h => hsame.2.trans h,fun _ => by rw [hattempts],by simp [issuedFor],
    by simp [issuedFor]⟩
  rw [hlook,hs]
  rfl

theorem RunAct.runStep {w : World} (h : RunsInv w.db w.issued) (act : RunAct) {sid : String}
    (hs : w.db.session? sid = some s) :
    ∃ s' rows, RunStep w.db (w.step d (.run act)).db rows sid s s' ∧
      (w.step d (.run act)).issued = w.issued ++ rows := by
  rcases act.step_cases h.keyed with ⟨rows,hchanges,hissued⟩ | ⟨hdelivers,hissued⟩
  · obtain ⟨s',hstep⟩ := hchanges.runStep h hs
    exact ⟨s',rows,hstep,hissued⟩
  · obtain ⟨s',hstep⟩ := hdelivers.runStep hs
    exact ⟨s',[],hstep,by rw [hissued,List.append_nil]⟩

/-- From any reachable state on, a run of transactions is one step for each session. -/
theorem runStep_of_run (d : Digests) (acts more : List RunAct) {sid : String}
    (hs : (runTransactions d acts).db.session? sid = some s) :
    ∃ s' rows, RunStep (runTransactions d acts).db (runTransactions d (acts ++ more)).db rows sid s s' ∧
      (runTransactions d (acts ++ more)).issued = (runTransactions d acts).issued ++ rows := by
  induction more using List.reverseRecOn with
  | nil =>
    rw [List.append_nil]
    exact ⟨s,[],.other hs rfl rfl,by simp⟩
  | append_singleton more act ih =>
    obtain ⟨s₁,rows₁,h₁,hissued₁⟩ := ih
    rw [← List.append_assoc,runTransactions_snoc]
    obtain ⟨s₂,rows₂,h₂,hissued₂⟩ := act.runStep (d := d) (runTransactions_inv d (acts ++ more)) h₁.found
    exact ⟨s₂,rows₁ ++ rows₂,h₁.trans h₂,by rw [hissued₂,hissued₁,List.append_assoc]⟩

end Store
end North
