import North.RunInvariant

/-! The retry authority of the server: attempts are counted, numbered and bounded by the
store alone, a finished run stays finished, and a run that was cancelled or whose outcome
is unknown is not started again. -/
namespace North
namespace Store

open Machine Protocol Domain

/-- What the store guarantees of the attempts of a run. -/
structure Authority (w : World) (s : Session) : Prop where
  numbered : (w.db.attemptsOf s.id).map (·.attemptNumber) = List.range' 1 s.attemptCount
  bounded : s.attemptCount ≤ s.maxAttempts
  oneOpen : ∀ a ∈ w.db.attemptsOf s.id, ∀ b ∈ w.db.attemptsOf s.id,
    a.outcome = none → b.outcome = none → a = b
  current : ∀ a ∈ w.db.attemptsOf s.id, a.outcome = none → s.currentAttemptId = some a.id
  retrying : s.state = .retrying ↔ s.currentAttemptId = none ∧ s.nextRetryAt.isSome = true
  /-- One start or resume command for each attempt. -/
  oneCommand : ∀ a ∈ w.db.attemptsOf s.id,
    (executions (issuedFor w.issued s.id)).countP (fun e => decide (e.1 = a.commandId)) = 1
  /-- And none beside them. -/
  noOther : (executions (issuedFor w.issued s.id)).length = s.attemptCount

theorem RunShape.retrying_iff {s : Session} (h : RunShape s) :
    s.state = .retrying ↔ s.currentAttemptId = none ∧ s.nextRetryAt.isSome = true := by
  unfold RunShape at h
  cases hstate : s.state <;> simp_all

theorem RunInv.open_eq {attempts : List ExecutionAttempt} {issued : List OutboxRow} {s : Session}
    (h : RunInv attempts issued s) {a : ExecutionAttempt} (ha : a ∈ attempts) (ho : a.outcome = none) :
    attempts.filter (·.outcome.isNone) = [a] ∧ s.currentAttemptId = some a.id := by
  have hmem : a ∈ attempts.filter (·.outcome.isNone) := List.mem_filter.mpr ⟨ha,by simp [ho]⟩
  have hopened := h.opened
  cases hcur : s.currentAttemptId with
  | none =>
    rw [hcur,Option.toList_none,List.map_eq_nil_iff] at hopened
    simp [hopened] at hmem
  | some id =>
    rw [hcur,Option.toList_some,List.map_eq_singleton_iff] at hopened
    obtain ⟨b,hb,hid⟩ := hopened
    rw [hb,List.mem_singleton] at hmem
    subst hmem
    exact ⟨hb,by rw [hid]⟩

theorem RunsInv.authority {w : World} (h : RunsInv w.db w.issued) {s : Session} (hs : s ∈ w.db.sessions) :
    Authority w s := by
  have hrun := h.runs s.id s (session?_of_mem h.keyed hs)
  have hnodup : ((w.db.attemptsOf s.id).map (·.commandId)).Nodup :=
    (List.filter_sublist.map _).nodup h.attemptCommands
  refine ⟨hrun.numbered,hrun.bounded,fun a ha b hb hoa hob => ?_,fun a ha ho => (hrun.open_eq ha ho).2,
    hrun.shape.retrying_iff,fun a ha => ?_,?_⟩
  · have hab : [a] = [b] := (hrun.open_eq ha hoa).1.symm.trans (hrun.open_eq hb hob).1
    simpa using hab
  · rw [hrun.executed,List.countP_map]
    have hcount : (w.db.attemptsOf s.id).countP (fun b => decide (b.commandId = a.commandId)) =
        ((w.db.attemptsOf s.id).map (·.commandId)).count a.commandId := by
      rw [List.count,List.countP_map]
      rfl
    exact hcount.trans (List.count_eq_one_of_mem hnodup (List.mem_map_of_mem ha))
  · rw [hrun.executed,List.length_map]
    have hlength := congrArg List.length hrun.numbered
    simpa using hlength

/-- The retry authority: in every state reached, every run has its attempts in order, and a
finished run keeps its state from then on. -/
theorem retry_authority (d : Digests) (acts more : List RunAct) (s : Session)
    (hs : s ∈ (runTransactions d acts).db.sessions) :
    Authority (runTransactions d acts) s ∧
      (s.state.terminal = true → ∃ s' ∈ (runTransactions d (acts ++ more)).db.sessions,
        s'.id = s.id ∧ s'.state = s.state) := by
  have hinv := runTransactions_inv d acts
  refine ⟨hinv.authority hs,fun ht => ?_⟩
  obtain ⟨s',rows,hstep,-⟩ := runStep_of_run d acts more (session?_of_mem hinv.keyed hs)
  obtain ⟨hmem,hid⟩ := session?_some hstep.found
  exact ⟨s',hmem,hid,hstep.final ht⟩

namespace Sample

/-- The first attempt fails and is retried. -/
def retried : List RunAct := started ++ [fails "e1" 1 "boom",claims "c2"]

end Sample

/-- The retried run: two attempts, each with its command. -/
theorem retried_authority : ∃ s ∈ (runTransactions Sample.digests Sample.retried).db.sessions,
    s.state = .running ∧ s.attemptCount = 2 ∧
      Authority (runTransactions Sample.digests Sample.retried) s := by
  have hs : ∃ s ∈ (runTransactions Sample.digests Sample.retried).db.sessions,
      s.state = .running ∧ s.attemptCount = 2 := by decide +kernel
  obtain ⟨s,hmem,hstate,hcount⟩ := hs
  exact ⟨s,hmem,hstate,hcount,(retry_authority Sample.digests Sample.retried [] s hmem).1⟩

/-! ### Cancellation and unknown outcomes -/

def resumes (rows : List OutboxRow) : List OutboxRow :=
  rows.filter fun r => decide (executionKind r.payload.command = some .sessionResume)

/-- The commands of a run that make the agent work. -/
def working (rows : List OutboxRow) : List OutboxRow :=
  rows.filter fun r => !r.payload.command.isSessionCancel

/-- A committed `SessionFailed` that reports an unknown outcome of an assigned, unfinished run. -/
structure UnknownCommitted (d : Digests) (db : Db) (now : ℕ) (jitter : Fin 26)
    (request : ProjectionRequest) : Prop where
  event : ∃ recoverable reason, request.event = .failed recoverable reason ∧
    isUnknownFailure reason = true
  committed : ∃ receipt db', projectClarificationEvent d now jitter request db = .ok (receipt,db') ∧
    receipt.duplicate = false
  run : ∃ s, db.session? request.sessionId = some s ∧ s.daemonId.isSome = true ∧
    s.state.terminal = false

/-- Cancellation and unknown outcome are final for automation in this run of transactions. -/
structure StopsFinal (d : Digests) (acts : List RunAct) : Prop where
  /-- After a committed cancellation there is no new attempt, no new command other than a
  cancel command, and at most one of these. -/
  cancelled : ∀ pre post now draw requirementId runId result db',
    acts = pre ++ .cancel now draw requirementId runId::post →
    cancelClarification d now draw requirementId runId (runTransactions d pre).db = .ok (result,db') →
    ((runTransactions d acts).db.attemptsOf runId).map (·.id) = (db'.attemptsOf runId).map (·.id) ∧
    working (issuedFor (runTransactions d acts).issued runId) =
      working (issuedFor (runTransactions d pre).issued runId) ∧
    (cancels (issuedFor (runTransactions d acts).issued runId)).length ≤ 1
  /-- After a committed unknown outcome there is no new resume command. -/
  unknown : ∀ pre post now jitter request, acts = pre ++ .project now jitter request::post →
    UnknownCommitted d (runTransactions d pre).db now jitter request →
    resumes (issuedFor (runTransactions d acts).issued request.sessionId) =
      resumes (issuedFor (runTransactions d pre).issued request.sessionId)

/-- The checks of a projection let the event into the ledger as a new one. -/
def projectionAdmits (d : Digests) (db : Db) (request : ProjectionRequest) (s : Session) : Bool :=
  (request.check d).isOk && s.startMessageId.isSome && (dedupeById db request.eventId).isNone &&
    ((expectedSequence s).any fun expected => decide (request.daemonEventSeq ≤ expected)) &&
    decide (s.eventAckThroughSeq < request.daemonEventSeq) &&
    (dedupeBySequence db request.sessionId request.daemonEventSeq).isNone

/-- A new unknown failure is let in for a run that waits for a retry. -/
def unknownWhileRetrying (d : Digests) (db : Db) : RunAct → Bool
  | .project _ _ request =>
    (match request.event with
      | .failed _ reason => isUnknownFailure reason
      | _ => false) && (db.session? request.sessionId).any fun s =>
      projectionAdmits d db request s && decide (s.state = .retrying)
  | _ => false

/-- What a projection commits as new has passed its checks. -/
theorem projectionAdmits_of_committed {d : Digests} {now : ℕ} {jitter : Fin 26} {request : ProjectionRequest}
    {db db' : Db} {receipt : EventReceipt} {s : Session} (found : db.session? request.sessionId = some s)
    (h : projectClarificationEvent d now jitter request db = .ok (receipt,db'))
    (hnew : receipt.duplicate = false) : projectionAdmits d db request s = true := by
  simp only [projectClarificationEvent,bind_eq_ok,orError_eq_ok] at h
  obtain ⟨_,hcheck,session,found',h⟩ := h
  obtain rfl : s = session := by simpa [found] using found'
  split at h
  · cases h
  rename_i hstarted
  split at h
  · split at h
    · cases h
    · cases h
      simp [EventDedupe.receipt] at hnew
  rename_i hfree
  simp only [bind_eq_ok,orError_eq_ok] at h
  obtain ⟨expected,hexpected,h⟩ := h
  split at h
  · cases h
  rename_i hgap
  split at h
  · cases h
  rename_i hlate
  split at h
  · cases h
  rename_i hsequence
  have hstart : s.startMessageId.isSome = true := by
    cases hs : s.startMessageId <;> simp_all
  simp [projectionAdmits,hcheck,hstart,hfree,hexpected,hsequence,Except.isOk,Except.toBool]
  omega

theorem applyFailure_unknown {db db' : Db} {now : ℕ} {jitter : Fin 26} {s : Session}
    {eventId reason : String} (found : db.session? s.id = some s) (hunknown : isUnknownFailure reason = true)
    (h : applyFailure db now jitter s eventId reason = .ok db') :
    ∃ failure, db'.session? s.id = some (failedSession .failed none failure s) := by
  have hpolicy : ∃ failure, failurePolicy db s reason = .error failure := by
    unfold failurePolicy
    split_ifs
    · exact ⟨_,rfl⟩
    · exact ⟨_,rfl⟩
  obtain ⟨failure,hpolicy⟩ := hpolicy
  simp only [applyFailure,hpolicy,bind_eq_ok,orError_eq_ok] at h
  obtain ⟨attemptId,-,db₁,hcloses,h⟩ := h
  split_ifs at h
  cases h
  obtain ⟨-,hdb₁,-⟩ := closeAttempt_some hcloses
  have found₁ : db₁.session? s.id = some s := by
    rw [hdb₁]
    exact found
  refine ⟨failure,?_⟩
  rw [session?_updateSession _ _ _ (failedSession _ _ _) fun _ => rfl,if_pos rfl,found₁]
  rfl

/-- An unknown failure of a run with a current attempt finishes the run. -/
theorem project_unknown_failed {d : Digests} {now : ℕ} {jitter : Fin 26} {request : ProjectionRequest}
    {db db' : Db} {receipt : EventReceipt} {s : Session} {recoverable : Bool} {reason : String}
    (h : projectClarificationEvent d now jitter request db = .ok (receipt,db'))
    (hnew : receipt.duplicate = false) (hevent : request.event = .failed recoverable reason)
    (hunknown : isUnknownFailure reason = true) (found : db.session? request.sessionId = some s)
    (assigned : s.daemonId.isSome = true) (running : s.state.terminal = false)
    (active : s.currentAttemptId.isSome = true) :
    dedupeById db request.eventId = none ∧
      ∃ s', db'.session? request.sessionId = some s' ∧ s'.state = .failed := by
  simp only [projectClarificationEvent,bind_eq_ok,orError_eq_ok] at h
  obtain ⟨_,-,session,found',h⟩ := h
  obtain rfl : s = session := by simpa [found] using found'
  obtain ⟨-,hid⟩ := session?_some found
  split at h
  · cases h
  · split at h
    · split at h
      · cases h
      · cases h
        simp [EventDedupe.receipt] at hnew
    · rename_i hfree
      refine ⟨hfree,?_⟩
      simp only [bind_eq_ok,orError_eq_ok] at h
      obtain ⟨expected,-,h⟩ := h
      split at h
      · cases h
      · split at h
        · cases h
        · split at h
          · cases h
          · simp only [bind_eq_ok,orError_eq_ok] at h
            obtain ⟨db₁,heffect,db₂,hins,h⟩ := h
            cases h
            obtain rfl := insertEventDedupe_some hins
            have haccept : projectionRejection s request.event = none := by
              have hdaemon : ¬ s.daemonId.isNone = true := by
                cases hd : s.daemonId <;> simp_all
              have hcurrent : ¬ s.currentAttemptId.isNone = true := by
                cases hc : s.currentAttemptId <;> simp_all
              simp [projectionRejection,running,hdaemon,hcurrent,hevent,
                ClarificationEvent.isSessionStarted]
            rw [haccept,hevent] at heffect
            have found' : db.session? s.id = some s := by
              rw [hid]
              exact found
            obtain ⟨failure,hfailed⟩ := applyFailure_unknown found' hunknown heffect
            rw [session?_updateSession _ _ _ (setCursor _ _) fun _ => rfl,if_pos rfl]
            refine ⟨setCursor advanceProjectionCursor request.daemonEventSeq
              (failedSession .failed none failure s),?_,rfl⟩
            show (db₁.session? request.sessionId).map _ = _
            rw [← hid,hfailed]
            rfl

theorem issuedFor_cancel_only {rows : List OutboxRow} {sid : String}
    (h : ∀ r ∈ issuedFor rows sid, r.payload.command.isSessionCancel = true) :
    working (issuedFor rows sid) = [] := by
  apply List.filter_eq_nil_iff.mpr
  intro r hr
  simp [h r hr]

theorem cancels_length_le {w : World} (h : RunsInv w.db w.issued) {sid : String} {s : Session}
    (hs : w.db.session? sid = some s) : (cancels (issuedFor w.issued sid)).length ≤ 1 := by
  rw [(h.runs sid s hs).cancelled]
  cases s.cancelCommandId <;> simp

theorem working_append (a b : List OutboxRow) : working (a ++ b) = working a ++ working b :=
  List.filter_append ..

theorem resumes_append (a b : List OutboxRow) : resumes (a ++ b) = resumes a ++ resumes b :=
  List.filter_append ..

theorem cancel_final (d : Digests) (pre post : List RunAct) {now : ℕ} {draw : Draw}
    {requirementId runId : String} {result : ClarificationCommandResult} {db' : Db}
    (h : cancelClarification d now draw requirementId runId (runTransactions d pre).db = .ok (result,db')) :
    let w := runTransactions d (pre ++ .cancel now draw requirementId runId::post)
    (w.db.attemptsOf runId).map (·.id) = (db'.attemptsOf runId).map (·.id) ∧
    working (issuedFor w.issued runId) = working (issuedFor (runTransactions d pre).issued runId) ∧
    (cancels (issuedFor w.issued runId)).length ≤ 1 := by
  obtain ⟨⟨s,hs,hflag⟩,rows,hchanges,-,hcancels⟩ := @cancel_changes false _ _ _ _ _ _ _ _ h
  obtain ⟨hdb,hissued⟩ : (runTransactions d (pre ++ [.cancel now draw requirementId runId])).db = db' ∧
      (runTransactions d (pre ++ [.cancel now draw requirementId runId])).issued =
        (runTransactions d pre).issued ++ rows := by
    rw [runTransactions_snoc]
    refine World.step_of_changes ?_ hchanges
    simp only [Act.apply,RunAct.apply,h,committed]
  rw [← hdb] at hs
  obtain ⟨s',rows',hstep,hissued'⟩ := runStep_of_run d (pre ++ [.cancel now draw requirementId runId]) post hs
  have hsplit : pre ++ RunAct.cancel now draw requirementId runId::post =
      pre ++ [.cancel now draw requirementId runId] ++ post := by simp
  intro w
  have hw : w = runTransactions d (pre ++ [.cancel now draw requirementId runId] ++ post) := by
    rw [← hsplit]
  refine ⟨?_,?_,?_⟩
  · rw [hw,hstep.attempts (.inl hflag),hdb]
  · have hnew : working (issuedFor rows runId) = [] :=
      issuedFor_cancel_only fun r hr => hcancels r (List.mem_of_mem_filter hr)
    rw [hw,hissued',hissued,issuedFor_append,issuedFor_append,working_append,working_append,hnew,
      issuedFor_cancel_only (hstep.cancelled hflag),List.append_nil,List.append_nil]
  · rw [hw]
    exact cancels_length_le (runTransactions_inv d _) hstep.found

theorem RunShape.active {s : Session} (h : RunShape s) (assigned : s.daemonId.isSome = true)
    (running : s.state.terminal = false) (settled : s.state ≠ .retrying) :
    s.currentAttemptId.isSome = true := by
  unfold RunShape at h
  cases hstate : s.state <;> cases hdaemon : s.daemonId <;> simp_all [SessionState.terminal]

theorem unknown_final (d : Digests) (pre post : List RunAct) {now : ℕ} {jitter : Fin 26}
    {request : ProjectionRequest} (h : UnknownCommitted d (runTransactions d pre).db now jitter request)
    (guard : unknownWhileRetrying d (runTransactions d pre).db (.project now jitter request) = false) :
    resumes (issuedFor (runTransactions d (pre ++ .project now jitter request::post)).issued
      request.sessionId) = resumes (issuedFor (runTransactions d pre).issued request.sessionId) := by
  obtain ⟨recoverable,reason,hevent,hunknown⟩ := h.event
  obtain ⟨receipt,db',hproject,hnew⟩ := h.committed
  obtain ⟨s,hs,hassigned,hrunning⟩ := h.run
  have hinv := runTransactions_inv d pre
  have hshape := (hinv.runs _ s hs).shape
  have hsettled : s.state ≠ .retrying := by
    intro hretrying
    have hadmits := projectionAdmits_of_committed hs hproject hnew
    simp [unknownWhileRetrying,hevent,hunknown,hadmits,hs,hretrying] at guard
  have hactive := hshape.active hassigned hrunning hsettled
  obtain ⟨-,s₁,hs₁,hfailed⟩ :=
    project_unknown_failed hproject hnew hevent hunknown hs hassigned hrunning hactive
  have hexec : (EventCall.project now jitter request).exec d (runTransactions d pre).db =
      .ok (receipt,db') := mapError_eq_ok.mpr hproject
  obtain ⟨hdb,hissued⟩ : (runTransactions d (pre ++ [.project now jitter request])).db = db' ∧
      (runTransactions d (pre ++ [.project now jitter request])).issued =
        (runTransactions d pre).issued ++ [] := by
    rw [runTransactions_snoc]
    refine World.step_of_changes ?_ (EventCall.changes hexec)
    simp only [Act.apply,RunAct.apply,hproject,committed]
  rw [← hdb] at hs₁
  obtain ⟨s₂,rows,hstep,hissued₂⟩ := runStep_of_run d (pre ++ [.project now jitter request]) post hs₁
  have hsplit : pre ++ RunAct.project now jitter request::post =
      pre ++ [.project now jitter request] ++ post := by simp
  have hnone : resumes (issuedFor rows request.sessionId) = [] := by
    apply List.filter_eq_nil_iff.mpr
    intro r hr
    simp [hstep.finished (by rw [hfailed]; rfl) r hr]
  rw [hsplit,hissued₂,hissued,List.append_nil,issuedFor_append,resumes_append,hnone,List.append_nil]

/-- In a run of transactions in which no new unknown failure is let in for a run that waits for a
retry, cancellation and unknown outcome are final. -/
theorem stops_are_final (d : Digests) (acts : List RunAct)
    (guard : ∀ i : Fin acts.length,
      unknownWhileRetrying d (runTransactions d (acts.take i)).db (acts.get i) = false) :
    StopsFinal d acts where
  cancelled := by
    rintro pre post now draw requirementId runId result db' rfl h
    exact cancel_final d pre post h
  unknown := by
    rintro pre post now jitter request rfl h
    have hguard := guard ⟨pre.length,by simp⟩
    exact unknown_final d pre post h (by simpa using hguard)

namespace Sample

/-- A run that is cancelled while its first attempt works, and whose outcome is then unknown. -/
def stopped : List RunAct :=
  started ++ [.cancel 2 ⟨"c2","2"⟩ "req" "run",fails "e1" 1 "execution_outcome_unknown",claims "c3"]

/-- A run that waits for its retry when an unknown outcome arrives. -/
def waiting : List RunAct := started ++ [fails "e1" 1 "boom"]

def unknownRequest : ProjectionRequest :=
  ⟨"e2","run",2,"e2","e2",.failed true "execution_outcome_unknown"⟩

/-- And is resumed all the same. -/
def resumed : List RunAct := waiting ++ .project 2 noJitter unknownRequest::[claims "c2"]

end Sample

theorem stopped_final : StopsFinal Sample.digests Sample.stopped ∧
    (cancels (issuedFor (runTransactions Sample.digests Sample.stopped).issued "run")).length = 1 :=
  ⟨stops_are_final Sample.digests Sample.stopped (by decide +kernel),by decide +kernel⟩

theorem unknown_while_waiting : UnknownCommitted Sample.digests
    (runTransactions Sample.digests Sample.waiting).db 2 0 Sample.unknownRequest where
  event := ⟨true,"execution_outcome_unknown",rfl,by decide +kernel⟩
  committed := by
    have hnew : ((projectClarificationEvent Sample.digests 2 0 Sample.unknownRequest
        (runTransactions Sample.digests Sample.waiting).db).toOption.map fun p => p.1.duplicate) =
        some false := by decide +kernel
    cases hp : projectClarificationEvent Sample.digests 2 0 Sample.unknownRequest
        (runTransactions Sample.digests Sample.waiting).db with
    | error e => simp [hp,Except.toOption] at hnew
    | ok p => exact ⟨p.1,p.2,rfl,by simpa [hp,Except.toOption] using hnew⟩
  run := by
    have hrun : ((runTransactions Sample.digests Sample.waiting).db.session? "run").any (fun s =>
        s.daemonId.isSome && !s.state.terminal) = true := by decide +kernel
    obtain ⟨s,hs,hp⟩ := (Option.any_eq_true _ _).mp hrun
    simp only [Bool.and_eq_true,Bool.not_eq_true'] at hp
    exact ⟨s,hs,hp.1,hp.2⟩

/-- An unknown outcome is committed as rejected, and the due retry still resumes the run. -/
theorem resumed_not_final : ¬ StopsFinal Sample.digests Sample.resumed := by
  intro h
  have hresumes := h.unknown Sample.waiting [Sample.claims "c2"] 2 0 Sample.unknownRequest rfl
    unknown_while_waiting
  revert hresumes
  decide +kernel

end Store
end North
