import North.ClarificationSlot

/-! What a start leaves behind for the starts after it: the stored context that makes the start
command, attempt ids that no other run has, and empty command tables for a run without daemon. -/
namespace North
namespace Store

open Machine Protocol Domain

def Assigned (db : Db) (sid : String) : Prop := ∃ s ∈ db.sessions, s.id = sid ∧ s.daemonId.isSome = true

/-- A row as later transactions leave it: its id and its context stay, it keeps a daemon, and the
watermark waits for one. -/
structure Retained (s t : Session) : Prop where
  id : t.id = s.id
  context : t.startContext = s.startContext
  daemon : s.daemonId.isSome = true → t.daemonId.isSome = true
  watermark : t.daemonId = none → t.commandAckThroughSeq = s.commandAckThroughSeq

theorem Retained.same {s t : Session} (id : t.id = s.id) (context : t.startContext = s.startContext)
    (daemon : t.daemonId = s.daemonId) (watermark : t.commandAckThroughSeq = s.commandAckThroughSeq) :
    Retained s t :=
  ⟨id,context,fun h => daemon ▸ h,fun _ => watermark⟩

theorem Retained.refl (s : Session) : Retained s s := .same rfl rfl rfl rfl

theorem Retained.unassigned {s t : Session} (h : Retained s t) (ht : t.daemonId = none) : s.daemonId = none := by
  by_contra hs
  have hsome := h.daemon (Option.isSome_iff_ne_none.mpr hs)
  rw [ht] at hsome
  cases hsome

/-- A session id and a start context that a frame accepts. -/
structure Buildable (id : String) (context : Option SessionStart) : Prop where
  named : Text.blank id = false
  valid : ∃ start, context = some start ∧ start.validate = .ok ()

/-- Every run can be started from its row; the attempts have their derived ids; only runs with a
daemon have commands. -/
structure StartLedger (d : Digests) (db : Db) : Prop where
  stored : ∀ s ∈ db.sessions, Buildable s.id s.startContext
  attempts : ∀ a ∈ db.attempts, a.id = executionAttemptId d a.sessionId a.attemptNumber
  outbox : ∀ r ∈ db.outbox, Assigned db r.sessionId
  tombstones : ∀ t ∈ db.tombstones, Assigned db t.sessionId
  watermark : ∀ s ∈ db.sessions, s.daemonId = none → s.commandAckThroughSeq = 0

theorem StartLedger.empty (d : Digests) : StartLedger d {} := ⟨by simp,by simp,by simp,by simp,by simp⟩

section

variable {d : Digests} {db db' : Db}

theorem assigned_of_found {sid : String} {s : Session} (found : db.session? sid = some s)
    (hs : s.daemonId.isSome = true) : Assigned db sid :=
  ⟨s,(session?_some found).1,(session?_some found).2,hs⟩

/-! ### The moves of the tables -/

theorem retained_update {id : String} {f : Session → Session}
    (hf : ∀ s ∈ db.sessions, s.id = id → Retained s (f s)) :
    (∀ t ∈ (db.updateSession id f).sessions, ∃ s ∈ db.sessions, Retained s t) ∧
      ∀ s ∈ db.sessions, ∃ t ∈ (db.updateSession id f).sessions, Retained s t :=
  Table.related_updateFirst Retained.refl fun s hs hp => hf s hs (of_decide_eq_true hp)

theorem Assigned.update {sid id : String} {f : Session → Session} (h : Assigned db sid)
    (hf : ∀ s ∈ db.sessions, s.id = id → Retained s (f s)) : Assigned (db.updateSession id f) sid := by
  obtain ⟨s,hs,hid,hdaemon⟩ := h
  obtain ⟨t,ht,hst⟩ := (retained_update hf).2 s hs
  exact ⟨t,ht,hst.id.trans hid,hst.daemon hdaemon⟩

namespace StartLedger

theorem update (h : StartLedger d db) (id : String) {f : Session → Session}
    (hf : ∀ s ∈ db.sessions, s.id = id → Retained s (f s)) : StartLedger d (db.updateSession id f) := by
  refine ⟨fun t ht => ?_,h.attempts,fun r hr => (h.outbox r hr).update hf,
    fun r hr => (h.tombstones r hr).update hf,fun t ht hdaemon => ?_⟩
  · obtain ⟨s,hs,hst⟩ := (retained_update hf).1 t ht
    rw [hst.id,hst.context]
    exact h.stored s hs
  · obtain ⟨s,hs,hst⟩ := (retained_update hf).1 t ht
    rw [hst.watermark hdaemon]
    exact h.watermark s hs (hst.unassigned hdaemon)

theorem addCommand (h : StartLedger d db) {row : OutboxRow} (assigned : Assigned db row.sessionId) :
    StartLedger d (db.addCommand row) := by
  refine ⟨h.stored,h.attempts,fun r hr => ?_,h.tombstones,h.watermark⟩
  rcases List.mem_append.mp hr with hr | hr
  · exact h.outbox r hr
  · rw [List.mem_singleton.mp hr]
    exact assigned

theorem addAttempt (h : StartLedger d db) {a : ExecutionAttempt}
    (named : a.id = executionAttemptId d a.sessionId a.attemptNumber) : StartLedger d (db.addAttempt a) := by
  refine ⟨h.stored,fun b hb => ?_,h.outbox,h.tombstones,h.watermark⟩
  rcases List.mem_append.mp hb with hb | hb
  · exact h.attempts b hb
  · rw [List.mem_singleton.mp hb]
    exact named

theorem outer (h : StartLedger d db) (sessions : db'.sessions = db.sessions)
    (attempts : db'.attempts = db.attempts) (outbox : db'.outbox = db.outbox)
    (tombstones : db'.tombstones = db.tombstones) : StartLedger d db' := by
  have hassigned : ∀ sid, Assigned db sid → Assigned db' sid := by
    intro sid hsid
    unfold Assigned
    rwa [sessions]
  refine ⟨?_,?_,fun r hr => ?_,fun t ht => ?_,?_⟩
  · rw [sessions]
    exact h.stored
  · rw [attempts]
    exact h.attempts
  · rw [outbox] at hr
    exact hassigned _ (h.outbox r hr)
  · rw [tombstones] at ht
    exact hassigned _ (h.tombstones t ht)
  · rw [sessions]
    exact h.watermark

theorem close {attemptId sid : String} {outcome : AttemptOutcome} (h : StartLedger d db)
    (closes : closeAttempt db attemptId sid outcome = some db') : StartLedger d db' := by
  obtain ⟨-,hdb',hattempts⟩ := closeAttempt_some closes
  rw [hdb',hattempts]
  refine ⟨h.stored,?_,h.outbox,h.tombstones,h.watermark⟩
  exact Table.forall_updateFirst (f := (·.close outcome)) (fun _ ha => ha) h.attempts

theorem addSession (h : StartLedger d db) {s : Session} (stored : Buildable s.id s.startContext)
    (watermark : s.commandAckThroughSeq = 0) : StartLedger d (db.addSession s) := by
  have hassigned : ∀ sid, Assigned db sid → Assigned (db.addSession s) sid := by
    rintro sid ⟨t,ht,hid,hdaemon⟩
    exact ⟨t,List.mem_append_left _ ht,hid,hdaemon⟩
  refine ⟨fun t ht => ?_,h.attempts,fun r hr => hassigned _ (h.outbox r hr),
    fun r hr => hassigned _ (h.tombstones r hr),fun t ht hdaemon => ?_⟩
  · rcases List.mem_append.mp ht with ht | ht
    · exact h.stored t ht
    · rw [List.mem_singleton.mp ht]
      exact stored
  · rcases List.mem_append.mp ht with ht | ht
    · exact h.watermark t ht hdaemon
    · rw [List.mem_singleton.mp ht]
      exact watermark

end StartLedger

/-! ### The transactions that start no run -/

theorem retained_markCancelled (s : Session) : Retained s (markCancelled s) := by
  unfold markCancelled
  split <;> exact Retained.same rfl rfl rfl rfl

theorem dispatch_startLedger {now : ℕ} {draw : Draw} {requirementId runId messageId : String}
    {result : ClarificationCommandResult} (h : StartLedger d db)
    (hok : dispatchClarificationMessage d now draw requirementId runId messageId db = .ok (result,db')) :
    StartLedger d db' := by
  simp only [dispatchClarificationMessage,bind_eq_ok,orError_eq_ok] at hok
  obtain ⟨s,hs,run,hrun,hok⟩ := hok
  have of := intoRun_ok hrun
  split at hok
  · cases hok
  · rename_i daemonId hdaemon
    have hassigned : Assigned db runId := by
      refine assigned_of_found (runOfRequirement_some hs) ?_
      rw [← of.daemon,hdaemon]
      rfl
    split_ifs at hok
    simp only [bind_eq_ok,orError_eq_ok] at hok
    obtain ⟨message,-,hok⟩ := hok
    split at hok
    · split_ifs at hok
      simp only [bind_eq_ok] at hok
      obtain ⟨_,-,hok⟩ := hok
      cases hok
      exact h
    · simp only [bind_eq_ok] at hok
      obtain ⟨db₁,h₁,_,-,hok⟩ := hok
      cases hok
      simp only [sendMessage,bind_eq_ok,orError_eq_ok] at h₁
      obtain ⟨sequence,-,payload,-,db₂,h₂,h₁⟩ := h₁
      unfold mapMessage at h₂
      split_ifs at h₂
      cases h₂
      obtain ⟨-,rfl⟩ := insertCommand_some h₁
      refine StartLedger.addCommand ?_ hassigned
      exact h.outer rfl rfl rfl rfl

theorem cancel_startLedger {now : ℕ} {draw : Draw} {requirementId runId : String}
    {result : ClarificationCommandResult} (h : StartLedger d db)
    (hok : cancelClarification d now draw requirementId runId db = .ok (result,db')) : StartLedger d db' := by
  simp only [cancelClarification,bind_eq_ok,orError_eq_ok] at hok
  obtain ⟨s,-,run,-,hok⟩ := hok
  split_ifs at hok
  · cases hok
    exact h
  · have hmarked : StartLedger d (db.updateSession runId markCancelled) :=
      h.update runId fun t _ _ => retained_markCancelled t
    simp only [bind_eq_ok] at hok
    obtain ⟨current,hcurrent,hok⟩ := hok
    obtain ⟨t,found,of⟩ := runRow_ok hcurrent
    split_ifs at hok
    · cases hok
      exact hmarked
    · split at hok
      · cases hok
        exact hmarked
      · rename_i daemonId hdaemon
        have hassigned : Assigned (db.updateSession runId markCancelled) runId := by
          refine assigned_of_found found ?_
          rw [← of.daemon,hdaemon]
          rfl
        split at hok
        · simp only [bind_eq_ok] at hok
          obtain ⟨_,-,hok⟩ := hok
          cases hok
          exact hmarked
        · simp only [bind_eq_ok] at hok
          obtain ⟨db₁,h₁,_,-,hok⟩ := hok
          cases hok
          simp only [sendCancel,bind_eq_ok,orError_eq_ok] at h₁
          obtain ⟨sequence,-,payload,-,db₂,h₂,h₁⟩ := h₁
          obtain ⟨-,rfl⟩ := insertCommand_some h₂
          cases h₁
          exact (hmarked.addCommand hassigned).update runId fun _ _ _ => .same rfl rfl rfl rfl

theorem claimRetry_startLedger {draw : String → Draw} {work work' : List RetryWork} {row : Session}
    (h : StartLedger d db) (assigned : row.daemonId.isSome = true → Assigned db row.id)
    (hok : claimRetry d draw (work,db) row = .ok (work',db')) :
    StartLedger d db' ∧ ∀ sid, Assigned db sid → Assigned db' sid := by
  simp only [claimRetry] at hok
  split at hok
  · rename_i failure _
    cases hok
    have hkeeps : ∀ s ∈ db.sessions, s.id = row.id → Retained s (failRetry failure s) :=
      fun _ _ _ => .same rfl rfl rfl rfl
    exact ⟨h.update _ hkeeps,fun sid hsid => hsid.update hkeeps⟩
  · simp only [bind_eq_ok,orError_eq_ok] at hok
    obtain ⟨daemonId,hdaemon,number,-,sequence,-,payload,-,db₁,h₁,db₂,h₂,hok⟩ := hok
    obtain ⟨-,rfl⟩ := insertCommand_some h₁
    obtain ⟨-,rfl⟩ := insertExecutionAttempt_some h₂ rfl
    cases hok
    have hassigned := assigned (by rw [hdaemon]; rfl)
    have hkeeps : ∀ s ∈ db.sessions, s.id = row.id →
        Retained s (resumeRun number (executionAttemptId d row.id number) s) :=
      fun _ _ _ => .same rfl rfl rfl rfl
    exact ⟨((h.addCommand hassigned).addAttempt rfl).update _ hkeeps,fun sid hsid => hsid.update hkeeps⟩

theorem claimLoop_startLedger {draw : String → Draw} {rows : List Session} {work work' : List RetryWork}
    (h : StartLedger d db) (assigned : ∀ row ∈ rows, row.daemonId.isSome = true → Assigned db row.id)
    (hok : rows.foldlM (claimRetry d draw) (work,db) = .ok (work',db')) : StartLedger d db' := by
  induction rows generalizing work db with
  | nil =>
    cases hok
    exact h
  | cons row rows ih =>
    rw [List.foldlM_cons,bind_eq_ok] at hok
    obtain ⟨⟨work₁,db₁⟩,hrow,hok⟩ := hok
    obtain ⟨h₁,hkeeps⟩ := claimRetry_startLedger h (assigned row List.mem_cons_self) hrow
    exact ih h₁ (fun r hr hdaemon => hkeeps _ (assigned r (List.mem_cons_of_mem row hr) hdaemon)) hok

theorem claim_startLedger {now limit : ℕ} {locked : String → Bool} {draw : String → Draw}
    {work : List RetryWork} (h : StartLedger d db)
    (hok : claimDueRetries d now limit locked draw db = .ok (work,db')) : StartLedger d db' := by
  unfold claimDueRetries at hok
  split_ifs at hok
  refine claimLoop_startLedger h (fun row hrow hdaemon => ⟨row,?_,rfl,hdaemon⟩) hok
  exact (List.mem_filter.mp ((List.perm_insertionSort _ _).subset (List.take_subset _ _ hrow))).1

theorem applyEvent_startLedger {now : ℕ} {jitter : Fin 26} {s : Session} {eventId : String}
    {event : ClarificationEvent} (h : StartLedger d db)
    (hok : applyEvent db now jitter s eventId event = .ok db') : StartLedger d db' := by
  cases event with
  | sessionStarted runtimeId =>
    cases hok
    exact h.update _ fun _ _ _ => .same rfl rfl rfl rfl
  | agentMessage messageId content =>
    simp only [applyEvent,bind_eq_ok,orError_eq_ok] at hok
    obtain ⟨conversation,-,hok⟩ := hok
    unfold insertAgentMessage at hok
    split_ifs at hok
    cases hok
    exact h.outer rfl rfl rfl rfl
  | activity activity =>
    simp only [applyEvent] at hok
    split_ifs at hok
    cases hok
    exact h.outer rfl rfl rfl rfl
  | completed summary =>
    simp only [applyEvent,bind_eq_ok,orError_eq_ok] at hok
    obtain ⟨attemptId,-,db₁,hcloses,hok⟩ := hok
    cases hok
    exact (h.close hcloses).update _ fun _ _ _ => .same rfl rfl rfl rfl
  | failed recoverable reason =>
    simp only [applyEvent,applyFailure,bind_eq_ok,orError_eq_ok] at hok
    obtain ⟨attemptId,-,db₁,hcloses,hok⟩ := hok
    split_ifs at hok
    cases hok
    exact (h.close hcloses).update _ fun _ _ _ => .same rfl rfl rfl rfl

theorem Commits.startLedger {call : EventCall} {row : EventDedupe} (h : StartLedger d db)
    (hc : Commits d db call row db') : StartLedger d db' := by
  obtain ⟨s,db₁,advance,-,applies,-,rfl⟩ := hc.steps
  have h₁ : StartLedger d db₁ := by
    cases applies with
    | noted => exact h
    | rejected => exact h
    | projected _ _ effect => exact applyEvent_startLedger h effect
    | assessed _ effect =>
      rw [applyAssessment_outer effect]
      exact h.outer rfl rfl rfl rfl
  have hnoted : StartLedger d (db₁.addDedupe row) := h₁.outer rfl rfl rfl rfl
  exact hnoted.update _ fun _ _ _ => .same rfl rfl rfl rfl

theorem EventCall.startLedger {call : EventCall} {receipt : EventReceipt} (h : StartLedger d db)
    (hok : call.exec d db = .ok (receipt,db')) : StartLedger d db' := by
  rcases call.exec_ok hok with ⟨rfl,-⟩ | ⟨row,hcommits,-⟩
  · exact h
  · exact Commits.startLedger h hcommits

/-! ### Delivery -/

theorem mem_foldl_insertTombstone {rows tombstones : List CommandTombstone} {t : CommandTombstone}
    (ht : t ∈ rows.foldl insertTombstone tombstones) : t ∈ tombstones ∨ t ∈ rows := by
  induction rows generalizing tombstones with
  | nil => exact .inl ht
  | cons r rows ih =>
    rcases ih ht with hold | hnew
    · unfold insertTombstone at hold
      split_ifs at hold
      · exact .inl hold
      · rcases List.mem_append.mp hold with hold | hr
        · exact .inl hold
        · exact .inr (List.mem_cons.mpr (.inl (List.mem_singleton.mp hr)))
    · exact .inr (List.mem_cons_of_mem r hnew)

theorem compact_startLedger {sid : String} {count : ℕ} (h : StartLedger d db)
    (hok : compactServerCommandsInTransaction db sid = some (count,db')) : StartLedger d db' := by
  unfold compactServerCommandsInTransaction at hok
  split at hok
  · cases hok
  · cases hok
    refine ⟨h.stored,h.attempts,fun r hr => h.outbox r (List.mem_of_mem_filter hr),fun t ht => ?_,h.watermark⟩
    rcases mem_foldl_insertTombstone ht with ht | ht
    · exact h.tombstones t ht
    · obtain ⟨r,hr,rfl⟩ := List.mem_map.mp ht
      exact h.outbox r (List.mem_of_mem_filter hr)

theorem advance_startLedger {sid : String} {watermark : ℕ} (h : StartLedger d db) (hk : db.Keyed)
    (assigned : Assigned db sid) (hok : advanceCommandWatermark db sid = some (watermark,db')) :
    StartLedger d db' := by
  unfold advanceCommandWatermark at hok
  split at hok
  · cases hok
  · cases hok
    obtain ⟨s,hs,hid,hdaemon⟩ := assigned
    refine h.update sid fun t ht htid => ⟨rfl,rfl,fun h => h,fun hnone => ?_⟩
    obtain rfl := List.inj_on_of_nodup_map hk hs ht (hid.trans htid.symm)
    rw [show s.daemonId = none from hnone] at hdaemon
    cases hdaemon

theorem acknowledge_startLedger {commandId sid : String} {sequence watermark : ℕ} (hk : db.Keyed)
    (h : StartLedger d db) (hok : acknowledgeCommand d commandId sid sequence db = .ok (watermark,db')) :
    StartLedger d db' := by
  unfold acknowledgeCommand at hok
  split_ifs at hok
  simp only [bind_eq_ok,orError_eq_ok] at hok
  obtain ⟨⟨w,db₁⟩,hack,⟨n,db₂⟩,hcompact,hok⟩ := hok
  cases hok
  refine compact_startLedger ?_ hcompact
  split at hack
  · rename_i row hrow
    unfold acknowledgeOutboxRow at hack
    split_ifs at hack with hident hdigest hdone
    · rw [orError_eq_ok] at hack
      rw [not_or,not_ne_iff] at hident
      exact advance_startLedger h hk (hident.1 ▸ h.outbox row (List.mem_of_find?_eq_some hrow)) hack
    · rw [orError_eq_ok] at hack
      rw [not_or,not_ne_iff] at hident
      have hmarked : StartLedger d (markAcknowledged db row.commandId) := by
        refine ⟨h.stored,h.attempts,fun r hr => ?_,h.tombstones,h.watermark⟩
        rcases Table.mem_updateFirst hr with hr | ⟨q,hq,rfl⟩
        · exact h.outbox r hr
        · exact h.outbox q (List.mem_of_find?_eq_some hq)
      exact advance_startLedger hmarked hk (hident.1 ▸ h.outbox row (List.mem_of_find?_eq_some hrow)) hack
  · split at hack
    · cases hack
    · unfold acknowledgeTombstone at hack
      split_ifs at hack
      rw [orError_eq_ok,Option.map_eq_some_iff] at hack
      obtain ⟨s,-,heq⟩ := hack
      cases heq
      exact h

/-! ### Starts -/

theorem insertStart_startLedger {draw : Draw} {runId daemonId : String} {sequence : ℕ}
    {payload : CommandEnvelope} (h : StartLedger d db) (assigned : Assigned db runId)
    (hok : insertStart d db draw runId daemonId sequence payload = .ok db') : StartLedger d db' := by
  obtain ⟨a,-,-,hid,hsession,-,hnumber,-,rfl⟩ := insertStart_ok hok
  refine StartLedger.addAttempt ?_ (by rw [hid,hsession,hnumber])
  exact h.addCommand assigned

theorem reuseRun_startLedger {now : ℕ} {draw : Draw} {input : ClarificationStartInput} {s : Session}
    {result : ClarificationStartResult} (h : StartLedger d db) (found : db.session? s.id = some s)
    (hok : reuseRun d now draw input s db = .ok (result,db')) : StartLedger d db' := by
  unfold reuseRun at hok
  split_ifs at hok
  simp only [bind_eq_ok] at hok
  obtain ⟨run,hrun,hok⟩ := hok
  rw [(intoRun_ok hrun).id] at hok
  split at hok
  · split at hok
    · cases hok
      exact h
    · rename_i daemonId _
      simp only [bind_eq_ok,orError_eq_ok] at hok
      obtain ⟨sequence,-,context,-,payload,-,db₁,hins,hok⟩ := hok
      obtain ⟨a,-,-,hid,hsession,-,hnumber,-,rfl⟩ := insertStart_ok hins
      obtain rfl := reusedResult_ok hok
      -- the rows of the start and the row of the run stand in different tables
      have hassigned : StartLedger d (db.updateSession s.id
          (assignRun daemonId draw.commandId (executionAttemptId d s.id 1))) :=
        h.update _ fun _ _ _ => ⟨rfl,rfl,fun _ => rfl,fun h => absurd h (Option.some_ne_none _)⟩
      have hdaemon : Assigned (db.updateSession s.id
          (assignRun daemonId draw.commandId (executionAttemptId d s.id 1))) s.id :=
        ⟨_,Table.updated_mem found,rfl,rfl⟩
      have hsent : StartLedger d ((db.updateSession s.id (assignRun daemonId draw.commandId
          (executionAttemptId d s.id 1))).addCommand
          (commandRow d draw.commandId s.id daemonId sequence payload)) := hassigned.addCommand hdaemon
      exact hsent.addAttempt (by rw [hid,hsession,hnumber])
  · obtain rfl := reusedResult_ok hok
    exact h

theorem createRun_startLedger {now : ℕ} {runId : String} {draw : Draw} {input : ClarificationStartInput}
    {requirement : Requirement} {result : ClarificationStartResult} (h : StartLedger d db)
    (built : Buildable runId (some input.context))
    (hok : createRun d now runId draw input requirement db = .ok (result,db')) : StartLedger d db' := by
  unfold createRun at hok
  split_ifs at hok
  simp only [bind_eq_ok] at hok
  obtain ⟨db₁,h₁,hok⟩ := hok
  have hopened : StartLedger d db₁ := by
    rw [openDiscussion_outer h₁]
    exact h.outer rfl rfl rfl rfl
  split_ifs at hok
  split at hok
  · simp only [bind_eq_ok,orError_eq_ok] at hok
    obtain ⟨db₂,h₂,run,-,hok⟩ := hok
    obtain ⟨-,-,rfl⟩ := insertRun_some h₂
    cases hok
    exact hopened.addSession built rfl
  · rename_i daemonId _
    simp only [bind_eq_ok,orError_eq_ok] at hok
    obtain ⟨payload,-,db₂,h₂,db₃,h₃,run,-,hok⟩ := hok
    obtain ⟨-,-,rfl⟩ := insertRun_some h₂
    cases hok
    have hassigned : Assigned (db₁.addSession
        (freshRun input runId (some daemonId) (some draw.commandId))) runId :=
      ⟨_,List.mem_append_right _ List.mem_cons_self,rfl,rfl⟩
    refine StartLedger.update ?_ runId fun _ _ _ => .same rfl rfl rfl rfl
    exact insertStart_startLedger (hopened.addSession built rfl) hassigned h₃

/-- What the server promises with a start: the new run id and the assembled context pass the
checks of a frame. -/
def RunAct.Promised : RunAct → Prop
  | .start _ runId _ input => Buildable runId (some input.context)
  | _ => True

theorem start_startLedger {now : ℕ} {runId : String} {draw : Draw} {input : ClarificationStartInput}
    {result : ClarificationStartResult} (hk : db.Keyed) (h : StartLedger d db)
    (built : Buildable runId (some input.context))
    (hok : startClarification d now runId draw input db = .ok (result,db')) : StartLedger d db' := by
  unfold startClarification at hok
  split at hok
  · cases hok
  · simp only [bind_eq_ok] at hok
    obtain ⟨requirement,-,hok⟩ := hok
    split at hok
    · cases hok
    · split at hok
      · rename_i occupant hocc
        exact reuseRun_startLedger h (session?_of_mem hk (List.mem_of_find?_eq_some hocc)) hok
      · exact createRun_startLedger h built hok

/-- A transaction that fails changes nothing. -/
theorem committed_of {ε α : Type} {P : Db → Prop} {r : Except ε (α × Db)} (hp : P db)
    (hok : ∀ a db', r = .ok (a,db') → P db') : P (committed db r) := by
  cases r with
  | error e => exact hp
  | ok p => exact hok p.1 p.2 rfl

theorem RunAct.startLedger (hk : db.Keyed) (h : StartLedger d db) {act : RunAct} (promised : act.Promised) :
    StartLedger d (act.apply d db) := by
  cases act with
  | start now runId draw input => exact committed_of h fun _ _ hok => start_startLedger hk h promised hok
  | dispatch => exact committed_of h fun _ _ hok => dispatch_startLedger h hok
  | cancel => exact committed_of h fun _ _ hok => cancel_startLedger h hok
  | claim => exact committed_of h fun _ _ hok => claim_startLedger h hok
  | project now jitter request =>
    rw [show RunAct.apply d db (.project now jitter request) = _ from
      (EventCall.project now jitter request).apply_act d db]
    exact committed_of h fun _ _ hok => EventCall.startLedger h hok
  | receipt request =>
    rw [show RunAct.apply d db (.receipt request) = _ from (EventCall.receipt request).apply_act d db]
    exact committed_of h fun _ _ hok => EventCall.startLedger h hok
  | assess assessmentId request =>
    rw [show RunAct.apply d db (.assess assessmentId request) = _ from
      (EventCall.assess assessmentId request).apply_act d db]
    exact committed_of h fun _ _ hok => EventCall.startLedger h hok
  | acknowledge => exact committed_of h fun _ _ hok => acknowledge_startLedger hk h hok
  | compact => exact committed_of h fun _ _ hok => compact_startLedger h (orError_eq_ok.mp hok)
  | post message =>
    simp only [RunAct.apply,postMessage]
    split_ifs
    · exact h
    · exact h.outer rfl rfl rfl rfl
  | outside => exact h.outer rfl rfl rfl rfl

end

theorem runTransactions_startLedger (d : Digests) {acts : List RunAct} (promised : ∀ act ∈ acts, act.Promised) :
    StartLedger d (runTransactions d acts).db := by
  induction acts using List.reverseRecOn with
  | nil => exact StartLedger.empty d
  | append_singleton acts act ih =>
    rw [runTransactions_snoc]
    refine RunAct.startLedger (runTransactions_inv d acts).keyed (ih fun a ha => promised a ?_) (promised act ?_)
    · exact List.mem_append_left _ ha
    · exact List.mem_append_right _ (List.mem_singleton.mpr rfl)

end Store
end North
