import North.StoreChanges

/-! Runs of the store: any order of its transactions, from the empty database, together
with the history that the tables alone forget: every command ever inserted and every
command whose acknowledgement was committed. -/
namespace North
namespace Store

open Machine Protocol Domain

variable {ev : Bool}

/-- A transaction on clarification runs and their delivery, or a move of the tables that
other parts of the server own. -/
inductive RunAct
  | start (now : ℕ) (runId : String) (draw : Draw) (input : ClarificationStartInput)
  | dispatch (now : ℕ) (draw : Draw) (requirementId runId messageId : String)
  | cancel (now : ℕ) (draw : Draw) (requirementId runId : String)
  | claim (now limit : ℕ) (locked : String → Bool) (draw : String → Draw)
  | project (now : ℕ) (jitter : Fin 26) (request : ProjectionRequest)
  | receipt (request : EventReceiptRequest)
  | assess (assessmentId : String) (request : AssessmentRequest)
  | acknowledge (commandId sessionId : String) (serverCommandSeq : ℕ)
  | compact (sessionId : String)
  /-- A message that no event wrote. -/
  | post (message : Message)
  /-- Registrations, requirements, repositories and conversations change freely. -/
  | outside (registrations : List DaemonRegistration) (requirements : List Requirement)
      (repositories : List Repository) (conversations : List Conversation)

/-- Any transaction: also the insertion of a command under an id of the caller. -/
inductive Act
  | run (act : RunAct)
  | command (now : ℕ) (sentAt : String) (request : CommandRequest)

/-- A transaction that fails leaves the database as it was. -/
def committed {ε α : Type} (db : Db) : Except ε (α × Db) → Db
  | .ok (_,db') => db'
  | .error _ => db

def postMessage (db : Db) (m : Message) : Db :=
  if db.messages.any fun n => decide (n.id = m.id) then db
  else { db with messages := db.messages ++ [{ m with sourceEventId := none }] }

def RunAct.apply (d : Digests) (db : Db) : RunAct → Db
  | .start now runId draw input => committed db (startClarification d now runId draw input db)
  | .dispatch now draw requirementId runId messageId =>
    committed db (dispatchClarificationMessage d now draw requirementId runId messageId db)
  | .cancel now draw requirementId runId =>
    committed db (cancelClarification d now draw requirementId runId db)
  | .claim now limit locked draw => committed db (claimDueRetries d now limit locked draw db)
  | .project now jitter request => committed db (projectClarificationEvent d now jitter request db)
  | .receipt request => committed db (recordEventReceiptWithPayload d request db)
  | .assess assessmentId request =>
    committed db (recordReadinessAssessmentWithEventDigest assessmentId request db)
  | .acknowledge commandId sessionId seq =>
    committed db (acknowledgeCommand d commandId sessionId seq db)
  | .compact sessionId => committed db (compactServerCommands db sessionId)
  | .post message => postMessage db message
  | .outside registrations requirements repositories conversations => { db with
      registrations := registrations
      requirements := requirements
      repositories := repositories
      conversations := conversations }

def Act.apply (d : Digests) (db : Db) : Act → Db
  | .run act => act.apply d db
  | .command now sentAt request => committed db (startSessionWithCommand d now sentAt request db)

/-- The transactions that ingest a daemon event. -/
def RunAct.ingests : RunAct → Bool
  | .project _ _ _ | .receipt _ | .assess _ _ => true
  | _ => false

/-- The random command ids a transaction draws. -/
def RunAct.drawn (db : Db) : RunAct → List String
  | .start _ _ draw _ | .dispatch _ draw _ _ _ | .cancel _ draw _ _ => [draw.commandId]
  | .claim now limit locked draw =>
    (dueRetries db now limit locked).map fun row => (draw row.id).commandId
  | _ => []

def Act.drawn (db : Db) : Act → List String
  | .run act => act.drawn db
  | .command _ _ _ => []

/-- The commands that a transaction inserted. -/
def newCommands (db db' : Db) : List OutboxRow :=
  db'.outbox.filter fun r => !db.outbox.any fun q => decide (q.commandId = r.commandId)

/-- The id whose acknowledgement a transaction commits. -/
def Act.acknowledges (d : Digests) (db : Db) : Act → Option String
  | .run (.acknowledge commandId sessionId seq) =>
    match acknowledgeCommand d commandId sessionId seq db with
    | .ok _ => some commandId
    | .error _ => none
  | _ => none

structure World where
  db : Db := {}
  /-- Every command inserted so far, in order. -/
  issued : List OutboxRow := []
  /-- The ids of the commands whose acknowledgement was committed. -/
  acked : List String := []

def World.step (d : Digests) (w : World) (act : Act) : World where
  db := act.apply d w.db
  issued := w.issued ++ newCommands w.db (act.apply d w.db)
  acked := w.acked ++ (act.acknowledges d w.db).toList

def World.run (d : Digests) (w : World) (acts : List Act) : World := acts.foldl (World.step d) w

/-- The world after a list of transactions on the empty database. -/
def runActs (d : Digests) (acts : List Act) : World := World.run d {} acts

theorem World.run_append (d : Digests) (w : World) (acts more : List Act) :
    w.run d (acts ++ more) = (w.run d acts).run d more := by
  simp [World.run]

theorem World.run_cons (d : Digests) (w : World) (act : Act) (acts : List Act) :
    w.run d (act::acts) = (w.step d act).run d acts := rfl

/-- Every step of the run meets a condition on the state before it. -/
def World.Along (d : Digests) (ok : World → Act → Prop) : World → List Act → Prop
  | _, [] => True
  | w, act::acts => ok w act ∧ World.Along d ok (w.step d act) acts

instance World.decidableAlong (d : Digests) (ok : World → Act → Prop) [∀ w act, Decidable (ok w act)] :
    ∀ w acts, Decidable (World.Along d ok w acts)
  | _, [] => .isTrue trivial
  | w, act::acts =>
    have := World.decidableAlong d ok (w.step d act) acts
    inferInstanceAs (Decidable (ok w act ∧ World.Along d ok (w.step d act) acts))

/-- A property that every step keeps, under a condition on the step, holds after a run
whose steps meet the condition. -/
theorem World.run_induction {d : Digests} {P : World → Prop} {ok : World → Act → Prop}
    (keeps : ∀ w act, P w → ok w act → P (w.step d act)) {w : World} (hw : P w) {acts : List Act}
    (hok : w.Along d ok acts) : P (w.run d acts) := by
  induction acts generalizing w with
  | nil => exact hw
  | cons act acts ih => exact ih (keeps w act hw hok.1) hok.2

/-! ### Event calls as transactions -/

namespace EventCall

def act : EventCall → RunAct
  | receipt request => .receipt request
  | project now jitter request => .project now jitter request
  | assess assessmentId request => .assess assessmentId request

theorem apply_act (d : Digests) (db : Db) (call : EventCall) :
    call.act.apply d db = committed db (call.exec d db) := by
  cases call with
  | receipt r =>
    simp only [act,RunAct.apply,exec]
    cases recordEventReceiptWithPayload d r db <;> rfl
  | project now jitter r =>
    simp only [act,RunAct.apply,exec]
    cases projectClarificationEvent d now jitter r db <;> rfl
  | assess assessmentId r =>
    simp only [act,RunAct.apply,exec]
    cases recordReadinessAssessmentWithEventDigest assessmentId r db <;> rfl

theorem apply_of_error {d : Digests} {db : Db} {call : EventCall} {e : IngestError}
    (h : call.exec d db = .error e) : call.act.apply d db = db := by
  rw [apply_act,h]
  rfl

theorem apply_of_ok {d : Digests} {db db' : Db} {call : EventCall} {receipt : EventReceipt}
    (h : call.exec d db = .ok (receipt,db')) : call.act.apply d db = db' := by
  rw [apply_act,h]
  rfl

end EventCall

/-- The call an act makes, if it ingests an event. -/
def RunAct.call? : RunAct → Option EventCall
  | .project now jitter request => some (.project now jitter request)
  | .receipt request => some (.receipt request)
  | .assess assessmentId request => some (.assess assessmentId request)
  | _ => none

theorem RunAct.call?_some {act : RunAct} {call : EventCall} (h : act.call? = some call) :
    act = call.act := by
  cases act <;> simp only [RunAct.call?,Option.some.injEq,reduceCtorEq] at h <;> subst h <;> rfl

theorem RunAct.call?_none {act : RunAct} (h : act.call? = none) : act.ingests = false := by
  cases act <;> simp_all [RunAct.call?,RunAct.ingests]

theorem EventCall.call?_act (call : EventCall) : call.act.call? = some call := by
  cases call <;> rfl

def issuedFor (issued : List OutboxRow) (sessionId : String) : List OutboxRow :=
  issued.filter fun r => decide (r.sessionId = sessionId)

theorem issuedFor_append (issued rows : List OutboxRow) (sessionId : String) :
    issuedFor (issued ++ rows) sessionId = issuedFor issued sessionId ++ issuedFor rows sessionId :=
  List.filter_append ..

theorem issuedFor_single (row : OutboxRow) : issuedFor [row] row.sessionId = [row] := by
  simp [issuedFor]

theorem issuedFor_other {row : OutboxRow} {sessionId : String} (h : sessionId ≠ row.sessionId) :
    issuedFor [row] sessionId = [] := by
  have hne : row.sessionId ≠ sessionId := fun he => h he.symm
  simp [issuedFor,hne]

/-! ### Transactions as changes -/

theorem Change.keyed {d : Digests} {db db' : Db} {rows : List OutboxRow} (h : Change ev d db rows db')
    (hk : db.Keyed) : db'.Keyed := by
  cases h with
  | outer sessions =>
    unfold Db.Keyed
    rw [sessions]
    exact hk
  | newRun fresh => exact keyed_addSession hk fresh
  | newStartedRun fresh =>
    show (Db.addSession _ _).Keyed
    exact keyed_addSession hk fresh
  | assign => exact keyed_updateSession hk _ _ fun _ => rfl
  | send => exact hk
  | cancelMark => exact keyed_updateSession hk _ _ markCancelled_id
  | cancelSend => exact keyed_updateSession hk _ _ fun _ => rfl
  | giveUp => exact keyed_updateSession hk _ _ fun _ => rfl
  | resume => exact keyed_updateSession hk _ _ fun _ => rfl
  | started => exact keyed_updateSession hk _ _ fun _ => rfl
  | completed _ _ _ closes =>
    rw [(closeAttempt_some closes).2.1]
    exact keyed_updateSession hk _ _ fun _ => rfl
  | failed _ _ _ closes =>
    rw [(closeAttempt_some closes).2.1]
    exact keyed_updateSession hk _ _ fun _ => rfl
  | recorded => exact keyed_updateSession hk _ _ fun _ => rfl

/-- The outbox grows at its end, by rows with new ids. -/
structure Grows (db : Db) (rows : List OutboxRow) (db' : Db) : Prop where
  outbox : db'.outbox = db.outbox ++ rows
  unused : ∀ r ∈ rows, ∀ q ∈ db.outbox, q.commandId ≠ r.commandId

theorem Grows.newCommands_eq {db db' : Db} {rows : List OutboxRow} (h : Grows db rows db') :
    newCommands db db' = rows := by
  unfold newCommands
  rw [h.outbox,List.filter_append]
  have hold : (db.outbox.filter fun r => !db.outbox.any fun q => decide (q.commandId = r.commandId)) = [] := by
    apply List.filter_eq_nil_iff.mpr
    intro r hr
    simp only [Bool.not_eq_true',Bool.not_eq_false]
    exact List.any_eq_true.mpr ⟨r,hr,by simp⟩
  have hnew : (rows.filter fun r => !db.outbox.any fun q => decide (q.commandId = r.commandId)) = rows := by
    apply List.filter_eq_self.mpr
    intro r hr
    simpa using h.unused r hr
  rw [hold,hnew,List.nil_append]

theorem Change.grows {d : Digests} {db db' : Db} {rows : List OutboxRow} (h : Change ev d db rows db') :
    Grows db rows db' := by
  cases h with
  | outer _ _ outbox => exact ⟨by simp [outbox],by simp⟩
  | newStartedRun _ inserts => exact ⟨rfl,by simpa using inserts.unused⟩
  | assign _ _ _ _ _ inserts => exact ⟨rfl,by simpa using inserts.unused⟩
  | send _ _ _ inserts => exact ⟨rfl,by simpa using inserts.unused⟩
  | cancelSend _ _ _ inserts => exact ⟨rfl,by simpa using inserts.unused⟩
  | resume _ _ _ _ _ inserts => exact ⟨rfl,by simpa using inserts.unused⟩
  | completed _ _ _ closes =>
    rw [(closeAttempt_some closes).2.1]
    exact ⟨by simp [Db.updateSession],by simp⟩
  | failed _ _ _ closes =>
    rw [(closeAttempt_some closes).2.1]
    exact ⟨by simp [Db.updateSession],by simp⟩
  | newRun | cancelMark | giveUp | started | recorded =>
    exact ⟨by simp [Db.updateSession,Db.addSession,Db.addDedupe],by simp⟩

theorem Changes.grows {d : Digests} {db db' : Db} {rows : List OutboxRow} (h : Changes ev d db rows db') :
    Grows db rows db' := by
  induction h with
  | refl db => exact ⟨by simp,by simp⟩
  | step head tail ih =>
    have hhead := head.grows
    refine ⟨by rw [ih.outbox,hhead.outbox,List.append_assoc],fun r hr q hq => ?_⟩
    rcases List.mem_append.mp hr with hr | hr
    · exact hhead.unused r hr q hq
    · exact ih.unused r hr q (by rw [hhead.outbox]; exact List.mem_append_left _ hq)

/-- A property of the database and the commands inserted so far is kept by a chain when
each change keeps it. -/
theorem Changes.induction {d : Digests} {P : Db → List OutboxRow → Prop}
    (keeps : ∀ {db db' rows issued}, Change ev d db rows db' → P db issued → P db' (issued ++ rows))
    {db db' : Db} {rows issued : List OutboxRow} (h : Changes ev d db rows db') (hp : P db issued) :
    P db' (issued ++ rows) := by
  induction h generalizing issued with
  | refl db => simpa using hp
  | step head tail ih =>
    rw [← List.append_assoc]
    exact ih (keeps head hp)

theorem Changes.keyed {d : Digests} {db db' : Db} {rows : List OutboxRow} (h : Changes ev d db rows db')
    (hk : db.Keyed) : db'.Keyed := by
  induction h with
  | refl db => exact hk
  | step head tail ih => exact ih (head.keyed hk)

theorem committed_changes {ε α : Type} {d : Digests} {db : Db} {r : Except ε (α × Db)}
    {drawn : List String} (h : ∀ a db', r = .ok (a,db') →
      ∃ rows, Changes ev d db rows db' ∧ ∀ q ∈ rows, q.commandId ∈ drawn) :
    ∃ rows, Changes ev d db rows (committed db r) ∧ ∀ q ∈ rows, q.commandId ∈ drawn := by
  cases r with
  | error e => exact ⟨[],.refl db,by simp⟩
  | ok p => exact h p.1 p.2 rfl

/-- A transaction other than an acknowledgement or a compaction is a chain of changes; the
commands it inserts have the ids it draws. -/
theorem RunAct.apply_cases {d : Digests} {db : Db} (hk : db.Keyed) (act : RunAct) :
    (∃ rows, Changes act.ingests d db rows (act.apply d db) ∧ ∀ r ∈ rows, r.commandId ∈ act.drawn db) ∨
    (∃ commandId sessionId sequence watermark, act = .acknowledge commandId sessionId sequence ∧
      acknowledgeCommand d commandId sessionId sequence db = .ok (watermark,act.apply d db)) ∨
    ∃ sessionId count, act = .compact sessionId ∧
      compactServerCommands db sessionId = .ok (count,act.apply d db) := by
  have single : ∀ {ev : Bool} {db' : Db} {commandId : String},
      (∃ rows, Changes ev d db rows db' ∧ ∀ r ∈ rows, r.commandId = commandId) →
      ∃ rows, Changes ev d db rows db' ∧ ∀ r ∈ rows, r.commandId ∈ [commandId] := by
    intro ev db' commandId h
    simpa using h
  cases act <;> simp only [RunAct.apply,RunAct.drawn,RunAct.ingests]
  case start now runId draw input =>
    exact .inl (committed_changes fun result db' h => single (startClarification_changes hk h))
  case dispatch now draw requirementId runId messageId =>
    exact .inl (committed_changes fun result db' h => single (dispatch_changes h))
  case cancel now draw requirementId runId =>
    refine .inl (committed_changes fun result db' h => ?_)
    obtain ⟨-,rows,hchanges,hids,-⟩ := cancel_changes h
    exact single ⟨rows,hchanges,hids⟩
  case claim now limit locked draw =>
    exact .inl (committed_changes fun result db' h => claim_changes hk h)
  case project now jitter request =>
    rw [show committed db (projectClarificationEvent d now jitter request db) = _ from
      (EventCall.project now jitter request).apply_act d db]
    exact .inl (committed_changes fun result db' h => ⟨[],EventCall.changes h,by simp⟩)
  case receipt request =>
    rw [show committed db (recordEventReceiptWithPayload d request db) = _ from
      (EventCall.receipt request).apply_act d db]
    exact .inl (committed_changes fun result db' h => ⟨[],EventCall.changes h,by simp⟩)
  case assess assessmentId request =>
    rw [show committed db (recordReadinessAssessmentWithEventDigest assessmentId request db) = _ from
      (EventCall.assess assessmentId request).apply_act d db]
    exact .inl (committed_changes fun result db' h => ⟨[],EventCall.changes h,by simp⟩)
  case acknowledge commandId sessionId sequence =>
    cases h : acknowledgeCommand d commandId sessionId sequence db with
    | error e => exact .inl ⟨[],.refl db,by simp⟩
    | ok p => exact .inr (.inl ⟨commandId,sessionId,sequence,p.1,rfl,by simpa [committed] using h⟩)
  case compact sessionId =>
    cases h : compactServerCommands db sessionId with
    | error e => exact .inl ⟨[],.refl db,by simp⟩
    | ok p => exact .inr (.inr ⟨sessionId,p.1,rfl,by simpa [committed] using h⟩)
  case post message =>
    refine .inl ⟨[],Change.single ?_,by simp⟩
    unfold postMessage
    split
    · exact .outer rfl rfl rfl rfl rfl (.inr ⟨rfl,rfl,rfl,rfl⟩)
    · exact .outer rfl rfl rfl rfl rfl (.inr ⟨by simp [sourced],rfl,rfl,rfl⟩)
  case outside =>
    refine .inl ⟨[],Change.single ?_,by simp⟩
    exact .outer rfl rfl rfl rfl rfl (.inr ⟨rfl,rfl,rfl,rfl⟩)

theorem World.step_of_changes {d : Digests} {w : World} {act : Act} {db' : Db} {rows : List OutboxRow}
    (happly : act.apply d w.db = db') (h : Changes ev d w.db rows db') :
    (w.step d act).db = db' ∧ (w.step d act).issued = w.issued ++ rows := by
  unfold World.step
  rw [happly,h.grows.newCommands_eq]
  exact ⟨rfl,rfl⟩

/-! ### Acknowledgement and compaction -/

/-- Delivery moves only the command tables and the command watermark of one session. -/
structure Delivers (db db' : Db) : Prop where
  frame : db' = { db with
    sessions := db'.sessions
    outbox := db'.outbox
    tombstones := db'.tombstones }
  sessions : db'.sessions = db.sessions ∨
    ∃ id watermark, db'.sessions = (db.updateSession id (setCommandAck watermark)).sessions
  ids : ∀ r ∈ db'.outbox, ∃ q ∈ db.outbox, q.commandId = r.commandId

theorem compact_delivers {db db' : Db} {sessionId : String} {count : ℕ}
    (h : compactServerCommandsInTransaction db sessionId = some (count,db')) :
    db' = { db with
      outbox := db'.outbox
      tombstones := db'.tombstones } ∧ ∀ r ∈ db'.outbox, r ∈ db.outbox := by
  unfold compactServerCommandsInTransaction at h
  split at h
  · cases h
  · cases h
    exact ⟨rfl,fun r hr => List.mem_of_mem_filter hr⟩

theorem acknowledge_delivers {d : Digests} {db db' : Db} {commandId sessionId : String}
    {sequence watermark : ℕ}
    (h : acknowledgeCommand d commandId sessionId sequence db = .ok (watermark,db')) : Delivers db db' := by
  unfold acknowledgeCommand at h
  split at h
  · cases h
  · split at h
    · cases h
    · simp only [bind_eq_ok,orError_eq_ok] at h
      obtain ⟨⟨w,db₁⟩,h₁,⟨n,db₂⟩,h₂,h⟩ := h
      cases h
      obtain ⟨hframe,hsub⟩ := compact_delivers h₂
      have hack : Delivers db db₁ := by
        split at h₁
        · rename_i row hrow
          unfold acknowledgeOutboxRow at h₁
          split_ifs at h₁ with hident hdig hdone
          · rw [orError_eq_ok] at h₁
            unfold advanceCommandWatermark at h₁
            split at h₁
            · cases h₁
            · cases h₁
              exact ⟨rfl,.inr ⟨_,_,rfl⟩,fun r hr => ⟨r,hr,rfl⟩⟩
          · rw [orError_eq_ok] at h₁
            unfold advanceCommandWatermark at h₁
            split at h₁
            · cases h₁
            · cases h₁
              refine ⟨rfl,.inr ⟨_,_,rfl⟩,fun r hr => ?_⟩
              rcases Table.mem_updateFirst hr with hr | ⟨q,hq,rfl⟩
              · exact ⟨r,hr,rfl⟩
              · exact ⟨q,List.mem_of_find?_eq_some hq,rfl⟩
        · split at h₁
          · cases h₁
          · unfold acknowledgeTombstone at h₁
            split_ifs at h₁
            rw [orError_eq_ok,Option.map_eq_some_iff] at h₁
            obtain ⟨s,-,heq⟩ := h₁
            cases heq
            exact ⟨rfl,.inl rfl,fun r hr => ⟨r,hr,rfl⟩⟩
      refine ⟨?_,?_,fun r hr => hack.ids r (hsub r hr)⟩
      · rw [hframe,hack.frame]
      · rw [hframe]
        exact hack.sessions

theorem compactCommand_delivers {db db' : Db} {sessionId : String} {count : ℕ}
    (h : compactServerCommands db sessionId = .ok (count,db')) : Delivers db db' := by
  obtain ⟨hframe,hsub⟩ := compact_delivers (orError_eq_ok.mp h)
  refine ⟨?_,.inl ?_,fun r hr => ⟨r,hsub r hr,rfl⟩⟩
  · rw [hframe]
  · rw [hframe]

theorem Delivers.newCommands_eq {db db' : Db} (h : Delivers db db') : newCommands db db' = [] := by
  unfold newCommands
  apply List.filter_eq_nil_iff.mpr
  intro r hr
  obtain ⟨q,hq,hid⟩ := h.ids r hr
  simp only [Bool.not_eq_true',Bool.not_eq_false]
  exact List.any_eq_true.mpr ⟨q,hq,by simp [hid]⟩

/-- A step on clarification runs: a chain of changes with the commands it issues, or a
delivery that issues none. -/
theorem RunAct.step_cases {d : Digests} {w : World} (hk : w.db.Keyed) (act : RunAct) :
    (∃ rows, Changes act.ingests d w.db rows (w.step d (.run act)).db ∧
      (w.step d (.run act)).issued = w.issued ++ rows) ∨
    Delivers w.db (w.step d (.run act)).db ∧ (w.step d (.run act)).issued = w.issued := by
  rcases act.apply_cases hk with ⟨rows,hc,-⟩ | ⟨_,_,_,_,-,h⟩ | ⟨_,_,-,h⟩
  · exact .inl ⟨rows,hc,(World.step_of_changes rfl hc).2⟩
  · have hdel := acknowledge_delivers h
    refine .inr ⟨hdel,?_⟩
    show w.issued ++ newCommands w.db (act.apply d w.db) = _
    rw [hdel.newCommands_eq,List.append_nil]
  · have hdel := compactCommand_delivers h
    refine .inr ⟨hdel,?_⟩
    show w.issued ++ newCommands w.db (act.apply d w.db) = _
    rw [hdel.newCommands_eq,List.append_nil]

/-! ### A small deployment -/

namespace Sample

def digests : Digests where
  payload := fun e => e.commandId ++ "@" ++ e.sentAt
  identity := fun e => e.commandId
  text := fun t => t
  canonical := fun t => some t

def requirement : Requirement := { Requirement.new "req" "Title" "Text" "user" with status := .discussing }

def context : SessionStart where
  requirement := ⟨"req",1,"Title","Text","",[],[],[]⟩
  excerpt := [⟨"m1",.requester,"Hello"⟩]
  repositories := []

def input : ClarificationStartInput := ⟨"req","m1",1,context,1,[],["agent"]⟩

/-- One connected daemon, one requirement under discussion, one requester message, and a
run that was started on it. -/
def started : List RunAct :=
  [.outside [{ daemonId := "daemon", connected := true, lastSeenAt := some 0
               capabilities := some ["agent"] }] [requirement] [] [⟨"conv","req"⟩],
   .post { id := "m1", conversationId := "conv", kind := .requester, body := "Hello" },
   .start 1 "run" ⟨"c1","1"⟩ input]

def noJitter : Fin 26 := 0

def fails (eventId : String) (sequence : ℕ) (reason : String) : RunAct :=
  .project 2 noJitter ⟨eventId,"run",sequence,eventId,eventId,.failed true reason⟩

def claims (commandId : String) : RunAct :=
  .claim (100*Db.second) 10 (fun _ => false) fun _ => ⟨commandId,"2"⟩

end Sample

end Store
end North
