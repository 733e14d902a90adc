import North.RuntimeContext

/-! What an operation of the clarification adapter leaves behind. Between marking a context in
flight and asking the agent most failures return without the cleanup, so that the mark stays. -/
namespace North
namespace Runtime

open Prog
open AssessmentHandoff (RepositoryReview ParsedAssessment RuntimeFact parseAssessment factsForResponse)

namespace Session

/-- What `load_context` finds. -/
def current (s : Session) : Option AssessmentContext :=
  match s.memory, s.file with
  | some context, _ => some context
  | none, .stored stored => some { stored with inFlight := false }
  | none, _ => none

def idle (s : Session) : Prop := ∀ context, s.memory = some context → context.inFlight = false

def gone (s : Session) : Prop := s.memory = none ∧ s.file = .absent

/-- A later `session.resume` finds this start input. -/
def keeps (s : Session) (startInput : StartInput) : Prop :=
  ∃ context, s.current = some context ∧ context.context = some startInput

@[simp] theorem idle_none (file : ContextFile) : idle ⟨none,file⟩ := fun _ h => nomatch h

@[simp] theorem idle_some (context : AssessmentContext) (file : ContextFile) :
    idle ⟨some context,file⟩ ↔ context.inFlight = false := by
  simp [idle]

@[simp] theorem gone_none (file : ContextFile) : gone ⟨none,file⟩ ↔ file = .absent := by
  simp [gone]

@[simp] theorem not_gone_some (context : AssessmentContext) (file : ContextFile) :
    ¬ gone ⟨some context,file⟩ := by
  simp [gone]

@[simp] theorem not_keeps_absent (startInput : StartInput) : ¬ keeps ⟨none,.absent⟩ startInput := by
  simp [keeps,current]

@[simp] theorem keeps_some (context : AssessmentContext) (file : ContextFile) (startInput : StartInput) :
    keeps ⟨some context,file⟩ startInput ↔ context.context = some startInput := by
  simp [keeps,current]

@[simp] theorem keeps_stored (stored : StoredContext) (startInput : StartInput) :
    keeps ⟨none,.stored stored⟩ startInput ↔ stored.context = some startInput := by
  simp [keeps,current]

/-- The start input that an operation runs on. -/
def startInput (s : Session) : RuntimeCommand → Option StartInput
  | .start startInput => some startInput
  | .resume => s.current.bind (·.context)
  | _ => none

end Session

abbrev Answer := Except RuntimeOperationError (List RuntimeFact)

/-- No context is left in flight; none is left at all after a cancellation or a completion; the
start input is left after any other failure. A file never holds a context in flight. -/
structure Settled (startInput : Option StartInput) (answer : Answer) (s : Session) : Prop where
  idle : s.idle
  gone : (answer = .error .cancelled ∨
    ∃ facts, answer = .ok facts ∧ ∃ summary, RuntimeFact.completed summary ∈ facts) → s.gone
  kept : ∀ error, answer = .error (.failed error) → ∀ i, startInput = some i → s.keeps i

namespace Environment

/-- The flag is seen when the operation returns. -/
def late (E : Environment) : Bool := E.cancelled ⟨7,0⟩

/-- What becomes of an answer in the last look at the flag. -/
def closing (E : Environment) (answer : Answer) : Answer := if E.late then .error .cancelled else answer

/-- The agent's answer between the looks before and after it. -/
def reply (E : Environment) : Except RuntimeOperationError String :=
  if E.cancelled ⟨4,0⟩ then .error .cancelled
  else match invokePi E with
    | .error error => .error error
    | .ok response => if E.cancelled ⟨6,0⟩ then .error .cancelled else .ok response

def ready (E : Environment) (response : String) : Bool :=
  (parseAssessment E.decode response).verdict = .ready

end Environment

/-- From the last look before the agent on: an error that ends the session must find its file
removable, and one that does not must find it writable; a late cancellation must find nothing
left. -/
def TurnFits (E : Environment) (startInput : Option StartInput) (s : Session) (stored : StoredContext) :
    Prop :=
  match E.reply with
  | .error error =>
    if terminal error then
      match E.remove .afterError with
      | none => startInput = none ∨ error = .cancelled ∨ E.late
      | some _ => E.late → s.file = .absent
    else E.refuses .retained stored = none ∧ E.late = false
  | .ok response =>
    if E.ready response then
      if startInput = none then E.remove .session = none ∨ (E.late → s.file = .absent)
      else E.remove .completion = none ∧ (E.remove .session = none ∨ E.late)
    else E.late = false

/-- A start that is cancelled or refused at once must find the session as it is to be left; once
the context is marked, the review and the second write must go through. -/
def StartFits (E : Environment) (input : RuntimeInput) (startInput : StartInput) (s : Session) : Prop :=
  if E.cancelled ⟨1,0⟩ then s.gone
  else match E.refuses .started (startedContext startInput []) with
    | some _ => if E.late then s.gone else s.idle ∧ s.keeps startInput
    | none =>
      match review E input startInput with
      | .error _ => False
      | .ok inspected => E.refuses .reviewed (startedContext startInput inspected) = none ∧
          TurnFits E (some startInput) ⟨none,.stored (startedContext startInput inspected)⟩
            (startedContext startInput inspected)

/-- The condition on the session and on what answers from outside. -/
def Fits (E : Environment) (input : RuntimeInput) (s : Session) : Prop :=
  match input.command with
  | .start startInput => StartFits E input startInput s
  | .message _ _ =>
    if E.cancelled ⟨1,0⟩ then s.gone
    else match s.current with
      | none => E.late → s.gone
      | some context => context.inFlight = false ∧
          if context.context = none then E.late = false
          else TurnFits E none s context.toStoredContext
  | .cancel _ => ∀ context, s.current = some context → context.inFlight = false
  | .resume =>
    if E.cancelled ⟨0,0⟩ then s.gone
    else match s.current with
      | none => True
      | some context =>
        match context.context with
        | none => context.inFlight = false
        | some startInput => StartFits E input startInput s

section

variable {E : Environment} {s s' : Session} {k : Option StartInput}

theorem Session.gone.idle (h : s.gone) : s.idle := by
  intro context hmemory
  rw [h.1] at hmemory
  cases hmemory

@[simp] theorem settled_cancelled : Settled k (.error .cancelled) s ↔ s.gone := by
  constructor
  · exact fun h => h.gone (.inl rfl)
  · exact fun h => ⟨h.idle,fun _ => h,fun _ hfailed => by cases hfailed⟩

@[simp] theorem settled_failed {error : String} :
    Settled k (.error (.failed error)) s ↔ s.idle ∧ ∀ i, k = some i → s.keeps i := by
  constructor
  · exact fun h => ⟨h.idle,h.kept error rfl⟩
  · rintro ⟨hidle,hkept⟩
    exact ⟨hidle,by simp,fun _ _ => hkept⟩

@[simp] theorem settled_ok {facts : List RuntimeFact} :
    Settled k (.ok facts) s ↔ s.idle ∧ ((∃ summary, RuntimeFact.completed summary ∈ facts) → s.gone) := by
  constructor
  · exact fun h => ⟨h.idle,fun hcompleted => h.gone (.inr ⟨facts,rfl,hcompleted⟩)⟩
  · rintro ⟨hidle,hgone⟩
    refine ⟨hidle,?_,fun _ hfailed => by cases hfailed⟩
    rintro (hcancelled | ⟨facts',hfacts,hcompleted⟩)
    · cases hcancelled
    · cases hfacts
      exact hgone hcompleted

/-- What the cleanup after an error answers and leaves. -/
def cleaned (E : Environment) (error : RuntimeOperationError) (s : Session) (context : AssessmentContext) :
    RuntimeOperationError × Session :=
  if terminal error then
    match E.remove .afterError with
    | none => (error,⟨none,.absent⟩)
    | some reason => (.failed (error.text ++ "; " ++ ("remove Pi session context: " ++ reason)),⟨none,s.file⟩)
  else
    match E.refuses .retained context.toStoredContext with
    | none => (error,⟨some { context with inFlight := false },.stored context.toStoredContext⟩)
    | some reason => (.failed (error.text ++ "; " ++ reason),s)

theorem loadContext_of_memory {context : AssessmentContext} (h : s.memory = some context) :
    loadContext.exec s = some (.ok (some context),s) := by
  simp only [exec,loadContext,h]

theorem cleanupAfterError_exec {context : AssessmentContext} (h : s.memory = some context)
    (error : RuntimeOperationError) : (cleanupAfterError E error).exec s =
      some (.ok (cleaned E error s context).1,(cleaned E error s context).2) := by
  unfold cleanupAfterError cleaned
  split_ifs with hterminal
  · simp only [exec_bind,exec_attempt,clearSession,exec_modify]
    cases hremove : E.remove .afterError <;> simp [exec,clearContext,hremove] <;> rfl
  · simp only [exec_bind,exec_attempt,retainContextAfterError,loadContext_of_memory h]
    cases hrefuses : E.refuses .retained context.toStoredContext <;>
      simp [exec,persistContext,insertContext,modifyState,hrefuses] <;> rfl

theorem checkCancellationOrCleanup_exec {context : AssessmentContext} (h : s.memory = some context)
    (m : Moment) : (checkCancellationOrCleanup E m).exec s =
      if E.cancelled m then some (.error (cleaned E .cancelled s context).1,(cleaned E .cancelled s context).2)
      else some (.ok (),s) := by
  unfold checkCancellationOrCleanup
  split_ifs
  · simp only [exec_bind,cleanupAfterError_exec h,exec_fail]
  · rfl

theorem askPi_exec {context : AssessmentContext} (h : s.memory = some context) :
    (askPi E).exec s = match E.reply with
      | .ok response => some (.ok response,s)
      | .error error => some (.error (cleaned E error s context).1,(cleaned E error s context).2) := by
  unfold askPi Environment.reply
  rw [exec_bind,checkCancellationOrCleanup_exec h]
  split_ifs with hbefore hafter
  · rfl
  · cases hreply : invokePi E with
    | error error => simp only [exec_bind,cleanupAfterError_exec h,exec_fail]
    | ok response => simp only [exec_bind,checkCancellationOrCleanup_exec h,hafter,if_true]
  · cases hreply : invokePi E with
    | error error => simp only [exec_bind,cleanupAfterError_exec h,exec_fail]
    | ok response => simp only [exec_bind,checkCancellationOrCleanup_exec h,hafter]; rfl

/-- The turn after an error ends well just under the condition on its cleanup. -/
theorem cleaned_settled {context : AssessmentContext} (error : RuntimeOperationError)
    (hreply : E.reply = .error error) (hmemory : s.memory = some context)
    (hrunning : context.inFlight = true)
    (hk : ∀ i, k = some i → context.context = some i ∧ s.file = .stored context.toStoredContext) :
    Settled k (E.closing (.error (cleaned E error s context).1)) (cleaned E error s context).2 ↔
      TurnFits E k s context.toStoredContext := by
  obtain ⟨memory,file⟩ := s
  obtain rfl : memory = some context := hmemory
  simp only [cleaned,TurnFits,Environment.closing,hreply]
  by_cases hterminal : terminal error = true
  · simp only [hterminal,if_true]
    cases hremove : E.remove .afterError with
    | none =>
      cases hlate : E.late with
      | true => simp
      | false =>
        cases error with
        | cancelled => simp
        | failed reason => cases k <;> simp
    | some reason =>
      cases hlate : E.late with
      | true => simp
      | false =>
        -- the file is still there, with the start input of a start
        have hkept : ∀ i, k = some i → Session.keeps ⟨none,file⟩ i := by
          intro i hi
          obtain ⟨hcontext,rfl⟩ := hk i hi
          exact (Session.keeps_stored _ i).mpr hcontext
        simpa using hkept
  · simp only [hterminal,Bool.false_eq_true,if_false]
    cases hrefuses : E.refuses .retained context.toStoredContext with
    | none =>
      cases hlate : E.late with
      | true => simp
      | false =>
        have hfailed : ∃ reason, error = .failed reason := by
          cases error with
          | cancelled => simp [terminal] at hterminal
          | failed reason => exact ⟨reason,rfl⟩
        obtain ⟨reason,rfl⟩ := hfailed
        simpa using fun i hi => (hk i hi).1
    | some reason => cases hlate : E.late <;> simp [hrunning]

theorem completed_mem_facts {operationId runtimeId : String} {parsed : ParsedAssessment}
    {context : Option AssessmentHandoff.AssessmentContext} {started completion : Bool} :
    (∃ summary, RuntimeFact.completed summary ∈
      factsForResponse operationId runtimeId parsed context started completion) ↔ completion = true := by
  cases context <;> cases started <;> cases completion <;> simp [factsForResponse]

/-- A cancellation at the first look or in the last one leaves the session as it was. -/
theorem closing_cancelled (E : Environment) : E.closing (.error .cancelled) = .error .cancelled := by
  simp [Environment.closing]

theorem finishStart_settled {input : RuntimeInput} {i : StartInput} {response : String}
    {inspected : List (RepositoryReview × RepositoryEvidence)} (hreply : E.reply = .ok response) :
    ∃ r s', (finishStart E input ⟨startedContext i inspected,true⟩ response).exec
        ⟨some ⟨startedContext i inspected,true⟩,.stored (startedContext i inspected)⟩ = some (r,s') ∧
      (Settled (some i) (E.closing r) s' ↔ TurnFits E (some i)
        ⟨none,.stored (startedContext i inspected)⟩ (startedContext i inspected)) := by
  simp only [finishStart,TurnFits,hreply,reduceCtorEq,if_false]
  cases hready : E.ready response with
  | false =>
    have hverdict : decide ((parseAssessment E.decode response).verdict = .ready) = false := hready
    simp only [hverdict,only,insertContext,exec_bind,exec_modify,exec_pure,Bool.false_eq_true,if_false]
    refine ⟨_,_,rfl,?_⟩
    cases hlate : E.late <;>
      simp [Environment.closing,hlate,completed_mem_facts]
  | true =>
    have hverdict : decide ((parseAssessment E.decode response).verdict = .ready) = true := hready
    simp only [hverdict,only,insertContext,exec_bind,exec_modify,exec_pure,if_true,clearSession]
    cases hcompletion : E.remove .completion with
    | some reason =>
      simp only [exec,clearContext,hcompletion]
      refine ⟨_,_,rfl,?_⟩
      cases hlate : E.late <;> simp [Environment.closing,hlate]
    | none =>
      cases hsession : E.remove .session with
      | none =>
        simp only [exec,clearContext,hcompletion,hsession]
        refine ⟨_,_,rfl,?_⟩
        cases hlate : E.late <;> simp [Environment.closing,hlate]
      | some reason =>
        simp only [exec,clearContext,hcompletion,hsession]
        refine ⟨_,_,rfl,?_⟩
        cases hlate : E.late <;> simp [Environment.closing,hlate]

theorem persist_refused {site : WriteSite} (context : AssessmentContext) {reason : String}
    (h : E.refuses site context.toStoredContext = some reason) (s : Session) :
    (persistContext E site context).exec s = some (.error (.failed reason),s) := by
  simp only [exec,persistContext,h]

theorem persist_written {site : WriteSite} (context : AssessmentContext)
    (h : E.refuses site context.toStoredContext = none) (s : Session) :
    (persistContext E site context).exec s =
      some (.ok (),{ s with file := .stored context.toStoredContext }) := by
  simp only [exec,persistContext,h]

theorem start_settled (input : RuntimeInput) (i : StartInput) (s : Session) :
    ∃ r s', (start E input i).exec s = some (r,s') ∧
      (Settled (some i) (E.closing r) s' ↔ StartFits E input i s) := by
  unfold start StartFits checkCancellation
  simp only [exec_bind,exec_orFail,insertContext,exec_modify]
  by_cases hentry : E.cancelled ⟨1,0⟩ = true
  · simp only [hentry,if_true]
    exact ⟨_,_,rfl,by rw [closing_cancelled,settled_cancelled]⟩
  simp only [hentry,Bool.false_eq_true,if_false]
  cases hfirst : E.refuses .started (startedContext i []) with
  | some reason =>
    simp only [persist_refused ⟨startedContext i [],true⟩ hfirst]
    refine ⟨_,_,rfl,?_⟩
    cases hlate : E.late <;> simp [Environment.closing,hlate]
  | none =>
    simp only [persist_written ⟨startedContext i [],true⟩ hfirst]
    have hmarked : ∀ r (c : StoredContext) file, ¬ Settled (some i) (E.closing r) ⟨some ⟨c,true⟩,file⟩ := by
      intro r c file h
      simpa using h.idle
    cases hreview : review E input i with
    | error error => exact ⟨_,_,rfl,by simpa using hmarked _ _ _⟩
    | ok inspected =>
      cases hsecond : E.refuses .reviewed (startedContext i inspected) with
      | some reason =>
        simp only [persist_refused ⟨startedContext i inspected,true⟩ hsecond]
        exact ⟨_,_,rfl,by simpa [hsecond] using hmarked _ _ _⟩
      | none =>
        simp only [persist_written ⟨startedContext i inspected,true⟩ hsecond]
        rw [askPi_exec rfl]
        simp only [hsecond,true_and]
        cases hreply : E.reply with
        | error error =>
          refine ⟨_,_,rfl,?_⟩
          rw [cleaned_settled error hreply rfl rfl fun j hj => by cases hj; exact ⟨rfl,rfl⟩]
          simp only [TurnFits]
        | ok response => exact finishStart_settled hreply

theorem finishMessage_settled (input : RuntimeInput) (context : AssessmentContext) {response : String}
    (hreply : E.reply = .ok response) :
    ∃ r s', (finishMessage E input context response).exec s = some (r,s') ∧
      (Settled none (E.closing r) s' ↔ TurnFits E none s context.toStoredContext) := by
  simp only [finishMessage,TurnFits,hreply,if_true]
  cases hready : E.ready response with
  | false =>
    have hverdict : decide ((parseAssessment E.decode response).verdict = .ready) = false := hready
    simp only [hverdict,only,insertContext,exec_bind,exec_modify,exec_pure,Bool.false_eq_true,if_false]
    refine ⟨_,_,rfl,?_⟩
    cases hlate : E.late <;>
      simp [Environment.closing,hlate,completed_mem_facts]
  | true =>
    have hverdict : decide ((parseAssessment E.decode response).verdict = .ready) = true := hready
    simp only [hverdict,only,insertContext,exec_bind,exec_modify,exec_pure,if_true,clearSession]
    cases hsession : E.remove .session with
    | none =>
      simp only [exec,clearContext,hsession]
      refine ⟨_,_,rfl,?_⟩
      cases hlate : E.late <;> simp [Environment.closing,hlate]
    | some reason =>
      simp only [exec,clearContext,hsession]
      refine ⟨_,_,rfl,?_⟩
      cases hlate : E.late <;> simp [Environment.closing,hlate]

theorem load_found {context : AssessmentContext} (h : s.current = some context) :
    loadContext.exec s = some (.ok (some context),⟨some context,s.file⟩) := by
  obtain ⟨memory,file⟩ := s
  cases memory with
  | some kept =>
    cases h
    rfl
  | none =>
    cases file with
    | stored stored =>
      cases h
      rfl
    | absent | unreadable | oversized | corrupt => cases h

theorem load_missing (h : s.current = none) :
    s.gone ∧ loadContext.exec s = some (.ok none,s) ∨
      s.idle ∧ ¬ s.gone ∧ ∃ reason, loadContext.exec s = some (.error (.failed reason),s) := by
  obtain ⟨memory,file⟩ := s
  cases memory with
  | some kept => cases h
  | none =>
    cases file with
    | stored stored => cases h
    | absent => exact .inl ⟨⟨rfl,rfl⟩,rfl⟩
    | unreadable error => exact .inr ⟨by simp,by simp,_,rfl⟩
    | oversized => exact .inr ⟨by simp,by simp,_,rfl⟩
    | corrupt error => exact .inr ⟨by simp,by simp,_,rfl⟩

theorem message_settled (input : RuntimeInput) (s : Session) :
    ∃ r s', (message E input).exec s = some (r,s') ∧
      (Settled none (E.closing r) s' ↔
        if E.cancelled ⟨1,0⟩ then s.gone
        else match s.current with
          | none => E.late → s.gone
          | some context => context.inFlight = false ∧
              if context.context = none then E.late = false
              else TurnFits E none s context.toStoredContext) := by
  unfold message checkCancellation
  simp only [exec_bind,exec_orFail]
  by_cases hentry : E.cancelled ⟨1,0⟩ = true
  · simp only [hentry,if_true]
    exact ⟨_,_,rfl,by rw [closing_cancelled,settled_cancelled]⟩
  simp only [hentry,Bool.false_eq_true,if_false]
  cases hcurrent : s.current with
  | none =>
    obtain ⟨hgone,hload⟩ | ⟨hidle,hgone,reason,hload⟩ := load_missing hcurrent
    · simp only [hload,exec_fail]
      refine ⟨_,_,rfl,?_⟩
      cases hlate : E.late <;> simp [Environment.closing,hlate,hgone,hgone.idle]
    · simp only [hload]
      refine ⟨_,_,rfl,?_⟩
      cases hlate : E.late <;> simp [Environment.closing,hlate,hgone,hidle]
  | some context =>
    simp only [load_found hcurrent,failIf]
    by_cases hcontext : context.context = none
    · simp only [hcontext,decide_true,if_true,exec_bind,exec_fail]
      refine ⟨_,_,rfl,?_⟩
      cases hlate : E.late <;> simp [Environment.closing,hlate]
    simp only [hcontext,decide_false,Bool.false_eq_true,if_false,exec_bind,exec_pure]
    cases hflight : context.inFlight with
    | true =>
      simp only [if_true,exec_fail]
      refine ⟨_,_,rfl,?_⟩
      cases hlate : E.late <;> simp [Environment.closing,hlate,hflight]
    | false =>
      simp only [Bool.false_eq_true,if_false,exec_pure,insertContext,exec_modify,true_and]
      rw [askPi_exec rfl]
      cases hreply : E.reply with
      | error error =>
        refine ⟨_,_,rfl,?_⟩
        rw [cleaned_settled error hreply rfl rfl fun j hj => by cases hj]
        simp only [TurnFits]
      | ok response =>
        obtain ⟨r,s',hexec,hsettled⟩ := finishMessage_settled (E := E)
          (s := ⟨some { context with inFlight := true },s.file⟩) input context hreply
        exact ⟨r,s',hexec,hsettled⟩

theorem cancel_settled (E : Environment) (reason : String) (s : Session) :
    ∃ r s', (cancel E reason).exec s = some (r,s') ∧
      (Settled none r s' ↔ ∀ context, s.current = some context → context.inFlight = false) := by
  unfold cancel
  simp only [exec_bind]
  cases hcurrent : s.current with
  | none =>
    obtain ⟨hgone,hload⟩ | ⟨hidle,-,reason,hload⟩ := load_missing hcurrent
    · simp only [hload,exec_fail]
      exact ⟨_,_,rfl,by simp [hgone.idle]⟩
    · simp only [hload]
      exact ⟨_,_,rfl,by simp [hidle]⟩
  | some context =>
    simp only [load_found hcurrent,failIf,exec_bind,clearSession]
    cases hflight : context.inFlight with
    | true =>
      simp only [if_true,exec_fail]
      exact ⟨_,_,rfl,by simp [hflight]⟩
    | false =>
      simp only [Bool.false_eq_true,if_false,exec_pure,exec_modify]
      cases hremove : E.remove .session with
      | none =>
        simp only [exec,clearContext,hremove]
        exact ⟨_,_,rfl,by simp [hflight]⟩
      | some reason =>
        simp only [exec,clearContext,hremove]
        exact ⟨_,_,rfl,by simp [hflight]⟩

/-- Loading the context first does not change what a start must find. -/
theorem startFits_loaded {input : RuntimeInput} {i : StartInput} {context : AssessmentContext}
    (h : s.current = some context) :
    StartFits E input i ⟨some context,s.file⟩ ↔ StartFits E input i s := by
  have hgone : ¬ s.gone := by
    rintro ⟨hmemory,hfile⟩
    simp [Session.current,hmemory,hfile] at h
  have hidle : Session.idle ⟨some context,s.file⟩ ↔ s.idle := by
    obtain ⟨memory,file⟩ := s
    cases memory with
    | some kept =>
      cases h
      rfl
    | none =>
      cases file with
      | stored stored =>
        cases h
        simp
      | absent | unreadable | oversized | corrupt => cases h
  have hkeeps : Session.keeps ⟨some context,s.file⟩ i ↔ s.keeps i := by
    rw [Session.keeps_some]
    simp [Session.keeps,h]
  simp only [StartFits,Session.not_gone_some,hgone,hidle,hkeeps]

/-- Every operation returns. A context is left in flight, is left after a cancellation or a
completion, or is lost to a later resume, exactly when the condition fails. -/
theorem dispatch_settled (E : Environment) (input : RuntimeInput) (s : Session) :
    ∃ answer s', (dispatchWithControl E input).exec s = some (answer,s') ∧
      (Settled (s.startInput input.command) answer s' ↔ Fits E input s) := by
  unfold dispatchWithControl perform Fits
  rw [exec_bind]
  cases hcommand : input.command with
  | start i =>
    obtain ⟨r,s',hexec,hsettled⟩ := start_settled (E := E) input i s
    simp only [exec_attempt,hexec,Option.map_some,exec_orFail,RuntimeCommand.cancels,Bool.not_false,
      Bool.and_true]
    exact ⟨_,_,rfl,hsettled⟩
  | message messageId content =>
    obtain ⟨r,s',hexec,hsettled⟩ := message_settled (E := E) input s
    simp only [exec_attempt,hexec,Option.map_some,exec_orFail,RuntimeCommand.cancels,Bool.not_false,
      Bool.and_true]
    exact ⟨_,_,rfl,hsettled⟩
  | cancel reason =>
    obtain ⟨r,s',hexec,hsettled⟩ := cancel_settled E reason s
    simp only [exec_attempt,hexec,Option.map_some,exec_orFail,RuntimeCommand.cancels,Bool.not_true,
      Bool.and_false,Bool.false_eq_true,if_false]
    exact ⟨_,_,rfl,hsettled⟩
  | resume =>
    simp only [exec_bind,exec_orFail,checkCancellation]
    by_cases hentry : E.cancelled ⟨0,0⟩ = true
    · simp only [hentry,if_true]
      exact ⟨_,_,rfl,settled_cancelled⟩
    simp only [hentry,Bool.false_eq_true,if_false]
    cases hcurrent : s.current with
    | none =>
      obtain ⟨hgone,hload⟩ | ⟨hidle,-,reason,hload⟩ := load_missing hcurrent
      · simp only [hload,exec_fail]
        exact ⟨_,_,rfl,by simp [Session.startInput,hcurrent,hgone.idle]⟩
      · simp only [hload]
        exact ⟨_,_,rfl,by simp [Session.startInput,hcurrent,hidle]⟩
    | some context =>
      simp only [load_found hcurrent]
      cases hcontext : context.context with
      | none =>
        simp only [exec_fail]
        exact ⟨_,_,rfl,by simp [Session.startInput,hcurrent,hcontext]⟩
      | some i =>
        obtain ⟨r,s',hexec,hsettled⟩ := start_settled (E := E) input i ⟨some context,s.file⟩
        simp only [exec_attempt,hexec,Option.map_some,RuntimeCommand.cancels,Bool.not_false,Bool.and_true]
        refine ⟨_,_,rfl,?_⟩
        rw [← startFits_loaded hcurrent,← hsettled]
        simp only [Session.startInput,hcurrent,Option.bind_some,hcontext]
        rfl

end

/-! ### A repository that cannot be cloned -/

def exampleStart : StartInput :=
  ⟨⟨"r",1,"Export","","",[],[],[]⟩,[],[⟨"repo","Shop","https://example.test/shop.git",""⟩]⟩

/-- Nothing is cancelled and the disk works, but the clone fails. -/
def offlineClone : Environment where
  requested := none
  size := fun _ => 1000
  write := fun _ => none
  remove := fun _ => none
  decode := fun _ => none
  prepare := fun _ => some ⟨.cache,"could not resolve host",none,none⟩
  inspect := fun _ _ => .error ⟨.workspace,"no checkout",none,none⟩
  agent := .error (.failed "Pi Agent process timed out")

/-- The start of a fresh session fails and leaves its context in flight. -/
theorem offlineClone_inFlight : ¬ ∀ answer s',
    (dispatchWithControl offlineClone ⟨"op","session",.start exampleStart⟩).exec {} = some (answer,s') →
      Settled (some exampleStart) answer s' := by
  intro h
  have hidle := (h _ _ rfl).idle ⟨startedContext exampleStart [],true⟩ rfl
  cases hidle

end Runtime
end North
