import North.RuntimeCleanup
import North.TerminalFacts

/-! What the clarification adapter answers to a worker: the facts of an operation become events,
and a cancellation or a failure becomes one. Whatever it meets, an answer ends the session once
at most, and the answer to a cancellation always does. -/
namespace North
namespace Runtime

open Prog Protocol Journal Scheduler
open AssessmentHandoff (RuntimeFact factsForResponse factToEvent)

def commandToRuntime : Command → RuntimeCommand
  | .sessionStart start => .start {
      requirement := {
        id := start.requirement.id
        revision := start.requirement.revision
        title := start.requirement.title
        description := start.requirement.description
        summary := start.requirement.summary
        acceptanceCriteria := start.requirement.acceptanceCriteria
        assumptions := start.requirement.assumptions
        openQuestions := start.requirement.openQuestions }
      conversation := start.excerpt.map fun message => {
        messageId := message.messageId
        role := match message.role with
          | .requester => .requester
          | .agent => .agent
          | .system => .system
        content := message.content }
      repositories := start.repositories.map fun repository =>
        ⟨repository.repositoryId,repository.name,repository.url,repository.description⟩ }
  | .messageSend messageId content => .message messageId content
  | .sessionCancel reason => .cancel reason
  | .sessionResume => .resume

/-- The outcome of an operation and the events it leaves for `take_events`. -/
def outcomeOf : Answer → DispatchOutcome × List Event
  | .ok facts => (.dispatchSucceeded,facts.map factToEvent)
  | .error .cancelled => (.dispatchSucceeded,[.sessionCompleted "Pi clarification cancelled"])
  | .error (.failed error) => (.dispatchFailed error,[.sessionFailed false error])

/-- The call of a worker, with the events it takes afterwards: no other worker of the session
is there to leave some. -/
def dispatchForSessionWithControl (E : Environment) (sessionId runtimeOperationId : String)
    (command : Command) (s : Session) : Option ((DispatchOutcome × List Event) × Session) :=
  ((dispatchWithControl E ⟨runtimeOperationId,sessionId,commandToRuntime command⟩).exec s).map
    fun (answer,s') => (outcomeOf answer,s')

theorem cancels_commandToRuntime (command : Command) :
    (commandToRuntime command).cancels = command.isSessionCancel := by
  cases command <;> rfl

/-- One of the facts at most ends the session. -/
def OneEnd (facts : List RuntimeFact) : Prop := terminalFacts (facts.map factToEvent) ≤ 1

theorem factsForResponse_oneEnd (operationId runtimeId : String) (parsed : AssessmentHandoff.ParsedAssessment)
    (context : Option AssessmentHandoff.AssessmentContext) (started completion : Bool) :
    OneEnd (factsForResponse operationId runtimeId parsed context started completion) := by
  cases context <;> cases started <;> cases completion <;>
    simp [OneEnd,factsForResponse,factToEvent,terminalFacts,hasTerminalEvent]

section

variable (E : Environment) (input : RuntimeInput)

theorem start_yields (startInput : StartInput) : Yields OneEnd (start E input startInput) := by
  unfold start
  iterate 7 refine yields_of_rest fun _ => ?_
  unfold finishStart
  iterate 3 refine yields_of_rest fun _ => ?_
  exact yields_pure (factsForResponse_oneEnd _ _ _ _ _ _)

theorem message_yields : Yields OneEnd (message E input) := by
  unfold message
  refine yields_of_rest fun _ => yields_of_rest fun context => ?_
  cases context with
  | none => exact yields_fail _
  | some context =>
    iterate 4 refine yields_of_rest fun _ => ?_
    unfold finishMessage
    iterate 2 refine yields_of_rest fun _ => ?_
    exact yields_pure (factsForResponse_oneEnd _ _ _ _ _ _)

theorem cancel_yields (reason : String) :
    Yields (fun facts => facts = [.completed ("Pi clarification cancelled: " ++ reason)]) (cancel E reason) := by
  unfold cancel
  refine yields_of_rest fun context => ?_
  cases context with
  | none => exact yields_fail _
  | some context =>
    iterate 2 refine yields_of_rest fun _ => ?_
    exact yields_pure rfl

/-- What the adapter returns ends the session once at most, and for a cancellation it does. -/
def Ends (command : RuntimeCommand) (facts : List RuntimeFact) : Prop :=
  OneEnd facts ∧ (command.cancels = true → hasTerminalEvent (facts.map factToEvent) = true)

theorem perform_yields : Yields (fun result => ∀ facts, result = .ok facts → Ends input.command facts)
    (perform E input) := by
  unfold perform
  cases hcommand : input.command with
  | start startInput =>
    refine yields_attempt fun s facts s' hexec => ⟨start_yields E input startInput s facts s' hexec,?_⟩
    simp [RuntimeCommand.cancels]
  | message messageId content =>
    refine yields_attempt fun s facts s' hexec => ⟨message_yields E input s facts s' hexec,?_⟩
    simp [RuntimeCommand.cancels]
  | cancel reason =>
    refine yields_attempt fun s facts s' hexec => ?_
    obtain rfl := cancel_yields E reason s facts s' hexec
    simp [Ends,OneEnd,factToEvent,terminalFacts,hasTerminalEvent]
  | resume =>
    refine yields_of_rest fun _ => yields_of_rest fun context => ?_
    cases context with
    | none => exact yields_fail _
    | some context =>
      dsimp only
      cases context.context with
      | none => exact yields_fail _
      | some startInput =>
        refine yields_attempt fun s facts s' hexec => ⟨start_yields E input startInput s facts s' hexec,?_⟩
        simp [RuntimeCommand.cancels]

theorem dispatch_yields : Yields (Ends input.command) (dispatchWithControl E input) := by
  refine yields_bind (perform_yields E input) fun result hresult => yields_orFail fun facts hfacts => ?_
  split_ifs at hfacts
  exact hresult facts hfacts

/-- Every answer of the adapter is fitting, whatever it meets. -/
theorem dispatch_fits {E : Environment} {command : CommandEnvelope} {outcome : DispatchOutcome}
    {events : List Event} {s s' : Session}
    (h : dispatchForSessionWithControl E command.sessionId command.commandId command.command s =
      some ((outcome,events),s')) : fitsAnswer command events = true := by
  obtain ⟨⟨answer,s₁⟩,hexec,heq⟩ := Option.map_eq_some_iff.mp h
  obtain ⟨hevents,-⟩ := Prod.mk.inj heq
  cases answer with
  | ok facts =>
    obtain ⟨-,rfl⟩ := Prod.mk.inj hevents
    obtain ⟨hone,hends⟩ := dispatch_yields _ _ _ _ _ hexec
    rw [cancels_commandToRuntime] at hends
    have hle : terminalFacts (facts.map factToEvent) ≤ 1 := hone
    cases hcancel : command.command.isSessionCancel with
    | false => simp [fitsAnswer,hle,hcancel]
    | true => simp [fitsAnswer,hle,hends hcancel]
  | error error =>
    cases error with
    | cancelled =>
      obtain ⟨-,rfl⟩ := Prod.mk.inj hevents
      simp [fitsAnswer,terminalFacts,hasTerminalEvent]
    | failed reason =>
      obtain ⟨-,rfl⟩ := Prod.mk.inj hevents
      simp [fitsAnswer,terminalFacts,hasTerminalEvent]

end

end Runtime

end North
