import Sidecar.Retry

/-!
# Settlement

A run starts a step in the background and waits until the step has ended, but no longer than the settle
window. A step that ends in time has its outcome returned. A step that is still running when the window is
over counts as launched: the run returns without an error, the step goes on, and its outcome is only logged.
A step that would end at the very end of the window comes too late.

`Job.run` says what a run returns and when; `Run.after` says what happens from then on.
-/

namespace Sidecar

/-- The result of a run. -/
structure ExecutionResult where
  outputs : Bindings := ∅
  retries : Nat := 0
  error : Option StepError := none
deriving DecidableEq, Repr

namespace ExecutionResult

/-- Whether there is no error. -/
def isSuccess (r : ExecutionResult) : Bool :=
  r.error.isNone

/-- The outputs, or the error if there is one. -/
def toExcept (r : ExecutionResult) : Except StepError Bindings :=
  match r.error with
  | none => .ok r.outputs
  | some e => .error e

/-- The result as it is shown to people. -/
def toJson (r : ExecutionResult) : Json :=
  .record [
    ("outputs", .textRecord r.outputs.toList),
    ("retries", .nat r.retries),
    ("error", match r.error with
      | none => .null
      | some e => .text e.message)]

end ExecutionResult

/-- A run that has returned. -/
structure Run (σ : Type) where
  result : ExecutionResult
  returnedAt : Nat
  /-- What has been seen until then. -/
  entries : List (Activity.Entry Event)
  /-- Where the step stands. -/
  standing : Activity.Standing Event (Option StepError × σ)

/-- The span of everything that a step does in the background. -/
def backgroundSpan : String :=
  "background_step"

/-- A log record in the span of a step. -/
def backgroundRecord (level : LogLevel) (message : String) (fields : List (String × String)) : Event :=
  .log { level := level, message := message, fields := fields, spans := [backgroundSpan] }

/-- What is logged when a step ends after its run has returned. -/
def lateRecord : Option StepError → Event
  | some e => backgroundRecord .warn "background step failed after settle window" [("error", e.message)]
  | none => backgroundRecord .debug "background step finished after settle window" []

/-- What is logged when a step counts as launched. -/
def stillRunningRecord (seconds : Nat) : Event :=
  backgroundRecord .debug "step still running, treating as launched"
    [("settle_window", toString seconds ++ "s")]

namespace Job

variable {σ : Type}

/-- The result of a run with an outcome. -/
def resultOf (job : Job σ) (error : Option StepError) : ExecutionResult :=
  { retries := job.retries, error := error }

/-- The background activity of a step. -/
def background (job : Job σ) : Session σ (Option StepError) :=
  Session.within backgroundSpan job.task

/-- The run that has seen these entries, and whose step stands like this when the settle window is over. -/
def settle (job : Job σ) (entries : List (Activity.Entry Event))
    (standing : Activity.Standing Event (Option StepError × σ)) : Run σ :=
  match standing with
  | .finished time (outcome, _) => ⟨job.resultOf outcome, time, entries, standing⟩
  | .crashed time => ⟨job.resultOf (some (.lost job.step.id)), time, entries, standing⟩
  | .hanging | .asleep .. =>
    let window := job.config.settleWindow
    ⟨job.resultOf none, window,
      entries ++ [⟨window, stillRunningRecord job.config.settleWindowSeconds⟩], standing⟩

/-- Runs a step, from a state of its collaborators. -/
def run (job : Job σ) (state : σ) : Run σ :=
  let (entries, standing) := (job.background state).advance job.config.settleWindow 0
  job.settle entries standing

end Job

/-- What is seen after a run has returned, before so many milliseconds have passed. -/
def Run.after {σ : Type} (run : Run σ) (millis : Nat) : List (Activity.Entry Event) :=
  match run.standing with
  | .asleep wake resume =>
    let (entries, standing) :=
      (Activity.Standing.asleep wake resume).advance (run.returnedAt + millis)
    match standing with
    | .finished time (outcome, _) => entries ++ [⟨time, lateRecord outcome⟩]
    | _ => entries
  | _ => []

end Sidecar
