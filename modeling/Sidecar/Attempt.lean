import Sidecar.Resolution

/-!
# Attempts

One pass of a step: find out what to execute, start the process, wait for it. The record of an attempt keeps
the command and the environment as far as they were found, so it shows how far the attempt came.

A process is only killed if timeouts are enforced and it has not ended when its timeout is over; a process
that ends at that very moment has ended by itself.
-/

namespace Sidecar

/-- A step with everything that is needed to run it. -/
structure Job (σ : Type) where
  step : Step
  config : Config := {}
  collaborators : Collaborators σ
  /-- Where the output of the processes goes. -/
  sink : OutputSink := .stderr
  /-- Whether metrics of the processes are logged and recorded. -/
  measures : Bool := false

/-- The record of an attempt. -/
structure Attempt where
  index : Nat
  command : Option CommandLine := none
  environment : Bindings := ∅
  outcome : Except StepError Bindings := .ok ∅

namespace Attempt

/-- Whether the attempt has not failed. -/
def isSuccess (a : Attempt) : Bool :=
  a.outcome.isOk

/-- The kind of failure. -/
def errorKind? (a : Attempt) : Option ErrorKind :=
  match a.outcome with
  | .ok _ => none
  | .error e => some e.kind

/-- The attempt with a failure. -/
def fail (a : Attempt) (e : StepError) : Attempt :=
  { a with outcome := .error e }

end Attempt

/-- Waits for a process, and kills it when it takes longer than so many seconds. -/
def RunningProcess.waitOrKill {σ : Type} (p : RunningProcess σ) (timeoutSeconds : Option Nat) :
    Activity Event (Except ProcessError Unit) :=
  match timeoutSeconds with
  | none => p.lifetime.wait
  | some seconds => do
    match ← p.lifetime.wait.withTimeout (seconds * 1000) with
    | some result => return result
    | none =>
      match ← p.kill with
      | .ok () => pure ()
      | .error e => Event.report .warn "failed to kill timed out process" [("error", e.message)]
      return .error (.timedOut seconds)

namespace Job

variable {σ : Type}

/-- The number of attempts. -/
def retries (job : Job σ) : Nat :=
  job.step.effectiveRetries job.config.defaultRetries

/-- The seconds after which an attempt is killed, if any. -/
def timeoutSeconds? (job : Job σ) : Option Nat :=
  if job.config.enforceTimeout then some (job.step.effectiveTimeout job.config.defaultTimeoutSeconds)
  else none

/-- What the launcher is told about the process of an attempt. -/
def invocation (job : Job σ) (index : Nat) (command : CommandLine) (environment : Bindings) :
    Invocation where
  command := command
  environment := environment
  stdout := some job.sink
  stderr := some job.sink
  stepId := job.step.id
  attempt := index

/-- The most memory that a process was seen to use, in KiB. The first look is taken as soon as time passes,
and none is taken without an interval. -/
def peakKb? (job : Job σ) (pid : Option Nat) (elapsed : Nat) : Option Nat := do
  let status ← job.collaborators.processStatus? (← pid)
  if elapsed = 0 ∨ job.config.sampleIntervalMillis = 0 then none
  else residentKb? status

/-- A duration as it is logged. -/
def shownMillis (elapsed : Nat) : String :=
  toString (min elapsed maxWord64)

/-- The fields of the record about a process, without those that have no value. -/
def metricsFields (m : ProcessMetrics) : List (String × String) :=
  (m.pid.map fun pid => ("pid", toString pid)).toList ++
    (m.peakKb.map fun kb => ("peak_rss_kb", toString kb)).toList ++
    [("elapsed_time_ms", shownMillis m.elapsedMillis)]

/-- Makes the metrics of a process visible. -/
def measure (job : Job σ) (index : Nat) (pid : Option Nat) (elapsed : Nat) : Activity Event Unit := do
  if job.measures then
    let metrics : ProcessMetrics :=
      ⟨job.step.id, index, pid, job.peakKb? pid elapsed, elapsed⟩
    Event.see (.metrics metrics)
    Event.report .info "background step process metrics" (metricsFields metrics)

/-- Logs the number of a process that has been started. -/
def announce (job : Job σ) : Option Nat → Activity Event Unit
  | some pid => do
    if job.measures then
      Event.report .info "started background step process" [("pid", toString pid)]
  | none => pure ()

/-- Takes note of what has become of a process that is gone. -/
def conclude (job : Job σ) (index : Nat) (command : CommandLine) (started : Nat)
    (process : RunningProcess σ) (waited : Except ProcessError Unit) :
    Session σ (Except ProcessError Unit) := do
  let elapsed := (← Session.clock) - started
  modify (process.effect elapsed)
  job.measure index process.pid elapsed
  match waited with
  | .error e => return .error e
  | .ok () =>
    Event.report .info "Successfully executed background step"
      [("arguments", command.display), ("output", "\x7b\x7d"), ("elapsed_time_ms", shownMillis elapsed)]
    return .ok ()

/-- Follows a process from its start to its end. -/
def follow (job : Job σ) (index : Nat) (command : CommandLine) (started : Nat)
    (process : RunningProcess σ) : Session σ (Except ProcessError Unit) := do
  job.announce process.pid
  let waited ← process.waitOrKill job.timeoutSeconds?
  job.conclude index command started process waited

/-- Starts a process and follows it to its end. -/
def execute (job : Job σ) (index : Nat) (command : CommandLine) (environment : Bindings) :
    Session σ (Except ProcessError Unit) := do
  let started ← Session.clock
  let invocation := job.invocation index command environment
  Event.ask (.start invocation)
  match ← modifyGet (job.collaborators.start invocation) with
  | .started process => job.follow index command started process
  | .refused e => return .error e
  | .crash => Session.crash

/-- Runs an attempt. -/
def attempt (job : Job σ) (index : Nat) : Session σ Attempt := do
  let c := job.collaborators
  let secretVariable := job.config.imageSecretVariable
  let begun : Attempt := { index := index }
  match ← (Resolution.script c job.step).run with
  | .error e => return begun.fail (.resolution e)
  | .ok script =>
    match ← (Resolution.environment c job.step).run with
    | .error e => return begun.fail (.resolution e)
    | .ok environment =>
      let begun := { begun with environment := environment }
      match ← (Resolution.command c secretVariable job.step script).run with
      | .error e => return begun.fail (.resolution e)
      | .ok (_, command) =>
        let begun := { begun with command := some command }
        match ← job.execute index command environment with
        | .error e => return begun.fail (.process e)
        | .ok () => return begun

end Job

end Sidecar
