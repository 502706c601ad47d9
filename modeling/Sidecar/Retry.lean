import Sidecar.Attempt

/-!
# Retries

All that a step does in the background. Every attempt is made, also after a successful one, and the last one
decides. Then the reports are gathered once. A failure to gather them is the outcome only if there is no
other failure.
-/

namespace Sidecar.Job

variable {σ : Type}

/-- Runs an attempt and tells its error. A failure is logged. -/
def attemptError? (job : Job σ) (index : Nat) : Session σ (Option StepError) := do
  let attempt ← Session.within "attempt" (job.attempt index)
  match attempt.outcome with
  | .ok _ => return none
  | .error e =>
    Event.report .warn "background step attempt failed"
      [("attempt", toString index), ("retries", toString job.retries), ("error", e.message)]
    return some e

/-- Runs so many attempts from an index on. The error of the last one is the result. -/
def attemptsFrom (job : Job σ) (index : Nat) (last : Option StepError) :
    Nat → Session σ (Option StepError)
  | 0 => return last
  | count + 1 => do
    let error ← job.attemptError? index
    job.attemptsFrom (index + 1) error count

/-- Gathers the reports. Crashes if the collector does. -/
def collect (job : Job σ) : Session σ (Except CollectionError Unit) := do
  let c := job.collaborators
  let reply ← c.consult (.collect job.step.id job.step.reports) (c.collect job.step.reports job.step.id)
  Session.pause reply.millis
  if reply.crashes then Session.crash
  Event.reportAll reply.records
  return reply.result

/-- Gathers the reports after the attempts. An earlier failure stays the outcome. -/
def collectAfter (job : Job σ) (failure : Option StepError) : Session σ (Option StepError) := do
  match failure, ← job.collect with
  | failure, .ok () => return failure
  | none, .error e =>
    Event.report .error "unable to collect test reports" [("error", e.message)]
    return some (.collection e)
  | some failure, .error e =>
    Event.report .error "error while collecting test reports" [("error", e.message)]
    return some failure

/-- Everything that a step does in the background. The result is its error, if it fails. -/
def task (job : Job σ) : Session σ (Option StepError) := do
  let failure ← job.attemptsFrom 1 none job.retries
  job.collectAfter failure

end Sidecar.Job
