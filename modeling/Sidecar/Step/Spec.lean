import Sidecar.Bindings
import Sidecar.Step.Shell

/-!
# Steps

The description of a background step: what to run, in which shell, with which environment, and which test
reports to gather afterwards.
-/

namespace Sidecar

/-- The format of a test report. -/
inductive ReportFormat where
  | junit
deriving DecidableEq, Repr, Inhabited

/-- The name of a format. -/
def ReportFormat.name : ReportFormat → String
  | .junit => "junit"

/-- Where a step leaves test reports: the format, and patterns for the paths. -/
structure ReportDeclaration where
  format : ReportFormat := .junit
  paths : List String := []
deriving DecidableEq, Repr, Inhabited

/-- A background step. -/
structure Step where
  id : String := ""
  displayName : String := ""
  /-- The script to run in the shell; may be empty. -/
  command : String := ""
  shell : Shell := .unspecified
  /-- Environment values, in which references are still to be resolved. -/
  environment : Bindings := ∅
  /-- A command line that takes the place of the script; may be empty. -/
  entrypoint : List String := []
  /-- The container image whose default command is run if there is nothing else. -/
  image : String := ""
  reports : List ReportDeclaration := []
  /-- Number of attempts; zero stands for the default. -/
  retries : Nat := 0
  /-- Seconds an attempt may take; zero stands for the default. -/
  timeoutSeconds : Nat := 0
deriving DecidableEq, Repr, Inhabited

namespace Step

/-- The number of attempts where a step and its configuration name none. -/
def defaultRetries : Nat := 1

/-- The timeout where a step and its configuration name none: four hours. -/
def defaultTimeoutSeconds : Nat := 14400

/-- The number of attempts, at least one. -/
def effectiveRetries (step : Step) (default : Nat) : Nat :=
  if step.retries = 0 then max default 1 else step.retries

/-- The timeout in seconds, at least one. -/
def effectiveTimeout (step : Step) (default : Nat) : Nat :=
  if step.timeoutSeconds = 0 then max default 1 else step.timeoutSeconds

/-- Whether the command has to be run in a shell. -/
def needsShell (step : Step) : Bool :=
  step.entrypoint.isEmpty && step.command ≠ ""

/-- The name of a step for people. -/
def label (step : Step) : String :=
  if step.displayName = "" then step.id else step.displayName

theorem effectiveRetries_pos (step : Step) (default : Nat) : 0 < step.effectiveRetries default := by
  unfold effectiveRetries
  split <;> omega

theorem effectiveTimeout_pos (step : Step) (default : Nat) : 0 < step.effectiveTimeout default := by
  unfold effectiveTimeout
  split <;> omega

end Step

end Sidecar
