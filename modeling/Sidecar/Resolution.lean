import Sidecar.Collaborators
import Sidecar.Config

/-!
# Resolution

What a step executes, and with which environment. There are three strategies, tried in the order of their
priority, and the first one that applies decides: the step's own entrypoint as it is, the step's command as a
script for its shell, or the default command of the step's image. A strategy that applies but fails is not
followed by another one.
-/

namespace Sidecar

/-- A way to come to a command line. -/
inductive Strategy where
  | entrypoint
  | shell
  | image
deriving DecidableEq, Repr, Inhabited

/-- The name of a strategy. -/
def Strategy.name : Strategy → String
  | .entrypoint => "entrypoint"
  | .shell => "shell"
  | .image => "image"

/-- The strategies in the order in which they are tried. -/
def Strategy.priority : List Strategy :=
  [.entrypoint, .shell, .image]

/-- Something that leads to a value or to a resolution error. -/
abbrev Resolving (σ : Type) := ExceptT ResolutionError (Session σ)

/-- Goes on with a result that is there already. -/
def Resolving.ofExcept {σ α : Type} (result : Except ResolutionError α) : Resolving σ α :=
  ExceptT.mk (pure result)

/-- Asks something of a collaborator on the way. -/
def Resolving.consult {σ α : Type} (c : Collaborators σ) (call : Call) (answer : σ → α × σ) :
    Resolving σ α :=
  ExceptT.lift (c.consult call answer)

namespace Resolution

variable {σ : Type}

/-- Resolves the references in a field of a step. -/
def expand (c : Collaborators σ) (field raw : String) : Resolving σ String := do
  match ← Resolving.consult c (.expand raw) fun s => (c.expand raw, s) with
  | .ok text => return text
  | .error cause => throw (.expression field cause)

/-- The script of a step, or nothing if it needs no shell. The shell is checked before the command is
resolved. -/
def script (c : Collaborators σ) (step : Step) : Resolving σ (Option String) := do
  if step.needsShell then
    let preamble ← Resolving.ofExcept step.shell.preamble
    let body ← expand c "command" step.command
    return some (preamble ++ body)
  else
    return none

/-- Resolves the value of a name in the environment. -/
def environmentEntry (c : Collaborators σ) (entry : String × String) : Resolving σ (String × String) := do
  let value ← expand c ("environment." ++ entry.1) entry.2
  return (entry.1, value)

/-- The environment of a step. Its values are resolved in the order of their names, up to the first one that
fails. -/
def environment (c : Collaborators σ) (step : Step) : Resolving σ Bindings := do
  let entries ← step.environment.toList.mapM (environmentEntry c)
  return Bindings.ofList entries

/-- The default command of the image of a step. The secret for pulling the image is the value of a variable. -/
def imageCommand (c : Collaborators σ) (secretVariable : String) (step : Step) :
    Resolving σ (Option CommandLine) := do
  let secret := c.environment secretVariable
  let reply ← Resolving.consult c (.lookup step.id step.image secret)
    (c.lookup step.id step.image secret)
  Event.reportAll reply.records
  match reply.value with
  | .ok metadata => return CommandLine.ofArgv? metadata.combined
  | .error cause => throw (.image step.image cause)

/-- The command line that a strategy leads to, or nothing if the strategy does not apply. -/
def apply (c : Collaborators σ) (secretVariable : String) (step : Step) (script : Option String) :
    Strategy → Resolving σ (Option CommandLine)
  | .entrypoint => return CommandLine.ofArgv? step.entrypoint
  | .shell => do
    match script with
    | none => return none
    | some text =>
      if text = "" then return none
      let (binary, flag) ← Resolving.ofExcept step.shell.invocation
      return some ⟨binary, [flag, text]⟩
  | .image => imageCommand c secretVariable step

/-- The command line of the first strategy that applies. -/
def firstApplicable (c : Collaborators σ) (secretVariable : String) (step : Step)
    (script : Option String) : List Strategy → Resolving σ (Strategy × CommandLine)
  | [] => throw (.noCommand step.id)
  | strategy :: rest => do
    match ← apply c secretVariable step script strategy with
    | none => firstApplicable c secretVariable step script rest
    | some command =>
      Event.report .debug "resolved command"
        [("step_id", step.id), ("strategy", strategy.name), ("command", command.display)]
      return (strategy, command)

/-- The command line of a step, with the strategy that led to it. -/
def command (c : Collaborators σ) (secretVariable : String) (step : Step) (script : Option String) :
    Resolving σ (Strategy × CommandLine) :=
  firstApplicable c secretVariable step script Strategy.priority

/-- The command line of a step, without its environment. -/
def resolve (c : Collaborators σ) (secretVariable : String) (step : Step) : Resolving σ CommandLine := do
  let text ← script c step
  let (_, command) ← command c secretVariable step text
  return command

/-- What a step executes: how it was found, the command line and the environment. -/
structure Plan where
  strategy : Strategy
  command : CommandLine
  environment : Bindings
deriving DecidableEq, Repr

/-- Finds out what a step executes. -/
def plan (c : Collaborators σ) (secretVariable : String) (step : Step) : Resolving σ Plan := do
  let text ← script c step
  let environment ← environment c step
  let (strategy, command) ← command c secretVariable step text
  return ⟨strategy, command, environment⟩

end Resolution

end Sidecar
