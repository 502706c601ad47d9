import Sidecar.Glob.Pattern
import Sidecar.Text.Base64

/-!
# Errors

What can go wrong with a step, from reading its description to gathering its reports. Each error is a value
that says what happened; `message` is its wording, and `sources` lists the wordings of the errors that led to
it, the nearest first.
-/

namespace Sidecar

/-- A failure reported by the operating system, in its words. -/
structure SystemError where
  text : String
deriving DecidableEq, Repr

namespace SystemError

/-- A path that leads nowhere, or a program that does not exist. -/
def notFound : SystemError := ⟨"No such file or directory (os error 2)"⟩

/-- An operation that is not allowed. -/
def permissionDenied : SystemError := ⟨"Permission denied (os error 13)"⟩

/-- A directory on the way to a path is something else. -/
def notADirectory : SystemError := ⟨"Not a directory (os error 20)"⟩

/-- A directory was read or written like a file. -/
def isADirectory : SystemError := ⟨"Is a directory (os error 21)"⟩

/-- A file that is not open for writing. -/
def badDescriptor : SystemError := ⟨"Bad file descriptor (os error 9)"⟩

/-- Bytes that are not UTF-8. -/
def notText : SystemError := ⟨"stream did not contain valid UTF-8"⟩

/-- A NUL character where the system ends a string with one. -/
def nulCharacter : SystemError := ⟨"nul byte found in provided data"⟩

end SystemError

/-- A document that is not what was expected. It tells no more than that. -/
inductive DocumentError where
  | malformed
deriving DecidableEq, Repr

/-- The wording of a document error. -/
def DocumentError.message : DocumentError → String
  | .malformed => "<parse error>"

/-- A reference in a command or an environment value that cannot be read. The offset counts bytes. -/
inductive ExpressionError where
  | malformed (offset : Nat) (fragment : String)
deriving DecidableEq, Repr

/-- The wording of an expression error. -/
def ExpressionError.message : ExpressionError → String
  | .malformed offset fragment => s!"malformed expression at offset {offset}: '{fragment}'"

/-- What a container runtime is asked to do. -/
inductive RuntimeAction where
  | inspect
  | pull
deriving DecidableEq, Repr

/-- The name of an action. -/
def RuntimeAction.name : RuntimeAction → String
  | .inspect => "inspect"
  | .pull => "pull"

/-- Why the default command of an image is not known. -/
inductive ImageError where
  | emptyReference
  | invalidSecret (cause : Text.Base64.DecodeError)
  | runtime (binary : String) (cause : SystemError)
  | command (binary action stderr : String)
  | metadata (cause : DocumentError)
  | credentials (cause : SystemError)
deriving DecidableEq, Repr

namespace ImageError

/-- The wording of an image error. -/
def message : ImageError → String
  | .emptyReference => "image reference is empty"
  | .invalidSecret cause => s!"image pull secret is not valid base64: {cause.message}"
  | .runtime binary cause => s!"failed to run {binary}: {cause.text}"
  | .command binary action stderr => s!"{binary} {action} failed: {stderr}"
  | .metadata cause => s!"unexpected image metadata: {cause.message}"
  | .credentials cause => s!"failed to prepare registry credentials: {cause.text}"

/-- The errors behind an image error. -/
def sources : ImageError → List String
  | .emptyReference => []
  | .invalidSecret cause => [cause.message]
  | .runtime _ cause => [cause.text]
  | .command .. => []
  | .metadata cause => [cause.message]
  | .credentials cause => [cause.text]

end ImageError

/-- Why it is not known what to execute, or with which environment. -/
inductive ResolutionError where
  | unknownShell (name : String)
  | expression (field : String) (cause : ExpressionError)
  | image (reference : String) (cause : ImageError)
  | noCommand (stepId : String)
deriving DecidableEq, Repr

namespace ResolutionError

/-- The wording of a resolution error. -/
def message : ResolutionError → String
  | .unknownShell name => s!"Unknown shell type: {name}"
  | .expression field cause => s!"failed to resolve expression in {field}: {cause.message}"
  | .image reference cause =>
    s!"failed to fetch default entrypoint for image '{reference}': {cause.message}"
  | .noCommand stepId => s!"no command to execute for step '{stepId}'"

/-- The errors behind a resolution error. -/
def sources : ResolutionError → List String
  | .unknownShell _ => []
  | .expression _ cause => [cause.message]
  | .image _ cause => cause.message :: cause.sources
  | .noCommand _ => []

end ResolutionError

/-- How a process failed. An exit without a code was caused by a signal. -/
inductive ProcessError where
  | exit (code : Option Int)
  | start (program : String) (cause : SystemError)
  | wait (cause : SystemError)
  | timedOut (seconds : Nat)
deriving DecidableEq, Repr

namespace ProcessError

/-- The wording of a process error. -/
def message : ProcessError → String
  | .exit (some code) => s!"process exited with status {code}"
  | .exit none => "process terminated by signal"
  | .start program cause => s!"failed to start '{program}': {cause.text}"
  | .wait cause => s!"failed to wait for process: {cause.text}"
  | .timedOut seconds => s!"process killed after timeout of {seconds}s"

/-- The errors behind a process error. -/
def sources : ProcessError → List String
  | .exit _ => []
  | .start _ cause => [cause.text]
  | .wait cause => [cause.text]
  | .timedOut _ => []

/-- Whether the process ran to an end of its own, but not a successful one. -/
def isExit : ProcessError → Bool
  | .exit _ => true
  | _ => false

/-- Whether the process never ran. -/
def isStart : ProcessError → Bool
  | .start .. => true
  | _ => false

end ProcessError

/-- Why declared reports could not be gathered. -/
inductive CollectionError where
  | pattern (declared : String) (cause : Glob.PatternError)
  | read (path : String) (cause : SystemError)
deriving DecidableEq, Repr

namespace CollectionError

/-- The wording of a collection error. -/
def message : CollectionError → String
  | .pattern declared cause => s!"invalid report path pattern '{declared}': {cause.message}"
  | .read path cause => s!"failed to read report '{path}': {cause.text}"

/-- The errors behind a collection error. -/
def sources : CollectionError → List String
  | .pattern _ cause => [cause.message]
  | .read _ cause => [cause.text]

end CollectionError

/-- The broad kinds of failure of a step. -/
inductive ErrorKind where
  | resolution
  | process
  | collection
  | lost
deriving DecidableEq, Repr

/-- The terminal error of a step. -/
inductive StepError where
  | resolution (cause : ResolutionError)
  | process (cause : ProcessError)
  | collection (cause : CollectionError)
  /-- The step's task went away without an outcome. -/
  | lost (stepId : String)
deriving DecidableEq, Repr

namespace StepError

/-- The broad kind of an error. -/
def kind : StepError → ErrorKind
  | .resolution _ => .resolution
  | .process _ => .process
  | .collection _ => .collection
  | .lost _ => .lost

/-- The process error, if it is one. -/
def process? : StepError → Option ProcessError
  | .process cause => some cause
  | _ => none

/-- The wording of a step's error. Resolution and process errors speak for themselves. -/
def message : StepError → String
  | .resolution cause => cause.message
  | .process cause => cause.message
  | .collection cause => s!"unable to collect test reports: {cause.message}"
  | .lost stepId =>
    s!"background task for step '{stepId}' terminated without reporting an outcome"

/-- The errors behind a step's error. -/
def sources : StepError → List String
  | .resolution cause => cause.sources
  | .process cause => cause.sources
  | .collection cause => cause.message :: cause.sources
  | .lost _ => []

end StepError

/-- Why there is no configuration. -/
inductive ConfigError where
  | read (path : String) (cause : SystemError)
  | parse (cause : DocumentError)
  | invalid (field reason : String)
deriving DecidableEq, Repr

namespace ConfigError

/-- The wording of a configuration error. -/
def message : ConfigError → String
  | .read path cause => s!"failed to read config '{path}': {cause.text}"
  | .parse cause => s!"failed to parse config: {cause.message}"
  | .invalid field reason => s!"invalid config value for {field}: {reason}"

/-- The errors behind a configuration error. -/
def sources : ConfigError → List String
  | .read _ cause => [cause.text]
  | .parse cause => [cause.message]
  | .invalid .. => []

end ConfigError

end Sidecar
