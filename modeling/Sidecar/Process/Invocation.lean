import Sidecar.Bindings
import Sidecar.CommandLine
import Sidecar.Sink

/-!
# Process invocations

What a launcher is told about a process: its command line, the environment to add to the inherited one, where
its output goes, and the step and attempt it belongs to.
-/

namespace Sidecar

/-- The description of a process to start. -/
structure Invocation where
  command : CommandLine
  environment : Bindings := ∅
  stdout : Option OutputSink := none
  stderr : Option OutputSink := none
  stepId : String := ""
  attempt : Nat := 0
deriving DecidableEq, Repr, Inhabited

namespace Invocation

/-- Adds environment variables; they win over those that were added before. -/
def addEnvironment (i : Invocation) (environment : Bindings) : Invocation :=
  { i with environment := i.environment.append environment }

/-- Names the step and the attempt. -/
def tag (i : Invocation) (stepId : String) (attempt : Nat) : Invocation :=
  { i with stepId := stepId, attempt := attempt }

end Invocation

end Sidecar
