import Sidecar.Host.Files
import Sidecar.Image.Consultation
import Sidecar.Sink

/-!
# Machines

The machine that a host models: files, the destinations of output, an environment, a working directory, and
a container runtime that answers from a list.
-/

namespace Sidecar.Host

/-- A machine. -/
structure Machine where
  outputs : Outputs := {}
  /-- The directory that programs are started in. -/
  directory : List String := []
  environment : Bindings := ∅
  /-- The answers of the container runtime, the last of which is repeated. Without any, there is no
  runtime. -/
  runtimeAnswers : List ProgramOutput := []
  /-- The calls that the runtime has answered. -/
  runtimeCalls : List RuntimeCall := []
deriving Inhabited

namespace Machine

/-- The files. -/
def tree (m : Machine) : FileTree :=
  m.outputs.tree

/-- The machine with other files. -/
def withTree (m : Machine) (tree : FileTree) : Machine :=
  { m with outputs := { m.outputs with tree := tree } }

/-- Reads a file as text. -/
def readText (m : Machine) (path : String) : Except SystemError (List UInt8) :=
  readFile m.tree m.directory path

/-- The directories in which programs are found. -/
def programDirectories : List String :=
  ["/usr/local/sbin", "/usr/local/bin", "/usr/sbin", "/usr/bin", "/sbin", "/bin"]

/-- The search path where none is set. -/
def defaultSearchPath : String := "/usr/local/sbin:/usr/local/bin:/usr/sbin:/usr/bin:/sbin:/bin"

/-- Asks the container runtime. -/
def askRuntime (m : Machine) (call : RuntimeCall) : ProgramReply × Machine :=
  if call.argv.any (·.contains '\x00') then (.error .nulCharacter, m)
  else
    match m.runtimeAnswers[min m.runtimeCalls.length (m.runtimeAnswers.length - 1)]? with
    | none => (.error .notFound, m)
    | some output => (.ok output, { m with runtimeCalls := m.runtimeCalls ++ [call] })

end Machine

end Sidecar.Host
