import Sidecar.Collaborators
import Sidecar.Expression
import Sidecar.Host.Shell
import Sidecar.Image.Lookup
import Sidecar.Report

/-!
# The host of a step

A machine as the collaborators of a step: it starts processes, looks up images with its container runtime,
and gathers reports from its files.

A process is run to its end when it is started, only to find out how long it lives and how it ends. What it
does to the machine is worked out when it is known how much time it has had.
-/

namespace Sidecar.Host

/-- How many steps a script may take in a row. -/
def scriptFuel : Nat := 3000

/-- The process number that scripts see. -/
def scriptPid : Nat := 4242

/-- Where the output of a process goes that is told to write to a sink. -/
def targetOf (stream : OutputStream) : Option OutputSink → Target
  | none => .nowhere
  | some sink => if sink.isDirect then .sink sink else .piped stream sink

namespace Machine

/-- Why a process cannot be started. -/
def startFault? (m : Machine) (i : Invocation) : Option SystemError :=
  let texts := i.command.argv ++ i.environment.toList.flatMap fun (name, value) => [name, value]
  if texts.any fun text => text.contains '\x00' then some .nulCharacter
  else
    let environment := m.environment.append i.environment
    let searchPath := (environment.get? "PATH").getD defaultSearchPath
    match Shell.findProgram m m.directory searchPath i.command.program with
    | .refused cause => some cause
    | _ => none

/-- Runs a process for so many milliseconds, or to its end. The result is how it has ended and what it has
left. -/
def execute (m : Machine) (i : Invocation) (budget : Option Nat) : Except Halt Nat × ScriptState :=
  let environment :=
    Shell.effectiveEnvironment (m.environment.append i.environment).toList
  let shell : ShellState := {
    directory := m.directory
    pid := scriptPid - 1
    stdout := targetOf .stdout i.stdout
    stderr := targetOf .stderr i.stderr }
  let start : ScriptState := { shell := shell, machine := m, budget := budget }
  Shell.runProgram scriptFuel 1 i.command.argv environment start

/-- The machine after the pumps of a process have come to the end of their streams. -/
def afterPumps (i : Invocation) (s : ScriptState) : Machine :=
  let closeStream (stream : OutputStream) (sink : Option OutputSink) (pumps : PumpPair) (o : Outputs) :
      PumpPair × Outputs :=
    match targetOf stream sink with
    | .piped stream sink => pumps.take sink stream .closed o
    | _ => (pumps, o)
  let (pumps, outputs) := closeStream .stdout i.stdout s.pumps s.machine.outputs
  let (_, outputs) := closeStream .stderr i.stderr pumps outputs
  { s.machine with outputs := outputs }

/-- How long a process lives, and how it ends. -/
def lifetimeOf (result : Except Halt Nat × ScriptState) : Lifetime :=
  match result with
  | (.ok status, s) => .ends s.clock (.exited status)
  | (.error (.exit status), s) => .ends s.clock (.exited status)
  | (.error .killed, s) => .ends s.clock .signalled
  | (.error _, _) => .endless

/-- Starts a process. -/
def start (i : Invocation) (m : Machine) : StartReply Machine × Machine :=
  match m.startFault? i with
  | some cause => (.refused (.start i.command.program cause), m)
  | none =>
    let process : RunningProcess Machine := {
      pid := some scriptPid
      lifetime := lifetimeOf (m.execute i none)
      effect := fun elapsed m => afterPumps i (m.execute i (some elapsed)).2 }
    (.started process, m)

/-- What answers a consultation of the container runtime. -/
def runtimePartner : Consultation.Partner Machine where
  answer call m := m.askRuntime call

/-- The machine as the collaborators of a step. Expressions are expanded from the given variables. -/
def collaborators (runtime : ContainerRuntime) (root : String) (variableOf : String → Option String)
    (environment : Bindings) : Collaborators Machine where
  expand := Expression.expand variableOf
  environment := environment.get?
  lookup stepId image secret m :=
    let (result, transcript, m) :=
      (ImageLookup.lookup runtime stepId image secret).carryOut runtimePartner {} m
    (⟨result, transcript.records⟩, m)
  start := start
  collect declarations stepId m :=
    let gathered := (Workspace.mk m.tree root).collect declarations stepId
    ({ result := gathered.value, records := gathered.records }, m)
  processStatus? _ := some "VmRSS: 1024 kB\n"

end Machine

end Sidecar.Host
