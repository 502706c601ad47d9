import Sidecar.Cli.Arguments
import Sidecar.Host.Launcher
import Sidecar.Json.Printer
import Sidecar.Replay
import Sidecar.Settlement
import Sidecar.Step.Decode

/-!
# The program

What a call of the program does on a machine: it runs a step and prints the result, shows what a step would
execute, or writes completions for a shell. A failure is told on the standard error stream, with everything that
led to it.
-/

namespace Sidecar.Cli

open Host

/-- The name of the program. -/
def programName : String := "bgstep"

/-- The version of the program. -/
def version : String := "0.1.0"

/-- The variable that asks for failures to be told in full. -/
def verboseVariable : String := "BGSTEP_VERBOSE"

/-- A failure: what went wrong, and what led to it. -/
structure Failure where
  message : String
  sources : List String := []
deriving DecidableEq, Repr

namespace Failure

/-- A failure on one line. -/
def line (f : Failure) : String :=
  ": ".intercalate (f.message :: f.sources)

/-- A text whose lines but the first are indented. -/
def indented (first others text : String) : String :=
  first ++ ("\n" ++ others).intercalate (text.splitOn "\n")

/-- A failure in full: a cause by itself is only indented, several causes are numbered. -/
def report (f : Failure) : String :=
  match f.sources with
  | [] => f.message
  | [cause] => f.message ++ "\n\nCaused by:\n" ++ indented "    " "    " cause
  | causes =>
    let numbered := causes.zipIdx.map fun (cause, k) =>
      let number := toString k
      let blanks := String.ofList (List.replicate (5 - number.length) ' ')
      "\n" ++ indented (blanks ++ number ++ ": ") "       " cause
    f.message ++ "\n\nCaused by:" ++ String.join numbered

end Failure

/-- The standing of a call: its exit status and the machine, or a failure. -/
abbrev Outcome := Except Failure Nat × Machine

/-- Prints a text on the standard output of a machine. -/
def printOn (m : Machine) (text : String) : Machine :=
  { m with outputs := (m.outputs.write .stdout (Text.Utf8.encode text)).1 }

/-- Prints a text on the standard error stream of a machine. -/
def complainOn (m : Machine) (text : String) : Machine :=
  { m with outputs := (m.outputs.write .stderr (Text.Utf8.encode text)).1 }

/-- The configuration that a call names, or the default one. -/
def loadConfig (m : Machine) : Option String → Except Failure Config
  | none => .ok {}
  | some path =>
    match Config.ofFile path (m.readText path) with
    | .ok config => .ok config
    | .error e => .error ⟨"Invalid config: " ++ path, e.message :: e.sources⟩

/-- The step of a file. -/
def loadStep (m : Machine) (path : String) : Except Failure Step :=
  let unreadable (e : SystemError) : Except Failure Step :=
    .error ⟨"Failed to read step file: " ++ path, [e.text]⟩
  match m.readText path with
  | .error e => unreadable e
  | .ok bytes =>
    match Text.Utf8.decode? bytes with
    | none => unreadable .notText
    | some raw =>
      match Step.ofYaml? raw with
      | some step => .ok step
      | none => .error ⟨"Invalid step file: " ++ path, [DocumentError.malformed.message]⟩

/-- The sink for the output of a step: a file that is appended to, or the standard error stream. -/
def openOutput (m : Machine) : Option String → Except Failure (OutputSink × Machine)
  | none => .ok (.stderr, m)
  | some path =>
    match prepareFile m.tree m.directory path with
    | .error e => .error ⟨"Failed to open output file: " ++ path, [e.text]⟩
    | .ok (trail, tree) =>
      let outputs := { m.outputs with tree := tree }
      let (sink, outputs) := outputs.openFile trail .append
      .ok (sink, { m with outputs := outputs })

/-- The collaborators of a step on a machine. -/
def collaboratorsOf (m : Machine) (config : Config) : Collaborators Machine :=
  Machine.collaborators config.containerRuntime (pathOf m.directory) m.environment.get? m.environment

/-- Runs a step and prints the result. -/
def runStep (m : Machine) (config : Config) (file : String) (logMetrics : Bool)
    (output : Option String) : Outcome :=
  let opened : Except Failure (Step × OutputSink × Machine) := do
    let step ← loadStep m file
    return (step, ← openOutput m output)
  match opened with
  | .error failure => (.error failure, m)
  | .ok (step, sink, m) =>
    let c := collaboratorsOf m config
    let job : Job Machine := {
      step := step
      config := config
      collaborators := c
      sink := sink
      measures := logMetrics }
    let run := job.run m
    let after := c.replay run.returnedAt run.entries m
    let printed := printOn after (run.result.toJson.pretty ++ "\n")
    (.ok (if run.result.isSuccess then 0 else 1), printed)

/-- What a step would execute, as it is shown to people. -/
def planJson (step : Step) (plan : Resolution.Plan) : Json :=
  .record [
    ("command", .texts plan.command.argv),
    ("environment", .textRecord plan.environment.toList),
    ("step_id", .text step.id),
    ("strategy", .text plan.strategy.name)]

/-- Shows what a step would execute. -/
def showPlan (m : Machine) (config : Config) (file : String) : Outcome :=
  match loadStep m file with
  | .error failure => (.error failure, m)
  | .ok step =>
    let c := collaboratorsOf m config
    let course := ((Resolution.plan c config.imageSecretVariable step).run m).course 0
    match course.ending with
    | .finished _ (.ok plan, m) => (.ok 0, printOn m ((planJson step plan).pretty ++ "\n"))
    | .finished _ (.error e, m) => (.error ⟨e.message, e.sources⟩, m)
    | _ => (.ok 1, m)

/-- A script that completes the names of the commands in a shell. -/
def completionScript : CompletionShell → String
  | .bash => "complete -W \x22run resolve completions help\x22 " ++ programName ++ "\n"
  | .zsh => "#compdef " ++ programName ++ "\n_arguments \x221: :(run resolve completions help)\x22\n"
  | .fish => "complete -c " ++ programName ++ " -f -a \x22run resolve completions help\x22\n"
  | .powerShell =>
    "Register-ArgumentCompleter -Native -CommandName " ++ programName ++
      " -ScriptBlock \x7b 'run', 'resolve', 'completions', 'help' \x7d\n"

/-- Writes completions to a file or prints them. -/
def writeCompletions (m : Machine) (shell : CompletionShell) : Option String → Outcome
  | none => (.ok 0, printOn m (completionScript shell ++ "\n"))
  | some path =>
    match prepareFile m.tree m.directory path with
    | .error e => (.error ⟨"Failed to write completions to: " ++ path, [e.text]⟩, m)
    | .ok (trail, tree) =>
      let content := Text.Utf8.encode (completionScript shell)
      (.ok 0, m.withTree (tree.insert trail (.file content)))

/-- Carries out a call. -/
def carryOut (m : Machine) (call : Call) : Outcome :=
  match loadConfig m call.config with
  | .error failure => (.error failure, m)
  | .ok config =>
    match call.request with
    | .run file logMetrics output => runStep m config file logMetrics output
    | .resolve file => showPlan m config file
    | .completions shell output => writeCompletions m shell output

/-- A description of how the program is called. -/
def usage : String :=
  "Usage: " ++ programName ++ " [OPTIONS] <COMMAND>\n\n" ++
  "Commands:\n" ++
  "  run          Launch a background step and print its result summary\n" ++
  "  resolve      Show the command line a step would execute\n" ++
  "  completions  Generate shell completions\n" ++
  "  help         Print this message\n\n" ++
  "Options:\n" ++
  "  -c, --config <CONFIG>        Configuration file (YAML)\n" ++
  "      --log-level <LOG_LEVEL>  Log level\n" ++
  "  -h, --help                   Print help\n" ++
  "  -V, --version                Print version\n"

/-- Runs the program with its arguments. The result is the exit status and the machine it leaves. -/
def execute (m : Machine) (args : List String) : Nat × Machine :=
  match parse args with
  | .help => (0, printOn m usage)
  | .version => (0, printOn m (programName ++ " " ++ version ++ "\n"))
  | .usage => (2, complainOn m usage)
  | .call call =>
    match carryOut m call with
    | (.ok status, m) => (status, m)
    | (.error failure, m) =>
      let told := complainOn m ("Error: " ++ failure.line ++ "\n")
      let told := if (m.environment.get? verboseVariable).isSome then
          complainOn told (failure.report ++ "\n")
        else told
      (1, told)

end Sidecar.Cli
