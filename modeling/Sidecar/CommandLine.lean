import Sidecar.Text.ShellWord

/-!
# Command lines

A program with its arguments. There is no command line without a program.
-/

namespace Sidecar

/-- A program and its arguments. -/
structure CommandLine where
  program : String
  args : List String
deriving DecidableEq, Repr, Inhabited

namespace CommandLine

/-- The command line of an argument vector, unless it is empty. -/
def ofArgv? : List String → Option CommandLine
  | [] => none
  | program :: args => some ⟨program, args⟩

/-- The argument vector, the program first. -/
def argv (c : CommandLine) : List String :=
  c.program :: c.args

/-- The command line as it is shown, its arguments quoted for a shell. -/
def display (c : CommandLine) : String :=
  Text.ShellWord.join c.argv

end CommandLine

end Sidecar
