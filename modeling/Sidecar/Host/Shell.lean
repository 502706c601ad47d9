import Sidecar.Glob.Walk
import Sidecar.Host.Machine
import Sidecar.Host.Program
import Sidecar.Host.Script
import Sidecar.Process.Pump
import Sidecar.Text.ShellWord

/-!
# Running scripts

What a shell does with a script on a machine. The two dialects differ in how they trace commands, in what
`echo` makes of backslashes, and in the wording of complaints.

Time passes only while a script sleeps. A script that is given a budget of time is stopped when the budget is
used up, and the machine is as the script has left it by then. Every step of the interpretation uses up fuel, so
a script that never ends is seen as endless.
-/

namespace Sidecar.Host

/-- The way a shell speaks. -/
inductive Dialect where
  | bash
  | plain
deriving DecidableEq, Repr, Inhabited

/-- Where output goes. -/
inductive Target where
  | nowhere
  | sink (sink : OutputSink)
  /-- Through a pump into a sink. -/
  | piped (stream : OutputStream) (sink : OutputSink)
deriving DecidableEq, Repr, Inhabited

/-- Why a script does not go on. -/
inductive Halt where
  | exit (status : Nat)
  /-- Back to the caller of a function. -/
  | back (status : Nat)
  /-- Out of so many loops. -/
  | leave (loops : Nat)
  /-- To the next round of a loop, so many loops further out. -/
  | again (loops : Nat)
  | killed
  /-- The time is over. -/
  | stopped
  | endless
deriving DecidableEq, Repr, Inhabited

/-- What belongs to one shell and is lost with it. -/
structure ShellState where
  dialect : Dialect := .plain
  /-- The name in complaints. -/
  name : String := "sh"
  parameters : List String := []
  functions : List (String × Script) := []
  settings : Bindings := ∅
  /-- What the variables of the current function had been before. -/
  shadowed : List (String × Option String) := []
  exported : List String := []
  status : Nat := 0
  /-- The status of the last script in a word of the current command. -/
  outputStatus : Option Nat := none
  directory : List String := []
  errorExit : Bool := false
  trace : Bool := false
  requireSet : Bool := false
  /-- What runs when the shell ends. -/
  lastWords : Option String := none
  /-- How many loops of the current function are running. -/
  loops : Nat := 0
  /-- How many functions are running. -/
  calls : Nat := 0
  /-- How deep scripts are nested in words. -/
  depth : Nat := 0
  /-- Whether another shell has started this one. -/
  nested : Bool := false
  pid : Nat := 100
  input : List UInt8 := []
  stdout : Target := .nowhere
  stderr : Target := .nowhere
deriving Inhabited

/-- The state of a script: its shell and the machine it runs on. -/
structure ScriptState where
  shell : ShellState := {}
  machine : Machine := {}
  /-- The milliseconds that have passed. -/
  clock : Nat := 0
  budget : Option Nat := none
  /-- When the last command in the background ends. -/
  jobsEnd : Nat := 0
  pumps : PumpPair := {}
deriving Inhabited

/-- What a script does. -/
abbrev Running := ExceptT Halt (StateM ScriptState)

namespace Shell

/-- The shell that runs. -/
def self : Running ShellState :=
  return (← get).shell

/-- Changes the shell that runs. -/
def change (f : ShellState → ShellState) : Running Unit :=
  modify fun s => { s with shell := f s.shell }

/-- Lets time pass, as long as there is some left. -/
def sleepFor (millis : Nat) : Running Unit := do
  let s ← get
  match s.budget with
  | none => set { s with clock := s.clock + millis }
  | some budget =>
    if s.clock + millis ≤ budget then set { s with clock := s.clock + millis }
    else
      set { s with clock := budget }
      throw .stopped

/-- Writes bytes to a target. -/
def emit (target : Target) (bytes : List UInt8) : Running Unit :=
  modify fun s =>
    match target with
    | .nowhere => s
    | .sink sink =>
      let (outputs, _) := s.machine.outputs.write sink bytes
      { s with machine := { s.machine with outputs := outputs } }
    | .piped stream sink =>
      let (pumps, outputs) := s.pumps.take sink stream (.piece bytes) s.machine.outputs
      { s with machine := { s.machine with outputs := outputs }, pumps := pumps }

/-- Whether a target takes output. -/
def isWritable (o : Outputs) : Target → Bool
  | .sink (.file number) => (o.handles[number]?.map (·.mode)) ≠ some .readOnly
  | _ => true

/-- Writes a text to the standard output. Tells whether it was taken. -/
def say (bytes : List UInt8) : Running Bool := do
  let s ← get
  if bytes.isEmpty then return true
  else if isWritable s.machine.outputs s.shell.stdout then
    emit s.shell.stdout bytes
    return true
  else return false

/-- Writes a text to the standard error stream. -/
def complain (bytes : List UInt8) : Running Unit := do
  if !bytes.isEmpty then emit (← self).stderr bytes

/-- Complains about a command in a line of a script. -/
def complainAt (line : Nat) (text : String) : Running Unit := do
  let shell ← self
  let place := match shell.dialect with
    | .bash => "line " ++ toString line
    | .plain => toString line
  complain (Program.bytes (shell.name ++ ": " ++ place ++ ": " ++ text ++ "\n"))

/-- The value of a variable. -/
def lookup (name : String) : Running (Option String) :=
  return (← self).settings.get? name

/-- Sets a variable. -/
def assign (name value : String) : Running Unit :=
  change fun s => { s with settings := s.settings.insert name value }

/-- Takes variables away. -/
def unset (names : List String) : Running Unit :=
  change fun s =>
    { s with settings :=
        Bindings.ofList (s.settings.toList.filter fun (name, _) => !names.contains name) }

/-- The variables that programs see. -/
def exportedVariables (s : ShellState) : Bindings :=
  Bindings.ofList (s.settings.toList.filter fun (name, _) => s.exported.contains name)

/-- Runs something in a shell of its own, which ends with it. The result is its status. -/
def subshell (x : Running Unit) : Running Nat := do
  let saved ← self
  change fun s => { s with lastWords := none }
  let status ← tryCatch (do x; return (← self).status) fun
    | .exit status => return status
    | .back status => return status
    | .leave _ | .again _ => return 0
    | halt => throw halt
  change fun _ => saved
  return status

/-- Runs a round of a loop. The result tells whether the loop goes on. -/
def inLoop (round : Running Bool) : Running Bool := do
  change fun s => { s with loops := s.loops + 1 }
  let outside : Running Unit := change fun s => { s with loops := s.loops - 1 }
  let goesOn ← tryCatch round fun
    | .leave (loops + 2) => do outside; throw (.leave (loops + 1))
    | .again (loops + 2) => do outside; throw (.again (loops + 1))
    | .leave _ => return false
    | .again _ => return true
    | halt => throw halt
  outside
  return goesOn

/-- Runs something with parameters of its own, as functions do. The result is its status. -/
def inFunction (parameters : List String) (x : Running Unit) : Running Nat := do
  let saved ← self
  change fun s =>
    { s with parameters := parameters, shadowed := [], loops := 0, calls := s.calls + 1 }
  let status ← tryCatch (do x; return (← self).status) fun
    | .back status => return status
    | halt => throw halt
  change fun s =>
    { s with
      settings := s.shadowed.foldl (fun b (name, value) =>
        match value with
        | some value => b.insert name value
        | none => Bindings.ofList (b.toList.filter (·.1 ≠ name))) s.settings
      parameters := saved.parameters
      shadowed := saved.shadowed
      loops := saved.loops
      calls := saved.calls }
  return status

/-- Runs something and gives its output. -/
def capture (x : Running Nat) : Running (List UInt8 × Nat) := do
  let saved ← self
  let s ← get
  let (sink, outputs) := s.machine.outputs.addWriter (.buffer [])
  set { s with machine := { s.machine with outputs := outputs } }
  change fun shell => { shell with stdout := .sink sink }
  let status ← x
  change fun shell => { shell with stdout := saved.stdout }
  match sink with
  | .writer number =>
    let content := ((← get).machine.outputs.writers[number]?.bind Writer.content?).getD []
    return (content, status)
  | _ => return ([], status)

/-! ## Tracing -/

/-- The characters that make a traced word be quoted. -/
def needsTraceQuotes (c : Char) : Bool :=
  " \t\n\x27\x22\\|&;()<>!\x7b\x7d*[?]^$\x60".toList.contains c

/-- A word as the dialect traces it. -/
def tracedWord (d : Dialect) (w : String) : String :=
  match d with
  | .plain => w
  | .bash =>
    if w = "" then "\x27\x27"
    else if w.toList.any needsTraceQuotes || w.startsWith "~" || w.startsWith "#" then
      if w = "\x27" then "\\\x27"
      else "\x27" ++ w.replace "\x27" "\x27\\\x27\x27" ++ "\x27"
    else w

/-- Traces a command. -/
def traceText (text : String) : Running Unit := do
  let shell ← self
  if shell.trace then
    let depth := if shell.dialect = .bash then shell.depth else 0
    let front := String.ofList (List.replicate (depth + 1) '+')
    complain (Program.bytes (front ++ " " ++ text ++ "\n"))

/-- Traces a command with the assignments in front of it. -/
def traceCommand (assignments : List (String × String)) (words : List String) : Running Unit := do
  let dialect := (← self).dialect
  let first := assignments.map fun (name, value) => name ++ "=" ++ tracedWord dialect value
  let second := words.map (tracedWord dialect)
  match dialect with
  | .bash =>
    for text in first do traceText text
    if !second.isEmpty then traceText (" ".intercalate second)
  | .plain =>
    if !(first ++ second).isEmpty then traceText (" ".intercalate (first ++ second))

/-! ## Expansion -/

/-- What the expansion of a part leads to. -/
inductive Piece where
  /-- Characters, each with a mark for those that are quoted. -/
  | chars (cs : List (Char × Bool))
  /-- Characters that are split at blanks. -/
  | split (cs : List Char)
  /-- A boundary between words. -/
  | boundary
deriving Repr

/-- Fields that are being built. -/
structure Fields where
  done : List (List (Char × Bool)) := []
  current : Option (List (Char × Bool)) := none

namespace Fields

/-- Ends the current field. -/
def close (f : Fields) : Fields :=
  match f.current with
  | none => f
  | some cs => { done := f.done ++ [cs] }

/-- Adds characters to the current field. -/
def add (f : Fields) (cs : List (Char × Bool)) : Fields :=
  { f with current := some ((f.current.getD []) ++ cs) }

/-- Adds a character that ends the field if it is a blank. -/
def addSplitting (f : Fields) (c : Char) : Fields :=
  if c = ' ' ∨ c = '\t' ∨ c = '\n' then f.close else f.add [(c, false)]

/-- Adds a piece. -/
def addPiece (f : Fields) : Piece → Fields
  | .chars cs => f.add cs
  | .split cs => cs.foldl addSplitting f
  | .boundary => f.close

end Fields

/-- The fields of the pieces of a word. -/
def fieldsOf (pieces : List Piece) : List (List (Char × Bool)) :=
  (pieces.foldl Fields.addPiece {}).close.done

/-- The text of a field. -/
def fieldText (cs : List (Char × Bool)) : String :=
  String.ofList (cs.map (·.1))

/-- Whether a character is a wildcard. -/
def isWildcard (c : Char) : Bool :=
  c == '*' || c == '?' || c == '['

/-- A field as a pattern: quoted wildcards are put into brackets. -/
def fieldPattern (cs : List (Char × Bool)) : String :=
  String.ofList (cs.flatMap fun (c, quoted) =>
    if quoted && (isWildcard c || c == ']') then ['[', c, ']'] else [c])

/-- The texts of a field after wildcards have been looked up. -/
def expandWildcards (tree : FileTree) (directory : List String) (cs : List (Char × Bool)) :
    List String :=
  let literal := [fieldText cs]
  if cs.any fun (c, quoted) => !quoted && isWildcard c then
    let raw := fieldPattern cs
    let start := if raw.startsWith "/" then "" else
      (if directory.isEmpty then "/" else pathOf directory ++ "/")
    match Glob.PathPattern.compile (Glob.AbsolutePath.top.join (start ++ raw)) with
    | .error _ => literal
    | .ok pattern =>
      let lastOf (s : String) : String := ((s.splitOn "/").getLast?).getD ""
      let found := (pattern.find tree).map fun p =>
        String.ofList (p.shown.toList.drop start.length)
      let found := found.filter fun s => (lastOf raw).startsWith "." || !(lastOf s).startsWith "."
      if found.isEmpty then literal else found
  else literal

/-- Whether a text matches a pattern of a selection or a trimming operator. -/
def matchesPattern (pattern : String) (text : List Char) : Bool :=
  match Glob.compile pattern with
  | .error _ => pattern.toList == text
  | .ok tokens => Glob.matchesAll tokens text

/-- All ways to split a text in two. -/
def splits (cs : List Char) : List (List Char × List Char) :=
  (List.range (cs.length + 1)).map fun k => (cs.take k, cs.drop k)

/-- Takes a part that matches a pattern away from the front or the end of a text. -/
def trimPattern (operator pattern text : String) : String :=
  let cs : List (List Char × List Char) := splits text.toList
  let found : Option (List Char) := match operator with
    | "#" => (cs.find? fun (a, _) => matchesPattern pattern a).map (·.2)
    | "##" => (cs.reverse.find? fun (a, _) => matchesPattern pattern a).map (·.2)
    | "%" => (cs.reverse.find? fun (_, b) => matchesPattern pattern b).map (·.1)
    | _ => (cs.find? fun (_, b) => matchesPattern pattern b).map (·.1)
  (found.map String.ofList).getD text

/-- The value of a parameter, if it is set. -/
def parameterValue (name : String) : Running (Option String) := do
  let shell ← self
  match name with
  | "?" => return some (toString shell.status)
  | "#" => return some (toString shell.parameters.length)
  | "$" => return some (toString shell.pid)
  | "!" => return some ""
  | "-" => return some ((if shell.errorExit then "e" else "") ++ (if shell.trace then "x" else ""))
  | "0" => return some shell.name
  | "@" | "*" =>
    return if shell.parameters.isEmpty then none else some (" ".intercalate shell.parameters)
  | name =>
    match name.toNat? with
    | some n => return shell.parameters[n - 1]?
    | none =>
      if name = "PWD" then return some (pathOf shell.directory)
      return shell.settings.get? name

/-! ## Arithmetic -/

/-- The tokens of an arithmetic expression. -/
def arithmeticTokens : Nat → List Char → List String
  | 0, _ => []
  | _, [] => []
  | fuel + 1, c :: rest =>
    if c = ' ' ∨ c = '\n' ∨ c = '\t' ∨ c = '$' then arithmeticTokens fuel rest
    else if Script.isNameChar c then
      let (word, rest) := (c :: rest).span Script.isNameChar
      String.ofList word :: arithmeticTokens fuel rest
    else
      match ["<=", ">=", "==", "!=", "&&", "||"].find? fun op => op.toList.isPrefixOf (c :: rest) with
      | some op => op :: arithmeticTokens fuel (rest.drop 1)
      | none => c.toString :: arithmeticTokens fuel rest

/-- The strength of an operator. -/
def operatorLevel? : String → Option Nat
  | "||" => some 1
  | "&&" => some 2
  | "==" | "!=" => some 3
  | "<" | ">" | "<=" | ">=" => some 4
  | "+" | "-" => some 5
  | "*" | "/" | "%" => some 6
  | _ => none

/-- The result of an operator. -/
def operate? (op : String) (a b : Int) : Option Int :=
  let truth (t : Bool) : Option Int := some (if t then 1 else 0)
  match op with
  | "+" => some (a + b)
  | "-" => some (a - b)
  | "*" => some (a * b)
  | "/" => if b = 0 then none else some (a.tdiv b)
  | "%" => if b = 0 then none else some (a.tmod b)
  | "==" => truth (a == b)
  | "!=" => truth (a != b)
  | "<" => truth (a < b)
  | ">" => truth (a > b)
  | "<=" => truth (a ≤ b)
  | ">=" => truth (a ≥ b)
  | "&&" => truth (a ≠ 0 && b ≠ 0)
  | "||" => truth (a ≠ 0 || b ≠ 0)
  | _ => none

mutual

/-- The value of an operand. -/
def operand? (value : String → Int) : Nat → List String → Option (Int × List String)
  | 0, _ => none
  | fuel + 1, "-" :: rest => (operand? value fuel rest).map fun (n, rest) => (-n, rest)
  | fuel + 1, "+" :: rest => operand? value fuel rest
  | fuel + 1, "!" :: rest =>
    (operand? value fuel rest).map fun (n, rest) => (if n = 0 then 1 else 0, rest)
  | fuel + 1, "(" :: rest =>
    match arithmetic? value fuel 1 rest with
    | some (n, ")" :: rest) => some (n, rest)
    | _ => none
  | _, word :: rest =>
    match word.toList with
    | c :: _ =>
      if c.isDigit then word.toNat?.map fun n => ((n : Int), rest)
      else if Script.isNameStart c then some (value word, rest)
      else none
    | [] => none
  | _, [] => none

/-- The value of an expression whose operators have at least a certain strength. -/
def arithmetic? (value : String → Int) : Nat → Nat → List String → Option (Int × List String)
  | 0, _, _ => none
  | fuel + 1, level, tokens => do
    let (n, rest) ← operand? value fuel tokens
    arithmeticRest? value fuel level n rest

/-- Goes on with the operators behind a value. -/
def arithmeticRest? (value : String → Int) : Nat → Nat → Int → List String → Option (Int × List String)
  | 0, _, _, _ => none
  | fuel + 1, level, n, op :: rest =>
    match operatorLevel? op with
    | some found =>
      if found < level then some (n, op :: rest)
      else do
        let (m, rest) ← arithmetic? value fuel (found + 1) rest
        arithmeticRest? value fuel level (← operate? op n m) rest
    | none => some (n, op :: rest)
  | _, _, n, [] => some (n, [])

end

/-! ## Arguments of commands -/

/-- Reads a duration of `sleep`, in milliseconds. -/
def durationMillis? (s : String) : Option Nat :=
  let cs := s.toList
  let (number, unit) := cs.span fun c => c.isDigit || c == '.'
  let (whole, fraction) := number.span Char.isDigit
  let digits := (fraction.drop 1).take 3
  let millis := Nat.ofDigitChars 10 whole 0 * 1000 +
    Nat.ofDigitChars 10 digits 0 * Nat.pow 10 (3 - digits.length)
  match unit with
  | [] | ['s'] => if number.isEmpty then none else some millis
  | ['m'] => some (millis * 60)
  | ['h'] => some (millis * 3600)
  | _ => none

/-- Sleeps as long as the arguments say. -/
def sleepAll (args : List String) : Running Nat := do
  if args.any fun a => a = "infinity" || a = "inf" then throw .endless
  match args.mapM durationMillis? with
  | some durations =>
    if durations.isEmpty then
      complain (Program.bytes "sleep: missing operand\n")
      return 1
    sleepFor (durations.foldr Nat.add 0)
    return 0
  | none =>
    complain (Program.bytes "sleep: invalid time interval\n")
    return 1

/-- Turns options of a shell on and off. The result is the arguments behind them. -/
def setOptions : List String → Running (Option (List String))
  | [] => return none
  | "--" :: rest => return some rest
  | "-o" :: _ :: rest | "+o" :: _ :: rest => setOptions rest
  | arg :: rest => do
    let on := arg.startsWith "-"
    if (on || arg.startsWith "+") && arg.length > 1 then
      for c in arg.toList.drop 1 do
        match c with
        | 'e' => change fun s => { s with errorExit := on }
        | 'x' => change fun s => { s with trace := on }
        | 'u' => change fun s => { s with requireSet := on }
        | _ => pure ()
      setOptions rest
    else return some (arg :: rest)

/-- Splits a setting of a variable. -/
def setting? (s : String) : Option (String × String) :=
  match s.toList.span (· ≠ '=') with
  | (name, '=' :: value) => some (String.ofList name, String.ofList value)
  | _ => none

/-- The environment that a program gets. A name may contain an equals sign; it ends there. -/
def effectiveEnvironment (entries : List (String × String)) : Bindings :=
  Bindings.ofList (entries.filterMap fun (name, value) =>
    match setting? (name ++ "=" ++ value) with
    | some ("", _) => none
    | some entry => some entry
    | none => none)

/-- The commands that a shell runs itself. -/
def builtins : List String :=
  [":", "exit", "cd", "set", "export", "unset", "shift", "eval", "exec", "kill", "read", "wait", "trap",
    "umask", ".", "return", "command", "readonly", "local", "break", "continue"]

/-- Whether a program is found in a search path. -/
def inSearchPath (path : String) : Bool :=
  (path.splitOn ":").any Machine.programDirectories.contains

/-- Programs that a machine has besides the ordinary ones. -/
def specialPrograms : List String :=
  ["sh", "dash", "bash", "env", "sleep", "timeout", "nohup", "kill"]

/-- What a name of a program leads to. -/
inductive Found where
  | program (name : String)
  | runtime
  | refused (cause : SystemError)
deriving Repr

/-- Finds a program. -/
def findProgram (m : Machine) (directory : List String) (searchPath name : String) : Found :=
  let known (name : String) : Option Found :=
    if (Program.find? name).isSome || specialPrograms.contains name then some (.program name)
    else if (name = "docker" || name = "podman") && !m.runtimeAnswers.isEmpty then some .runtime
    else none
  if name = "" then .refused .notFound
  else if name.contains '/' then
    let trail := placeFrom directory name
    match m.tree.get? trail with
    | some _ => .refused .permissionDenied
    | none =>
      let above := pathOf trail.dropLast
      if Machine.programDirectories.contains above then
        (known (trail.getLast?.getD "")).getD (.refused .notFound)
      else .refused (missing m.tree trail)
  else if inSearchPath searchPath then (known name).getD (.refused .notFound)
  else .refused .notFound

/-- Runs an ordinary program. -/
def runOrdinary (name : String) (p : ProgramInput → ProgramResult) (args : List String)
    (environment : Bindings) : Running Nat := do
  let s ← get
  let r := p {
    args := args
    environment := environment
    input := s.shell.input
    directory := s.shell.directory
    tree := s.machine.tree }
  modify fun s => { s with machine := s.machine.withTree r.tree }
  let taken ← say r.output
  complain r.complaint
  if !taken then
    complain (Program.bytes (name ++ ": write error: Bad file descriptor\n"))
    return 1
  return r.status

/-- Opens a file for output. -/
def openTarget (append : Bool) (path : String) : Running (Except SystemError Target) := do
  let s ← get
  let trail := placeFrom s.shell.directory path
  if trail = ["dev", "null"] then return .ok .nowhere
  if trail = ["dev", "stdout"] then return .ok s.shell.stdout
  if trail = ["dev", "stderr"] then return .ok s.shell.stderr
  match prepareFile s.machine.tree s.shell.directory path with
  | .error e => return .error e
  | .ok (trail, tree) =>
    let tree := if append then tree else tree.insert trail (.file [])
    let outputs := { s.machine.outputs with tree := tree }
    let (sink, outputs) := outputs.openFile trail (if append then .append else .at 0)
    set { s with machine := { s.machine with outputs := outputs } }
    return .ok (.sink sink)

/-- The complaint about a redirection. -/
def redirectComplaint (d : Dialect) (reading : Bool) (path : String) (e : SystemError) : String :=
  match d with
  | .bash => path ++ ": " ++ plainReason e
  | .plain =>
    if reading then "cannot open " ++ path ++ ": No such file"
    else "cannot create " ++ path ++ ": " ++
      (if e = .notFound then "Directory nonexistent" else plainReason e)

mutual

/-- The pieces that a word expands to. -/
def expandParts : Nat → Word → Running (List Piece)
  | 0, _ => throw .endless
  | _, [] => return []
  | fuel + 1, part :: rest => do
    let pieces ← match part with
      | .text cs quoted => pure [Piece.chars (cs.map fun c => (c, quoted))]
      | .parameter name operator argument quoted => expandParameter fuel name operator argument quoted
      | .output script quoted => do
        let saved ← self
        change fun s => { s with depth := s.depth + 1 }
        let (content, status) ← capture (subshell (toTheEnd fuel (runText fuel script)))
        change fun s => { s with depth := saved.depth, outputStatus := some status }
        let text := (Text.Utf8.decodeLossy content).toList
        let text := (text.reverse.dropWhile (· = '\n')).reverse
        pure [if quoted then Piece.chars (text.map fun c => (c, true)) else .split text]
      | .arithmetic expression quoted => do
        let settings := (← self).settings
        let value (name : String) : Int := Program.leadingInt ((settings.get? name).getD "0")
        let text ← match Script.templateOf expression with
          | some template => do pure ((fieldsOf (← expandParts fuel template)).map fieldText)
          | none => pure [String.ofList expression]
        let expression := (String.join text).toList
        let tokens := arithmeticTokens (expression.length + 1) expression
        match arithmetic? value (4 * tokens.length + 4) 1 tokens with
        | some (n, []) =>
          let cs := (toString n).toList
          pure [if quoted then Piece.chars (cs.map fun c => (c, true)) else .split cs]
        | _ =>
          complainAt 1 "arithmetic expression: expecting primary"
          throw (.exit 2)
    return pieces ++ (← expandParts fuel rest)

/-- The pieces that a parameter expands to. -/
def expandParameter : Nat → String → String → List Char → Bool → Running (List Piece)
  | 0, _, _, _, _ => throw .endless
  | fuel + 1, name, operator, argument, quoted => do
    let shell ← self
    let value ← parameterValue name
    let shown (text : String) : List Piece :=
      [if quoted then Piece.chars (text.toList.map fun c => (c, true)) else .split text.toList]
    let useArgument : Running (List Piece) := do
      let unquoted := argument.filter (· ≠ Script.doubleQuote)
      match (if quoted then Script.templateOf unquoted else (Script.word? argument).map (·.1)) with
      | some w =>
        let w := if quoted then w else
          (if argument.any Script.endsWord then ((Script.templateOf argument).getD w) else w)
        expandParts fuel w
      | none => return shown (String.ofList argument)
    let argumentText : Running String := do
      let pieces ← match Script.templateOf argument with
        | some w => expandParts fuel w
        | none => pure []
      return String.join ((fieldsOf pieces).map fieldText)
    if (name = "@" ∨ (name = "*" ∧ !quoted)) ∧ operator = "" then
      let each := shell.parameters.map shown
      return (each.intersperse [.boundary]).flatten
    let isNull := match value with
      | none => true
      | some text => operator.startsWith ":" && text = ""
    match operator with
    | "length" => return shown (toString (value.getD "").length)
    | "-" | ":-" => if isNull then useArgument else return shown (value.getD "")
    | "=" | ":=" =>
      if isNull then
        let text ← argumentText
        assign name text
        return shown text
      else return shown (value.getD "")
    | "+" | ":+" => if isNull then return [] else useArgument
    | "?" | ":?" =>
      if isNull then
        let text ← argumentText
        complainAt 1 (name ++ ": " ++ (if text = "" then "parameter not set" else text))
        throw (.exit (if shell.dialect = .bash then 127 else 2))
      else return shown (value.getD "")
    | "#" | "##" | "%" | "%%" =>
      return shown (trimPattern operator (← argumentText) (value.getD ""))
    | _ =>
      match value with
      | some text => return shown text
      | none =>
        if shell.requireSet && name ≠ "@" && name ≠ "*" then
          complainAt 1 (name ++ (if shell.dialect = .bash then ": unbound variable"
            else ": parameter not set"))
          throw (.exit (if shell.dialect = .bash then 127 else 2))
        else return shown ""

/-- The words that a word expands to. -/
def expandWord : Nat → Word → Running (List String)
  | 0, _ => throw .endless
  | fuel + 1, w => do
    let fields := fieldsOf (← expandParts fuel w)
    let s ← get
    return fields.flatMap (expandWildcards s.machine.tree s.shell.directory)

/-- The text that a word expands to where it is not split. -/
def expandText : Nat → Word → Running String
  | 0, _ => throw .endless
  | fuel + 1, w => do
    let pieces ← expandParts fuel w
    let text := pieces.flatMap fun
      | .chars cs => cs.map (·.1)
      | .split cs => cs
      | .boundary => [' ']
    return String.ofList text

/-- The words that several words expand to. -/
def expandWords : Nat → List Word → Running (List String)
  | 0, _ => throw .endless
  | _, [] => return []
  | fuel + 1, w :: ws => do
    let first ← expandWord fuel w
    return first ++ (← expandWords fuel ws)

/-- Expands and carries out assignments, each of which may use the ones before. -/
def assignEach : Nat → List (String × Word) → Running (List (String × String))
  | 0, _ => throw .endless
  | _, [] => return []
  | fuel + 1, (name, w) :: rest => do
    let value ← expandText fuel w
    assign name value
    return (name, value) :: (← assignEach fuel rest)

/-- Carries out redirections. The result tells whether all of them succeeded. -/
def applyRedirects : Nat → Nat → List Redirect → Running Bool
  | 0, _, _ => throw .endless
  | _, _, [] => return true
  | fuel + 1, line, r :: rest => do
    let path ← expandText fuel r.target
    let shell ← self
    let place (target : Target) : Running Unit :=
      change fun s => if r.descriptor = 2 then { s with stderr := target }
        else if r.descriptor = 1 then { s with stdout := target } else s
    let refuse (reading : Bool) (e : SystemError) : Running Bool := do
      complainAt line (redirectComplaint shell.dialect reading path e)
      return false
    match r.kind with
    | .here =>
      change fun s => { s with input := Program.bytes path }
      applyRedirects fuel line rest
    | .read =>
      match readFile (← get).machine.tree shell.directory path with
      | .ok content =>
        change fun s => { s with input := content }
        applyRedirects fuel line rest
      | .error e => refuse true e
    | .duplicate =>
      if path = "1" then place shell.stdout
      else if path = "2" then place shell.stderr
      else place .nowhere
      applyRedirects fuel line rest
    | .write =>
      match ← openTarget false path with
      | .ok target =>
        place target
        applyRedirects fuel line rest
      | .error e => refuse false e
    | .append =>
      match ← openTarget true path with
      | .ok target =>
        place target
        applyRedirects fuel line rest
      | .error e => refuse false e

/-- Runs a program. -/
def runProgram : Nat → Nat → List String → Bindings → Running Nat
  | 0, _, _, _ => throw .endless
  | _, _, [], _ => return 0
  | fuel + 1, line, name :: args, environment => do
    let s ← get
    let searchPath := (environment.get? "PATH").getD Machine.defaultSearchPath
    match findProgram s.machine s.shell.directory searchPath name with
    | .refused cause =>
      let hasSlash := name.contains '/'
      let text := if cause = .permissionDenied then plainReason cause
        else if s.shell.dialect = .bash then
          (if hasSlash then plainReason cause else "command not found")
        else "not found"
      complainAt line (name ++ ": " ++ text)
      return if cause = .permissionDenied then 126 else 127
    | .runtime =>
      match s.machine.askRuntime ⟨name :: args, none⟩ with
      | (.error _, _) => return 127
      | (.ok output, machine) =>
        set { s with machine := machine }
        let _ ← say output.stdout
        complain output.stderr
        return (output.exit.map Int.toNat).getD 137
    | .program found => runFound fuel found name args environment

/-- Runs a program that has been found. It knows the name that it was called by. -/
def runFound : Nat → String → String → List String → Bindings → Running Nat
  | 0, _, _, _, _ => throw .endless
  | fuel + 1, name, calledBy, args, environment => do
    match name with
    | "sleep" => sleepAll args
    | "sh" | "dash" => runShell fuel .plain calledBy args environment
    | "bash" => runShell fuel .bash calledBy args environment
    | "env" => runEnv fuel args environment
    | "nohup" => runProgram fuel 1 args environment
    | "kill" =>
      complain (Program.bytes "kill: no such process\n")
      return 1
    | "timeout" =>
      match args with
      | limit :: command =>
        let s ← get
        let last := s.clock + (durationMillis? limit).getD 0
        let bound := match s.budget with
          | none => last
          | some budget => min budget last
        set { s with budget := some bound }
        let ended ← tryCatch (some <$> runProgram fuel 1 command environment) fun
          | .stopped => return none
          | .endless => do
            modify fun now => { now with clock := bound }
            return none
          | halt => throw halt
        modify fun now => { now with budget := s.budget }
        match ended with
        | some status => return status
        | none => if bound < last then throw .stopped else return 124
      | [] => return 125
    | name =>
      match Program.find? name with
      | some p => runOrdinary name p args environment
      | none => return 127

/-- Runs a program in a changed environment. -/
def runEnv : Nat → List String → Bindings → Running Nat
  | 0, _, _ => throw .endless
  | fuel + 1, args, environment =>
    match args with
    | "-i" :: rest | "-" :: rest => runEnv fuel rest ∅
    | "-u" :: name :: rest =>
      runEnv fuel rest (Bindings.ofList (environment.toList.filter (·.1 ≠ name)))
    | "--" :: rest => runEnv fuel rest environment
    | [] => runOrdinary "env" Program.printenv [] environment
    | arg :: rest =>
      match setting? arg with
      | some (name, value) => runEnv fuel rest (environment.insert name value)
      | none => do
        let s ← get
        let searchPath := (environment.get? "PATH").getD Machine.defaultSearchPath
        match findProgram s.machine s.shell.directory searchPath arg with
        | .refused cause =>
          complain (Program.bytes ("env: \x27" ++ arg ++ "\x27: " ++ plainReason cause ++ "\n"))
          return if cause = .permissionDenied then 126 else 127
        | _ => runProgram fuel 1 (arg :: rest) environment

/-- Runs a shell as a program. -/
def runShell : Nat → Dialect → String → List String → Bindings → Running Nat
  | 0, _, _, _, _ => throw .endless
  | fuel + 1, dialect, name, args, environment => do
    let saved ← self
    let (flags, rest) := args.span fun a => a.startsWith "-" && a.length > 1 && a ≠ "--"
    let letters := flags.flatMap fun a => a.toList.drop 1
    let fresh : ShellState :=
      { saved with
        dialect := dialect
        name := name
        parameters := []
        functions := []
        settings := environment
        shadowed := []
        loops := 0
        calls := 0
        exported := environment.names
        status := 0
        errorExit := letters.contains 'e'
        trace := letters.contains 'x'
        requireSet := letters.contains 'u'
        depth := 0
        nested := true
        pid := saved.pid + 1 }
    let rest := if rest.head? = some "--" then rest.drop 1 else rest
    let start (name : String) (parameters : List String) (text : List Char) : Running Nat := do
      change fun _ => { fresh with name := name, parameters := parameters }
      let status ← tryCatch (subshell (toTheEnd fuel (runText fuel text))) fun
        | .killed => if saved.nested then return 137 else throw .killed
        | halt => throw halt
      change fun _ => saved
      return status
    if letters.contains 'c' then
      match rest with
      | script :: zero :: parameters => start zero parameters script.toList
      | [script] => start name [] script.toList
      | [] =>
        complain (Program.bytes (name ++ ": 0: -c requires an argument\n"))
        return 2
    else
      match rest with
      | path :: parameters =>
        match readFile (← get).machine.tree saved.directory path with
        | .ok content => start path parameters (Text.Utf8.decodeLossy content).toList
        | .error _ =>
          let text := if dialect = .bash then path ++ ": No such file or directory"
            else "0: cannot open " ++ path ++ ": No such file"
          complain (Program.bytes (name ++ ": " ++ text ++ "\n"))
          return if dialect = .bash then 127 else 2
      | [] => start name [] (Text.Utf8.decodeLossy saved.input).toList

/-- Runs something and then what the shell does when it ends. -/
def toTheEnd : Nat → Running Unit → Running Unit
  | 0, _ => throw .endless
  | fuel + 1, x => do
    let status ← tryCatch (do x; return (← self).status) fun
      | .exit status => return status
      | .back status => return status
      | halt => throw halt
    match (← self).lastWords with
    | some text =>
      change fun s => { s with lastWords := none, status := status }
      runText fuel text.toList
    | none => pure ()
    throw (.exit status)

/-- Runs the text of a script. -/
def runText : Nat → List Char → Running Unit
  | 0, _ => throw .endless
  | fuel + 1, text => do
    match Script.ofText? text with
    | some script => run fuel false script
    | none =>
      complainAt 1 "Syntax error"
      throw (.exit 2)

/-- Runs a command that the shell runs itself. -/
def runBuiltin : Nat → Bool → Nat → String → List String → Running Nat
  | 0, _, _, _, _ => throw .endless
  | fuel + 1, guarded, line, name, args => do
    let shell ← self
    match name with
    | "exit" | "return" =>
      let inside := shell.calls > 0
      if name = "return" && shell.dialect = .bash && !inside then
        complainAt line "return: can only \x60return\x27 from a function or sourced script"
        return 2
      let finish (status : Nat) : Running Nat :=
        if name = "return" && inside then throw (.back status) else throw (.exit status)
      match args, shell.dialect with
      | [], _ => finish shell.status
      | n :: _, .plain =>
        match n.toNat? with
        | some status => finish (status % 256)
        | none =>
          complainAt line (name ++ ": Illegal number: " ++ n)
          throw (.exit 2)
      | n :: _, .bash =>
        match n.toInt? with
        | some status => finish (status % 256).toNat
        | none =>
          complainAt line (name ++ ": " ++ n ++ ": numeric argument required")
          finish 2
    | "break" | "continue" =>
      let loops := min shell.loops (((args.head?).bind String.toNat?).getD 1)
      if loops = 0 then
        if shell.dialect = .bash then
          complainAt line
            (name ++ ": only meaningful in a \x60for\x27, \x60while\x27, or \x60until\x27 loop")
        return 0
      else if name = "break" then throw (.leave loops)
      else throw (.again loops)
    | "trap" =>
      match args with
      | [action, condition] =>
        if condition = "EXIT" || condition = "0" then
          change fun s => { s with lastWords := if action = "-" then none else some action }
      | _ => pure ()
      return 0
    | "cd" =>
      let path := (args.head?).getD ((shell.settings.get? "HOME").getD "/")
      let trail := placeFrom shell.directory path
      if (((← get).machine.tree.get? trail).map FileTree.isDir).getD false then
        change fun s => { s with directory := trail }
        return 0
      else
        let text := if shell.dialect = .bash then path ++ ": No such file or directory"
          else "can\x27t cd to " ++ path
        complainAt line ("cd: " ++ text)
        return if shell.dialect = .bash then 1 else 2
    | "set" =>
      match ← setOptions args with
      | some parameters => change fun s => { s with parameters := parameters }
      | none => pure ()
      return 0
    | "export" | "readonly" =>
      for arg in args do
        match setting? arg with
        | some (target, value) =>
          if shell.dialect = .bash then traceText (target ++ "=" ++ tracedWord .bash value)
          assign target value
          change fun s => { s with exported := s.exported ++ [target] }
        | none => change fun s => { s with exported := s.exported ++ [arg] }
      return 0
    | "local" =>
      if shell.calls = 0 then
        complainAt line ("local: " ++
          (if shell.dialect = .bash then "can only be used in a function" else "not in a function"))
        if shell.dialect = .bash then return 1 else throw (.exit 2)
      for arg in args do
        let (target, value) := (setting? arg).getD (arg, "")
        change fun s => { s with shadowed := (target, s.settings.get? target) :: s.shadowed }
        assign target value
      return 0
    | "unset" =>
      unset args
      return 0
    | "shift" =>
      let n := ((args.head?).bind String.toNat?).getD 1
      change fun s => { s with parameters := s.parameters.drop n }
      return 0
    | "eval" =>
      match Script.ofText? (" ".intercalate args).toList with
      | some script =>
        run fuel guarded script
        return (← self).status
      | none =>
        complainAt line "Syntax error"
        throw (.exit 2)
    | "." =>
      match readFile (← get).machine.tree shell.directory ((args.head?).getD "") with
      | .ok content =>
        match Script.ofText? (Text.Utf8.decodeLossy content).toList with
        | some script => inFunction shell.parameters (run fuel guarded script)
        | none => throw (.exit 2)
      | .error _ =>
        complainAt line (".: cannot open " ++ (args.head?).getD "")
        throw (.exit 2)
    | "exec" =>
      if args.isEmpty then return 0
      let status ← runProgram fuel line args (exportedVariables shell)
      throw (.exit status)
    | "command" => runProgram fuel line args (exportedVariables shell)
    | "kill" =>
      let targets := args.filter fun a => !a.startsWith "-" && a ≠ "KILL" && a ≠ "TERM" && a ≠ "9"
      if targets.contains (toString shell.pid) && !args.contains "-0" then throw .killed
      else if args.contains "-0" && targets = [toString shell.pid] then return 0
      else
        complainAt line "kill: No such process"
        return 1
    | "read" =>
      let names := args.filter (· ≠ "-r")
      match Program.byteLines shell.input with
      | [] => return 1
      | first :: rest =>
        change fun s => { s with input := rest.flatten }
        let text := Text.Utf8.decodeLossy (Program.withoutEnd first)
        match names with
        | [] => assign "REPLY" text
        | [name] => assign name (text.trimAscii.toString)
        | _ =>
          let words := (text.splitOn " ").filter (· ≠ "")
          let count := names.length - 1
          for (name, k) in names.zipIdx do
            let value := if k < count then (words[k]?).getD ""
              else " ".intercalate (words.drop count)
            assign name value
        return if first.getLast? = some 10 then 0 else 1
    | "wait" =>
      let s ← get
      sleepFor (s.jobsEnd - s.clock)
      return 0
    | _ => return 0

/-- Runs a command with its arguments. -/
def runWords : Nat → Bool → Nat → List (String × String) → List String → Running Nat
  | 0, _, _, _, _ => throw .endless
  | _, _, _, _, [] => return 0
  | fuel + 1, guarded, line, assignments, name :: args => do
    if let some (_, body) := (← self).functions.find? fun f => f.1 = name then
      let settings := (← self).settings
      for (n, v) in assignments do assign n v
      let status ← inFunction args (run fuel guarded body)
      for (n, _) in assignments do
        match settings.get? n with
        | some v => assign n v
        | none => unset [n]
      return status
    else if builtins.contains name then
      for (n, v) in assignments do assign n v
      runBuiltin fuel guarded line name args
    else
      let shell ← self
      let environment := assignments.foldl (fun b (n, v) => b.insert n v) (exportedVariables shell)
      if name = "echo" then runOrdinary name (Program.echo (shell.dialect = .plain)) args environment
      else if name = "[[" && shell.dialect = .bash then runOrdinary name Program.test args.dropLast environment
      else if name = "printf" ∨ name = "test" ∨ name = "[" ∨ name = "true" ∨ name = "false" ∨ name = "pwd" then
        runFound fuel name name args environment
      else runProgram fuel line (name :: args) environment

/-- Runs a script. A failure of a guarded script is looked at by the script around it, and never ends the
shell. -/
def run : Nat → Bool → Script → Running Unit
  | 0, _, _ => throw .endless
  | fuel + 1, guarded, script => do
    let finish (status : Nat) : Running Unit := do
      change fun s => { s with status := status }
      if status ≠ 0 && !guarded && (← self).errorExit then throw (.exit status)
    match script with
    | .nothing => pure ()
    | .simple command =>
      change fun s => { s with outputStatus := none }
      let words ← expandWords fuel command.words
      let settings := (← self).settings
      let assignments ← assignEach fuel command.assignments
      if !words.isEmpty then change fun s => { s with settings := settings }
      let before ← self
      traceCommand assignments words
      let opened ← applyRedirects fuel command.line command.redirects
      let permanent := words = ["exec"]
      let status ←
        if !opened then pure (if before.dialect = .bash then 1 else 2)
        else if words.isEmpty then pure (before.outputStatus.getD 0)
        else runWords fuel guarded command.line assignments words
      if !permanent then
        change fun s =>
          { s with
            stdout := before.stdout
            stderr := before.stderr
            input := if command.redirects.any fun r => r.descriptor = 0 then before.input
              else if words.head? = some "read" then s.input
              else if words.head? = some "cat" then [] else s.input }
      finish status
    | .pipe first second =>
      let (content, _) ← capture (subshell (run fuel guarded first))
      let status ← subshell do
        change fun s => { s with input := content }
        run fuel guarded second
      finish status
    | .negate script =>
      run fuel true script
      change fun s => { s with status := if s.status = 0 then 1 else 0 }
    | .andThen first second =>
      run fuel true first
      if (← self).status = 0 then run fuel guarded second
    | .orElse first second =>
      run fuel true first
      if (← self).status ≠ 0 then run fuel guarded second
    | .sequence first second =>
      run fuel guarded first
      run fuel guarded second
    | .background script =>
      let start := (← get).clock
      let _ ← tryCatch (subshell (run fuel guarded script)) fun
        | .killed => throw .killed
        | .exit status => return status
        | _ => return 0
      modify fun s => { s with clock := start, jobsEnd := max s.jobsEnd s.clock }
      change fun s => { s with status := 0 }
    | .subshell script =>
      let status ← subshell (toTheEnd fuel (run fuel guarded script))
      finish status
    | .redirected line script redirects =>
      let before ← self
      if ← applyRedirects fuel line redirects then
        run fuel guarded script
        change fun s =>
          { s with
            stdout := before.stdout
            stderr := before.stderr
            input := if redirects.any fun r => r.descriptor = 0 then before.input else s.input }
      else
        change fun s => { s with stdout := before.stdout, stderr := before.stderr, input := before.input }
        finish (if before.dialect = .bash then 1 else 2)
    | .branch condition yes no =>
      run fuel true condition
      if (← self).status = 0 then
        run fuel guarded yes
      else
        change fun s => { s with status := 0 }
        run fuel guarded no
    | .define name body =>
      change fun s =>
        { s with functions := (name, body) :: s.functions.filter (·.1 ≠ name), status := 0 }
    | .loop whileSuccess condition body =>
      let last := (← self).status
      let goesOn ← inLoop do
        run fuel true condition
        if ((← self).status = 0) = whileSuccess then
          run fuel guarded body
          return true
        else
          change fun s => { s with status := if last = s.status then 0 else last }
          return false
      if goesOn then run fuel guarded (.loop whileSuccess condition body)
    | .each name words body =>
      let values ← expandWords fuel words
      let front := "for " ++ name ++ " in " ++ " ".intercalate (values.map (tracedWord .bash))
      runEach fuel guarded front name values body
    | .select word arms =>
      let text ← expandText fuel word
      if (← self).dialect = .bash then traceText ("case " ++ tracedWord .bash text ++ " in")
      runArms fuel guarded text arms

/-- Runs a script for each of some values. One dialect traces the front of the loop each time. -/
def runEach : Nat → Bool → String → String → List String → Script → Running Unit
  | 0, _, _, _, _, _ => throw .endless
  | _, _, _, _, [], _ => return ()
  | fuel + 1, guarded, front, name, value :: values, body => do
    let goesOn ← inLoop do
      if (← self).dialect = .bash then traceText front
      assign name value
      run fuel guarded body
      return true
    if goesOn then runEach fuel guarded front name values body

/-- Runs the first arm with a pattern that matches. -/
def runArms : Nat → Bool → String → List (List Word × Script) → Running Unit
  | 0, _, _, _ => throw .endless
  | _, _, _, [] => change fun s => { s with status := 0 }
  | fuel + 1, guarded, text, (patterns, body) :: rest => do
    let expanded ← patterns.mapM fun w => do
      let fields := fieldsOf (← expandParts fuel w)
      return String.join (fields.map fieldPattern)
    if expanded.any fun pattern => matchesPattern pattern text.toList then
      change fun s => { s with status := 0 }
      run fuel guarded body
    else runArms fuel guarded text rest

end

end Shell

end Sidecar.Host
