/-!
# Command line arguments

The arguments that the program is called with. Options may stand anywhere behind the command they belong to;
the options for all commands may also stand in front of the command. An option may be given once in a place,
and its value must not look like an option.
-/

namespace Sidecar.Cli

/-- The shells that completions are made for. -/
inductive CompletionShell where
  | bash
  | zsh
  | fish
  | powerShell
deriving DecidableEq, Repr, Inhabited

/-- The shell of a name. -/
def CompletionShell.ofName? : String → Option CompletionShell
  | "bash" => some .bash
  | "zsh" => some .zsh
  | "fish" => some .fish
  | "power-shell" => some .powerShell
  | _ => none

/-- What the program is asked to do. -/
inductive Request where
  | run (stepFile : String) (logMetrics : Bool) (output : Option String)
  | resolve (stepFile : String)
  | completions (shell : CompletionShell) (output : Option String)
deriving DecidableEq, Repr, Inhabited

/-- A call of the program. -/
structure Call where
  config : Option String
  logLevel : Option String
  request : Request
deriving DecidableEq, Repr, Inhabited

/-- What the arguments lead to. -/
inductive Parsed where
  | call (call : Call)
  | help
  | version
  /-- The arguments are not understood. -/
  | usage
deriving DecidableEq, Repr, Inhabited

/-- An option: its long name, its letter, and whether it has a value. An empty value may be refused. -/
structure OptionSpec where
  long : String
  letter : Option Char
  hasValue : Bool
  mayBeEmpty : Bool := false
deriving DecidableEq, Repr

/-- The options for all commands. -/
def globalOptions : List OptionSpec :=
  [⟨"config", some 'c', true, false⟩, ⟨"log-level", none, true, true⟩]

/-- The options of a command. -/
def optionsOf : String → List OptionSpec
  | "run" => [⟨"log-metrics", none, false, false⟩, ⟨"output", some 'o', true, false⟩]
  | "completions" => [⟨"output", some 'o', true, false⟩]
  | _ => []

/-- The names of the commands. -/
def commandNames : List String :=
  ["run", "resolve", "completions"]

/-- What has been read in one place: options with their values, and the other arguments. -/
structure Gathered where
  values : List (String × String) := []
  others : List String := []
deriving Repr, Inhabited

/-- Why reading stops. -/
inductive Stop where
  | help
  | version
  | usage
deriving DecidableEq, Repr

/-- Whether an argument is taken for an option. -/
def looksLikeOption (s : String) : Bool :=
  s.startsWith "-" && s ≠ "-"

/-- Adds the value of an option, unless it is given a second time. -/
def Gathered.add (g : Gathered) (o : OptionSpec) (value : String) : Except Stop Gathered :=
  if (g.values.lookup o.long).isSome ∨ (value = "" ∧ o.hasValue ∧ !o.mayBeEmpty) then .error .usage
  else .ok { g with values := g.values ++ [(o.long, value)] }

/-- The value of an option: what is written behind it, or else the next argument. -/
def takeValue (o : OptionSpec) (written : Option String) (rest : List String) :
    Except Stop (String × List String) :=
  match o.hasValue, written, rest with
  | false, none, rest => .ok ("", rest)
  | false, some _, _ => .error .usage
  | true, some value, rest => .ok (value, rest)
  | true, none, value :: rest => if looksLikeOption value then .error .usage else .ok (value, rest)
  | true, none, [] => .error .usage

/-- Reads a long option. -/
def readLong (options : List OptionSpec) (hasVersion : Bool) (g : Gathered) (name : String)
    (written : Option String) (rest : List String) : Except Stop (Gathered × List String) :=
  match options.find? fun o => o.long = name with
  | some o => do
    let (value, rest) ← takeValue o written rest
    return (← g.add o value, rest)
  | none =>
    if name = "help" ∧ written = none then .error .help
    else if name = "version" ∧ hasVersion ∧ written = none then .error .version
    else .error .usage

/-- Reads the letters of short options. -/
def readLetters (options : List OptionSpec) (hasVersion : Bool) (g : Gathered) :
    List Char → List String → Except Stop (Gathered × List String)
  | [], rest => .ok (g, rest)
  | c :: letters, rest =>
    match options.find? fun o => o.letter = some c with
    | some o =>
      if o.hasValue then do
        let written := match letters with
          | [] => none
          | '=' :: value => some (String.ofList value)
          | value => some (String.ofList value)
        let (value, rest) ← takeValue o written rest
        return (← g.add o value, rest)
      else do readLetters options hasVersion (← g.add o "") letters rest
    | none =>
      if c = 'h' then .error .help
      else if c = 'V' ∧ hasVersion then .error .version
      else .error .usage

/-- Splits a long option at its equals sign. -/
def splitLong (s : String) : String × Option String :=
  match (s.toList.drop 2).span (· ≠ '=') with
  | (name, '=' :: value) => (String.ofList name, some (String.ofList value))
  | (name, _) => (String.ofList name, none)

/-- Adds an argument that is no option. -/
def Gathered.addOther (accepts : String → Bool) (most : Nat) (g : Gathered) (arg : String) :
    Except Stop Gathered :=
  if g.others.length < most ∧ accepts arg then .ok { g with others := g.others ++ [arg] }
  else .error .usage

/-- Reads arguments up to the name of a command, if `commands` is set, or to the end. There may be only so
many arguments besides the options, and each of them has to be acceptable even if help is asked for behind
it. -/
def gather (options : List OptionSpec) (commands hasVersion : Bool) (accepts : String → Bool) (most : Nat) :
    Nat → Gathered → List String → Except Stop (Gathered × List String)
  | 0, _, _ => .error .usage
  | _, g, [] => .ok (g, [])
  | fuel + 1, g, arg :: rest =>
    if arg = "--" then do
      return (← rest.foldlM (Gathered.addOther accepts most) g, [])
    else if arg.startsWith "--" then do
      let (name, written) := splitLong arg
      let (g, rest) ← readLong options hasVersion g name written rest
      gather options commands hasVersion accepts most fuel g rest
    else if looksLikeOption arg then do
      let (g, rest) ← readLetters options hasVersion g (arg.toList.drop 1) rest
      gather options commands hasVersion accepts most fuel g rest
    else if commands then .ok (g, arg :: rest)
    else do
      let g ← g.addOther accepts most arg
      gather options commands hasVersion accepts most fuel g rest

/-- Whether a command accepts an argument that is no option. -/
def acceptsArgument : String → String → Bool
  | "completions", arg => (CompletionShell.ofName? arg).isSome
  | _, arg => arg ≠ ""

/-- Reads a request. -/
def requestOf (name : String) (g : Gathered) : Option Request :=
  match name, g.others with
  | "run", [file] => some (.run file (g.values.lookup "log-metrics").isSome (g.values.lookup "output"))
  | "resolve", [file] => some (.resolve file)
  | "completions", [shell] =>
    (CompletionShell.ofName? shell).map fun shell => .completions shell (g.values.lookup "output")
  | _, _ => none

/-- Reads the arguments of the `help` command: names of commands. -/
def helpOf : List String → Parsed
  | [] => .help
  | [name] => if commandNames.contains name ∨ name = "help" then .help else .usage
  | _ => .usage

/-- Reads the arguments of a call. -/
def parse (args : List String) : Parsed :=
  let fuel := args.length + 1
  let result : Except Stop Parsed := do
    let (outer, rest) ← gather globalOptions true true (fun _ => true) 0 fuel {} args
    match rest with
    | [] => throw .usage
    | "help" :: rest => return helpOf rest
    | name :: rest =>
      if !commandNames.contains name then throw .usage
      let options := globalOptions ++ optionsOf name
      let (inner, _) ← gather options false false (acceptsArgument name) 1 fuel {} rest
      let global (option : String) : Option String :=
        match inner.values.lookup option with
        | some value => some value
        | none => outer.values.lookup option
      match requestOf name inner with
      | some request => return .call ⟨global "config", global "log-level", request⟩
      | none => throw .usage
  match result with
  | .ok parsed => parsed
  | .error .help => .help
  | .error .version => .version
  | .error .usage => .usage

end Sidecar.Cli
