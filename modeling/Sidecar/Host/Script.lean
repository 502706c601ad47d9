/-!
# Shell scripts

The scripts that steps hand to a shell, as far as a host understands them, and reading them from text.

A word is a list of parts that are put together when the word is expanded; a part knows whether it was
quoted, because the expansion of a quoted part is never split. Scripts inside of words are kept as text and
only read when they are run.
-/

namespace Sidecar.Host

/-- A part of a word. -/
inductive Part where
  | text (cs : List Char) (quoted : Bool)
  /-- The value of a parameter, perhaps with an operator and its argument. -/
  | parameter (name operator : String) (argument : List Char) (quoted : Bool)
  /-- The output of a script. -/
  | output (script : List Char) (quoted : Bool)
  | arithmetic (expression : List Char) (quoted : Bool)
deriving DecidableEq, Repr, Inhabited

/-- A word. -/
abbrev Word := List Part

/-- What a redirection does. -/
inductive RedirectKind where
  | write
  | append
  | read
  | duplicate
  /-- Reads the text of the word itself. -/
  | here
deriving DecidableEq, Repr, Inhabited

/-- A redirection of a descriptor. -/
structure Redirect where
  descriptor : Nat
  kind : RedirectKind
  target : Word
deriving DecidableEq, Repr, Inhabited

/-- A command without structure: assignments, words and redirections. -/
structure SimpleCommand where
  line : Nat
  assignments : List (String × Word) := []
  words : List Word := []
  redirects : List Redirect := []
deriving DecidableEq, Repr, Inhabited

/-- A script. -/
inductive Script where
  | nothing
  | simple (command : SimpleCommand)
  | pipe (first second : Script)
  | negate (script : Script)
  | andThen (first second : Script)
  | orElse (first second : Script)
  | sequence (first second : Script)
  | background (script : Script)
  | subshell (script : Script)
  | redirected (line : Nat) (script : Script) (redirects : List Redirect)
  | branch (condition yes no : Script)
  /-- Repeats as long as the condition succeeds, or as long as it fails. -/
  | loop (whileSuccess : Bool) (condition body : Script)
  | each (name : String) (words : List Word) (body : Script)
  | select (word : Word) (arms : List (List Word × Script))
  /-- Gives a function a meaning. -/
  | define (name : String) (body : Script)
deriving Repr, Inhabited

namespace Script

/-! ## Characters -/

/-- A letter or an underscore. -/
def isNameStart (c : Char) : Bool :=
  c.isAlpha || c == '_'

/-- A letter, a digit or an underscore. -/
def isNameChar (c : Char) : Bool :=
  c.isAlphanum || c == '_'

/-- A name of a variable. -/
def isName : List Char → Bool
  | [] => false
  | c :: rest => isNameStart c && rest.all isNameChar

/-- The apostrophe. -/
def apostrophe : Char := '\x27'

/-- The double quote. -/
def doubleQuote : Char := '\x22'

/-- The backquote. -/
def backquote : Char := '\x60'

/-- A character that ends a word unless it is quoted. -/
def endsWord (c : Char) : Bool :=
  " \t\n;&|<>()".toList.contains c

/-- A parameter whose name is a single character. -/
def isSpecialParameter (c : Char) : Bool :=
  c.isDigit || "?$#@*!-".toList.contains c

/-! ## Nested texts -/

/-- How characters are quoted. -/
inductive Quoting where
  | none
  | single
  | double
deriving DecidableEq, Repr

/-- The text up to the closing character that matches one that has been opened, and what follows. -/
def untilClosing (opener closer : Char) : Quoting → Nat → List Char → Option (List Char × List Char)
  | _, _, [] => none
  | quoting, depth, '\\' :: c :: rest =>
    if quoting = .single then
      (untilClosing opener closer quoting depth (c :: rest)).map fun (t, r) => ('\\' :: t, r)
    else (untilClosing opener closer quoting depth rest).map fun (t, r) => ('\\' :: c :: t, r)
  | quoting, depth, c :: rest =>
    let go (quoting : Quoting) (depth : Nat) : Option (List Char × List Char) :=
      (untilClosing opener closer quoting depth rest).map fun (t, r) => (c :: t, r)
    match quoting with
    | .single => go (if c = apostrophe then .none else .single) depth
    | .double => go (if c = doubleQuote then .none else .double) depth
    | .none =>
      if c = apostrophe then go .single depth
      else if c = doubleQuote then go .double depth
      else if c = opener then go .none (depth + 1)
      else if c = closer then
        match depth with
        | 0 => some ([], rest)
        | depth + 1 => go .none depth
      else go .none depth

/-- The text up to a character, and what follows it. -/
def untilChar (stop : Char) : List Char → Option (List Char × List Char)
  | [] => none
  | '\\' :: c :: rest =>
    if stop = apostrophe then
      (untilChar stop (c :: rest)).map fun (t, r) => ('\\' :: t, r)
    else (untilChar stop rest).map fun (t, r) => ('\\' :: c :: t, r)
  | c :: rest =>
    if c = stop then some ([], rest) else (untilChar stop rest).map fun (t, r) => (c :: t, r)

/-- Takes the backslashes away that quote something inside of backquotes. -/
def unquoteBackquoted : List Char → List Char
  | '\\' :: c :: rest =>
    if c = backquote ∨ c = '\\' ∨ c = '$' then c :: unquoteBackquoted rest
    else '\\' :: c :: unquoteBackquoted rest
  | c :: rest => c :: unquoteBackquoted rest
  | [] => []

/-! ## Words -/

/-- Splits an operator off the front of a text. -/
def splitOperator (cs : List Char) : String × List Char :=
  let operators := [":-", ":=", ":?", ":+", "%%", "##", "-", "=", "?", "+", "%", "#"]
  match operators.find? fun op => op.toList.isPrefixOf cs with
  | some op => (op, cs.drop op.length)
  | none => ("", cs)

/-- Reads what stands between the braces of a parameter. -/
def bracedPart (quoted : Bool) (inner : List Char) : Option Part :=
  let named (cs : List Char) : List Char × List Char :=
    match cs with
    | c :: rest =>
      if isNameStart c then cs.span isNameChar
      else if c.isDigit then cs.span Char.isDigit
      else if isSpecialParameter c then ([c], rest)
      else ([], cs)
    | [] => ([], [])
  match inner with
  | '#' :: c :: rest =>
    let (name, after) := named (c :: rest)
    if name.isEmpty ∨ !after.isEmpty then none
    else some (.parameter (String.ofList name) "length" [] quoted)
  | _ =>
    let (name, after) := named inner
    if name.isEmpty then none
    else
      let (operator, argument) := splitOperator after
      if operator = "" ∧ !argument.isEmpty then none
      else some (.parameter (String.ofList name) operator argument quoted)

/-- Reads what follows a dollar sign. -/
def dollarPart (quoted : Bool) : List Char → Option (Part × List Char)
  | '(' :: rest => do
    let (inner, rest) ← untilClosing '(' ')' .none 0 rest
    match inner, inner.getLast? with
    | '(' :: expression, some ')' => return (.arithmetic expression.dropLast quoted, rest)
    | _, _ => return (.output inner quoted, rest)
  | '\x7b' :: rest => do
    let (inner, rest) ← untilClosing '\x7b' '\x7d' .none 0 rest
    return (← bracedPart quoted inner, rest)
  | c :: rest =>
    if isNameStart c then
      let (name, rest) := (c :: rest).span isNameChar
      some (.parameter (String.ofList name) "" [] quoted, rest)
    else if isSpecialParameter c then some (.parameter c.toString "" [] quoted, rest)
    else some (.text ['$'] quoted, c :: rest)
  | [] => some (.text ['$'] quoted, [])

/-- Reads the inside of double quotes. -/
def quotedParts : Nat → List Char → Option (List Part × List Char)
  | 0, _ => none
  | _, [] => none
  | fuel + 1, '\\' :: c :: rest =>
    let text := if c = '$' ∨ c = backquote ∨ c = doubleQuote ∨ c = '\\' then [c]
      else if c = '\n' then [] else ['\\', c]
    (quotedParts fuel rest).map fun (parts, rest) => (.text text true :: parts, rest)
  | fuel + 1, c :: rest => do
    if c = doubleQuote then return ([], rest)
    if c = '$' then
      let (part, rest) ← dollarPart true rest
      let (parts, rest) ← quotedParts fuel rest
      return (part :: parts, rest)
    if c = backquote then
      let (inner, rest) ← untilChar backquote rest
      let (parts, rest) ← quotedParts fuel rest
      return (.output (unquoteBackquoted inner) true :: parts, rest)
    let (parts, rest) ← quotedParts fuel rest
    return (.text [c] true :: parts, rest)

/-- Reads the parts of a word. -/
def wordParts : Nat → List Char → Option (Word × List Char)
  | 0, _ => none
  | _, [] => some ([], [])
  | fuel + 1, '\\' :: c :: rest => do
    let (parts, rest) ← wordParts fuel rest
    return (if c = '\n' then parts else .text [c] true :: parts, rest)
  | fuel + 1, c :: rest => do
    if endsWord c then return ([], c :: rest)
    if c = apostrophe then
      let (inner, rest) ← untilChar apostrophe rest
      let (parts, rest) ← wordParts fuel rest
      return (.text inner true :: parts, rest)
    if c = doubleQuote then
      let (inner, rest) ← quotedParts (rest.length + 1) rest
      let (parts, rest) ← wordParts fuel rest
      return (.text [] true :: inner ++ parts, rest)
    if c = '$' then
      let (part, rest) ← dollarPart false rest
      let (parts, rest) ← wordParts fuel rest
      return (part :: parts, rest)
    if c = backquote then
      let (inner, rest) ← untilChar backquote rest
      let (parts, rest) ← wordParts fuel rest
      return (.output (unquoteBackquoted inner) false :: parts, rest)
    let (parts, rest) ← wordParts fuel rest
    return (.text [c] false :: parts, rest)

/-- Reads a word. -/
def word? (cs : List Char) : Option (Word × List Char) :=
  wordParts (cs.length + 1) cs

/-- Reads a text in which only parameters and scripts are expanded. -/
def templateOf (cs : List Char) : Option Word :=
  (quotedParts (cs.length + 2) (cs ++ [doubleQuote])).map (·.1)

/-- The characters of a word that is not quoted and needs no expansion. -/
def plainWord? : Word → Option (List Char)
  | [] => some []
  | .text cs false :: parts => (plainWord? parts).map (cs ++ ·)
  | _ :: _ => none

/-! ## Commands -/

/-- Skips blanks, comments and line ends that are quoted. -/
def skipBlanks : List Char → List Char
  | ' ' :: rest => skipBlanks rest
  | '\t' :: rest => skipBlanks rest
  | '\\' :: '\n' :: rest => skipBlanks rest
  | '#' :: rest => rest.dropWhile (· ≠ '\n')
  | cs => cs

/-- Skips blanks and line ends. -/
def skipLines : Nat → List Char → List Char
  | 0, cs => cs
  | fuel + 1, cs =>
    match skipBlanks cs with
    | '\n' :: rest => skipLines fuel rest
    | cs => cs

/-- Splits the lines of a document off that ends with a given line. -/
def hereLines (stop : List Char) : Nat → List Char → List Char × List Char
  | 0, cs => ([], cs)
  | _, [] => ([], [])
  | fuel + 1, cs =>
    let (line, rest) := cs.span (· ≠ '\n')
    let rest := rest.drop 1
    if line = stop then ([], rest)
    else
      let (lines, rest) := hereLines stop fuel rest
      (line ++ '\n' :: lines, rest)

/-- Reads a redirection, if there is one. -/
def redirect? (cs : List Char) : Option (Option Redirect × List Char) :=
  let (digits, after) := cs.span Char.isDigit
  let number (default : Nat) : Nat := if digits.isEmpty then default else Nat.ofDigitChars 10 digits 0
  let redirectTo (kind : RedirectKind) (default : Nat) (rest : List Char) :
      Option (Option Redirect × List Char) := do
    let (target, rest) ← word? (skipBlanks rest)
    if target.isEmpty then none
    else return (some ⟨number default, kind, target⟩, rest)
  match after with
  | '<' :: '<' :: rest => do
    let (stop, rest) ← word? (skipBlanks rest)
    let (line, rest) := rest.span (· ≠ '\n')
    match plainWord? stop with
    | some name =>
      let (body, rest) := hereLines name rest.length (rest.drop 1)
      let template ← templateOf body
      return (some ⟨number 0, .here, template⟩, line ++ '\n' :: rest)
    | none =>
      let name := stop.flatMap fun part => match part with
        | .text cs _ => cs
        | _ => []
      let (body, rest) := hereLines name rest.length (rest.drop 1)
      return (some ⟨number 0, .here, [.text body true]⟩, line ++ '\n' :: rest)
  | '>' :: '>' :: rest => redirectTo .append 1 rest
  | '>' :: '&' :: rest => redirectTo .duplicate 1 rest
  | '>' :: '|' :: rest => redirectTo .write 1 rest
  | '>' :: rest => redirectTo .write 1 rest
  | '<' :: '&' :: rest => redirectTo .duplicate 0 rest
  | '<' :: rest => redirectTo .read 0 rest
  | _ => some (none, cs)

/-- Splits an assignment into the name and the word. -/
def assignment? (w : Word) : Option (String × Word) :=
  let rec go (name : List Char) : Word → Option (String × Word)
    | .text ['='] false :: value => if isName name then some (String.ofList name, value) else none
    | .text [c] false :: rest => go (name ++ [c]) rest
    | _ => none
  go [] w

/-- Reads redirections. -/
def redirects : Nat → List Char → Option (List Redirect × List Char)
  | 0, _ => none
  | fuel + 1, cs => do
    match ← redirect? (skipBlanks cs) with
    | (some r, rest) =>
      let (rs, rest) ← redirects fuel rest
      return (r :: rs, rest)
    | (none, _) => return ([], cs)

/-- Reads the rest of a simple command. -/
def simpleRest : Nat → SimpleCommand → List Char → Option (SimpleCommand × List Char)
  | 0, _, _ => none
  | fuel + 1, command, cs => do
    let cs := skipBlanks cs
    match ← redirect? cs with
    | (some r, rest) =>
      simpleRest fuel { command with redirects := command.redirects ++ [r] } rest
    | (none, _) =>
      let (w, rest) ← word? cs
      if w.isEmpty then return (command, cs)
      match (if command.words.isEmpty then assignment? w else none) with
      | some a => simpleRest fuel { command with assignments := command.assignments ++ [a] } rest
      | none => simpleRest fuel { command with words := command.words ++ [w] } rest

/-- The reserved word at the front of a text, if there is one. -/
def reserved? (cs : List Char) : Option (String × List Char) := do
  let (w, rest) ← word? cs
  let name := String.ofList (← plainWord? w)
  let words := ["!", "\x7b", "\x7d", "if", "then", "elif", "else", "fi", "while", "until", "do", "done",
    "for", "case", "in", "esac"]
  if words.contains name then return (name, rest) else none

/-- Reads the name of a function and the parentheses behind it. -/
def functionName? (cs : List Char) : Option (String × List Char) := do
  let (name, rest) := cs.span isNameChar
  if !isName name then none
  match skipBlanks rest with
  | '(' :: rest =>
    match skipBlanks rest with
    | ')' :: rest => return (String.ofList name, rest)
    | _ => none
  | _ => none

/-- Takes a reserved word. -/
def expect (name : String) (cs : List Char) : Option (List Char) :=
  match reserved? (skipLines cs.length cs) with
  | some (found, rest) => if found = name then some rest else none
  | none => none

/-- Reads words up to the end of a line or a semicolon. -/
def wordList : Nat → List Char → Option (List Word × List Char)
  | 0, _ => none
  | fuel + 1, cs => do
    let cs := skipBlanks cs
    let (w, rest) ← word? cs
    if w.isEmpty then return ([], cs)
    let (ws, rest) ← wordList fuel rest
    return (w :: ws, rest)

/-- Reads patterns with bars between them, up to the closing parenthesis. -/
def patternList : Nat → List Char → Option (List Word × List Char)
  | 0, _ => none
  | fuel + 1, cs => do
    let (w, rest) ← word? (skipBlanks cs)
    match skipBlanks rest with
    | '|' :: rest =>
      let (ws, rest) ← patternList fuel rest
      return (w :: ws, rest)
    | ')' :: rest => return ([w], rest)
    | _ => none

mutual

/-- Reads commands up to a reserved word that ends a block, a closing parenthesis or the end. `lines` is the
number of line ends in the whole text. -/
def commands (lines : Nat) : Nat → List Char → Option (Script × List Char)
  | 0, _ => none
  | fuel + 1, cs => do
    let cs := skipLines cs.length cs
    match cs with
    | [] => return (.nothing, [])
    | ')' :: _ => return (.nothing, cs)
    | ';' :: ';' :: _ => return (.nothing, cs)
    | _ =>
      if let some (name, _) := reserved? cs then
        if ["\x7d", "then", "elif", "else", "fi", "do", "done", "esac", "in"].contains name then
          return (.nothing, cs)
      let (first, rest) ← conditional lines fuel cs
      match skipBlanks rest with
      | ';' :: ';' :: rest => return (first, ';' :: ';' :: rest)
      | ';' :: rest =>
        let (others, rest) ← commands lines fuel rest
        return (.sequence first others, rest)
      | '&' :: rest =>
        let (others, rest) ← commands lines fuel rest
        return (.sequence (.background first) others, rest)
      | '\n' :: rest =>
        let (others, rest) ← commands lines fuel rest
        return (.sequence first others, rest)
      | [] => return (first, [])
      | ')' :: rest => return (first, ')' :: rest)
      | _ => none

/-- Reads commands that depend on each other. -/
def conditional (lines : Nat) : Nat → List Char → Option (Script × List Char)
  | 0, _ => none
  | fuel + 1, cs => do
    let (first, rest) ← pipeline lines fuel cs
    conditionalRest lines fuel first rest

/-- Reads what depends on a command. -/
def conditionalRest (lines : Nat) : Nat → Script → List Char → Option (Script × List Char)
  | 0, _, _ => none
  | fuel + 1, first, cs => do
    match skipBlanks cs with
    | '&' :: '&' :: rest =>
      let (second, rest) ← pipeline lines fuel (skipLines rest.length rest)
      conditionalRest lines fuel (.andThen first second) rest
    | '|' :: '|' :: rest =>
      let (second, rest) ← pipeline lines fuel (skipLines rest.length rest)
      conditionalRest lines fuel (.orElse first second) rest
    | cs => return (first, cs)

/-- Reads commands with pipes between them. -/
def pipeline (lines : Nat) : Nat → List Char → Option (Script × List Char)
  | 0, _ => none
  | fuel + 1, cs => do
    let cs := skipBlanks cs
    if let some ("!", rest) := reserved? cs then
      let (script, rest) ← pipeline lines fuel rest
      return (.negate script, rest)
    let (first, rest) ← command lines fuel cs
    pipelineRest lines fuel first rest

/-- Reads the commands behind a pipe. -/
def pipelineRest (lines : Nat) : Nat → Script → List Char → Option (Script × List Char)
  | 0, _, _ => none
  | fuel + 1, first, cs => do
    match skipBlanks cs with
    | '|' :: '|' :: rest => return (first, '|' :: '|' :: rest)
    | '|' :: rest =>
      let (second, rest) ← command lines fuel (skipLines rest.length rest)
      pipelineRest lines fuel (.pipe first second) rest
    | cs => return (first, cs)

/-- Reads the branches behind a condition. -/
def branches (lines : Nat) : Nat → List Char → Option (Script × List Char)
  | 0, _ => none
  | fuel + 1, cs => do
    let (condition, rest) ← commands lines fuel cs
    let (yes, rest) ← commands lines fuel (← expect "then" rest)
    match reserved? (skipLines rest.length rest) with
    | some ("fi", rest) => return (.branch condition yes .nothing, rest)
    | some ("else", rest) =>
      let (no, rest) ← commands lines fuel rest
      return (.branch condition yes no, ← expect "fi" rest)
    | some ("elif", rest) =>
      let (no, rest) ← branches lines fuel rest
      return (.branch condition yes no, rest)
    | _ => none

/-- Reads the arms of a selection. -/
def arms (lines : Nat) : Nat → List Char → Option (List (List Word × Script) × List Char)
  | 0, _ => none
  | fuel + 1, cs => do
    let cs := skipLines cs.length cs
    if let some ("esac", rest) := reserved? cs then return ([], rest)
    let cs := match cs with
      | '(' :: rest => rest
      | cs => cs
    let (patterns, rest) ← patternList cs.length cs
    let (body, rest) ← commands lines fuel rest
    let rest := match skipLines rest.length rest with
      | ';' :: ';' :: rest => rest
      | rest => rest
    let (others, rest) ← arms lines fuel rest
    return ((patterns, body) :: others, rest)

/-- Reads a command. -/
def command (lines : Nat) : Nat → List Char → Option (Script × List Char)
  | 0, _ => none
  | fuel + 1, cs => do
    let cs := skipBlanks cs
    let line := lines + 1 - cs.count '\n'
    let finish (script : Script) (rest : List Char) : Option (Script × List Char) := do
      let (rs, rest) ← redirects (rest.length + 1) rest
      return (if rs.isEmpty then script else .redirected line script rs, rest)
    match cs with
    | '(' :: rest =>
      let (inner, rest) ← commands lines fuel rest
      match rest with
      | ')' :: rest => finish (.subshell inner) rest
      | _ => none
    | _ =>
      match reserved? cs with
      | some ("\x7b", rest) =>
        let (inner, rest) ← commands lines fuel rest
        finish inner (← expect "\x7d" rest)
      | some ("if", rest) =>
        let (script, rest) ← branches lines fuel rest
        finish script rest
      | some ("while", rest) =>
        let (condition, rest) ← commands lines fuel rest
        let (body, rest) ← commands lines fuel (← expect "do" rest)
        finish (.loop true condition body) (← expect "done" rest)
      | some ("until", rest) =>
        let (condition, rest) ← commands lines fuel rest
        let (body, rest) ← commands lines fuel (← expect "do" rest)
        finish (.loop false condition body) (← expect "done" rest)
      | some ("for", rest) =>
        let (nameWord, rest) ← word? (skipBlanks rest)
        let name := String.ofList (← plainWord? nameWord)
        let (words, rest) ← match reserved? (skipLines rest.length rest) with
          | some ("in", rest) => wordList (rest.length + 1) rest
          | _ => some ([[.parameter "@" "" [] true]], rest)
        let rest := match skipBlanks rest with
          | ';' :: rest => rest
          | rest => rest
        let (body, rest) ← commands lines fuel (← expect "do" rest)
        finish (.each name words body) (← expect "done" rest)
      | some ("case", rest) =>
        let (subject, rest) ← word? (skipBlanks rest)
        let (found, rest) ← arms lines fuel (← expect "in" rest)
        finish (.select subject found) rest
      | some _ => none
      | none =>
        if let some (name, rest) := functionName? cs then
          let (body, rest) ← command lines fuel (skipLines rest.length rest)
          return (.define name body, rest)
        let (basic, rest) ← simpleRest (cs.length + 1) { line := line } cs
        if basic.words.isEmpty && basic.assignments.isEmpty && basic.redirects.isEmpty then none
        else return (.simple basic, rest)

end

/-- Reads a script. -/
def ofText? (text : List Char) : Option Script :=
  match commands (text.count '\n') (text.length * 4 + 16) text with
  | some (script, []) => some script
  | _ => none

end Script

end Sidecar.Host
