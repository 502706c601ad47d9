import Sidecar.Yaml.Cursor

/-!
# YAML scalars

Reading the five written forms of a scalar: plain, in single or double quotes, and the literal and folded
blocks. Each reader begins at the first character of the scalar and answers with its text.

Where a line ends inside a plain or quoted scalar the lines are folded: one line end stands for a blank, of
several the first is dropped.
-/

namespace Sidecar.Yaml

/-- How a scalar is written. -/
inductive Style where
  | plain
  | singleQuoted
  | doubleQuoted
  | literal
  | folded
deriving DecidableEq, Repr

/-! ## Gaps -/

/-- What stands between two words of a scalar: blanks, or the first line end and the others. -/
structure Gap where
  blanks : List Char := []
  broken : Bool := false
  first : List Char := []
  more : List Char := []

/-- Folds the end of a line with those that follow it. -/
def foldLines (first more : List Char) : List Char :=
  if first = ['\n'] then (if more.isEmpty then [' '] else more) else first ++ more

/-- The text that a gap stands for. -/
def Gap.text (g : Gap) : List Char :=
  if g.broken then foldLines g.first g.more else g.blanks

/-- Reads a gap. A tab may not stand before the column `indent` of a line. -/
def readGap (indent : Nat) : (fuel : Nat) → Cursor → Gap → Option (Gap × Cursor)
  | 0, c, g => some (g, c)
  | fuel + 1, c, g =>
    match c.peek with
    | none => some (g, c)
    | some x =>
      if isBlank x then
        if g.broken then
          if x == '\t' && c.column < indent then none else readGap indent fuel (c.skip) g
        else readGap indent fuel c.skip { g with blanks := g.blanks ++ [x] }
      else if isBreak x then
        if g.broken then readGap indent fuel c.skipLine { g with more := g.more ++ c.lineBreak }
        else readGap indent fuel c.skipLine { broken := true, first := c.lineBreak }
      else some (g, c)

/-! ## Quoted scalars -/

/-- The value of a hexadecimal digit. -/
def hexDigit? (c : Char) : Option Nat :=
  if c.isDigit then some (c.toNat - '0'.toNat)
  else if 'a' ≤ c && c ≤ 'f' then some (c.toNat - 'a'.toNat + 10)
  else if 'A' ≤ c && c ≤ 'F' then some (c.toNat - 'A'.toNat + 10)
  else none

/-- The value of hexadecimal digits. -/
def hexValue? (digits : List Char) : Option Nat :=
  digits.foldlM (fun value c => (hexDigit? c).map (value * 16 + ·)) 0

/-- The character that a one-letter escape stands for. -/
def shortEscape? : Char → Option Char
  | '0' => some '\x00'
  | 'a' => some '\x07'
  | 'b' => some '\x08'
  | 't' => some '\t'
  | '\t' => some '\t'
  | 'n' => some '\n'
  | 'v' => some '\x0b'
  | 'f' => some '\x0c'
  | 'r' => some '\r'
  | 'e' => some '\x1b'
  | ' ' => some ' '
  | '"' => some '"'
  | '/' => some '/'
  | '\\' => some '\\'
  | 'N' => some '\x85'
  | '_' => some '\xa0'
  | 'L' => some '\u2028'
  | 'P' => some '\u2029'
  | _ => none

/-- The number of hexadecimal digits after an escape letter. -/
def escapeLength? : Char → Option Nat
  | 'x' => some 2
  | 'u' => some 4
  | 'U' => some 8
  | _ => none

/-- Reads an escape after its backslash: the character, and how many characters it is written with. A
surrogate is no character. -/
def readEscape? (c : Cursor) : Option (Char × Nat) := do
  let letter ← c.peek
  match escapeLength? letter with
  | none => return (← shortEscape? letter, 1)
  | some n =>
    let digits := (c.rest.drop 1).take n
    if digits.length < n then none
    else
      let value ← hexValue? digits
      if (0xD800 ≤ value && value ≤ 0xDFFF) || 0x10FFFF < value then none
      else return (Char.ofNat value, n + 1)

/-- Reads a quoted scalar after its opening quote. -/
def readQuoted (single : Bool) : (fuel : Nat) → Cursor → Option (List Char × Cursor)
  | 0, _ => none
  | fuel + 1, c =>
    if c.seesDocumentMark then none
    else
      match c.peek with
      | none => none
      | some x =>
        if single && x == '\'' && c.sees '\'' 1 then
          (readQuoted single fuel (c.skip 2)).map fun (text, c) => ('\'' :: text, c)
        else if x == (if single then '\'' else '"') then some ([], c.skip)
        else if !single && x == '\\' then
          if c.seesAny isBreak 1 then do
            let (gap, c) ← readGap 0 c.rest.length c.skip.skipLine { broken := true }
            (readQuoted single fuel c).map fun (text, c) => (gap.text ++ text, c)
          else do
            let (char, length) ← readEscape? c.skip
            (readQuoted single fuel (c.skip (length + 1))).map fun (text, c) => (char :: text, c)
        else if isBlank x || isBreak x then do
          let (gap, c) ← readGap 0 c.rest.length c {}
          (readQuoted single fuel c).map fun (text, c) => (gap.text ++ text, c)
        else (readQuoted single fuel c.skip).map fun (text, c) => (x :: text, c)

/-! ## Plain scalars -/

/-- Characters that end a plain scalar between brackets. -/
def isFlowIndicator (c : Char) : Bool :=
  c == ',' || c == '[' || c == ']' || c == '\x7b' || c == '\x7d'

/-- Whether a plain scalar ends here although a word goes on. -/
def endsPlain (flow : Bool) (c : Cursor) : Bool :=
  (c.sees ':' && c.endsWord 1) || (flow && c.seesAny isFlowIndicator)

/-- Whether a colon stands before a bracket, which is no plain scalar and no value. -/
def isStrayColon (flow : Bool) (c : Cursor) : Bool :=
  flow && c.sees ':' && c.seesAny (fun x => isFlowIndicator x || x == '?') 1

/-- Reads a word of a plain scalar. -/
def readPlainWord (flow : Bool) : (fuel : Nat) → Cursor → Option (List Char × Cursor)
  | 0, c => some ([], c)
  | fuel + 1, c =>
    if c.endsWord then some ([], c)
    else if isStrayColon flow c then none
    else if endsPlain flow c then some ([], c)
    else
      match c.peek with
      | none => some ([], c)
      | some x => (readPlainWord flow fuel c.skip).map fun (word, c) => (x :: word, c)

/-- A plain scalar that has been read: its text, the place after it and after the blanks that follow, and
whether its last line has ended. -/
structure Plain where
  text : List Char
  after : Cursor
  endedLine : Bool

/-- Reads the words of a plain scalar. `gap` stands before the next one. -/
def readPlain (flow : Bool) (indent : Nat) : (fuel : Nat) → Cursor → Gap → Option Plain
  | 0, c, gap => some ⟨[], c, gap.broken⟩
  | fuel + 1, c, gap =>
    if c.seesDocumentMark || c.sees '#' then some ⟨[], c, gap.broken⟩
    else do
      let (word, c) ← readPlainWord flow c.rest.length c
      let text := if word.isEmpty then [] else gap.text ++ word
      let broken := word.isEmpty && gap.broken
      if !c.seesAny (fun x => isBlank x || isBreak x) then return ⟨text, c, broken⟩
      else
        let (next, c) ← readGap indent c.rest.length c (if word.isEmpty then gap else {})
        if !flow && c.column < indent then return ⟨text, c, next.broken⟩
        else
          let plain ← readPlain flow indent fuel c next
          return { plain with text := text ++ plain.text }

/-! ## Block scalars -/

/-- What becomes of the line ends after a block. -/
inductive Chomping where
  | strip
  | clip
  | keep
deriving DecidableEq, Repr

/-- The first line of a block: what becomes of its last line ends, and how far it is indented. -/
structure BlockHeader where
  chomping : Chomping := .clip
  increment : Option Nat := none

/-- Reads the sign that tells about the last line ends. -/
def readChomping (c : Cursor) : Option (Chomping × Cursor) :=
  if c.sees '+' then some (.keep, c.skip)
  else if c.sees '-' then some (.strip, c.skip)
  else none

/-- Reads the digit that tells the indentation. Zero is not allowed. -/
def readIncrement (c : Cursor) : Option (Option Nat × Cursor) :=
  match c.peek with
  | some x =>
    if x.isDigit then (if x == '0' then none else some (some (x.toNat - '0'.toNat), c.skip))
    else some (none, c)
  | none => some (none, c)

/-- Reads the first line of a block after its indicator. -/
def readBlockHeader (c : Cursor) : Option (BlockHeader × Cursor) := do
  let (header, c) ← match readChomping c with
    | some (chomping, c) => do
      let (increment, c) ← readIncrement c
      pure (BlockHeader.mk chomping increment, c)
    | none => do
      let (increment, c) ← readIncrement c
      match if increment.isSome then readChomping c else none with
      | some (chomping, c) => pure (BlockHeader.mk chomping increment, c)
      | none => pure (BlockHeader.mk .clip increment, c)
  let c := (c.skipWhile isBlank).skipComment
  if c.endsLine then return (header, if c.atEnd then c else c.skipLine) else none

/-- Reads the empty lines before a line of a block, and the indentation of that line. With no indentation
known yet, `deepest` is the widest one seen. The answer is the line ends, the widest indentation and the
place after it. -/
def readBlockBreaks (indent : Option Nat) :
    (fuel : Nat) → Cursor → (deepest : Nat) → Option (List Char × Nat × Cursor)
  | 0, c, deepest => some ([], deepest, c)
  | fuel + 1, c, deepest =>
    let inside := fun (c : Cursor) => indent.all (c.column < ·)
    let spaces := (c.rest.takeWhile (· == ' ')).length
    let c := c.skip (match indent with
      | some n => min spaces (n - c.column)
      | none => spaces)
    let deepest := max deepest c.column
    if inside c && c.sees '\t' then none
    else if c.seesAny isBreak then
      (readBlockBreaks indent fuel c.skipLine deepest).map fun (breaks, deepest, after) =>
        (c.lineBreak ++ breaks, deepest, after)
    else some ([], deepest, c)

/-- The text of a block that has been read. -/
structure BlockText where
  text : List Char := []
  /-- The end of the last line. -/
  first : List Char := []
  /-- The empty lines after it. -/
  more : List Char := []
  /-- Whether the last line began with a blank. -/
  blankLine : Bool := false

/-- Adds a line. In a folded block the end of the line before is folded, unless a line beside it begins with
a blank. -/
def BlockText.addLine (b : BlockText) (literal : Bool) (line lineBreak more : List Char) : BlockText :=
  let beginsBlank := line.head?.any isBlank
  let joint :=
    if !literal && b.first == ['\n'] && !b.blankLine && !beginsBlank then
      (if b.more.isEmpty then [' '] else b.more)
    else b.first ++ b.more
  ⟨b.text ++ joint ++ line, lineBreak, more, beginsBlank⟩

/-- Reads the lines of a block. -/
def readBlockLines (literal : Bool) (indent : Nat) :
    (fuel : Nat) → Cursor → BlockText → Option (BlockText × Cursor)
  | 0, c, b => some (b, c)
  | fuel + 1, c, b =>
    if c.column = indent && !c.atEnd then do
      let line := c.rest.takeWhile fun x => !isBreak x
      let c := c.skip line.length
      let lineBreak := c.lineBreak
      let c := if c.atEnd then c else c.skipLine
      let (more, _, c) ← readBlockBreaks (some indent) (c.rest.length + 1) c 0
      readBlockLines literal indent fuel c (b.addLine literal line lineBreak more)
    else some (b, c)

/-- Reads a block after its indicator, where `outer` is the indentation around it. -/
def readBlock (literal : Bool) (outer : Int) (c : Cursor) : Option (List Char × Cursor) := do
  let (header, c) ← readBlockHeader c
  let known := header.increment.map fun n => if 0 ≤ outer then outer.toNat + n else n
  let (breaks, deepest, c) ← readBlockBreaks known (c.rest.length + 1) c 0
  let indent := known.getD (max (max deepest (outer + 1).toNat) 1)
  let (block, c) ← readBlockLines literal indent (c.rest.length + 1) c { more := breaks }
  let ending := match header.chomping with
    | .strip => []
    | .clip => block.first
    | .keep => block.first ++ block.more
  return (block.text ++ ending, c)

end Sidecar.Yaml
