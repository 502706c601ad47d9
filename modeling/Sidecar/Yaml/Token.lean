import Sidecar.Yaml.Scalar

/-!
# YAML tokens

Taking a YAML text apart into tokens. Indentation becomes explicit: `blockSequenceStart`,
`blockMappingStart` and `blockEnd` enclose what the text only indents.

A key of a mapping is recognised late, at the `:` that follows it. So the lexer remembers at which token a
key may have begun, and puts `key` (and `blockMappingStart`, if the key opens a mapping) in front of that
token when the `:` appears.
-/

namespace Sidecar.Yaml

/-- A token of a YAML text. -/
inductive Token where
  | version (major minor : Nat)
  | tagDirective (handle expansion : String)
  | documentStart
  | documentEnd
  | blockSequenceStart
  | blockMappingStart
  | blockEnd
  | flowSequenceStart
  | flowSequenceEnd
  | flowMappingStart
  | flowMappingEnd
  | blockEntry
  | flowEntry
  | key
  | value
  | alias (name : String)
  | anchor (name : String)
  | tag (handle suffix : String)
  | scalar (style : Style) (text : String)
deriving DecidableEq, Repr

/-- A token that may turn out to be the first one of a key. -/
structure KeyMark where
  /-- The number of tokens in front of it. -/
  number : Nat
  /-- Whether it must be a key, because it stands at the indentation of a mapping. -/
  required : Bool
  index : Nat
  line : Nat
  column : Nat

/-- The state of the lexer. -/
structure Lexer where
  cursor : Cursor
  /-- Tokens read so far, the last one first. -/
  tokens : List Token := []
  /-- The number of those tokens. -/
  count : Nat := 0
  /-- The column of the innermost block, `-1` outside of all blocks. -/
  indent : Int := -1
  /-- The columns of the blocks around it. -/
  outerIndents : List Int := []
  /-- Whether a key may begin here. -/
  keyAllowed : Bool := true
  /-- The possible key at the current level. -/
  keyMark : Option KeyMark := none
  /-- The possible keys at the levels around it, one for each open bracket. -/
  outerKeyMarks : List (Option KeyMark) := []

namespace Lexer

/-- Whether the lexer is between brackets. -/
def inFlow (l : Lexer) : Bool :=
  !l.outerKeyMarks.isEmpty

/-- Adds a token. -/
def push (l : Lexer) (token : Token) : Lexer :=
  { l with tokens := token :: l.tokens, count := l.count + 1 }

/-- Puts a token behind the first `number` ones. -/
def insertAt (l : Lexer) (number : Nat) (token : Token) : Lexer :=
  let behind := l.count - number
  { l with
    tokens := l.tokens.take behind ++ token :: l.tokens.drop behind
    count := l.count + 1 }

/-- Moves on. -/
def goTo (l : Lexer) (c : Cursor) : Lexer :=
  { l with cursor := c }

/-! ## Indentation -/

/-- Closes the blocks that are indented further than a column. -/
def closeBlocks (column : Int) (l : Lexer) : Lexer :=
  if l.inFlow then l
  else
    let rec close (indent : Int) (outer : List Int) (l : Lexer) : Lexer :=
      if column < indent then
        match outer with
        | next :: outer => close next outer { l.push .blockEnd with indent := next, outerIndents := outer }
        | [] => l
      else l
    termination_by outer.length
    close l.indent l.outerIndents l

/-- Opens a block at a column that lies further in; `number` tokens stand in front of it. -/
def openBlock (column : Nat) (number : Nat) (token : Token) (l : Lexer) : Lexer :=
  if l.inFlow || (column : Int) ≤ l.indent then l
  else { l.insertAt number token with indent := column, outerIndents := l.indent :: l.outerIndents }

/-! ## Possible keys -/

/-- Whether a possible key has been left behind: it ends on its line and within 1024 characters. -/
def KeyMark.isStale (mark : KeyMark) (c : Cursor) : Bool :=
  mark.line < c.line || mark.index + 1024 < c.index

/-- Forgets a possible key that has been left behind, unless it had to be one. -/
def dropStale (c : Cursor) : Option KeyMark → Option (Option KeyMark)
  | none => some none
  | some mark =>
    if KeyMark.isStale mark c then (if mark.required then none else some none) else some (some mark)

/-- Forgets the possible keys that have been left behind. -/
def dropStaleKeys (l : Lexer) : Option Lexer := do
  let keyMark ← dropStale l.cursor l.keyMark
  let outer ← l.outerKeyMarks.mapM (dropStale l.cursor)
  return { l with keyMark := keyMark, outerKeyMarks := outer }

/-- Forgets the possible key at this level, unless it had to be one. -/
def dropKey (l : Lexer) : Option Lexer :=
  match l.keyMark with
  | some mark => if mark.required then none else some { l with keyMark := none }
  | none => some l

/-- Remembers that the next token may be the first one of a key. -/
def markKey (l : Lexer) : Option Lexer :=
  if l.keyAllowed then do
    let required := !l.inFlow && l.indent == (l.cursor.column : Int)
    let l ← l.dropKey
    let c := l.cursor
    return { l with keyMark := some ⟨l.count, required, c.index, c.line, c.column⟩ }
  else some l

/-! ## Between tokens -/

/-- Passes over blanks, comments and line ends. A tab may not stand where a key may begin in a block. -/
def skipSpace : (fuel : Nat) → Lexer → Lexer
  | 0, l => l
  | fuel + 1, l =>
    let tabs := l.inFlow || !l.keyAllowed
    let c := (l.cursor.skipWhile fun x => x == ' ' || (tabs && x == '\t')).skipComment
    if c.seesAny isBreak then
      skipSpace fuel { l with cursor := c.skipLine, keyAllowed := l.keyAllowed || !l.inFlow }
    else l.goTo c

/-! ## Directives, anchors and tags -/

/-- Reads a word of letters, digits, `_` and `-`. -/
def readWord (c : Cursor) : String × Cursor :=
  (String.ofList (c.rest.takeWhile isWordChar), c.skipWhile isWordChar)

/-- Reads a number of a version. -/
def readVersionNumber (c : Cursor) : Option (Nat × Cursor) :=
  let digits := c.rest.takeWhile Char.isDigit
  if digits.isEmpty || 9 < digits.length then none
  else some (Nat.ofDigitChars 10 digits 0, c.skip digits.length)

/-- Reads `!`, `!!` or `!name!`; an unfinished `!name` is the beginning of something else. -/
def readHandle (c : Cursor) : Option (String × Cursor) :=
  if c.sees '!' then
    let (word, after) := readWord c.skip
    if after.sees '!' then some ("!" ++ word ++ "!", after.skip) else some ("!" ++ word, after)
  else none

/-- Reads an octet that is written with a percent sign. -/
def readOctet (c : Cursor) : Option (Nat × Cursor) := do
  if !c.sees '%' then none
  else
    let digits := (c.rest.drop 1).take 2
    if digits.length < 2 then none else return (← hexValue? digits, c.skip 3)

/-- Reads the octets that continue a character. -/
def readTailOctets : (count : Nat) → (value : Nat) → Cursor → Option (Nat × Cursor)
  | 0, value, c => some (value, c)
  | count + 1, value, c => do
    let (octet, c) ← readOctet c
    if octet / 64 = 2 then readTailOctets count (value * 64 + octet % 64) c else none

/-- Reads a character that is written as UTF-8 octets with percent signs. -/
def readEscapedChar (c : Cursor) : Option (Char × Cursor) := do
  let (octet, c) ← readOctet c
  let (value, c) ←
    if octet < 0x80 then some (octet, c)
    else if octet / 32 = 6 then readTailOctets 1 (octet % 32) c
    else if octet / 16 = 14 then readTailOctets 2 (octet % 16) c
    else if octet / 8 = 30 then readTailOctets 3 (octet % 8) c
    else none
  return (Char.ofNat value, c)

/-- A character of a tag. Between angle brackets some more are allowed. -/
def isTagChar (verbatim : Bool) (c : Char) : Bool :=
  isWordChar c || ";/?:@&=+$.%!~*'()".toList.contains c || (verbatim && ",[]".toList.contains c)

/-- Reads characters of a tag. -/
def readTagText (verbatim : Bool) : (fuel : Nat) → Cursor → Option (List Char × Cursor)
  | 0, c => some ([], c)
  | fuel + 1, c =>
    match c.peek with
    | none => some ([], c)
    | some x =>
      if isTagChar verbatim x then
        if x == '%' then do
          let (char, c) ← readEscapedChar c
          (readTagText verbatim fuel c).map fun (text, c) => (char :: text, c)
        else (readTagText verbatim fuel c.skip).map fun (text, c) => (x :: text, c)
      else some ([], c)

/-- Reads characters of a tag after a beginning; there has to be a character in all. -/
def readTagRest (verbatim : Bool) (beginning : String) (c : Cursor) : Option (String × Cursor) := do
  let (text, after) ← readTagText verbatim c.rest.length c
  if beginning.isEmpty && text.isEmpty then none
  else return ((beginning.drop 1).toString ++ String.ofList text, after)

/-- Passes over blanks and a comment to the end of a line, and over that. -/
def finishLine (c : Cursor) : Option Cursor :=
  let c := (c.skipWhile isBlank).skipComment
  if c.endsLine then some (if c.atEnd then c else c.skipLine) else none

/-- Reads a directive. Only versions and tags can be declared. -/
def readDirective (c : Cursor) : Option (Token × Cursor) := do
  let (name, c) := readWord c.skip
  if name.isEmpty || !c.endsWord then none
  else
    let c := c.skipWhile isBlank
    if name = "YAML" then
      let (major, c) ← readVersionNumber c
      if !c.sees '.' then none
      else
        let (minor, c) ← readVersionNumber c.skip
        return (.version major minor, ← finishLine c)
    else if name = "TAG" then
      let (handle, c) ← readHandle c
      if (handle.length > 1 && !handle.endsWith "!") || !c.seesAny isBlank then none
      else
        let (expansion, c) ← readTagRest true "" (c.skipWhile isBlank)
        if !c.endsWord then none else return (.tagDirective handle expansion, ← finishLine c)
    else none

/-- Reads the name of an anchor or alias after its indicator. -/
def readAnchorName (c : Cursor) : Option (String × Cursor) :=
  let (name, c) := readWord c.skip
  let ends := c.endsWord || c.seesAny fun x => "?:,]\x7d%@\x60".toList.contains x
  if name.isEmpty || !ends then none else some (name, c)

/-- Reads a tag. -/
def readTag (flow : Bool) (c : Cursor) : Option (Token × Cursor) := do
  let (token, c) ←
    if c.sees '<' 1 then do
      let (suffix, c) ← readTagRest true "" (c.skip 2)
      if c.sees '>' then some (Token.tag "" suffix, c.skip) else none
    else do
      let (handle, c) ← readHandle c
      if handle.length > 1 && handle.endsWith "!" then
        let (suffix, c) ← readTagRest false "" c
        pure (Token.tag handle suffix, c)
      else
        let (suffix, c) ← readTagRest false handle c
        pure (if suffix.isEmpty then Token.tag "" "!" else Token.tag "!" suffix, c)
  if c.endsWord || (flow && c.sees ',') then some (token, c) else none

/-! ## Tokens -/

/-- Reads an indicator of one character. -/
def indicator (l : Lexer) (token : Token) : Lexer :=
  (l.push token).goTo l.cursor.skip

/-- An opening bracket. -/
def openFlow (l : Lexer) (token : Token) : Option Lexer := do
  let l ← l.markKey
  return { l.indicator token with
    keyAllowed := true, keyMark := none, outerKeyMarks := l.keyMark :: l.outerKeyMarks }

/-- A closing bracket. -/
def closeFlow (l : Lexer) (token : Token) : Option Lexer := do
  let l ← l.dropKey
  let l := { l.indicator token with keyAllowed := false }
  match l.outerKeyMarks with
  | mark :: outer => return { l with keyMark := mark, outerKeyMarks := outer }
  | [] => return l

/-- A comma between brackets. -/
def flowEntry (l : Lexer) : Option Lexer := do
  let l ← l.dropKey
  return { l.indicator .flowEntry with keyAllowed := true }

/-- A dash before an item. -/
def blockEntry (l : Lexer) : Option Lexer := do
  let l ←
    if l.inFlow then some l
    else if l.keyAllowed then some (l.openBlock l.cursor.column l.count .blockSequenceStart)
    else none
  let l ← l.dropKey
  return { l.indicator .blockEntry with keyAllowed := true }

/-- A question mark before a key. -/
def explicitKey (l : Lexer) : Option Lexer := do
  let l ←
    if l.inFlow then some l
    else if l.keyAllowed then some (l.openBlock l.cursor.column l.count .blockMappingStart)
    else none
  let l ← l.dropKey
  return { l.indicator .key with keyAllowed := !l.inFlow }

/-- A colon before a value. -/
def valueMark (l : Lexer) : Option Lexer :=
  match l.keyMark with
  | some mark =>
    let l := (l.insertAt mark.number .key).openBlock mark.column mark.number .blockMappingStart
    some { l.indicator .value with keyMark := none, keyAllowed := false }
  | none => do
    let l ←
      if l.inFlow then some l
      else if l.keyAllowed then some (l.openBlock l.cursor.column l.count .blockMappingStart)
      else none
    return { l.indicator .value with keyAllowed := !l.inFlow }

/-- A mark between documents. -/
def documentMark (l : Lexer) (token : Token) : Option Lexer := do
  let l ← (l.closeBlocks (-1)).dropKey
  return { (l.push token).goTo (l.cursor.skip 3) with keyAllowed := false }

/-- A directive. -/
def directive (l : Lexer) : Option Lexer := do
  let l ← (l.closeBlocks (-1)).dropKey
  let (token, c) ← readDirective l.cursor
  return { (l.push token).goTo c with keyAllowed := false }

/-- An anchor or an alias. -/
def anchorLike (l : Lexer) (token : String → Token) : Option Lexer := do
  let l ← l.markKey
  let (name, c) ← readAnchorName l.cursor
  return { (l.push (token name)).goTo c with keyAllowed := false }

/-- A tag. -/
def tagToken (l : Lexer) : Option Lexer := do
  let l ← l.markKey
  let (token, c) ← readTag l.inFlow l.cursor
  return { (l.push token).goTo c with keyAllowed := false }

/-- A block scalar. -/
def blockScalar (l : Lexer) (literal : Bool) : Option Lexer := do
  let l ← l.dropKey
  let (text, c) ← readBlock literal l.indent l.cursor.skip
  let style := if literal then Style.literal else .folded
  return { (l.push (.scalar style (String.ofList text))).goTo c with keyAllowed := true }

/-- A quoted scalar. -/
def quotedScalar (l : Lexer) (single : Bool) : Option Lexer := do
  let l ← l.markKey
  let c := l.cursor.skip
  let (text, c) ← readQuoted single (c.rest.length + 1) c
  let style := if single then Style.singleQuoted else .doubleQuoted
  return { (l.push (.scalar style (String.ofList text))).goTo c with keyAllowed := false }

/-- A plain scalar. -/
def plainScalar (l : Lexer) : Option Lexer := do
  let l ← l.markKey
  let plain ← readPlain l.inFlow (l.indent + 1).toNat (l.cursor.rest.length + 1) l.cursor {}
  return { (l.push (.scalar .plain (String.ofList plain.text))).goTo plain.after with
    keyAllowed := plain.endedLine }

/-- Whether a plain scalar begins here. -/
def startsPlain (l : Lexer) : Bool :=
  let c := l.cursor
  (!c.endsWord && !c.seesAny fun x => "-?:,[]\x7b\x7d#&*!|>'\"%@\x60".toList.contains x) ||
    (c.sees '-' && !c.seesAny isBlank 1) ||
    (!l.inFlow && (c.sees '?' || c.sees ':') && !c.endsWord 1)

/-- Reads the token that begins here. -/
def next (l : Lexer) : Option Lexer :=
  let c := l.cursor
  if c.column == 0 && c.sees '%' then l.directive
  else if c.seesMark '-' then l.documentMark .documentStart
  else if c.seesMark '.' then l.documentMark .documentEnd
  else if c.sees '[' then l.openFlow .flowSequenceStart
  else if c.sees '\x7b' then l.openFlow .flowMappingStart
  else if c.sees ']' then l.closeFlow .flowSequenceEnd
  else if c.sees '\x7d' then l.closeFlow .flowMappingEnd
  else if c.sees ',' then l.flowEntry
  else if c.sees '-' && c.endsWord 1 then l.blockEntry
  else if c.sees '?' && (l.inFlow || c.endsWord 1) then l.explicitKey
  else if c.sees ':' && (l.inFlow || c.endsWord 1) then l.valueMark
  else if c.sees '*' then l.anchorLike .alias
  else if c.sees '&' then l.anchorLike .anchor
  else if c.sees '!' then l.tagToken
  else if c.sees '|' && !l.inFlow then l.blockScalar true
  else if c.sees '>' && !l.inFlow then l.blockScalar false
  else if c.sees '\'' then l.quotedScalar true
  else if c.sees '"' then l.quotedScalar false
  else if l.startsPlain then l.plainScalar
  else none

/-- Closes what is open at the end of the text. -/
def finish (l : Lexer) : Option (List Token) := do
  let l ← (l.closeBlocks (-1)).dropKey
  return l.tokens.reverse

/-- Reads the tokens that are left. -/
def run : (fuel : Nat) → Lexer → Option (List Token)
  | 0, _ => none
  | fuel + 1, l => do
    let l ← (skipSpace (l.cursor.rest.length + 1) l).dropStaleKeys
    let l := l.closeBlocks l.cursor.column
    if l.cursor.atEnd then l.finish
    else run fuel (← l.next)

end Lexer

/-- The tokens of a text. A byte order mark may stand in front of it; it takes up a column of the first
line. -/
def tokens? (s : String) : Option (List Token) :=
  let start : Cursor := { rest := s.toList }
  let start := if start.sees '\uFEFF' then start.skip else start
  if start.rest.all isPrintable then Lexer.run (start.rest.length + 2) { cursor := start } else none

end Sidecar.Yaml
