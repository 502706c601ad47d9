/-!
# A place in a YAML text

The characters that are still to be read, with the place where they begin. Indentation is significant in
YAML, so the column is counted; a key has to end on its line and within 1024 characters, so lines and
characters are counted too.
-/

namespace Sidecar.Yaml

/-- A place in a text. -/
structure Cursor where
  rest : List Char
  index : Nat := 0
  line : Nat := 0
  column : Nat := 0
deriving Repr

/-- A blank inside a line. -/
def isBlank (c : Char) : Bool :=
  c == ' ' || c == '\t'

/-- A character that ends a line. -/
def isBreak (c : Char) : Bool :=
  c == '\n' || c == '\r' || c == '\x85' || c == '\u2028' || c == '\u2029'

/-- A character of a directive name, an anchor or a tag handle. -/
def isWordChar (c : Char) : Bool :=
  c.isAlphanum || c == '_' || c == '-'

/-- A character that may stand in a YAML text. -/
def isPrintable (c : Char) : Bool :=
  let n := c.toNat
  n == 0x09 || n == 0x0A || n == 0x0D || (0x20 ≤ n && n ≤ 0x7E) || n == 0x85 ||
    (0xA0 ≤ n && n ≤ 0xFFFD) || 0x10000 ≤ n

namespace Cursor

/-- The next character but `k`. -/
def peek (c : Cursor) (k : Nat := 0) : Option Char :=
  c.rest[k]?

/-- Whether the next character but `k` is this one. -/
def sees (c : Cursor) (x : Char) (k : Nat := 0) : Bool :=
  c.peek k == some x

/-- Whether the next character but `k` has a property. -/
def seesAny (c : Cursor) (p : Char → Bool) (k : Nat := 0) : Bool :=
  (c.peek k).any p

/-- Whether nothing is left. -/
def atEnd (c : Cursor) : Bool :=
  c.rest.isEmpty

/-- Whether a line ends at the next character but `k`. -/
def endsLine (c : Cursor) (k : Nat := 0) : Bool :=
  (c.peek k).all isBreak

/-- Whether a word ends at the next character but `k`. -/
def endsWord (c : Cursor) (k : Nat := 0) : Bool :=
  (c.peek k).all fun x => isBlank x || isBreak x

/-- Passes over characters of a line. -/
def skip (c : Cursor) (n : Nat := 1) : Cursor :=
  ⟨c.rest.drop n, c.index + n, c.line, c.column + n⟩

/-- Passes over characters of a line that have a property. -/
def skipWhile (c : Cursor) (p : Char → Bool) : Cursor :=
  c.skip (c.rest.takeWhile p).length

/-- Passes over the end of a line. -/
def skipLine (c : Cursor) : Cursor :=
  match c.rest with
  | '\r' :: '\n' :: rest => ⟨rest, c.index + 2, c.line + 1, 0⟩
  | _ :: rest => ⟨rest, c.index + 1, c.line + 1, 0⟩
  | [] => c

/-- The text of the end of a line. Line and paragraph separators are kept, all others are one line feed. -/
def lineBreak (c : Cursor) : List Char :=
  match c.rest with
  | '\u2028' :: _ => ['\u2028']
  | '\u2029' :: _ => ['\u2029']
  | x :: _ => if isBreak x then ['\n'] else []
  | [] => []

/-- Passes over a comment. -/
def skipComment (c : Cursor) : Cursor :=
  if c.sees '#' then c.skipWhile (fun x => !isBreak x) else c

/-- Whether a line begins here with three of a character, which is a mark between documents. -/
def seesMark (c : Cursor) (x : Char) : Bool :=
  c.column == 0 && c.sees x && c.sees x 1 && c.sees x 2 && c.endsWord 3

/-- Whether a document begins or ends here. -/
def seesDocumentMark (c : Cursor) : Bool :=
  c.seesMark '-' || c.seesMark '.'

end Cursor

end Sidecar.Yaml
