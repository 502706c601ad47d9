import Sidecar.Json.Written
import Sidecar.Yaml.Node

/-!
# JSON that is YAML

Most JSON is YAML between brackets, but not all of it. A JSON text may fail as YAML, or mean something else there, where

* a string names half of a surrogate pair by an escape, or holds a character that YAML does not print;
* a string holds a character that ends a line in YAML: a next line, or a line or paragraph separator that stands beside
  a blank or in front of a mark between documents;
* a key ends on another line than it begins on, or more than 1024 characters further on;
* a tab stands in front of the value, or after it on a line of its own.

`Json.Written.isPortable` and the two conditions on blanks exclude just this. What is left has the tokens
`Json.Written.tokens` and is the node `Json.Written.node`.
-/

namespace Sidecar.Json

namespace Piece

/-- Whether YAML reads the character too, unless it ends a line there. -/
def isPortable : Piece → Bool
  | .plain c _ => Yaml.isPrintable c && c != '\x85'
  | .short _ _ _ => true
  | .unicode _ _ _ _ unit _ => !isHighSurrogate unit && !isLowSurrogate unit

/-- Whether a piece is a blank. -/
def isBlank (p : Piece) : Bool :=
  p.text == [' ']

/-- Whether a piece is a line or paragraph separator. In YAML it ends a line, and is kept. -/
def isSeparator (p : Piece) : Bool :=
  p.text == ['\u2028'] || p.text == ['\u2029']

/-- Whether a mark between documents begins here: three times a character, and a blank or the end of a line. -/
def beginsMark (x : Char) : List Piece → Bool
  | p :: q :: r :: s :: _ => p.text == [x] && q.text == [x] && r.text == [x] && (s.isBlank || s.isSeparator)
  | _ => false

/-- Whether the separators of a string mean nothing but themselves: no blank stands beside one, and behind none begins a
mark between documents. -/
def keepsSeparators : List Piece → Bool
  | [] => true
  | p :: rest =>
    (if p.isSeparator then !rest.head?.any isBlank && !beginsMark '-' rest && !beginsMark '.' rest
      else !p.isBlank || !rest.head?.any isSeparator) && keepsSeparators rest

/-- The character of a piece that is not half of a surrogate pair. -/
def char (p : Piece) : Char :=
  Char.ofNat p.unit

/-- Whether YAML takes a string for a key: it goes on one line up to its colon, and that is near enough. -/
def fitsKey (name : List Piece) (beforeColon : Blanks) : Bool :=
  (quote name ++ beforeColon.chars).length ≤ 1024 && (quote name ++ beforeColon.chars).all fun c => !Yaml.isBreak c

end Piece

mutual

/-- Whether YAML reads a value too where it stands between brackets. -/
def Written.isPortable : Written → Bool
  | .string pieces => pieces.all Piece.isPortable && Piece.keepsSeparators pieces
  | .array _ items => items.isPortable
  | .object _ members => members.isPortable
  | _ => true

/-- Whether YAML reads all items. -/
def WrittenItems.isPortable : WrittenItems → Bool
  | .last item _ => item.isPortable
  | .more item _ _ rest => item.isPortable && rest.isPortable

/-- Whether YAML reads all members. -/
def WrittenMembers.isPortable : WrittenMembers → Bool
  | .last name beforeColon _ value _ =>
    name.all Piece.isPortable && Piece.fitsKey name beforeColon && value.isPortable
  | .more name beforeColon _ value _ _ rest =>
    name.all Piece.isPortable && Piece.fitsKey name beforeColon && value.isPortable && rest.isPortable

end

/-- Whether blanks may stand in front of a YAML text. -/
def Blanks.mayLead (b : Blanks) : Bool :=
  b.chars.all (· != '\t')

/-- Whether blanks may stand behind a YAML text that ends with a bracket: there is no tab after the first line end. -/
def Blanks.mayTrail (b : Blanks) : Bool :=
  (b.chars.dropWhile fun c => !Yaml.isBreak c).all (· != '\t')

/-- A text that YAML reads too: an object with blanks around it. -/
def Portable (s : String) : Prop :=
  ∃ (before after : Blanks) (w : Written), s.toList = before.chars ++ (w.text ++ after.chars) ∧
    (∃ members, w.value = .object members) ∧ w.isPortable = true ∧ before.mayLead = true ∧ after.mayTrail = true

/-! ## Tokens and nodes -/

/-- The token of a string. -/
def Piece.token (pieces : List Piece) : Yaml.Token :=
  .scalar .doubleQuoted ((meaning pieces).getD "")

mutual

/-- The tokens of a value. -/
def Written.tokens : Written → List Yaml.Token
  | .null => [.scalar .plain "null"]
  | .bool true => [.scalar .plain "true"]
  | .bool false => [.scalar .plain "false"]
  | .number numeral => [.scalar .plain (String.ofList numeral.text)]
  | .string pieces => [Piece.token pieces]
  | .emptyArray _ => [.flowSequenceStart, .flowSequenceEnd]
  | .array _ items => .flowSequenceStart :: items.tokens
  | .emptyObject _ => [.flowMappingStart, .flowMappingEnd]
  | .object _ members => .flowMappingStart :: members.tokens

/-- The tokens of items and the bracket behind them. -/
def WrittenItems.tokens : WrittenItems → List Yaml.Token
  | .last item _ => item.tokens ++ [.flowSequenceEnd]
  | .more item _ _ rest => item.tokens ++ .flowEntry :: rest.tokens

/-- The tokens of members and the bracket behind them. -/
def WrittenMembers.tokens : WrittenMembers → List Yaml.Token
  | .last name _ _ value _ =>
    .key :: Piece.token name :: .value :: (value.tokens ++ [.flowMappingEnd])
  | .more name _ _ value _ _ rest =>
    .key :: Piece.token name :: .value :: (value.tokens ++ .flowEntry :: rest.tokens)

end

/-- The node of a string. -/
def Piece.node (pieces : List Piece) : Yaml.Node :=
  .scalar none .doubleQuoted ((meaning pieces).getD "")

mutual

/-- The node of a value. -/
def Written.node : Written → Yaml.Node
  | .null => .scalar none .plain "null"
  | .bool true => .scalar none .plain "true"
  | .bool false => .scalar none .plain "false"
  | .number numeral => .scalar none .plain (String.ofList numeral.text)
  | .string pieces => Piece.node pieces
  | .emptyArray _ => .sequence none []
  | .array _ items => .sequence none items.nodes
  | .emptyObject _ => .mapping none []
  | .object _ members => .mapping none members.nodes

/-- The nodes of items. -/
def WrittenItems.nodes : WrittenItems → List Yaml.Node
  | .last item _ => [item.node]
  | .more item _ _ rest => item.node :: rest.nodes

/-- The nodes of members. -/
def WrittenMembers.nodes : WrittenMembers → List (Yaml.Node × Yaml.Node)
  | .last name _ _ value _ => [(Piece.node name, value.node)]
  | .more name _ _ value _ _ rest => (Piece.node name, value.node) :: rest.nodes

end

end Sidecar.Json
