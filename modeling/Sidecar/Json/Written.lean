import Sidecar.Json.Reader

/-!
# JSON as it is written

The grammar of JSON as a type. A `Json.Written` is one way to write a value: with these blanks between the tokens, these
escapes in the strings and these digits in the numbers. So the trees of this type are the derivations of the grammar,
and a text outside of the grammar has none.

`Written.text` is what is written and `Written.value` what it means. Neither knows of the reader; that the reader agrees
with both is a theorem (`parse?_eq_some_iff`).
-/

namespace Sidecar.Json

/-- Blanks between tokens. -/
structure Blanks where
  chars : List Char
  blank : ∀ c ∈ chars, isSpace c = true

/-- No blanks. -/
def Blanks.none : Blanks :=
  ⟨[], fun _ hc => absurd hc List.not_mem_nil⟩

/-- A character of a string: as it is, by an escape of one letter, or by its four hexadecimal digits. -/
inductive Piece where
  | plain (c : Char) (h : 0x20 ≤ c.toNat ∧ c ≠ '"' ∧ c ≠ '\\')
  | short (letter c : Char) (h : shortEscape? letter = some c)
  | unicode (a b c d : Char) (unit : Nat) (h : hexQuad? a b c d = some unit)

namespace Piece

/-- How the character is written. -/
def text : Piece → List Char
  | plain c _ => [c]
  | short letter _ _ => ['\\', letter]
  | unicode a b c d _ _ => ['\\', 'u', a, b, c, d]

/-- The code point that is meant. It may be half of a surrogate pair. -/
def unit : Piece → Nat
  | plain c _ => c.toNat
  | short _ c _ => c.toNat
  | unicode _ _ _ _ unit _ => unit

/-- Pieces in quotes. -/
def quote (pieces : List Piece) : List Char :=
  '"' :: (pieces.flatMap text ++ ['"'])

/-- The text that pieces mean; there is none if half of a surrogate pair stands alone. -/
def meaning (pieces : List Piece) : Option String :=
  (joinPairs? (pieces.map unit)).map String.ofList

end Piece

/-- One or more digits. -/
structure Digits where
  chars : List Char
  ne_nil : chars ≠ []
  isDigit : ∀ c ∈ chars, c.isDigit = true

/-- An exponent of ten. -/
structure Exponent where
  letter : Char
  sign : List Char
  digits : Digits
  letter_mem : letter ∈ ['e', 'E']
  sign_mem : sign ∈ [[], ['+'], ['-']]

/-- A number as it is written. -/
structure Numeral where
  negative : Bool
  whole : Digits
  fraction : Option Digits
  exponent : Option Exponent
  /-- No digit follows a leading zero. -/
  lead : whole.chars.head? = some '0' → whole.chars = ['0']

/-- The part after the point, if there is one. -/
def fractionText : Option Digits → List Char
  | some digits => '.' :: digits.chars
  | none => []

/-- The exponent with its letter, if there is one. -/
def exponentText : Option Exponent → List Char
  | some e => e.letter :: (e.sign ++ e.digits.chars)
  | none => []

/-- How the number is written. -/
def Numeral.text (n : Numeral) : List Char :=
  (if n.negative then ['-'] else []) ++ n.whole.chars ++ fractionText n.fraction ++ exponentText n.exponent

mutual

/-- A value as it is written, without blanks around it. -/
inductive Written where
  | null
  | bool (value : Bool)
  | number (numeral : Numeral)
  | string (pieces : List Piece)
  | emptyArray (inside : Blanks)
  | array (before : Blanks) (items : WrittenItems)
  | emptyObject (inside : Blanks)
  | object (before : Blanks) (members : WrittenMembers)

/-- The items of an array up to its closing bracket. -/
inductive WrittenItems where
  | last (item : Written) (after : Blanks)
  | more (item : Written) (after before : Blanks) (rest : WrittenItems)

/-- The members of an object up to its closing bracket. -/
inductive WrittenMembers where
  | last (name : List Piece) (beforeColon afterColon : Blanks) (value : Written) (after : Blanks)
  | more (name : List Piece) (beforeColon afterColon : Blanks) (value : Written) (after before : Blanks)
      (rest : WrittenMembers)

end

mutual

/-- The characters of a value. -/
def Written.text : Written → List Char
  | .null => ['n', 'u', 'l', 'l']
  | .bool true => ['t', 'r', 'u', 'e']
  | .bool false => ['f', 'a', 'l', 's', 'e']
  | .number numeral => numeral.text
  | .string pieces => Piece.quote pieces
  | .emptyArray inside => '[' :: (inside.chars ++ [']'])
  | .array before items => '[' :: (before.chars ++ items.text)
  | .emptyObject inside => '\x7b' :: (inside.chars ++ ['\x7d'])
  | .object before members => '\x7b' :: (before.chars ++ members.text)

/-- The characters of items and the bracket behind them. -/
def WrittenItems.text : WrittenItems → List Char
  | .last item after => item.text ++ after.chars ++ [']']
  | .more item after before rest => item.text ++ after.chars ++ ',' :: (before.chars ++ rest.text)

/-- The characters of members and the bracket behind them. -/
def WrittenMembers.text : WrittenMembers → List Char
  | .last name beforeColon afterColon value after =>
    Piece.quote name ++ beforeColon.chars ++ ':' :: (afterColon.chars ++ value.text ++ after.chars ++ ['\x7d'])
  | .more name beforeColon afterColon value after before rest =>
    Piece.quote name ++ beforeColon.chars ++ ':' ::
      (afterColon.chars ++ value.text ++ after.chars ++ ',' :: (before.chars ++ rest.text))

end

mutual

/-- The value that is meant. -/
def Written.value : Written → Json
  | .null => .null
  | .bool value => .bool value
  | .number numeral => .number (String.ofList numeral.text)
  | .string pieces => .string (Piece.meaning pieces)
  | .emptyArray _ => .array []
  | .array _ items => .array items.values
  | .emptyObject _ => .object []
  | .object _ members => .object members.values

/-- The values of items. -/
def WrittenItems.values : WrittenItems → List Json
  | .last item _ => [item.value]
  | .more item _ _ rest => item.value :: rest.values

/-- The names of members with their values. -/
def WrittenMembers.values : WrittenMembers → List (Option String × Json)
  | .last name _ _ value _ => [(Piece.meaning name, value.value)]
  | .more name _ _ value _ _ rest => (Piece.meaning name, value.value) :: rest.values

end

end Sidecar.Json
