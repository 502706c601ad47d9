import Sidecar.Document
import Sidecar.Json.Reader

/-!
# JSON values as typed data

What JSON values are read as. A record may be written as an object, or as an array with its fields in their
order. A named alternative is a string, or an object whose only member has that name and the value null.
-/

namespace Sidecar.Json

/-- The text of a string. -/
def text? : Json → Option String
  | .string text => text
  | _ => none

/-- The members of an object whose names are texts. -/
def members? : Json → Option (List (String × Json))
  | .object members => members.mapM fun member => member.1.map (·, member.2)
  | _ => none

/-- The number that digits stand for. -/
def nat? : Json → Option Nat
  | .number literal =>
    if literal.toList.all Char.isDigit then some (Nat.ofDigitChars 10 literal.toList 0) else none
  | _ => none

instance : Document Json where
  text? := text?
  nat? := nat?
  bool?
    | .bool value => some value
    | _ => none
  choice?
    | .string text => text
    | .object [(some name, .null)] => some name
    | _ => none
  list?
    | .array items => some items
    | _ => none
  members? := members?
  fields? names
    | .array items => if items.length ≤ names.length then some (names.zip items) else none
    | value => members? value
  isNull
    | .null => true
    | _ => false

end Sidecar.Json
