import Sidecar.Json.Basic

/-!
# Writing JSON

The indented form of a JSON value: one item or member a line, two more blanks for each level, and nothing
between the brackets of an empty array or object.
-/

namespace Sidecar.Json

/-- The digit of a value below sixteen. -/
def hexDigit (n : Nat) : Char :=
  if n < 10 then Char.ofNat ('0'.toNat + n) else Char.ofNat ('a'.toNat + (n - 10))

/-- A character inside quotes: only the quote, the backslash and control characters are escaped. -/
def escapeChar (c : Char) : List Char :=
  if c == '"' then ['\\', '"']
  else if c == '\\' then ['\\', '\\']
  else if c == '\x08' then ['\\', 'b']
  else if c == '\x0c' then ['\\', 'f']
  else if c == '\n' then ['\\', 'n']
  else if c == '\r' then ['\\', 'r']
  else if c == '\t' then ['\\', 't']
  else if c.toNat < 0x20 then
    ['\\', 'u', '0', '0', hexDigit (c.toNat / 16), hexDigit (c.toNat % 16)]
  else [c]

/-- A text in quotes. -/
def quoted (s : String) : String :=
  String.ofList ('"' :: s.toList.flatMap escapeChar ++ ['"'])

/-- The blanks in front of a line at a level. -/
def indent (level : Nat) : String :=
  String.ofList (List.replicate (2 * level) ' ')

mutual

/-- Writes a value whose first line begins at a level. A string that is no text is written as an empty
one. -/
def prettyAt (level : Nat) : Json → String
  | .null => "null"
  | .bool true => "true"
  | .bool false => "false"
  | .number literal => literal
  | .string text => quoted (text.getD "")
  | .array [] => "[]"
  | .array (item :: items) =>
    "[\n" ++ indent (level + 1) ++ prettyAt (level + 1) item ++ prettyItems (level + 1) items ++
      "\n" ++ indent level ++ "]"
  | .object [] => "\x7b\x7d"
  | .object (member :: members) =>
    "\x7b\n" ++ indent (level + 1) ++ quoted (member.1.getD "") ++ ": " ++
      prettyAt (level + 1) member.2 ++ prettyMembers (level + 1) members ++
      "\n" ++ indent level ++ "\x7d"

/-- Writes the items after the first. -/
def prettyItems (level : Nat) : List Json → String
  | [] => ""
  | item :: items =>
    ",\n" ++ indent level ++ prettyAt level item ++ prettyItems level items

/-- Writes the members after the first. -/
def prettyMembers (level : Nat) : List (Option String × Json) → String
  | [] => ""
  | (name, value) :: members =>
    ",\n" ++ indent level ++ quoted (name.getD "") ++ ": " ++ prettyAt level value ++
      prettyMembers level members

end

/-- The indented form of a value. -/
def pretty (value : Json) : String :=
  prettyAt 0 value

end Sidecar.Json
