/-!
# JSON values

A JSON text as a tree. The tree keeps what a reader of typed data may ask about: members in their order,
also when a name occurs twice, and numbers as they are written.

A string may name half of a surrogate pair by an escape. Such a string is no text; the tree holds `none`
for it, so that a reader which has no use for the string can pass over it.
-/

namespace Sidecar

/-- A JSON value. -/
inductive Json where
  | null
  | bool (value : Bool)
  | number (literal : String)
  | string (text : Option String)
  | array (items : List Json)
  | object (members : List (Option String × Json))
deriving Inhabited, Repr

namespace Json

/-- A string value. -/
def text (s : String) : Json :=
  .string (some s)

/-- A natural number. -/
def nat (n : Nat) : Json :=
  .number (toString n)

/-- A list of strings. -/
def texts (ss : List String) : Json :=
  .array (ss.map text)

/-- An object with distinct names. -/
def record (members : List (String × Json)) : Json :=
  .object (members.map fun (name, value) => (some name, value))

/-- An object that binds names to strings. -/
def textRecord (members : List (String × String)) : Json :=
  record (members.map fun (name, value) => (name, text value))

end Json

end Sidecar
