/-!
# Documents

What a reader of typed data may ask of a value in a document, whatever the format of the document is. A
format answers with `none` where the value is something else.

The readers for records and their fields are written once over these questions.
-/

namespace Sidecar

/-- The largest number of 32 bits. -/
def maxWord32 : Nat := 4294967295

/-- The largest number of 64 bits. -/
def maxWord64 : Nat := 18446744073709551615

/-- Values of a document format. -/
class Document (ν : Type) where
  /-- The value as a text. -/
  text? : ν → Option String
  /-- The value as a natural number. -/
  nat? : ν → Option Nat
  /-- The value as a truth value. -/
  bool? : ν → Option Bool
  /-- The value as one of some named alternatives. -/
  choice? : ν → Option String
  /-- The value as a list. -/
  list? : ν → Option (List ν)
  /-- The value as texts bound to values, in the order of the document. -/
  members? : ν → Option (List (String × ν))
  /-- The value as a record with these fields. Other members may be among the answer. -/
  fields? : List String → ν → Option (List (String × ν))
  /-- Whether the value stands for the absence of a value. -/
  isNull : ν → Bool

namespace Document

variable {ν : Type} [Document ν]

/-- The members of a record that are fields of it. No field may occur twice. -/
def record? (names : List String) (value : ν) : Option (List (String × ν)) := do
  let members ← fields? names value
  let fields := members.filter fun member => names.contains member.1
  if (fields.map (·.1)).Nodup then return fields else none

/-- Reads a field of a record; a field that is missing has its default. -/
def field? {α : Type} (fields : List (String × ν)) (name : String) (read : ν → Option α)
    (default : α) : Option α :=
  match fields.lookup name with
  | some value => read value
  | none => some default

/-- Reads a list of texts. -/
def texts? (value : ν) : Option (List String) := do
  (← list? value).mapM text?

/-- Reads a number that does not exceed a bound. -/
def natUpTo? (bound : Nat) (value : ν) : Option Nat :=
  (nat? value).filter (· ≤ bound)

end Document

end Sidecar
