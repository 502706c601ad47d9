import Sidecar.Document
import Sidecar.Yaml.Node

/-!
# YAML values as typed data

What the nodes of a YAML document are read as. Any scalar is a text, whatever it looks like; numbers and truth
values have to be plain, or literal blocks with the tag of their type. A node that is left out is an empty
list or record.
-/

namespace Sidecar.Yaml

/-- A node with the anchors that its aliases refer to. -/
structure Value where
  node : Node
  anchors : List (Nat × Node)
deriving Inhabited

/-- The tag of integers. -/
def intTag : String := "tag:yaml.org,2002:int"

/-- The tag of truth values. -/
def boolTag : String := "tag:yaml.org,2002:bool"

/-- The tag of null. -/
def nullTag : String := "tag:yaml.org,2002:null"

namespace Value

/-- The node of a value; an alias is followed to the node of its anchor. -/
def target (v : Value) : Node :=
  match v.node with
  | .alias number => (v.anchors.lookup number).getD .missing
  | node => node

/-- A node of the same document. -/
def within (v : Value) (node : Node) : Value :=
  ⟨node, v.anchors⟩

/-- Whether a scalar may be read as more than text. `known` tells that its type is known already. -/
def isLiteral (expected : String) (known : Bool) (tag : Option String) : Style → Bool
  | .plain => true
  | .literal =>
    match tag with
    | some tag => !known && tag == expected
    | none => known
  | _ => false

/-- The value of a digit. -/
def digitValue? (base : Nat) (c : Char) : Option Nat :=
  (hexDigit? c).filter (· < base)

/-- The number that digits stand for. There has to be a digit. -/
def readDigits? (base : Nat) (digits : List Char) : Option Nat :=
  if digits.isEmpty then none
  else digits.foldlM (fun value c => (digitValue? base c).map (value * base + ·)) 0

/-- Digits after a leading zero, which make no number. -/
def isZeroLed : List Char → Bool
  | '0' :: c :: rest => (c :: rest).all Char.isDigit
  | _ => false

/-- Reads a natural number: decimal, or with `0x`, `0o` or `0b` in front, and perhaps a plus sign. -/
def readNat? (s : String) : Option Nat :=
  let digits := match s.toList with
    | '+' :: rest => rest
    | cs => cs
  match digits with
  | '0' :: 'x' :: rest => readDigits? 16 rest
  | '0' :: 'o' :: rest => readDigits? 8 rest
  | '0' :: 'b' :: rest => readDigits? 2 rest
  | _ => if isZeroLed digits then none else readDigits? 10 digits

/-- Reads a truth value in lower, upper or mixed case. -/
def readBool? (s : String) : Option Bool :=
  if s = "true" ∨ s = "True" ∨ s = "TRUE" then some true
  else if s = "false" ∨ s = "False" ∨ s = "FALSE" then some false
  else none

/-- Whether a text stands for null. -/
def isNullText (s : String) : Bool :=
  s = "" ∨ s = "null" ∨ s = "Null" ∨ s = "NULL" ∨ s = "~"

/-- Whether a node has been left out. -/
def isMissing : Node → Bool
  | .scalar _ .plain "" => true
  | _ => false

/-- The text of a scalar. -/
def text? (v : Value) : Option String :=
  match v.target with
  | .scalar _ _ text => some text
  | _ => none

/-- The entries of a mapping whose keys are scalars. -/
def members? (v : Value) : Option (List (String × Value)) :=
  match v.target with
  | .mapping _ entries =>
    entries.mapM fun entry => (v.within entry.1).text?.map (·, v.within entry.2)
  | node => if isMissing node then some [] else none

/-- A named alternative: the text of a scalar, or a tag of one's own before nothing. -/
def choice? (v : Value) : Option String :=
  match v.target with
  | .scalar tag style text =>
    match tag.map String.toList with
    | some ('!' :: name) =>
      if isLiteral nullTag true none style && isNullText text then some (String.ofList name) else none
    | _ => some text
  | _ => none

end Value

instance : Document Value where
  text? := Value.text?
  nat? v :=
    match v.target with
    | .scalar tag style text =>
      if Value.isLiteral intTag false tag style then Value.readNat? text else none
    | _ => none
  bool? v :=
    match v.target with
    | .scalar tag style text =>
      if Value.isLiteral boolTag false tag style then Value.readBool? text else none
    | _ => none
  choice? := Value.choice?
  list? v :=
    match v.target with
    | .sequence _ items => some (items.map v.within)
    | node => if Value.isMissing node then some [] else none
  members? := Value.members?
  fields? _ := Value.members?
  isNull v :=
    match v.target with
    | .scalar tag style text => Value.isLiteral nullTag false tag style && Value.isNullText text
    | _ => false

/-- The value that a text holds. A text without a document holds a node that is left out. -/
def parse? (s : String) : Option Value := do
  let text ← Text.parse? s
  return ⟨text.root.getD .missing, text.anchors⟩

end Sidecar.Yaml
