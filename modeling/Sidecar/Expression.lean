import Sidecar.Bindings
import Sidecar.Error
import Sidecar.Text.Pattern

/-!
# Expressions

References of the form `${NAME}` in a text, and their expansion from variables.

The references are found one behind the other, each of them as far as the next closing brace. What stands between
them is copied, and the name of a reference decides what is put in its place: the value of a variable, or the
reference as it is written if there is no such variable or if it may be meant for the shell that runs the script. Any
other reference is malformed, and so is one that is opened behind the last reference and never closed.
-/

namespace Sidecar

namespace Expression

open Text

/-- A letter or an underscore. -/
def isNameStart (c : Char) : Bool :=
  c.isAlpha || c == '_'

/-- A letter, a digit or an underscore. -/
def isNameChar (c : Char) : Bool :=
  c.isAlphanum || c == '_'

/-- How an expansion by the shell may begin. -/
def isShellStart (c : Char) : Bool :=
  isNameStart c || c == '#' || c == '!'

/-- What opens a reference. -/
def openingPattern : Pattern :=
  .one (· == '$') ++ .one (· == '\x7b')

/-- A reference. Its name is looked at by itself. -/
def referencePattern : Pattern :=
  openingPattern ++ .group (.many (· != '\x7d')) ++ .one (· == '\x7d')

/-- A name of a variable. -/
def identifierPattern : Pattern :=
  .atStart ++ .word isNameStart isNameChar ++ .atEnd

/-- What may be meant for a shell: a positional parameter, or something on one line that begins like the expansion
of a parameter. -/
def shellPattern : Pattern :=
  .atStart ++
    .either (.word isShellStart isNameChar ++ .many (· != '\n')) (.word Char.isDigit Char.isDigit) ++
    .atEnd

/-- The way a reference is written. -/
def reference (name : List Char) : List Char :=
  '$' :: '\x7b' :: name ++ ['\x7d']

/-- The matches of the opening of a reference. -/
theorem takes_opening {m m' : Match} (h : openingPattern.Takes m m') :
    ∃ place, m.stop.Leads ['$', '\x7b'] place ∧ m' = m.moveTo place := by
  obtain ⟨between, ⟨c, place, hc, hfirst, rfl⟩, d, place', hd, hsecond, rfl⟩ := h
  obtain rfl : c = '$' := eq_of_beq hc
  obtain rfl : d = '\x7b' := eq_of_beq hd
  exact ⟨place', hfirst.trans hsecond, rfl⟩

/-- The matches of a reference. -/
theorem takes_reference {place : Place} {m : Match} (h : referencePattern.Takes (.empty place) m) :
    ∃ name, '\x7d' ∉ name ∧ place.Leads (reference name) m.stop ∧ m.partText = name ∧ m.start = place := by
  obtain ⟨between, ⟨opened, hopened, named, ⟨name, behind, hname, hleads, rfl⟩, rfl⟩, c, stop, hc, hclosing, rfl⟩ := h
  obtain ⟨inside, hinside, rfl⟩ := takes_opening hopened
  obtain rfl : c = '\x7d' := eq_of_beq hc
  refine ⟨name, ?_, (hinside.trans hleads).trans hclosing, hleads.upTo_eq, rfl⟩
  intro hmem
  simpa using hname _ hmem

/-- A search for references makes progress when it finds one. -/
theorem length_of_reference {place : Place} {m : Match}
    (h : referencePattern.search place.offset place.rest = some m) : m.stop.rest.length < place.rest.length := by
  obtain ⟨name, -, hleads, -⟩ := takes_reference (Pattern.search_eq_some h).1
  have hstart := Pattern.length_search_le h
  have hlength := congrArg List.length hleads.rest
  simp only [reference, List.length_append, List.length_cons, List.length_nil] at hlength
  omega

/-- The references from a place on, one behind the other. -/
def references (place : Place) : List Match :=
  match _h : referencePattern.search place.offset place.rest with
  | none => []
  | some m => m :: references m.stop
termination_by place.rest.length
decreasing_by exact length_of_reference _h

/-- What a reference stands for. -/
def substitute (vars : String → Option String) (m : Match) : Except ExpressionError (List Char) :=
  if identifierPattern.isMatch m.partText then
    match vars (String.ofList m.partText) with
    | some value => .ok value.toList
    | none => .ok m.text
  else if shellPattern.isMatch m.partText then .ok m.text
  else .error (.malformed m.start.offset (String.ofList m.text))

/-- Expands a text from a place on, in which there are some references. -/
def expandFrom (vars : String → Option String) (last : Place) : List Match → Except ExpressionError (List Char)
  | [] =>
    match openingPattern.search last.offset last.rest with
    | some m => .error (.malformed m.start.offset (String.ofList m.start.rest))
    | none => .ok last.rest
  | m :: later => do
    let replacement ← substitute vars m
    return last.upTo m.start ++ replacement ++ (← expandFrom vars m.stop later)

/-- Expands the references of a text. -/
def expand (vars : String → Option String) (raw : String) : Except ExpressionError String := do
  let place := Place.start raw.toList
  return String.ofList (← expandFrom vars place (references place))

end Expression

end Sidecar
