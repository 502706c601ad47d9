import Sidecar.Error
import Sidecar.Json.Value
import Sidecar.Text.Blank

/-!
# Image metadata

What a container image declares about its default command, and reading it from the output of a container
runtime.
-/

namespace Sidecar

/-- The default command of an image. -/
structure ImageMetadata where
  entrypoint : List String := []
  args : List String := []
deriving DecidableEq, Repr, Inhabited

namespace ImageMetadata

/-- The entrypoint followed by the arguments. -/
def combined (m : ImageMetadata) : List String :=
  m.entrypoint ++ m.args

open Document

/-- Reads a list of texts that may be null. -/
def optionalTexts? {ν : Type} [Document ν] (value : ν) : Option (List String) :=
  if isNull value then some [] else texts? value

/-- Reads the configuration of an image. -/
def decode? {ν : Type} [Document ν] (value : ν) : Option ImageMetadata := do
  let fields ← record? ["Entrypoint", "Cmd"] value
  let entrypoint ← field? fields "Entrypoint" optionalTexts? []
  let args ← field? fields "Cmd" optionalTexts? []
  return ⟨entrypoint, args⟩

/-- Reads what a runtime prints about an image. Blank output and `null` declare nothing. -/
def ofInspection (output : String) : Except ImageError ImageMetadata :=
  let text := Text.trim output
  if text = "" ∨ text = "null" then .ok {}
  else
    match Json.parse? text >>= decode? with
    | some metadata => .ok metadata
    | none => .error (.metadata .malformed)

end ImageMetadata

end Sidecar
