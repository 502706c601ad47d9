import Sidecar.Json.Value
import Sidecar.Step.Spec
import Sidecar.Yaml.Value

/-!
# Reading steps

A step as a record of a document. Fields that are missing have their defaults, and members that are no field
are passed over. The same reading serves every format.
-/

namespace Sidecar

open Document

variable {ν : Type} [Document ν]

/-- Reads the format of a report. -/
def ReportFormat.decode? (value : ν) : Option ReportFormat :=
  match choice? value with
  | some "junit" => some .junit
  | _ => none

/-- Reads a report declaration. -/
def ReportDeclaration.decode? (value : ν) : Option ReportDeclaration := do
  let fields ← record? ["type", "paths"] value
  let format ← field? fields "type" ReportFormat.decode? .junit
  let paths ← field? fields "paths" texts? []
  return ⟨format, paths⟩

/-- Reads a list of report declarations. -/
def ReportDeclaration.decodeList? (value : ν) : Option (List ReportDeclaration) := do
  (← list? value).mapM ReportDeclaration.decode?

/-- Reads names bound to texts. Of two bindings of a name the later one holds. -/
def Bindings.decode? (value : ν) : Option Bindings := do
  let entries ← (← members? value).mapM fun entry => (text? entry.2).map (entry.1, ·)
  return Bindings.ofList entries

namespace Step

/-- The fields of a step, in their order. -/
def fieldNames : List String :=
  ["id", "display_name", "command", "shell_type", "environment", "entrypoint", "image", "reports",
    "num_retries", "timeout_secs"]

/-- Reads a step. -/
def decode? (value : ν) : Option Step := do
  let fields ← record? fieldNames value
  let id ← field? fields "id" text? ""
  let displayName ← field? fields "display_name" text? ""
  let command ← field? fields "command" text? ""
  let shell ← field? fields "shell_type" (fun v => (text? v).map Shell.ofName) .unspecified
  let environment ← field? fields "environment" Bindings.decode? ∅
  let entrypoint ← field? fields "entrypoint" texts? []
  let image ← field? fields "image" text? ""
  let reports ← field? fields "reports" ReportDeclaration.decodeList? []
  let retries ← field? fields "num_retries" (natUpTo? maxWord32) 0
  let timeoutSeconds ← field? fields "timeout_secs" (natUpTo? maxWord64) 0
  return ⟨id, displayName, command, shell, environment, entrypoint, image, reports, retries,
    timeoutSeconds⟩

/-- Reads a step from a YAML text. -/
def ofYaml? (text : String) : Option Step := do
  decode? (← Yaml.parse? text)

/-- Reads a step from a JSON text. -/
def ofJson? (text : String) : Option Step := do
  decode? (← Json.parse? text)

end Step

/-- The serialized form of a report declaration. -/
def ReportDeclaration.toJson (report : ReportDeclaration) : Json :=
  .record [("type", .text report.format.name), ("paths", .texts report.paths)]

/-- The serialized form of a step, with all of its fields. -/
def Step.toJson (step : Step) : Json :=
  .record [
    ("id", .text step.id),
    ("display_name", .text step.displayName),
    ("command", .text step.command),
    ("shell_type", .text step.shell.name),
    ("environment", .textRecord step.environment.toList),
    ("entrypoint", .texts step.entrypoint),
    ("image", .text step.image),
    ("reports", .array (step.reports.map ReportDeclaration.toJson)),
    ("num_retries", .nat step.retries),
    ("timeout_secs", .nat step.timeoutSeconds)]

end Sidecar
