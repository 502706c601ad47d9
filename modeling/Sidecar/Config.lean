import Sidecar.Error
import Sidecar.Json.Value
import Sidecar.Step.Spec
import Sidecar.Text.Blank
import Sidecar.Text.Utf8
import Sidecar.Yaml.Value

/-!
# Configuration

The settings that all steps share, read from YAML. Missing settings have their defaults. `Config.validate`
refuses settings that no step could be run with.
-/

namespace Sidecar

/-- The program that looks up container images. -/
inductive ContainerRuntime where
  | docker
  | podman
deriving DecidableEq, Repr, Inhabited

/-- The name of the program. -/
def ContainerRuntime.binary : ContainerRuntime → String
  | .docker => "docker"
  | .podman => "podman"

/-- The settings. -/
structure Config where
  /-- How long a run waits for its step before the step counts as launched. -/
  settleWindowSeconds : Nat := 5
  defaultRetries : Nat := Step.defaultRetries
  defaultTimeoutSeconds : Nat := Step.defaultTimeoutSeconds
  /-- Whether attempts are killed when their timeout is over. -/
  enforceTimeout : Bool := false
  /-- The environment variable that holds the secret for pulling images. -/
  imageSecretVariable : String := "PIPELINE_IMAGE_SECRET"
  /-- The time between two looks at the memory of a process. -/
  sampleIntervalMillis : Nat := 1000
  containerRuntime : ContainerRuntime := .docker
  logLevel : String := "info"
deriving DecidableEq, Repr, Inhabited

open Document

/-- Reads the name of a container runtime. -/
def ContainerRuntime.decode? {ν : Type} [Document ν] (value : ν) : Option ContainerRuntime :=
  match choice? value with
  | some "docker" => some .docker
  | some "podman" => some .podman
  | _ => none

namespace Config

/-- The settings, in their order. -/
def fieldNames : List String :=
  ["settle_window_secs", "default_num_retries", "default_timeout_secs", "enforce_timeout",
    "image_secret_env", "metrics_sample_interval_ms", "container_runtime", "log_level"]

/-- Reads the settings. -/
def decode? {ν : Type} [Document ν] (value : ν) : Option Config := do
  let fields ← record? fieldNames value
  let default : Config := {}
  let settle ← field? fields "settle_window_secs" (natUpTo? maxWord64) default.settleWindowSeconds
  let retries ← field? fields "default_num_retries" (natUpTo? maxWord32) default.defaultRetries
  let timeout ← field? fields "default_timeout_secs" (natUpTo? maxWord64) default.defaultTimeoutSeconds
  let enforce ← field? fields "enforce_timeout" bool? default.enforceTimeout
  let secret ← field? fields "image_secret_env" text? default.imageSecretVariable
  let interval ←
    field? fields "metrics_sample_interval_ms" (natUpTo? maxWord64) default.sampleIntervalMillis
  let runtime ← field? fields "container_runtime" ContainerRuntime.decode? default.containerRuntime
  let level ← field? fields "log_level" text? default.logLevel
  return ⟨settle, retries, timeout, enforce, secret, interval, runtime, level⟩

/-- Refuses settings that no step could be run with. -/
def validate (c : Config) : Except ConfigError Unit :=
  if c.settleWindowSeconds = 0 then
    .error (.invalid "settle_window_secs" "must be at least one second")
  else if c.sampleIntervalMillis = 0 then
    .error (.invalid "metrics_sample_interval_ms" "must be positive")
  else if Text.isBlankText c.imageSecretVariable then
    .error (.invalid "image_secret_env" "must name an environment variable")
  else .ok ()

/-- Reads settings from a YAML text; a blank text leaves all of them at their defaults. -/
def ofYaml (raw : String) : Except ConfigError Config := do
  let config ←
    if Text.isBlankText raw then pure {}
    else
      match Yaml.parse? raw >>= decode? with
      | some config => pure config
      | none => throw (.parse .malformed)
  config.validate
  return config

/-- Reads settings from a file, given what reading the file led to. -/
def ofFile (path : String) (content : Except SystemError (List UInt8)) : Except ConfigError Config :=
  match content with
  | .error cause => .error (.read path cause)
  | .ok bytes =>
    match Text.Utf8.decode? bytes with
    | some raw => ofYaml raw
    | none => .error (.read path .notText)

/-- The settle window in milliseconds. -/
def settleWindow (c : Config) : Nat :=
  c.settleWindowSeconds * 1000

/-- The serialized form of the settings. -/
def toJson (c : Config) : Json :=
  .record [
    ("settle_window_secs", .nat c.settleWindowSeconds),
    ("default_num_retries", .nat c.defaultRetries),
    ("default_timeout_secs", .nat c.defaultTimeoutSeconds),
    ("enforce_timeout", .bool c.enforceTimeout),
    ("image_secret_env", .text c.imageSecretVariable),
    ("metrics_sample_interval_ms", .nat c.sampleIntervalMillis),
    ("container_runtime", .text c.containerRuntime.binary),
    ("log_level", .text c.logLevel)]

end Config

end Sidecar
