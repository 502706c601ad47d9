import Sidecar.Image.Consultation
import Sidecar.Image.Metadata

/-!
# Looking up images

How the default command of an image is found. The runtime is asked to inspect the image. Only if the runtime
runs and refuses, the image is taken to be missing; then it is pulled, and inspected a second time.

A secret is the Base64 form of a credentials file, which is stored while the runtime is consulted. Nothing is
asked for a blank image or with a secret that cannot be read.
-/

namespace Sidecar.ImageLookup

/-- Runs the runtime. The result is what it prints, or its complaint if it is not successful. -/
def run (runtime : ContainerRuntime) (credentials : Option CredentialsVariable) (action : RuntimeAction)
    (args : List String) : Consultation (Except ImageError String) :=
  .ask (runtime.binary :: args) credentials fun reply =>
    .finished (match reply with
      | .error cause => .error (.runtime runtime.binary cause)
      | .ok output =>
        if output.isSuccess then .ok (Text.Utf8.decodeLossy output.stdout)
        else .error (.command runtime.binary action.name (Text.trim (Text.Utf8.decodeLossy output.stderr))))

/-- Inspects an image. -/
def inspect (runtime : ContainerRuntime) (credentials : Option CredentialsVariable) (image : String) :
    Consultation (Except ImageError ImageMetadata) := do
  let args := ["image", "inspect", "--format", "\x7b\x7bjson .Config\x7d\x7d", image]
  return (← run runtime credentials .inspect args).bind ImageMetadata.ofInspection

/-- Inspects an image, and pulls it first if the runtime does not have it. -/
def inspectOrPull (runtime : ContainerRuntime) (credentials : Option CredentialsVariable)
    (stepId image : String) : Consultation (Except ImageError ImageMetadata) := do
  match ← inspect runtime credentials image with
  | .error (.command _ _ complaint) =>
    Consultation.log
      { level := .debug
        message := "image not available locally"
        fields := [("step_id", stepId), ("image", image), ("stderr", complaint)] } (pure ())
    Consultation.log
      { level := .info
        message := "pulling image"
        fields := [("step_id", stepId), ("image", image), ("runtime", runtime.binary)] } (pure ())
    match ← run runtime credentials .pull ["pull", "--quiet", image] with
    | .error e => return .error e
    | .ok _ => inspect runtime credentials image
  | result => return result

/-- The secret, unless it is blank. -/
def usableSecret? (secret : Option String) : Option String :=
  (secret.map Text.trim).filter (· ≠ "")

/-- Looks up the default command of an image for a step. -/
def lookup (runtime : ContainerRuntime) (stepId image : String) (secret : Option String) :
    Consultation (Except ImageError ImageMetadata) :=
  if Text.isBlankText image then pure (.error .emptyReference)
  else
    match usableSecret? secret with
    | none => inspectOrPull runtime none stepId image
    | some secret =>
      match Text.Base64.decode (Text.Utf8.encode secret) with
      | .error cause => pure (.error (.invalidSecret cause))
      | .ok content =>
        .store content fun
          | .error cause => pure (.error (.credentials cause))
          | .ok () => do
            let result ← inspectOrPull runtime (some runtime.credentials) stepId image
            Consultation.discard (pure ())
            return result

end Sidecar.ImageLookup
