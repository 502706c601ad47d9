import Sidecar.Config
import Sidecar.Log

/-!
# Consulting a container runtime

A conversation with the program that knows about images. Besides asking questions, a consultation may store
credentials for the time that it takes; every question that is asked with credentials finds them in the place
that an environment variable names.

`Consultation.carryOut` answers the questions of a consultation and keeps a transcript of it.
-/

namespace Sidecar

/-- What a variable for credentials points at: the file, or the directory that it lies in. -/
inductive CredentialsPlace where
  | file
  | directory
deriving DecidableEq, Repr, Inhabited

/-- A variable by which a runtime finds credentials. -/
structure CredentialsVariable where
  name : String
  place : CredentialsPlace
deriving DecidableEq, Repr, Inhabited

/-- The variable of a runtime. -/
def ContainerRuntime.credentials : ContainerRuntime → CredentialsVariable
  | .docker => ⟨"DOCKER_CONFIG", .directory⟩
  | .podman => ⟨"REGISTRY_AUTH_FILE", .file⟩

/-- What a program has printed, and its exit code unless a signal ended it. -/
structure ProgramOutput where
  stdout : List UInt8 := []
  stderr : List UInt8 := []
  exit : Option Int := some 0
deriving DecidableEq, Repr, Inhabited

/-- Whether the program was successful. -/
def ProgramOutput.isSuccess (o : ProgramOutput) : Bool :=
  o.exit = some 0

/-- What a program answers, unless it cannot be run. -/
abbrev ProgramReply := Except SystemError ProgramOutput

/-- A call of the runtime. The credentials are a variable and what is stored in its place. -/
structure RuntimeCall where
  argv : List String
  credentials : Option (CredentialsVariable × List UInt8) := none
deriving DecidableEq, Repr, Inhabited

/-- A conversation with a container runtime that comes to a value. -/
inductive Consultation (α : Type) where
  | finished (value : α)
  | log (record : LogRecord) (rest : Consultation α)
  /-- Stores credentials, which may fail. -/
  | store (content : List UInt8) (next : Except SystemError Unit → Consultation α)
  /-- Removes the credentials that are stored. -/
  | discard (rest : Consultation α)
  /-- Runs a command line, with a variable for the credentials that are stored. -/
  | ask (argv : List String) (credentials : Option CredentialsVariable)
      (next : ProgramReply → Consultation α)

namespace Consultation

variable {α β σ : Type}

/-- One conversation after the other. -/
protected def bind : Consultation α → (α → Consultation β) → Consultation β
  | finished value, f => f value
  | log record rest, f => log record (rest.bind f)
  | store content next, f => store content fun stored => (next stored).bind f
  | discard rest, f => discard (rest.bind f)
  | ask argv credentials next, f => ask argv credentials fun reply => (next reply).bind f

instance : Monad Consultation where
  pure := finished
  bind := Consultation.bind

/-- What has been said in a consultation, and what it has left behind. -/
structure Transcript where
  calls : List RuntimeCall := []
  records : List LogRecord := []
  /-- The credentials that are stored. -/
  stored : Option (List UInt8) := none
deriving Repr, Inhabited

/-- What answers a consultation. -/
structure Partner (σ : Type) where
  /-- Answers a call. -/
  answer : RuntimeCall → σ → ProgramReply × σ
  /-- Why nothing can be stored. -/
  storeFault : Option SystemError := none

/-- Carries out a consultation and continues its transcript. -/
def carryOut (partner : Partner σ) : Consultation α → Transcript → σ → α × Transcript × σ
  | finished value, t, s => (value, t, s)
  | log record rest, t, s => rest.carryOut partner { t with records := t.records ++ [record] } s
  | store content next, t, s =>
    match partner.storeFault with
    | some cause => (next (.error cause)).carryOut partner t s
    | none => (next (.ok ())).carryOut partner { t with stored := some content } s
  | discard rest, t, s => rest.carryOut partner { t with stored := none } s
  | ask argv credentials next, t, s =>
    let call : RuntimeCall := ⟨argv, credentials.bind fun c => t.stored.map fun content => (c, content)⟩
    let (reply, s) := partner.answer call s
    (next reply).carryOut partner { t with calls := t.calls ++ [call] } s

end Consultation

end Sidecar
