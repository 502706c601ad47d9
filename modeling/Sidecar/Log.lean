/-!
# Log records

What a step reports about itself while it runs. A record has a level, a fixed message and named fields, and it
carries the names of the spans it was made in, the outermost first.
-/

namespace Sidecar

/-- How much a record matters. -/
inductive LogLevel where
  | debug
  | info
  | warn
  | error
deriving DecidableEq, Repr, Inhabited

/-- The name of a level. -/
def LogLevel.name : LogLevel → String
  | .debug => "DEBUG"
  | .info => "INFO"
  | .warn => "WARN"
  | .error => "ERROR"

/-- A log record. A field without a value is left out. -/
structure LogRecord where
  level : LogLevel
  message : String
  fields : List (String × String) := []
  spans : List String := []
deriving DecidableEq, Repr, Inhabited

/-- A record as it stands inside a further span. -/
def LogRecord.within (span : String) (r : LogRecord) : LogRecord :=
  { r with spans := span :: r.spans }

/-- What is logged when logging is set up. It is set up once for all, and a further time is only noted. -/
def setUpRecords (alreadySetUp : Bool) : List LogRecord :=
  if alreadySetUp then [{ level := .debug, message := "tracing subscriber already installed" }] else []

/-- A value together with the records that were made on the way to it. -/
structure Logged (α : Type) where
  value : α
  records : List LogRecord := []
deriving Repr

namespace Logged

instance : Monad Logged where
  pure a := ⟨a, []⟩
  bind x f :=
    let y := f x.value
    ⟨y.value, x.records ++ y.records⟩

/-- Makes a record. -/
def record (r : LogRecord) : Logged Unit :=
  ⟨(), [r]⟩

@[simp] theorem value_pure {α : Type} (a : α) : (pure a : Logged α).value = a := rfl

@[simp] theorem records_pure {α : Type} (a : α) : (pure a : Logged α).records = [] := rfl

@[simp] theorem value_bind {α β : Type} (x : Logged α) (f : α → Logged β) :
    (x >>= f).value = (f x.value).value := rfl

@[simp] theorem records_bind {α β : Type} (x : Logged α) (f : α → Logged β) :
    (x >>= f).records = x.records ++ (f x.value).records := rfl

theorem ext {α : Type} {x y : Logged α} (hvalue : x.value = y.value) (hrecords : x.records = y.records) :
    x = y := by
  cases x
  cases y
  cases hvalue
  cases hrecords
  rfl

instance : LawfulMonad Logged := by
  refine LawfulMonad.mk' Logged ?_ ?_ ?_
  · intro α x
    exact ext rfl (List.append_nil x.records)
  · intro α β a f
    rfl
  · intro α β γ x f g
    exact ext rfl (List.append_assoc x.records _ _)

end Logged

end Sidecar
