import Sidecar.Proofs.Session
import Sidecar.Resolution

/-!
# Findings

An account of resolution without activities: what is seen, when, and how it ends, for everything that a step
finds out before it executes anything. Only questions to collaborators take time, and only they can keep a step
from finding out anything at all.

The main statements are `script_finds`, `environment_finds` and `command_finds`: they say so for each of the
three things that an attempt finds out, and what follows about attempts is derived from them.
-/

namespace Sidecar

open Activity

variable {σ α β : Type}

/-- What comes of finding something out, for the time at which this begins and the state of the collaborators
then. -/
abbrev Finding (σ α : Type) := Nat → σ → Course Event (Except ResolutionError α × σ)

namespace Finding

/-- A result that is there at once, together with items that are shown. -/
def noted (items : List Event) (result : Except ResolutionError α) : Finding σ α := fun now s =>
  ⟨entriesAt now items, .finished now (result, s)⟩

/-- A result that is there already. -/
def known (result : Except ResolutionError α) : Finding σ α :=
  noted [] result

/-- The answer to a question, if it comes. -/
def asked (c : Collaborators σ) (call : Call) (answer : σ → α × σ) : Finding σ α := fun now s =>
  ⟨[⟨now, .call call⟩], (c.lag call s).ending now (.ok (answer s).1, (answer s).2)⟩

/-- One finding after the other. An error of the first one is the end. -/
def andThen (f : Finding σ α) (g : α → Finding σ β) : Finding σ β := fun now s =>
  (f now s).andThen fun time found =>
    match found with
    | (.ok a, s') => g a time s'
    | (.error e, s') => ⟨[], .finished time (.error e, s')⟩

/-- A finding whose value is changed, or refused. -/
def mapResult (f : Finding σ α) (g : α → Except ResolutionError β) : Finding σ β :=
  f.andThen fun a => known (g a)

@[simp] theorem andThen_known_ok (a : α) (g : α → Finding σ β) :
    (known (.ok a) : Finding σ α).andThen g = g a := by
  funext now s
  simp [andThen, known, noted]

/-- What has been noted first stays in front of what is noted next. -/
theorem andThen_noted_ok (first second : List Event) (a : α) (result : Except ResolutionError β)
    {g : α → Finding σ β} (h : g a = noted second result) :
    (noted first (.ok a) : Finding σ α).andThen g = noted (first ++ second) result := by
  funext now s
  simp [andThen, noted, h]

@[simp] theorem andThen_noted_error (items : List Event) (e : ResolutionError) (g : α → Finding σ β) :
    (noted items (.error e) : Finding σ α).andThen g = noted items (.error e) := by
  funext now s
  simp [andThen, noted]

@[simp] theorem andThen_known_error (e : ResolutionError) (g : α → Finding σ β) :
    (known (.error e) : Finding σ α).andThen g = known (.error e) :=
  andThen_noted_error [] e g

@[simp] theorem mapResult_noted_ok (items : List Event) (a : α) (g : α → Except ResolutionError β) :
    (noted items (.ok a) : Finding σ α).mapResult g = noted items (g a) := by
  funext now s
  simp [mapResult, andThen, known, noted]

theorem andThen_assoc {γ : Type} (f : Finding σ α) (g : α → Finding σ β) (h : β → Finding σ γ) :
    (f.andThen g).andThen h = f.andThen fun a => (g a).andThen h := by
  funext now s
  unfold andThen
  rw [Course.andThen_assoc]
  apply Course.andThen_congr
  rintro time ⟨result, s'⟩
  cases result with
  | ok a => rfl
  | error e => rfl

end Finding

/-- Something that leads to a value or an error leads to this finding. -/
def Finds (x : Resolving σ α) (f : Finding σ α) : Prop :=
  ∀ now s, (x.run.run s).course now = f now s

namespace Finds

theorem ofExcept (result : Except ResolutionError α) :
    Finds (Resolving.ofExcept result : Resolving σ α) (.known result) :=
  fun _ _ => rfl

theorem pure (a : α) : Finds (Pure.pure a : Resolving σ α) (.known (.ok a)) :=
  fun _ _ => rfl

theorem throw (e : ResolutionError) :
    Finds (MonadExcept.throw e : Resolving σ α) (.known (.error e)) :=
  fun _ _ => rfl

theorem see (event : Event) : Finds (liftM (Event.see event) : Resolving σ Unit) (.noted [event] (.ok ())) :=
  fun _ _ => rfl

/-- The finding of two things in a row. -/
theorem bind {x : Resolving σ α} {k : α → Resolving σ β} {f : Finding σ α} {g : α → Finding σ β}
    (hx : Finds x f) (hk : ∀ a, Finds (k a) (g a)) : Finds (x >>= k) (f.andThen g) := by
  intro now s
  have hrun : (x >>= k).run.run s = (x.run.run s).bind fun r =>
      (ExceptT.bindCont (fun a => k a) r.1).run r.2 := rfl
  rw [hrun, course_bind_eq, hx now s]
  apply Course.andThen_congr
  -- only a value leads on to the second part
  rintro time ⟨result, s'⟩
  cases result with
  | ok a => exact hk a time s'
  | error e => rfl

/-- Changing or refusing the value of a finding. -/
theorem mapResult {x : Resolving σ α} {f : Finding σ α} (hx : Finds x f)
    (g : α → Except ResolutionError β) {k : α → Resolving σ β}
    (hk : ∀ a, Finds (k a) (.known (g a))) : Finds (x >>= k) (f.mapResult g) :=
  hx.bind hk

theorem consult (c : Collaborators σ) (call : Call) (answer : σ → α × σ) :
    Finds (Resolving.consult c call answer) (.asked c call answer) := by
  intro now s
  have hrun : (Resolving.consult c call answer).run.run s =
      ((c.consult call answer).run s).bind fun r => .done (.ok r.1, r.2) := rfl
  rw [hrun, course_bind_eq, consult_course]
  exact Lag.ending_andThen _ _ _ fun _ => rfl

theorem reportAll (records : List LogRecord) :
    Finds (liftM (Event.reportAll records) : Resolving σ Unit) (.noted (records.map .log) (.ok ())) := by
  intro now s
  have hrun : (liftM (Event.reportAll records) : Resolving σ Unit).run.run s =
      (Event.reportAll records).bind fun u => .done (.ok u, s) := by
    show ((Event.reportAll records).bind fun u => .done (u, s)).bind _ = _
    rw [bind_assoc]
    rfl
  rw [hrun, course_bind_eq, reportAll_course]
  simp [course, Finding.noted]

end Finds

namespace Resolution

/-! ## References -/

/-- The result of expanding the references in a field. -/
def expandResult (field : String) : Except ExpressionError String → Except ResolutionError String
  | .ok text => .ok text
  | .error cause => .error (.expression field cause)

/-- What expanding the references in a field leads to. -/
def expandFinding (c : Collaborators σ) (field raw : String) : Finding σ String :=
  (Finding.asked c (.expand raw) fun s => (c.expand raw, s)).mapResult (expandResult field)

theorem expand_finds (c : Collaborators σ) (field raw : String) :
    Finds (expand c field raw) (expandFinding c field raw) := by
  apply (Finds.consult c (.expand raw) fun s => (c.expand raw, s)).mapResult
  intro answer
  cases answer with
  | ok text => exact Finds.pure text
  | error cause => exact Finds.throw _

/-! ## Script -/

/-- What finding the script of a step leads to. -/
def scriptFinding (c : Collaborators σ) (step : Step) : Finding σ (Option String) :=
  if step.needsShell then
    match step.shell.preamble with
    | .error e => .known (.error e)
    | .ok preamble =>
      (expandFinding c "command" step.command).mapResult fun body => .ok (some (preamble ++ body))
  else .known (.ok none)

theorem script_finds (c : Collaborators σ) (step : Step) :
    Finds (script c step) (scriptFinding c step) := by
  unfold script scriptFinding
  split
  · have h := (Finds.ofExcept (σ := σ) step.shell.preamble).bind fun preamble =>
      (expand_finds c "command" step.command).mapResult
        (fun body => .ok (some (preamble ++ body))) fun body => Finds.pure (some (preamble ++ body))
    cases hpreamble : step.shell.preamble with
    | error e =>
      rw [hpreamble, Finding.andThen_known_error] at h
      exact h
    | ok preamble =>
      rw [hpreamble, Finding.andThen_known_ok] at h
      exact h
  · exact Finds.pure none

/-! ## Environment -/

/-- What resolving the value of a name in an environment leads to. -/
def environmentEntryFinding (c : Collaborators σ) (entry : String × String) : Finding σ (String × String) :=
  (expandFinding c ("environment." ++ entry.1) entry.2).mapResult fun value => .ok (entry.1, value)

/-- What resolving the values of an environment one after the other leads to. -/
def entriesFinding (c : Collaborators σ) :
    List (String × String) → Finding σ (List (String × String))
  | [] => .known (.ok [])
  | entry :: rest =>
    (environmentEntryFinding c entry).andThen fun resolved =>
      (entriesFinding c rest).mapResult fun entries => .ok (resolved :: entries)

theorem environmentEntry_finds (c : Collaborators σ) (entry : String × String) :
    Finds (environmentEntry c entry) (environmentEntryFinding c entry) :=
  (expand_finds c ("environment." ++ entry.1) entry.2).mapResult _ fun value =>
    Finds.pure (entry.1, value)

theorem entries_finds (c : Collaborators σ) (entries : List (String × String)) :
    Finds (entries.mapM (environmentEntry c)) (entriesFinding c entries) := by
  induction entries with
  | nil => exact Finds.pure []
  | cons entry rest ih =>
    rw [List.mapM_cons]
    apply (environmentEntry_finds c entry).bind
    intro resolved
    exact ih.mapResult _ fun entries => Finds.pure (resolved :: entries)

/-- What resolving the environment of a step leads to. -/
def environmentFinding (c : Collaborators σ) (step : Step) : Finding σ Bindings :=
  (entriesFinding c step.environment.toList).mapResult fun entries => .ok (Bindings.ofList entries)

theorem environment_finds (c : Collaborators σ) (step : Step) :
    Finds (environment c step) (environmentFinding c step) :=
  (entries_finds c step.environment.toList).mapResult _ fun entries =>
    Finds.pure (Bindings.ofList entries)

/-! ## Command line -/

/-- The log record about the command line that has been found. -/
def resolvedRecord (step : Step) (strategy : Strategy) (command : CommandLine) : Event :=
  .log { level := .debug, message := "resolved command",
         fields := [("step_id", step.id), ("strategy", strategy.name), ("command", command.display)] }

/-- The result of a lookup of an image. -/
def imageResult (step : Step) : Except ImageError ImageMetadata → Except ResolutionError (Option CommandLine)
  | .ok metadata => .ok (CommandLine.ofArgv? metadata.combined)
  | .error cause => .error (.image step.image cause)

/-- What asking for the default command of the image of a step leads to. -/
def imageFinding (c : Collaborators σ) (secretVariable : String) (step : Step) :
    Finding σ (Option CommandLine) :=
  let secret := c.environment secretVariable
  (Finding.asked c (.lookup step.id step.image secret) (c.lookup step.id step.image secret)).andThen
    fun reply => .noted (reply.records.map .log) (imageResult step reply.value)

theorem imageCommand_finds (c : Collaborators σ) (secretVariable : String) (step : Step) :
    Finds (imageCommand c secretVariable step) (imageFinding c secretVariable step) := by
  apply (Finds.consult c _ (c.lookup step.id step.image (c.environment secretVariable))).bind
  intro reply
  rw [← Finding.mapResult_noted_ok _ () fun _ => imageResult step reply.value]
  apply (Finds.reportAll reply.records).mapResult
  intro _
  cases reply.value with
  | ok metadata => exact Finds.pure _
  | error cause => exact Finds.throw _

/-- What a strategy leads to, if it applies. -/
def applyFinding (c : Collaborators σ) (secretVariable : String) (step : Step) (script : Option String) :
    Strategy → Finding σ (Option CommandLine)
  | .entrypoint => .known (.ok (CommandLine.ofArgv? step.entrypoint))
  | .shell =>
    match script with
    | none => .known (.ok none)
    | some text =>
      if text = "" then .known (.ok none)
      else .known (step.shell.invocation.map fun (binary, flag) => some ⟨binary, [flag, text]⟩)
  | .image => imageFinding c secretVariable step

theorem apply_finds (c : Collaborators σ) (secretVariable : String) (step : Step)
    (script : Option String) (strategy : Strategy) :
    Finds (apply c secretVariable step script strategy)
      (applyFinding c secretVariable step script strategy) := by
  cases strategy with
  | entrypoint => exact Finds.pure _
  | image => exact imageCommand_finds c secretVariable step
  | shell =>
    cases script with
    | none => exact Finds.pure _
    | some text =>
      by_cases htext : text = ""
      · subst htext
        exact Finds.pure none
      · have happly : apply c secretVariable step (some text) .shell =
            (do let (binary, flag) ← Resolving.ofExcept step.shell.invocation
                return some ⟨binary, [flag, text]⟩) := by
          simp only [apply, htext, if_false]
        have h := (Finds.ofExcept (σ := σ) step.shell.invocation).mapResult
          (fun pair => .ok (some (CommandLine.mk pair.1 [pair.2, text]))) fun pair => Finds.pure _
        rw [happly]
        simp only [applyFinding, htext, if_false]
        cases hinvocation : step.shell.invocation with
        | ok pair =>
          rw [hinvocation, Finding.mapResult, Finding.andThen_known_ok] at h
          exact h
        | error e =>
          rw [hinvocation, Finding.mapResult, Finding.andThen_known_error] at h
          exact h

/-- What trying strategies in turn leads to. The first one that applies decides. -/
def strategiesFinding (c : Collaborators σ) (secretVariable : String) (step : Step)
    (script : Option String) : List Strategy → Finding σ (Strategy × CommandLine)
  | [] => .known (.error (.noCommand step.id))
  | strategy :: rest =>
    (applyFinding c secretVariable step script strategy).andThen fun found =>
      match found with
      | none => strategiesFinding c secretVariable step script rest
      | some command => .noted [resolvedRecord step strategy command] (.ok (strategy, command))

theorem firstApplicable_finds (c : Collaborators σ) (secretVariable : String) (step : Step)
    (script : Option String) (strategies : List Strategy) :
    Finds (firstApplicable c secretVariable step script strategies)
      (strategiesFinding c secretVariable step script strategies) := by
  induction strategies with
  | nil => exact Finds.throw _
  | cons strategy rest ih =>
    apply (apply_finds c secretVariable step script strategy).bind
    intro found
    cases found with
    | none => exact ih
    | some command =>
      have h := (Finds.see (σ := σ) (resolvedRecord step strategy command)).mapResult _ fun _ =>
        Finds.pure (strategy, command)
      rw [Finding.mapResult_noted_ok] at h
      exact h

/-- What finding the command line of a step leads to. -/
def commandFinding (c : Collaborators σ) (secretVariable : String) (step : Step)
    (script : Option String) : Finding σ (Strategy × CommandLine) :=
  strategiesFinding c secretVariable step script Strategy.priority

theorem command_finds (c : Collaborators σ) (secretVariable : String) (step : Step)
    (script : Option String) :
    Finds (command c secretVariable step script) (commandFinding c secretVariable step script) :=
  firstApplicable_finds c secretVariable step script Strategy.priority

end Resolution

end Sidecar
