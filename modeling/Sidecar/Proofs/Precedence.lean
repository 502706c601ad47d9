import Sidecar.Proofs.Finding

/-!
# The precedence of the three strategies

Which strategy decides is known from the step alone: its own entrypoint if it has one, else its command, else
the image. So it is also known from the step alone what the collaborators are asked, and nothing that they
would answer to other questions plays a part.

The main statement is `resolve_precedence`.
-/

namespace Sidecar

variable {σ α β : Type}

/-- How the supported shells run a script: the program, the flag in front of the script, and the line that is
put in front of the command. -/
def Shell.wrapping? : Shell → Option (String × String × String)
  | .bash => some ("bash", "-c", "set -xe\n")
  | .sh => some ("sh", "-c", "set -xe\n")
  | .powershell => some ("powershell", "-Command", "$ErrorActionPreference = 'Stop'\n")
  | .pwsh => some ("pwsh", "-Command", "$ErrorActionPreference = 'Stop'\n")
  | .unspecified => none
  | .unknown _ => none

/-- A supported shell has a program, a flag and a preamble, and no preamble is empty. -/
theorem Shell.of_wrapping? {shell : Shell} {binary flag preamble : String}
    (h : shell.wrapping? = some (binary, flag, preamble)) :
    shell.invocation = .ok (binary, flag) ∧ shell.preamble = .ok preamble ∧ preamble ≠ "" := by
  cases shell <;> simp only [wrapping?, Option.some.injEq, Prod.mk.injEq, reduceCtorEq] at h <;>
    obtain ⟨rfl, rfl, rfl⟩ := h <;> exact ⟨rfl, rfl, by decide⟩

/-- No other shell has a preamble. -/
theorem Shell.preamble_of_not_supported {shell : Shell} (h : shell.wrapping? = none) :
    shell.preamble = .error (.unknownShell shell.name) := by
  cases shell <;> first | rfl | simp [wrapping?] at h

/-- A result that is there without anything being asked; at most there are log records about it. -/
def Finding.Immediate (f : Finding σ α) (result : Except ResolutionError α) : Prop :=
  ∃ items, callsIn items = [] ∧ f = noted items result

/-- A question is all that has been asked if nothing needs to be asked after the answer, and the result comes
when the answer does. -/
theorem Finding.asked_andThen (c : Collaborators σ) (call : Call) (answer : σ → α × σ)
    (g : α → Finding σ β) (s : σ) {result : Except ResolutionError β}
    (hnext : (g (answer s).1).Immediate result) (now : Nat) :
    callsOf (((asked c call answer).andThen g) now s).entries = [call] ∧
      (((asked c call answer).andThen g) now s).ending = (c.lag call s).ending now (result, (answer s).2) := by
  obtain ⟨items, hitems, hg⟩ := hnext
  unfold andThen asked Lag.ending
  cases (c.lag call s).crashes with
  | true => simp
  | false => cases (c.lag call s).hangs <;> simp [hg, hitems, noted]

/-- Collaborators that refuse everything. -/
def Collaborators.refusing : Collaborators Unit where
  expand raw := .error (.malformed 0 raw)
  environment _ := none
  lookup _ _ _ s := (⟨.error .emptyReference, []⟩, s)
  start i s := (.refused (.start i.command.program .notFound), s)
  collect _ _ s := ({ result := .error (.read "." .notFound) }, s)
  processStatus? _ := none

namespace Resolution

/-- What finding the command line of a step without its environment leads to. -/
def resolveFinding (c : Collaborators σ) (secretVariable : String) (step : Step) : Finding σ CommandLine :=
  (scriptFinding c step).andThen fun text =>
    (commandFinding c secretVariable step text).mapResult fun found => .ok found.2

theorem resolve_finds (c : Collaborators σ) (secretVariable : String) (step : Step) :
    Finds (resolve c secretVariable step) (resolveFinding c secretVariable step) := by
  apply (script_finds c step).bind
  intro text
  exact (command_finds c secretVariable step text).mapResult _ fun found => Finds.pure found.2

/-! ## The command line, once the script is known -/

/-- The entrypoint decides over any script. -/
theorem commandFinding_of_entrypoint (c : Collaborators σ) (secretVariable : String) {step : Step}
    {command : CommandLine} (h : CommandLine.ofArgv? step.entrypoint = some command)
    (script : Option String) :
    commandFinding c secretVariable step script =
      .noted [resolvedRecord step .entrypoint command] (.ok (.entrypoint, command)) := by
  simp [commandFinding, Strategy.priority, strategiesFinding, applyFinding, h]

/-- Without an entrypoint a script that is not empty decides over the image. -/
theorem commandFinding_of_script (c : Collaborators σ) (secretVariable : String) {step : Step}
    (hentrypoint : step.entrypoint = []) {binary flag text : String}
    (hshell : step.shell.invocation = .ok (binary, flag)) (htext : text ≠ "") :
    commandFinding c secretVariable step (some text) =
      .noted [resolvedRecord step .shell ⟨binary, [flag, text]⟩] (.ok (.shell, ⟨binary, [flag, text]⟩)) := by
  simp [commandFinding, Strategy.priority, strategiesFinding, applyFinding, hentrypoint,
    CommandLine.ofArgv?, htext, hshell, Except.map]

/-- With neither of both only the image is left. -/
theorem commandFinding_of_image (c : Collaborators σ) (secretVariable : String) {step : Step}
    (hentrypoint : step.entrypoint = []) :
    commandFinding c secretVariable step none = strategiesFinding c secretVariable step none [.image] := by
  have hfirst : applyFinding c secretVariable step none .entrypoint = .known (.ok none) := by
    simp [applyFinding, hentrypoint, CommandLine.ofArgv?]
  have hsecond : applyFinding c secretVariable step none .shell = .known (.ok none) := rfl
  unfold commandFinding Strategy.priority
  rw [strategiesFinding, hfirst, Finding.andThen_known_ok, strategiesFinding, hsecond,
    Finding.andThen_known_ok]

/-! ## What is asked -/

/-- From a state, something asks its collaborators just these things, in this order, and ends like this when it
begins at a time. -/
def Asks (x : Resolving σ α) (s : σ) (calls : List Call)
    (ending : Nat → Activity.Ending (Except ResolutionError α × σ)) : Prop :=
  ∀ now, callsOf ((x.run.run s).course now).entries = calls ∧ ((x.run.run s).course now).ending = ending now

theorem resolve_asks_of_entrypoint (c : Collaborators σ) (secretVariable : String) {step : Step}
    {program : String} {args : List String} (h : step.entrypoint = program :: args) (s : σ) :
    Asks (resolve c secretVariable step) s [] fun now => .finished now (.ok ⟨program, args⟩, s) := by
  have hneeds : step.needsShell = false := by simp [Step.needsShell, h]
  have hargv : CommandLine.ofArgv? step.entrypoint = some ⟨program, args⟩ := by rw [h]; rfl
  intro now
  rw [resolve_finds c secretVariable step now s]
  simp [resolveFinding, scriptFinding, hneeds, commandFinding_of_entrypoint c secretVariable hargv,
    Finding.noted, resolvedRecord]

theorem needsShell_of_command {step : Step} (hentrypoint : step.entrypoint = [])
    (hcommand : step.command ≠ "") : step.needsShell = true := by
  simp [Step.needsShell, hentrypoint, hcommand]

theorem resolve_asks_of_unknown_shell (c : Collaborators σ) (secretVariable : String) {step : Step}
    (hentrypoint : step.entrypoint = []) (hcommand : step.command ≠ "")
    (hshell : step.shell.wrapping? = none) (s : σ) :
    Asks (resolve c secretVariable step) s []
      fun now => .finished now (.error (.unknownShell step.shell.name), s) := by
  have hneeds := needsShell_of_command hentrypoint hcommand
  have hpreamble := Shell.preamble_of_not_supported hshell
  intro now
  rw [resolve_finds c secretVariable step now s]
  simp [resolveFinding, scriptFinding, hneeds, hpreamble, Finding.known, Finding.noted]

theorem resolve_asks_of_command (c : Collaborators σ) (secretVariable : String) {step : Step}
    (hentrypoint : step.entrypoint = []) (hcommand : step.command ≠ "") {binary flag preamble : String}
    (hshell : step.shell.wrapping? = some (binary, flag, preamble)) (s : σ) :
    Asks (resolve c secretVariable step) s [.expand step.command] fun now =>
      (c.lag (.expand step.command) s).ending now
        (match c.expand step.command with
          | .ok body => .ok ⟨binary, [flag, preamble ++ body]⟩
          | .error cause => .error (.expression "command" cause), s) := by
  have hneeds := needsShell_of_command hentrypoint hcommand
  obtain ⟨hinvocation, hpreamble, hne⟩ := Shell.of_wrapping? hshell
  intro now
  rw [resolve_finds c secretVariable step now s]
  simp only [resolveFinding, scriptFinding, hneeds, if_true, hpreamble, expandFinding, Finding.mapResult,
    Finding.andThen_assoc]
  apply Finding.asked_andThen
  cases hbody : c.expand step.command with
  | error cause => exact ⟨[], rfl, by simp [expandResult, Finding.known]⟩
  | ok body =>
    -- the preamble is not empty, so the script is not either, whatever the command expands to
    have hscript : preamble ++ body ≠ "" := by simp [hne]
    refine ⟨[resolvedRecord step .shell ⟨binary, [flag, preamble ++ body]⟩], rfl, ?_⟩
    simp only [expandResult, Finding.andThen_known_ok,
      commandFinding_of_script c secretVariable hentrypoint hinvocation hscript]
    exact Finding.mapResult_noted_ok _ _ _

theorem resolve_asks_of_image (c : Collaborators σ) (secretVariable : String) {step : Step}
    (hentrypoint : step.entrypoint = []) (hcommand : step.command = "") (s : σ) :
    let secret := c.environment secretVariable
    let reply := c.lookup step.id step.image secret s
    Asks (resolve c secretVariable step) s [.lookup step.id step.image secret] fun now =>
      (c.lag (.lookup step.id step.image secret) s).ending now
        (match reply.1.value with
          | .error cause => .error (.image step.image cause)
          | .ok metadata =>
            match metadata.entrypoint ++ metadata.args with
            | [] => .error (.noCommand step.id)
            | program :: args => .ok ⟨program, args⟩, reply.2) := by
  intro secret reply now
  have hneeds : step.needsShell = false := by simp [Step.needsShell, hcommand]
  rw [resolve_finds c secretVariable step now s]
  simp only [resolveFinding, scriptFinding, hneeds, Bool.false_eq_true, if_false, Finding.andThen_known_ok,
    commandFinding_of_image c secretVariable hentrypoint, strategiesFinding, applyFinding, imageFinding,
    Finding.mapResult, Finding.andThen_assoc]
  apply Finding.asked_andThen
  have hlogs := callsIn_logs reply.1.records
  cases hvalue : reply.1.value with
  | error cause =>
    refine ⟨reply.1.records.map .log, hlogs, ?_⟩
    simp [reply, secret, imageResult]
  | ok metadata =>
    dsimp only
    cases hargv : metadata.entrypoint ++ metadata.args with
    | nil =>
      have hresult : imageResult step (.ok metadata) = .ok none := by
        simp [imageResult, ImageMetadata.combined, hargv, CommandLine.ofArgv?]
      refine ⟨reply.1.records.map .log ++ [], by simp, ?_⟩
      rw [hresult]
      exact Finding.andThen_noted_ok _ _ _ _ (by simp [Finding.known])
    | cons program args =>
      have hresult : imageResult step (.ok metadata) = .ok (some ⟨program, args⟩) := by
        simp [imageResult, ImageMetadata.combined, hargv, CommandLine.ofArgv?]
      refine ⟨reply.1.records.map .log ++ [resolvedRecord step .image ⟨program, args⟩], ?_, ?_⟩
      · rw [callsIn_append, hlogs]
        rfl
      · rw [hresult]
        exact Finding.andThen_noted_ok _ _ _ _ (Finding.mapResult_noted_ok _ _ _)

/-- An entrypoint is taken as it is, and nothing is asked. Without one, a command is expanded and wrapped for
its shell, and a shell that is not supported is an error before anything is asked. With neither, the image is
looked up once, and what it declares is taken. -/
theorem resolve_precedence (c : Collaborators σ) (secretVariable : String) (step : Step) (s : σ) :
    (∀ program args, step.entrypoint = program :: args →
      Asks (resolve c secretVariable step) s [] fun now => .finished now (.ok ⟨program, args⟩, s)) ∧
    (step.entrypoint = [] → step.command ≠ "" →
      (step.shell.wrapping? = none →
        Asks (resolve c secretVariable step) s []
          fun now => .finished now (.error (.unknownShell step.shell.name), s)) ∧
      (∀ binary flag preamble, step.shell.wrapping? = some (binary, flag, preamble) →
        Asks (resolve c secretVariable step) s [.expand step.command] fun now =>
          (c.lag (.expand step.command) s).ending now
            (match c.expand step.command with
              | .ok body => .ok ⟨binary, [flag, preamble ++ body]⟩
              | .error cause => .error (.expression "command" cause), s))) ∧
    (step.entrypoint = [] → step.command = "" →
      let secret := c.environment secretVariable
      let reply := c.lookup step.id step.image secret s
      Asks (resolve c secretVariable step) s [.lookup step.id step.image secret] fun now =>
        (c.lag (.lookup step.id step.image secret) s).ending now
          (match reply.1.value with
            | .error cause => .error (.image step.image cause)
            | .ok metadata =>
              match metadata.entrypoint ++ metadata.args with
              | [] => .error (.noCommand step.id)
              | program :: args => .ok ⟨program, args⟩, reply.2)) := by
  refine ⟨?_, ?_, ?_⟩
  · intro program args h
    exact resolve_asks_of_entrypoint c secretVariable h s
  · intro hentrypoint hcommand
    constructor
    · intro hshell
      exact resolve_asks_of_unknown_shell c secretVariable hentrypoint hcommand hshell s
    · intro binary flag preamble hshell
      exact resolve_asks_of_command c secretVariable hentrypoint hcommand hshell s
  · intro hentrypoint hcommand
    exact resolve_asks_of_image c secretVariable hentrypoint hcommand s

/-- An entrypoint is taken even where all else would fail, and each of the other steps fails in its own way. -/
theorem resolve_precedence_refusing :
    let c := Collaborators.refusing
    Asks (resolve c "SECRET" { entrypoint := ["serve", "--port"], command := "x", shell := .unknown "fish" }) ()
      [] (fun now => .finished now (.ok ⟨"serve", ["--port"]⟩, ())) ∧
    Asks (resolve c "SECRET" { command := "x", shell := .unknown "fish" }) ()
      [] (fun now => .finished now (.error (.unknownShell "fish"), ())) ∧
    Asks (resolve c "SECRET" { command := "x", shell := .bash }) ()
      [.expand "x"] (fun now => .finished now (.error (.expression "command" (.malformed 0 "x")), ())) ∧
    Asks (resolve c "SECRET" { id := "db", image := "redis" }) ()
      [.lookup "db" "redis" none] (fun now => .finished now (.error (.image "redis" .emptyReference), ())) := by
  refine ⟨?_, ?_, ?_, ?_⟩
  · exact (resolve_precedence .refusing "SECRET" _ ()).1 "serve" ["--port"] rfl
  · exact ((resolve_precedence .refusing "SECRET" _ ()).2.1 rfl (by decide)).1 rfl
  · exact ((resolve_precedence .refusing "SECRET" _ ()).2.1 rfl (by decide)).2 "bash" "-c" "set -xe\n" rfl
  · exact (resolve_precedence .refusing "SECRET" _ ()).2.2 rfl rfl

end Resolution

end Sidecar
