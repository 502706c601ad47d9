import Sidecar.Proofs.Lifecycle
import Sidecar.Proofs.Ordering
import Sidecar.Proofs.Precedence

/-!
# The stages of an attempt

An attempt finds out its script, then its environment, then its command line, and only then starts a process and waits
for it. The first stage that fails decides how the attempt ends, and nothing that belongs to a later stage is asked. The
record of the attempt keeps the environment and the command line as far as they had been found by then.

The main statement is `Job.attempt_stages`. For each stage it says which questions have been asked when the attempt
fails there, and with which record it ends. It rests on one equation for each stage, by which what is done there is a
row of questions with a result behind it: `scriptFinding_eq`, `environmentFinding_of_refused` and
`environmentFinding_of_expanded`, `commandFinding_deeds`.
-/

namespace Sidecar

open Activity

variable {σ α β : Type}

/-! ## Courses without log records -/

/-- A course without its log records. -/
def Activity.Course.deeds (c : Course Event α) : Course Event α :=
  ⟨Sidecar.deeds c.entries, c.ending⟩

theorem Activity.Course.deeds_andThen (c : Course Event α) (f : Nat → α → Course Event β) :
    (c.andThen f).deeds = c.deeds.andThen fun time value => (f time value).deeds := by
  obtain ⟨entries, ending⟩ := c
  cases ending with
  | finished time value => simp [Course.deeds]
  | crashed time => simp [Course.deeds]
  | never => simp [Course.deeds]

/-- Log records are no deeds. -/
theorem deeds_entriesAt_logs (time : Nat) (records : List LogRecord) :
    deeds (entriesAt time (records.map .log)) = [] := by
  unfold deeds entriesAt
  simp [Event.isDeed]

/-- Calls are deeds. -/
theorem callsOf_deeds (entries : List (Entry Event)) : callsOf (deeds entries) = callsOf entries := by
  induction entries with
  | nil => rfl
  | cons e entries ih =>
    obtain ⟨time, item⟩ := e
    cases item with
    | call asked => exact congrArg (asked :: ·) ih
    | log record => exact ih
    | metrics m => exact ih

/-! ## Questions in a row -/

/-- Questions that are asked one after the other from a state of the collaborators, and a result that is there when all
of them have been answered. -/
def asking (c : Collaborators σ) (s : σ) (result : α) : Nat → List Call → Course Event α
  | now, [] => ⟨[], .finished now result⟩
  | now, call :: later =>
    (Course.mk [⟨now, .call call⟩] ((c.lag call s).ending now ())).andThen fun time _ => asking c s result time later

section

variable (c : Collaborators σ) (s : σ)

theorem asking_singleton (result : α) (now : Nat) (call : Call) :
    asking c s result now [call] = ⟨[⟨now, .call call⟩], (c.lag call s).ending now result⟩ :=
  Lag.ending_andThen _ _ _ fun _ => rfl

/-- What follows questions in a row begins when the last one has been answered. -/
theorem asking_andThen (result : α) (now : Nat) (calls : List Call) (f : Nat → α → Course Event β) :
    (asking c s result now calls).andThen f = (asking c s () now calls).andThen fun time _ => f time result := by
  induction calls generalizing now with
  | nil => rfl
  | cons call later ih =>
    rw [asking, asking, Course.andThen_assoc, Course.andThen_assoc]
    exact Course.andThen_congr fun time _ => ih time

/-- Further questions make a longer row. -/
theorem asking_append (result : β) (now : Nat) (first second : List Call) :
    ((asking c s () now first).andThen fun time _ => asking c s result time second) =
      asking c s result now (first ++ second) := by
  induction first generalizing now with
  | nil => rfl
  | cons call later ih =>
    rw [List.cons_append, asking, asking, Course.andThen_assoc]
    exact Course.andThen_congr fun time _ => ih time

/-- A row is the same with another result behind it. -/
theorem asking_andThen_finished (result : α) (next : β) (now : Nat) (calls : List Call) :
    ((asking c s result now calls).andThen fun time _ => ⟨[], .finished time next⟩) = asking c s next now calls := by
  have hrow := asking_append c s next now calls []
  rw [List.append_nil] at hrow
  rw [asking_andThen]
  exact hrow

/-- Questions are no log records. -/
theorem asking_deeds (result : α) (now : Nat) (calls : List Call) :
    (asking c s result now calls).deeds = asking c s result now calls := by
  induction calls generalizing now with
  | nil => rfl
  | cons call later ih =>
    rw [asking, Course.deeds_andThen]
    exact Course.andThen_congr fun time _ => ih time

/-- When all questions in a row have been answered, all of them have been asked. -/
theorem asking_finished {now time : Nat} {calls : List Call} {result value : α}
    (h : (asking c s result now calls).ending = .finished time value) :
    callsOf (asking c s result now calls).entries = calls ∧ value = result := by
  induction calls generalizing now with
  | nil =>
    cases h
    exact ⟨rfl, rfl⟩
  | cons call later ih =>
    obtain ⟨answered, _, -, hrest, hentries⟩ := Course.andThen_eq_finished h
    obtain ⟨hcalls, hvalue⟩ := ih hrest
    refine ⟨?_, hvalue⟩
    rw [asking, hentries, callsOf_append, hcalls]
    rfl

end

namespace Finding

/-- A result that is there at once. At most there are words about it. -/
def Spoken (f : Finding σ α) (result : Except ResolutionError α) : Prop :=
  ∀ now s, (f now s).deeds = ⟨[], .finished now (result, s)⟩

theorem spoken_logs (records : List LogRecord) (result : Except ResolutionError α) :
    (noted (records.map .log) result : Finding σ α).Spoken result := by
  intro now s
  rw [noted, Course.deeds, deeds_entriesAt_logs]

theorem Spoken.andThen_ok {f : Finding σ α} {a : α} (hf : f.Spoken (.ok a)) {g : α → Finding σ β}
    {result : Except ResolutionError β} (hg : (g a).Spoken result) : (f.andThen g).Spoken result := by
  intro now s
  rw [andThen, Course.deeds_andThen, hf now s, Course.andThen_finished]
  exact hg now s

theorem Spoken.andThen_error {f : Finding σ α} {e : ResolutionError} (hf : f.Spoken (.error e))
    (g : α → Finding σ β) : (f.andThen g).Spoken (.error e) := by
  intro now s
  rw [andThen, Course.deeds_andThen, hf now s, Course.andThen_finished]
  rfl

/-- If nothing but words follows the answer, the question is all that is done. -/
theorem asked_andThen_spoken {c : Collaborators σ} {call : Call} {answer : σ → α × σ} {g : α → Finding σ β} {s : σ}
    {result : Except ResolutionError β} (h : (g (answer s).1).Spoken result) (now : Nat) :
    ((asked c call answer).andThen g now s).deeds = asking c s (result, (answer s).2) now [call] := by
  rw [asking_singleton, andThen, asked, Course.deeds_andThen]
  exact Lag.ending_andThen _ _ _ fun time => h time _

end Finding

namespace Resolution

/-! ## Script -/

/-- The script of a step, or the error that keeps it from having one. -/
def scriptResult (c : Collaborators σ) (step : Step) : Except ResolutionError (Option String) :=
  if step.needsShell then
    match step.shell.wrapping? with
    | none => .error (.unknownShell step.shell.name)
    | some (_, _, preamble) =>
      match c.expand step.command with
      | .ok body => .ok (some (preamble ++ body))
      | .error cause => .error (.expression "command" cause)
  else .ok none

/-- What is asked for the script of a step. -/
def scriptQuestions (step : Step) : List Call :=
  if step.needsShell ∧ step.shell.wrapping?.isSome then [.expand step.command] else []

theorem expandFinding_eq (c : Collaborators σ) (field raw : String) (now : Nat) (s : σ) :
    expandFinding c field raw now s = asking c s (expandResult field (c.expand raw), s) now [.expand raw] := by
  rw [asking_singleton]
  exact Lag.ending_andThen _ _ _ fun _ => rfl

/-- A row of questions whose result is changed, or refused, is the same row with another result. -/
theorem mapResult_of_asking {c : Collaborators σ} {f : Finding σ α} {now : Nat} {s : σ} {calls : List Call}
    {result : Except ResolutionError α} (h : f now s = asking c s (result, s) now calls)
    (g : α → Except ResolutionError β) : f.mapResult g now s = asking c s (result.bind g, s) now calls := by
  unfold Finding.mapResult Finding.andThen
  rw [h, asking_andThen]
  cases result with
  | ok a => exact asking_andThen_finished c s () (g a, s) now calls
  | error e => exact asking_andThen_finished c s () ((.error e : Except ResolutionError β), s) now calls

theorem scriptFinding_eq (c : Collaborators σ) (step : Step) (now : Nat) (s : σ) :
    scriptFinding c step now s = asking c s (scriptResult c step, s) now (scriptQuestions step) := by
  unfold scriptFinding scriptResult scriptQuestions
  cases step.needsShell with
  | false => rfl
  | true =>
    cases hshell : step.shell.wrapping? with
    | none =>
      rw [Shell.preamble_of_not_supported hshell]
      rfl
    | some wrapping =>
      obtain ⟨binary, flag, preamble⟩ := wrapping
      rw [(Shell.of_wrapping? hshell).2.1]
      simp only [Option.isSome_some, and_self, if_true]
      refine (mapResult_of_asking (expandFinding_eq c "command" step.command now s) _).trans ?_
      cases c.expand step.command with
      | ok body => rfl
      | error cause => rfl

/-! ## Environment -/

/-- A name whose value cannot be expanded, where the values of all names with lesser bytes can. -/
structure FirstRefused (c : Collaborators σ) (raw : Bindings) (name text : String) (cause : ExpressionError) :
    Prop where
  bound : raw.get? name = some text
  refused : c.expand text = .error cause
  first : ∀ lesser other, Text.Utf8.encode lesser < Text.Utf8.encode name → raw.get? lesser = some other →
    ∃ value, c.expand other = .ok value

/-- The same names, each bound to what its value expands to. -/
structure Expanded (c : Collaborators σ) (raw expanded : Bindings) : Prop where
  names : expanded.names = raw.names
  values : ∀ name text, raw.get? name = some text →
    ∃ value, c.expand text = .ok value ∧ expanded.get? name = some value

/-- What is asked for some values, in the order of their names. -/
def valueQuestions (entries : List (String × String)) : List Call :=
  entries.map fun entry => .expand entry.2

section

variable {c : Collaborators σ}

/-- A value that can be expanded is asked for in front of what is asked for the other values. -/
theorem entriesFinding_cons_of_expanded {entry : String × String} {rest : List (String × String)} {value : String}
    {result : Except ResolutionError (List (String × String))} {questions : List Call} {s : σ}
    (h : c.expand entry.2 = .ok value)
    (hrest : ∀ time, entriesFinding c rest time s = asking c s (result, s) time questions) (now : Nat) :
    entriesFinding c (entry :: rest) now s =
      asking c s (result.map ((entry.1, value) :: ·), s) now (.expand entry.2 :: questions) := by
  have hexpand := expandFinding_eq c ("environment." ++ entry.1) entry.2 now s
  rw [h] at hexpand
  have hlater : ∀ time, ((entriesFinding c rest).mapResult fun entries => .ok ((entry.1, value) :: entries)) time s =
      asking c s (result.map ((entry.1, value) :: ·), s) time questions := by
    intro time
    refine (mapResult_of_asking (hrest time) _).trans ?_
    cases result with
    | ok entries => rfl
    | error e => rfl
  unfold entriesFinding Finding.andThen
  rw [environmentEntryFinding, mapResult_of_asking hexpand, asking_andThen]
  refine (Course.andThen_congr fun time _ => hlater time).trans ?_
  exact asking_append c s _ now [.expand entry.2] questions

/-- A value that cannot be expanded is asked for, and nothing else is. -/
theorem entriesFinding_cons_of_refused {name text : String} {cause : ExpressionError}
    (h : c.expand text = .error cause) (rest : List (String × String)) (now : Nat) (s : σ) :
    entriesFinding c ((name, text) :: rest) now s =
      asking c s (.error (.expression ("environment." ++ name) cause), s) now [.expand text] := by
  have hexpand := expandFinding_eq c ("environment." ++ name) text now s
  rw [h] at hexpand
  unfold entriesFinding Finding.andThen
  rw [environmentEntryFinding, mapResult_of_asking hexpand, asking_andThen]
  exact asking_append c s _ now [.expand text] []

theorem entriesFinding_of_expanded {entries : List (String × String)} {value : String → String}
    (h : ∀ entry ∈ entries, c.expand entry.2 = .ok (value entry.2)) (now : Nat) (s : σ) :
    entriesFinding c entries now s =
      asking c s (.ok (entries.map fun entry => (entry.1, value entry.2)), s) now (valueQuestions entries) := by
  induction entries generalizing now with
  | nil => rfl
  | cons entry rest ih =>
    have hrest := ih fun other hother => h other (List.mem_cons_of_mem entry hother)
    exact entriesFinding_cons_of_expanded (h entry List.mem_cons_self) hrest now

/-- The first value that cannot be expanded is the last one that is asked for. -/
theorem entriesFinding_of_refused {before after : List (String × String)} {name text : String}
    {cause : ExpressionError} (hbefore : ∀ entry ∈ before, ∃ value, c.expand entry.2 = .ok value)
    (h : c.expand text = .error cause) (now : Nat) (s : σ) :
    entriesFinding c (before ++ (name, text) :: after) now s =
      asking c s (.error (.expression ("environment." ++ name) cause), s) now
        (valueQuestions before ++ [.expand text]) := by
  induction before generalizing now with
  | nil => exact entriesFinding_cons_of_refused h after now s
  | cons entry before ih =>
    obtain ⟨value, hvalue⟩ := hbefore entry List.mem_cons_self
    have hrest := ih fun other hother => hbefore other (List.mem_cons_of_mem entry hother)
    exact entriesFinding_cons_of_expanded hvalue hrest now

/-- What stands in front of a name are the entries with lesser names. -/
theorem filter_of_split {b : Bindings} {before after : List (String × String)} {name text : String}
    (h : b.toList = before ++ (name, text) :: after) : (b.toList.filter fun entry => entry.1 < name) = before := by
  have hsorted := b.sorted
  rw [h] at hsorted
  obtain ⟨-, hafter, hbefore⟩ := List.pairwise_append.1 hsorted
  have hkept : (before.filter fun entry => entry.1 < name) = before := by
    rw [List.filter_eq_self]
    intro entry hentry
    exact decide_eq_true (hbefore entry hentry (name, text) List.mem_cons_self)
  have hleft : (((name, text) :: after).filter fun entry => entry.1 < name) = [] := by
    rw [List.filter_eq_nil_iff]
    intro entry hentry
    rw [decide_eq_true_eq]
    rcases List.mem_cons.1 hentry with rfl | hentry
    · exact String.lt_irrefl _
    · exact fun hlt => String.lt_irrefl _ (String.lt_trans hlt ((List.pairwise_cons.1 hafter).1 entry hentry))
  rw [h, List.filter_append, hkept, hleft, List.append_nil]

theorem environmentFinding_of_refused {step : Step} {name text : String} {cause : ExpressionError}
    (h : FirstRefused c step.environment name text cause) (now : Nat) (s : σ) :
    environmentFinding c step now s =
      asking c s (.error (.expression ("environment." ++ name) cause), s) now
        (valueQuestions (step.environment.toList.filter fun entry => entry.1 < name) ++ [.expand text]) := by
  obtain ⟨before, after, hsplit⟩ := List.append_of_mem (Bindings.get?_eq_some.1 h.bound)
  have hlesser := filter_of_split hsplit
  have hbefore : ∀ entry ∈ before, ∃ value, c.expand entry.2 = .ok value := by
    intro entry hentry
    rw [← hlesser, List.mem_filter, decide_eq_true_eq] at hentry
    exact h.first entry.1 entry.2 (Text.Utf8.encode_lt_encode.2 hentry.2) (Bindings.get?_eq_some.2 hentry.1)
  rw [hlesser, environmentFinding, hsplit]
  exact mapResult_of_asking (entriesFinding_of_refused hbefore h.refused now s) _

/-- If no value is the first one that is refused, none is refused. -/
theorem expands_of_not_firstRefused {raw : Bindings}
    (h : ∀ name text cause, ¬FirstRefused c raw name text cause) :
    ∀ entry ∈ raw.toList, ∃ value, c.expand entry.2 = .ok value := by
  cases hfind : raw.toList.find? fun entry => !(c.expand entry.2).isOk with
  | none =>
    intro entry hentry
    have hok := List.find?_eq_none.1 hfind entry hentry
    cases hvalue : c.expand entry.2 with
    | ok value => exact ⟨value, rfl⟩
    | error cause => simp [hvalue, Except.isOk, Except.toBool] at hok
  | some entry =>
    obtain ⟨hbad, before, after, hsplit, hbefore⟩ := List.find?_eq_some_iff_append.1 hfind
    obtain ⟨name, text⟩ := entry
    cases hvalue : c.expand text with
    | ok value => simp [hvalue, Except.isOk, Except.toBool] at hbad
    | error cause =>
      have hbound : raw.get? name = some text := by
        rw [Bindings.get?_eq_some, hsplit]
        simp
      refine absurd ⟨hbound, hvalue, ?_⟩ (h name text cause)
      intro lesser other hlt hother
      -- a lesser name stands in front of this one
      have hmem : (lesser, other) ∈ before := by
        rw [← filter_of_split hsplit, List.mem_filter, decide_eq_true_eq]
        exact ⟨Bindings.get?_eq_some.1 hother, Text.Utf8.encode_lt_encode.1 hlt⟩
      have hok := hbefore _ hmem
      cases hvalue' : c.expand other with
      | ok value => exact ⟨value, rfl⟩
      | error cause' => simp [hvalue', Except.isOk, Except.toBool] at hok

theorem environmentFinding_of_expanded {step : Step}
    (h : ∀ entry ∈ step.environment.toList, ∃ value, c.expand entry.2 = .ok value) :
    ∃ environment, Expanded c step.environment environment ∧ ∀ now s, environmentFinding c step now s =
      asking c s (.ok environment, s) now (valueQuestions step.environment.toList) := by
  let value (raw : String) : String := (c.expand raw).toOption.getD ""
  have hvalue : ∀ entry ∈ step.environment.toList, c.expand entry.2 = .ok (value entry.2) := by
    intro entry hentry
    obtain ⟨found, hfound⟩ := h entry hentry
    simp [value, hfound, Except.toOption]
  have hsorted : (step.environment.toList.map fun entry => (entry.1, value entry.2)).Pairwise
      fun x y => x.1 < y.1 := List.pairwise_map.2 step.environment.sorted
  -- the names are in order already, so they are bound as they stand
  have htoList := Bindings.toList_ofList hsorted
  refine ⟨_, ⟨?_, ?_⟩, fun now s => mapResult_of_asking (entriesFinding_of_expanded hvalue now s) _⟩
  · rw [Bindings.names, htoList, List.map_map]
    rfl
  · intro name text hbound
    have hmem := Bindings.get?_eq_some.1 hbound
    refine ⟨value text, hvalue _ hmem, ?_⟩
    rw [Bindings.get?_eq_some, htoList]
    exact List.mem_map_of_mem (f := fun entry => (entry.1, value entry.2)) hmem

end

/-! ## Command line -/

/-- The command line that a step and its script tell without looking at the image. -/
def declaredCommand? (step : Step) (script : Option String) : Option CommandLine :=
  match step.entrypoint, script, step.shell.wrapping? with
  | program :: args, _, _ => some ⟨program, args⟩
  | [], some text, some (binary, flag, _) => some ⟨binary, [flag, text]⟩
  | [], _, _ => none

/-- The command line that an image tells, or the error about it. -/
def imageCommandResult (step : Step) : Except ImageError ImageMetadata → Except ResolutionError CommandLine
  | .error cause => .error (.image step.image cause)
  | .ok metadata =>
    match metadata.entrypoint ++ metadata.args with
    | [] => .error (.noCommand step.id)
    | program :: args => .ok ⟨program, args⟩

/-- The command line of a step, or the error that keeps it from having one, and the state of the collaborators
then. -/
def commandResult (c : Collaborators σ) (secretVariable : String) (step : Step) (script : Option String) (s : σ) :
    Except ResolutionError CommandLine × σ :=
  match declaredCommand? step script with
  | some command => (.ok command, s)
  | none =>
    let reply := c.lookup step.id step.image (c.environment secretVariable) s
    (imageCommandResult step reply.1.value, reply.2)

/-- What is asked for the command line of a step. -/
def commandQuestions (c : Collaborators σ) (secretVariable : String) (step : Step) (script : Option String) :
    List Call :=
  match declaredCommand? step script with
  | some _ => []
  | none => [.lookup step.id step.image (c.environment secretVariable)]

/-- A script is found only for a step without an entrypoint, with a supported shell, and it is not empty. -/
theorem of_scriptResult_some {c : Collaborators σ} {step : Step} {text : String}
    (h : scriptResult c step = .ok (some text)) :
    step.entrypoint = [] ∧ text ≠ "" ∧
      ∃ binary flag preamble, step.shell.wrapping? = some (binary, flag, preamble) := by
  unfold scriptResult at h
  split at h
  · rename_i hneeds
    split at h
    · cases h
    · rename_i binary flag preamble hshell
      split at h
      · rename_i body _
        obtain rfl : preamble ++ body = text := Option.some.inj (Except.ok.inj h)
        refine ⟨?_, ?_, binary, flag, preamble, hshell⟩
        · simp only [Step.needsShell, Bool.and_eq_true, List.isEmpty_iff] at hneeds
          exact hneeds.1
        · simp [(Shell.of_wrapping? hshell).2.2]
      · cases h
  · cases h

section

variable {c : Collaborators σ} {step : Step} {script : Option String}

theorem commandFinding_of_declared (secretVariable : String) (hscript : scriptResult c step = .ok script)
    {command : CommandLine} (h : declaredCommand? step script = some command) :
    ∃ strategy, commandFinding c secretVariable step script =
      .noted [resolvedRecord step strategy command] (.ok (strategy, command)) := by
  unfold declaredCommand? at h
  split at h
  · rename_i program args hentrypoint
    cases h
    have hargv : CommandLine.ofArgv? step.entrypoint = some ⟨program, args⟩ := by
      rw [hentrypoint]
      rfl
    exact ⟨.entrypoint, commandFinding_of_entrypoint c secretVariable hargv _⟩
  · rename_i text binary flag preamble hentrypoint hshell
    cases h
    obtain ⟨-, htext, -⟩ := of_scriptResult_some hscript
    exact ⟨.shell, commandFinding_of_script c secretVariable hentrypoint (Shell.of_wrapping? hshell).1 htext⟩
  · cases h

/-- Only a step without an entrypoint and without a script tells no command line. -/
theorem of_undeclared (hscript : scriptResult c step = .ok script) (h : declaredCommand? step script = none) :
    step.entrypoint = [] ∧ script = none := by
  cases hentrypoint : step.entrypoint with
  | cons program args => simp [declaredCommand?, hentrypoint] at h
  | nil =>
    cases script with
    | none => exact ⟨rfl, rfl⟩
    | some text =>
      obtain ⟨-, -, binary, flag, preamble, hshell⟩ := of_scriptResult_some hscript
      simp [declaredCommand?, hentrypoint, hshell] at h

/-- With nothing but the image left, the command line is what the image tells. -/
theorem commandFinding_of_undeclared (secretVariable : String) (hscript : scriptResult c step = .ok script)
    (h : declaredCommand? step script = none) (now : Nat) (s : σ) :
    let secret := c.environment secretVariable
    let reply := c.lookup step.id step.image secret s
    (commandFinding c secretVariable step script now s).deeds =
      asking c s ((imageCommandResult step reply.1.value).map fun command => (.image, command), reply.2) now
        [.lookup step.id step.image secret] := by
  intro secret reply
  obtain ⟨hentrypoint, rfl⟩ := of_undeclared hscript h
  rw [commandFinding_of_image c secretVariable hentrypoint, strategiesFinding, applyFinding, imageFinding,
    Finding.andThen_assoc]
  -- behind the lookup there are only words: those of the lookup, then one about the command line
  apply Finding.asked_andThen_spoken
  have hlogs := Finding.spoken_logs (σ := σ) reply.1.records (imageResult step reply.1.value)
  unfold imageCommandResult
  unfold imageResult at hlogs ⊢
  cases hvalue : reply.1.value with
  | error cause =>
    rw [hvalue] at hlogs
    exact hlogs.andThen_error _
  | ok metadata =>
    rw [hvalue] at hlogs
    apply hlogs.andThen_ok
    dsimp only [ImageMetadata.combined]
    cases metadata.entrypoint ++ metadata.args with
    | nil => exact fun _ _ => rfl
    | cons program args => exact Finding.spoken_logs [_] _

/-- Besides log records, finding the command line is a row of at most one question. -/
theorem commandFinding_deeds (secretVariable : String) (hscript : scriptResult c step = .ok script) (now : Nat)
    (s : σ) :
    let found := commandResult c secretVariable step script s
    ∃ strategy, (commandFinding c secretVariable step script now s).deeds =
      asking c s (found.1.map fun command => (strategy, command), found.2) now
        (commandQuestions c secretVariable step script) := by
  intro found
  cases hdeclared : declaredCommand? step script with
  | some command =>
    obtain ⟨strategy, hfinding⟩ := commandFinding_of_declared secretVariable hscript hdeclared
    refine ⟨strategy, ?_⟩
    simp only [found, commandResult, commandQuestions, hdeclared, hfinding]
    exact Finding.spoken_logs [_] _ now s
  | none =>
    refine ⟨.image, ?_⟩
    simp only [found, commandResult, commandQuestions, hdeclared]
    exact commandFinding_of_undeclared secretVariable hscript hdeclared now s

end

end Resolution

/-! ## Attempts -/

/-- The record of an attempt with an environment, once it is known whether there is a command line. -/
def Attempt.prepared (index : Nat) (environment : Bindings) : Except ResolutionError CommandLine → Attempt
  | .ok command => { index := index, command := some command, environment := environment }
  | .error e => { index := index, environment := environment, outcome := .error (.resolution e) }

namespace Job

open Resolution

section

variable (job : Job σ) (index now : Nat) (s : σ)

/-- The attempt asks these questions in a row, and does nothing else. If they are answered, it has failed with this
error, and its record has this environment and no command line. -/
def GivesUp (questions : List Call) (e : ResolutionError) (environment : Bindings) (s' : σ) : Prop :=
  (((job.attempt index).run s).course now).deeds =
    asking job.collaborators s
      ({ index := index, environment := environment, outcome := .error (.resolution e) }, s') now questions

/-- The attempt asks these questions in a row. If they are answered, it starts one process, waits for it if the
process has been started, and its record has what the process was to be started with. -/
structure GoesOn (questions : List Call) (command : CommandLine) (environment : Bindings) (s' : σ) : Prop where
  unanswered : (asking job.collaborators s () now questions).ending.finishes = false →
    (((job.attempt index).run s).course now).deeds.entries = (asking job.collaborators s () now questions).entries ∧
    (((job.attempt index).run s).course now).ending.finishes = false
  starts : ∀ time, (asking job.collaborators s () now questions).ending = .finished time () →
    ∃ closing, callsOf (((job.attempt index).run s).course now).entries =
      questions ++ .start (job.invocation index command environment) :: closing ∧
      ∀ call ∈ closing, call.isClosing = true
  ends : ∀ time, (asking job.collaborators s () now questions).ending = .finished time () →
    let begun : Attempt := { index := index, command := some command, environment := environment }
    (((job.attempt index).run s).course now).ending =
      match job.collaborators.start (job.invocation index command environment) s' with
      | (.refused e, s'') => .finished time (begun.fail (.process e), s'')
      | (.crash, _) => .crashed time
      | (.started process, s'') =>
        ((process.waitOrKill job.timeoutSeconds?).course time).ending.bind fun ended waited =>
          .finished ended (begun.conclude waited, process.effect (ended - time) s'')

/-- What follows the start of a process ends its life, as far as it is a call. -/
theorem calls_of_execution (command : CommandLine) (environment : Bindings) :
    ∃ closing, callsOf (job.execution index command environment now s).entries =
      .start (job.invocation index command environment) :: closing ∧ ∀ call ∈ closing, call.isClosing = true := by
  unfold execution
  dsimp only
  split
  · rename_i process s' _
    refine ⟨callsOf (job.following index command process now s').entries, rfl, ?_⟩
    have hshows : (job.following index command process now s').Shows
        fun item => ∀ call ∈ item.call?, call.isClosing = true := by
      refine job.shows_following ?_ ?_ ?_ ?_ index command process now s'
      all_goals simp [Event.call?, Call.isClosing]
    intro call hcall
    obtain ⟨item, hitem, hshown⟩ := List.mem_filterMap.1 hcall
    obtain ⟨e, he, rfl⟩ := List.mem_map.1 hitem
    exact hshows e he call hshown
  · exact ⟨[], rfl, by simp⟩
  · exact ⟨[], rfl, by simp⟩

theorem execution_ending (command : CommandLine) (environment : Bindings) :
    (job.execution index command environment now s).ending =
      match job.collaborators.start (job.invocation index command environment) s with
      | (.refused e, s') => .finished now (.error e, s')
      | (.crash, _) => .crashed now
      | (.started process, s') =>
        ((process.waitOrKill job.timeoutSeconds?).course now).ending.bind fun ended waited =>
          .finished ended (waited, process.effect (ended - now) s') := by
  unfold execution
  dsimp only
  rcases job.collaborators.start (job.invocation index command environment) s with ⟨reply, s'⟩
  cases reply with
  | started process =>
    dsimp only
    rw [following_ending, RunningProcess.waitOrKill_course]
  | refused e => rfl
  | crash => rfl

variable {job index now s} {script : Option String}

theorem preparation_of_script_error {e : ResolutionError} (h : scriptResult job.collaborators job.step = .error e) :
    (job.preparation index now s).deeds =
      asking job.collaborators s (.prepared index ∅ (.error e), s) now (scriptQuestions job.step) := by
  unfold preparation
  dsimp only
  rw [scriptFinding_eq, h, Course.deeds_andThen, asking_deeds, asking_andThen]
  exact asking_andThen_finished _ _ () _ now _

theorem preparation_of_environment_error (hscript : scriptResult job.collaborators job.step = .ok script)
    {e : ResolutionError} {questions : List Call}
    (h : ∀ time, environmentFinding job.collaborators job.step time s =
      asking job.collaborators s (.error e, s) time questions) :
    (job.preparation index now s).deeds =
      asking job.collaborators s (.prepared index ∅ (.error e), s) now (scriptQuestions job.step ++ questions) := by
  unfold preparation
  dsimp only
  rw [scriptFinding_eq, hscript, Course.deeds_andThen, asking_deeds, asking_andThen, ← asking_append]
  apply Course.andThen_congr
  intro time _
  dsimp only
  rw [h, Course.deeds_andThen, asking_deeds, asking_andThen]
  exact asking_andThen_finished _ _ () _ time questions

theorem preparation_of_environment (hscript : scriptResult job.collaborators job.step = .ok script)
    {environment : Bindings} {questions : List Call}
    (h : ∀ time, environmentFinding job.collaborators job.step time s =
      asking job.collaborators s (.ok environment, s) time questions) :
    let secretVariable := job.config.imageSecretVariable
    let found := commandResult job.collaborators secretVariable job.step script s
    (job.preparation index now s).deeds =
      asking job.collaborators s (.prepared index environment found.1, found.2) now
        (scriptQuestions job.step ++ questions ++
          commandQuestions job.collaborators secretVariable job.step script) := by
  intro secretVariable found
  unfold preparation
  dsimp only
  rw [scriptFinding_eq, hscript, Course.deeds_andThen, asking_deeds, asking_andThen, List.append_assoc,
    ← asking_append]
  apply Course.andThen_congr
  intro time _
  dsimp only
  rw [h, Course.deeds_andThen, asking_deeds, asking_andThen, ← asking_append]
  apply Course.andThen_congr
  intro time _
  -- which strategy it was is known, but is no part of what has been prepared
  obtain ⟨strategy, hcommand⟩ : ∃ strategy,
      (commandFinding job.collaborators secretVariable job.step script time s).deeds =
        asking job.collaborators s (found.1.map fun command => (strategy, command), found.2) time _ :=
    commandFinding_deeds secretVariable hscript time s
  rw [Course.deeds_andThen, hcommand, asking_andThen]
  clear_value found
  obtain ⟨result, s'⟩ := found
  cases result with
  | error e => exact asking_andThen_finished _ _ () _ time _
  | ok command => exact asking_andThen_finished _ _ () _ time _

/-- An attempt gives up if that is how its preparation ends. -/
theorem givesUp_of_preparation {questions : List Call} {e : ResolutionError} {environment : Bindings} {s' : σ}
    (h : (job.preparation index now s).deeds =
      asking job.collaborators s (.prepared index environment (.error e), s') now questions) :
    job.GivesUp index now s questions e environment s' := by
  rw [GivesUp, attempt_course, attemptCourse, Course.deeds_andThen, h, asking_andThen]
  exact asking_andThen_finished _ _ () _ now questions

/-- An attempt goes on if its preparation has led to a command line. -/
theorem goesOn_of_preparation {questions : List Call} {command : CommandLine} {environment : Bindings} {s' : σ}
    (h : (job.preparation index now s).deeds =
      asking job.collaborators s (.prepared index environment (.ok command), s') now questions) :
    job.GoesOn index now s questions command environment s' := by
  let begun : Attempt := { index := index, command := some command, environment := environment }
  have hattempt : (((job.attempt index).run s).course now).deeds =
      (asking job.collaborators s () now questions).andThen fun time _ =>
        let executed := job.execution index command environment time s'
        ⟨deeds executed.entries,
          executed.ending.bind fun ended result => .finished ended (begun.conclude result.1, result.2)⟩ := by
    rw [attempt_course, attemptCourse, Course.deeds_andThen, h, asking_andThen]
    apply Course.andThen_congr
    intro time _
    -- the record is made without doing anything more
    exact congrArg Course.deeds (Course.andThen_ending_only _ _)
  constructor
  · intro hunanswered
    obtain ⟨hentries, hending⟩ := Course.andThen_of_not_finishes hunanswered _
    exact ⟨(congrArg Course.entries hattempt).trans hentries, (congrArg (·.ending.finishes) hattempt).trans hending⟩
  · intro time hanswered
    obtain ⟨hcalls, -⟩ := asking_finished _ _ hanswered
    obtain ⟨closing, hexecuted, hclosing⟩ := job.calls_of_execution index time s' command environment
    refine ⟨closing, ?_, hclosing⟩
    rw [Course.andThen_of_finished hanswered] at hattempt
    have hentries := congrArg (fun c => callsOf c.entries) hattempt
    dsimp only [Course.deeds] at hentries
    rw [callsOf_deeds, callsOf_append, callsOf_deeds, hcalls, hexecuted] at hentries
    exact hentries
  · intro time hanswered _
    rw [Course.andThen_of_finished hanswered] at hattempt
    refine (congrArg Course.ending hattempt).trans ?_
    dsimp only
    rw [execution_ending]
    rcases job.collaborators.start (job.invocation index command environment) s' with ⟨reply, s''⟩
    cases reply with
    | started process =>
      dsimp only
      cases ((process.waitOrKill job.timeoutSeconds?).course time).ending with
      | finished ended waited => rfl
      | crashed ended => rfl
      | never => rfl
    | refused e => rfl
    | crash => rfl

/-- The record of an attempt that has started a process has what the process was to be started with, and no error
about finding this out. -/
theorem record_of_start {time : Nat} {i : Invocation}
    (h : ⟨time, .call (.start i)⟩ ∈ (((job.attempt index).run s).course now).entries) {ended : Nat} {a : Attempt}
    {s' : σ} (hended : (((job.attempt index).run s).course now).ending = .finished ended (a, s')) :
    a.command = some i.command ∧ a.environment = i.environment ∧ ∀ e, a.outcome ≠ .error (.resolution e) := by
  obtain ⟨plan, found, hplanned, rfl⟩ := Round.planned_of_start (r := ⟨index, now, s⟩) h
  rw [attempt_of_planned hplanned] at hended
  dsimp only at hended
  cases hexecuted : (job.execution index plan.command plan.environment time found).ending with
  | crashed executed => simp [hexecuted] at hended
  | never => simp [hexecuted] at hended
  | finished executed result =>
    rw [hexecuted] at hended
    cases hended
    cases result.1 with
    | ok u => exact ⟨rfl, rfl, fun e he => nomatch he⟩
    | error e => exact ⟨rfl, rfl, fun e he => nomatch he⟩

end

/-- The script comes first, then the environment in the order of its names, then the command line, and only behind
these the process. What fails first is the error of the attempt, and nothing is asked any more. The record has the
environment if all of it could be found out, and the command line if the process was to be started. -/
theorem attempt_stages (job : Job σ) (index now : Nat) (s : σ) :
    let c := job.collaborators
    let step := job.step
    let secretVariable := job.config.imageSecretVariable
    let seen := ((job.attempt index).run s).course now
    (∀ e, scriptResult c step = .error e → job.GivesUp index now s (scriptQuestions step) e ∅ s) ∧
    (∀ script, scriptResult c step = .ok script →
      (∀ name text cause, FirstRefused c step.environment name text cause →
        let lesser := step.environment.toList.filter fun entry => entry.1 < name
        job.GivesUp index now s (scriptQuestions step ++ (valueQuestions lesser ++ [.expand text]))
          (.expression ("environment." ++ name) cause) ∅ s) ∧
      ((∀ name text cause, ¬FirstRefused c step.environment name text cause) →
        ∃ environment, Expanded c step.environment environment ∧
        let found := commandResult c secretVariable step script s
        let questions := scriptQuestions step ++ valueQuestions step.environment.toList ++
          commandQuestions c secretVariable step script
        (∀ e, found.1 = .error e → job.GivesUp index now s questions e environment found.2) ∧
        (∀ command, found.1 = .ok command → job.GoesOn index now s questions command environment found.2))) ∧
    (∀ time i ended a s', ⟨time, .call (.start i)⟩ ∈ seen.entries → seen.ending = .finished ended (a, s') →
      a.command = some i.command ∧ a.environment = i.environment ∧ ∀ e, a.outcome ≠ .error (.resolution e)) := by
  intro c step secretVariable seen
  refine ⟨?_, ?_, ?_⟩
  · intro e hscript
    exact givesUp_of_preparation (preparation_of_script_error hscript)
  · intro script hscript
    constructor
    · intro name text cause hrefused lesser
      apply givesUp_of_preparation
      exact preparation_of_environment_error hscript fun time => environmentFinding_of_refused hrefused time s
    · intro hnone
      obtain ⟨environment, hexpanded, hfinding⟩ := environmentFinding_of_expanded (expands_of_not_firstRefused hnone)
      refine ⟨environment, hexpanded, ?_⟩
      intro found questions
      constructor
      · intro e he
        apply givesUp_of_preparation
        rw [← he]
        exact preparation_of_environment hscript fun time => hfinding time s
      · intro command hcommand
        apply goesOn_of_preparation
        rw [← hcommand]
        exact preparation_of_environment hscript fun time => hfinding time s
  · intro time i ended a s' hstart hended
    exact record_of_start hstart hended

/-- A step whose values are expanded unless they are a lone dollar sign, and for which everything else is refused. -/
def refusedJob (step : Step) : Job Unit where
  step := step
  collaborators :=
    { Collaborators.refusing with
      expand := fun raw => if raw = "$" then .error (.malformed 0 raw) else .ok raw }

/-- Each of the stages in turn is the first one that fails. -/
theorem attempt_stages_refused :
    let script : Step :=
      { command := "$", shell := .bash, environment := Bindings.ofList [("A", "$")] }
    let value : Step :=
      { command := "run", shell := .bash, environment := Bindings.ofList [("a", "$"), ("B", "$"), ("A", "x")] }
    let image : Step := { id := "db", image := "redis", environment := Bindings.ofList [("A", "x")] }
    let start : Step := { entrypoint := ["serve"], environment := Bindings.ofList [("A", "x")] }
    (refusedJob script).GivesUp 1 0 () [.expand "$"] (.expression "command" (.malformed 0 "$")) ∅ () ∧
    (refusedJob value).GivesUp 1 0 () [.expand "run", .expand "x", .expand "$"]
      (.expression "environment.B" (.malformed 0 "$")) ∅ () ∧
    (∃ environment, Expanded (refusedJob image).collaborators image.environment environment ∧
      (refusedJob image).GivesUp 1 0 () [.expand "x", .lookup "db" "redis" none] (.image "redis" .emptyReference)
        environment ()) ∧
    (∃ environment, Expanded (refusedJob start).collaborators start.environment environment ∧
      (refusedJob start).GoesOn 1 0 () [.expand "x"] ⟨"serve", []⟩ environment ()) ∧
    (∃ a, ((((refusedJob start).attempt 1).run ()).course 0).ending = .finished 0 (a, ()) ∧
      a.command = some ⟨"serve", []⟩) := by
  intro script value image start
  have hnone : ∀ name text cause,
      ¬FirstRefused (refusedJob image).collaborators (Bindings.ofList [("A", "x")]) name text cause := by
    rintro name text cause ⟨hbound, hrefused, -⟩
    have hmem := Bindings.get?_eq_some.1 hbound
    change (name, text) ∈ [("A", "x")] at hmem
    cases List.mem_singleton.1 hmem
    cases hrefused
  refine ⟨?_, ?_, ?_, ?_, ?_⟩
  · exact (attempt_stages (refusedJob script) 1 0 ()).1 _ rfl
  · refine ((attempt_stages (refusedJob value) 1 0 ()).2.1 _ rfl).1 "B" "$" _ ⟨rfl, rfl, ?_⟩
    intro lesser other hlesser hother
    have hmem := Bindings.get?_eq_some.1 hother
    change (lesser, other) ∈ [("A", "x"), ("B", "$"), ("a", "$")] at hmem
    rw [Text.Utf8.encode_lt_encode] at hlesser
    simp only [List.mem_cons, Prod.mk.injEq, List.not_mem_nil, or_false] at hmem
    obtain ⟨rfl, rfl⟩ | ⟨rfl, rfl⟩ | ⟨rfl, rfl⟩ := hmem
    · exact ⟨"x", rfl⟩
    · exact absurd hlesser (by decide)
    · exact absurd hlesser (by decide)
  · obtain ⟨environment, hexpanded, hgivesUp, -⟩ := ((attempt_stages (refusedJob image) 1 0 ()).2.1 none rfl).2 hnone
    exact ⟨environment, hexpanded, hgivesUp _ rfl⟩
  · obtain ⟨environment, hexpanded, -, hgoesOn⟩ := ((attempt_stages (refusedJob start) 1 0 ()).2.1 none rfl).2 hnone
    exact ⟨environment, hexpanded, hgoesOn _ rfl⟩
  · refine ⟨_, rfl, ?_⟩
    have hstart : (⟨0, .call (.start ((refusedJob start).invocation 1 ⟨"serve", []⟩ (.ofList [("A", "x")])))⟩ :
        Entry Event) ∈ ((((refusedJob start).attempt 1).run ()).course 0).entries := List.mem_of_getLast? rfl
    exact ((attempt_stages (refusedJob start) 1 0 ()).2.2 _ _ _ _ _ hstart rfl).1

end Job

end Sidecar
