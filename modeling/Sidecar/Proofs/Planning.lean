import Sidecar.Proofs.Timeline

/-!
# Plans and attempts

What a step executes is found out in two places: to show it, as a plan, and in each attempt, on the way to the
process. An attempt asks the same as a plan, at the same times, and goes on exactly if the plan is there. The one
thing that it does with the plan is to start it.

The main statements are `preparation_agrees` (an attempt prepares itself like a plan) and the three ways on from
there: `attempt_of_planned`, `attempt_of_refused` and `attempt_of_unplanned`. `shows_planFinding` bounds what can be
seen of a plan.
-/

namespace Sidecar

open Activity

variable {σ α β : Type}

/-! ## What findings show -/

namespace Finding

/-- All that is seen of a finding is of some kind. -/
def Shows (kind : Event → Prop) (f : Finding σ α) : Prop :=
  ∀ now s, (f now s).Shows kind

variable {kind : Event → Prop}

theorem shows_noted {items : List Event} (h : ∀ item ∈ items, kind item)
    (result : Except ResolutionError α) : (noted items result : Finding σ α).Shows kind :=
  fun now _ => Course.shows_entriesAt h now _

theorem shows_known (result : Except ResolutionError α) : (known result : Finding σ α).Shows kind :=
  shows_noted (by simp) result

/-- Only the answer that is given can follow a question. -/
theorem shows_asked_andThen (c : Collaborators σ) {call : Call} (h : kind (.call call)) {answer : σ → α × σ}
    {g : α → Finding σ β} (hg : ∀ s, (g (answer s).1).Shows kind) :
    ((asked c call answer).andThen g).Shows kind := by
  intro now s
  apply Course.Shows.andThen_of_ending
  · intro e he
    rw [List.mem_singleton.1 he]
    exact h
  · intro time found hending
    obtain ⟨-, rfl⟩ := Lag.of_ending_eq_finished hending
    exact hg s time _

theorem Shows.andThen {f : Finding σ α} {g : α → Finding σ β} (hf : f.Shows kind)
    (hg : ∀ a, (g a).Shows kind) : (f.andThen g).Shows kind := by
  intro now s
  apply (hf now s).andThen
  rintro time ⟨result, s'⟩
  cases result with
  | ok a => exact hg a time s'
  | error e => simp [Course.Shows]

theorem Shows.mapResult {f : Finding σ α} (hf : f.Shows kind) (g : α → Except ResolutionError β) :
    (f.mapResult g).Shows kind :=
  hf.andThen fun a => shows_known (g a)

/-- What has been found out, if this has come to an end. -/
def found? (c : Course Event (Except ResolutionError α × σ)) : Option (Except ResolutionError α) :=
  match c.ending with
  | .finished _ (result, _) => some result
  | .crashed _ => none
  | .never => none

theorem found?_eq_some {c : Course Event (Except ResolutionError α × σ)} {result : Except ResolutionError α} :
    found? c = some result ↔ ∃ time s, c.ending = .finished time (result, s) := by
  unfold found?
  cases c.ending with
  | finished time value => simp [Prod.ext_iff]
  | crashed time => simp
  | never => simp

theorem found?_eq_none {c : Course Event (Except ResolutionError α × σ)} :
    found? c = none ↔ c.ending.finishes = false := by
  unfold found?
  cases c.ending with
  | finished time value => simp [Ending.finishes]
  | crashed time => simp [Ending.finishes]
  | never => simp [Ending.finishes]

end Finding

namespace Resolution

open Finding

/-- What finding out what a step executes may show: two kinds of questions, what is logged with the answers, and
the record about the result. -/
structure Covers (c : Collaborators σ) (step : Step) (kind : Event → Prop) : Prop where
  expand : ∀ raw, kind (.call (.expand raw))
  lookup : ∀ stepId image secret, kind (.call (.lookup stepId image secret))
  records : ∀ stepId image secret s, ∀ r ∈ (c.lookup stepId image secret s).1.records, kind (.log r)
  resolved : ∀ strategy command, kind (resolvedRecord step strategy command)

section

variable {c : Collaborators σ} {step : Step} {kind : Event → Prop}

theorem shows_expandFinding (h : Covers c step kind) (field raw : String) :
    (expandFinding c field raw).Shows kind :=
  shows_asked_andThen c (h.expand raw) fun _ => shows_known _

theorem shows_scriptFinding (h : Covers c step kind) : (scriptFinding c step).Shows kind := by
  unfold scriptFinding
  split
  · split
    · exact shows_known _
    · exact (shows_expandFinding h _ _).mapResult _
  · exact shows_known _

theorem shows_entriesFinding (h : Covers c step kind) (entries : List (String × String)) :
    (entriesFinding c entries).Shows kind := by
  induction entries with
  | nil => exact shows_known _
  | cons entry rest ih =>
    apply ((shows_expandFinding h _ _).mapResult _).andThen
    intro resolved
    exact ih.mapResult _

theorem shows_environmentFinding (h : Covers c step kind) : (environmentFinding c step).Shows kind :=
  (shows_entriesFinding h _).mapResult _

theorem shows_imageFinding (h : Covers c step kind) (secretVariable : String) :
    (imageFinding c secretVariable step).Shows kind := by
  apply shows_asked_andThen c (h.lookup _ _ _)
  intro s
  apply shows_noted
  intro item hitem
  obtain ⟨r, hr, rfl⟩ := List.mem_map.1 hitem
  exact h.records _ _ _ s r hr

theorem shows_applyFinding (h : Covers c step kind) (secretVariable : String) (script : Option String)
    (strategy : Strategy) : (applyFinding c secretVariable step script strategy).Shows kind := by
  cases strategy with
  | entrypoint => exact shows_known _
  | shell =>
    cases script with
    | none => exact shows_known _
    | some text =>
      unfold applyFinding
      dsimp only
      split
      · exact shows_known _
      · exact shows_known _
  | image => exact shows_imageFinding h secretVariable

theorem shows_commandFinding (h : Covers c step kind) (secretVariable : String) (script : Option String) :
    (commandFinding c secretVariable step script).Shows kind := by
  unfold commandFinding
  induction Strategy.priority with
  | nil => exact shows_known _
  | cons strategy rest ih =>
    apply (shows_applyFinding h secretVariable script strategy).andThen
    intro found
    cases found with
    | none => exact ih
    | some command =>
      apply shows_noted
      intro item hitem
      rw [List.mem_singleton.1 hitem]
      exact h.resolved strategy command

end

/-! ## Plans -/

/-- What finding out what a step executes leads to. -/
def planFinding (c : Collaborators σ) (secretVariable : String) (step : Step) : Finding σ Plan :=
  (scriptFinding c step).andThen fun text =>
    (environmentFinding c step).andThen fun environment =>
      (commandFinding c secretVariable step text).mapResult fun found => .ok ⟨found.1, found.2, environment⟩

theorem plan_finds (c : Collaborators σ) (secretVariable : String) (step : Step) :
    Finds (plan c secretVariable step) (planFinding c secretVariable step) := by
  apply (script_finds c step).bind
  intro text
  apply (environment_finds c step).bind
  intro environment
  exact (command_finds c secretVariable step text).mapResult _ fun found => Finds.pure _

theorem shows_planFinding {c : Collaborators σ} {step : Step} {kind : Event → Prop} (h : Covers c step kind)
    (secretVariable : String) : (planFinding c secretVariable step).Shows kind := by
  apply (shows_scriptFinding h).andThen
  intro text
  apply (shows_environmentFinding h).andThen
  intro environment
  exact (shows_commandFinding h secretVariable text).mapResult _

end Resolution

/-- Whether the record of an attempt says what has been found out: what to execute, or that there is nothing. -/
def Attempt.Records (a : Attempt) (index : Nat) : Except ResolutionError Resolution.Plan → Prop
  | .ok plan => a = { index := index, command := some plan.command, environment := plan.environment }
  | .error e => a.command = none ∧ a.outcome = .error (.resolution e)

namespace Job

/-- What becomes of finding out what a step executes, from a time on. -/
def planning (job : Job σ) (now : Nat) (s : σ) : Course Event (Except ResolutionError Resolution.Plan × σ) :=
  ((Resolution.plan job.collaborators job.config.imageSecretVariable job.step).run.run s).course now

theorem planning_eq (job : Job σ) (now : Nat) (s : σ) :
    job.planning now s =
      Resolution.planFinding job.collaborators job.config.imageSecretVariable job.step now s :=
  Resolution.plan_finds _ _ _ now s

/-- An attempt finds out the same as a plan, in the same way. -/
theorem preparation_agrees (job : Job σ) (index now : Nat) (s : σ) :
    Course.Agree (fun found prepared => prepared.2 = found.2 ∧ prepared.1.Records index found.1)
      (job.planning now s) (job.preparation index now s) := by
  rw [planning_eq]
  apply Course.agree_andThen
  rintro time ⟨e | script, s⟩
  · exact .finished [] time ⟨rfl, rfl, rfl⟩
  · apply Course.agree_andThen
    rintro time ⟨e | environment, s⟩
    · exact .finished [] time ⟨rfl, rfl, rfl⟩
    · apply Course.agree_andThen
      rintro time ⟨e | ⟨strategy, command⟩, s⟩
      · exact .finished [] time ⟨rfl, rfl, rfl⟩
      · exact .finished [] time ⟨rfl, rfl⟩

/-! ## Attempts -/

section

variable {job : Job σ} {now time : Nat} {s s' : σ}

/-- An attempt that has found out what to execute goes on to execute it. -/
theorem attempt_of_planned {plan : Resolution.Plan} (h : (job.planning now s).ending = .finished time (.ok plan, s'))
    (index : Nat) :
    let executed := job.execution index plan.command plan.environment time s'
    let begun : Attempt := { index := index, command := some plan.command, environment := plan.environment }
    ((job.attempt index).run s).course now =
      ⟨(job.planning now s).entries ++ executed.entries,
        executed.ending.bind fun time result => .finished time (begun.conclude result.1, result.2)⟩ := by
  intro executed begun
  have hprepared := job.preparation_agrees index now s
  rw [attempt_course, attemptCourse]
  generalize job.planning now s = planned at h hprepared
  generalize job.preparation index now s = prepared at hprepared
  cases hprepared with
  | crashed entries ended => cases h
  | never entries => cases h
  | @finished entries ended found a hagree =>
    obtain ⟨record, s''⟩ := a
    cases h
    obtain ⟨hstate, hrecord⟩ := hagree
    cases hstate
    cases hrecord
    rw [Course.andThen_finished]
    have hexecuted := executed.andThen_ending_only fun time result =>
      Ending.finished time (begun.conclude result.1, result.2)
    exact congrArg (fun c => Course.mk (entries ++ c.entries) c.ending) hexecuted

/-- An attempt for which there is nothing to execute has failed, and shows what a plan shows. -/
theorem attempt_of_refused {e : ResolutionError} (h : (job.planning now s).ending = .finished time (.error e, s'))
    (index : Nat) :
    ∃ a : Attempt, a.command = none ∧ a.outcome = .error (.resolution e) ∧
      ((job.attempt index).run s).course now = ⟨(job.planning now s).entries, .finished time (a, s')⟩ := by
  have hprepared := job.preparation_agrees index now s
  rw [attempt_course, attemptCourse]
  generalize job.planning now s = planned at h hprepared
  generalize job.preparation index now s = prepared at hprepared
  cases hprepared with
  | crashed entries ended => cases h
  | never entries => cases h
  | @finished entries ended found a hagree =>
    obtain ⟨record, s''⟩ := a
    cases h
    obtain ⟨hstate, hcommand, houtcome⟩ := hagree
    cases hstate
    change record.command = none at hcommand
    refine ⟨record, hcommand, houtcome, ?_⟩
    rw [Course.andThen_finished]
    simp only [hcommand, List.append_nil]

/-- An attempt that never finds out what to execute does not come to an end. -/
theorem attempt_of_unplanned (h : (job.planning now s).ending.finishes = false) (index : Nat) :
    (((job.attempt index).run s).course now).entries = (job.planning now s).entries ∧
    (((job.attempt index).run s).course now).ending.finishes = false := by
  have hprepared := job.preparation_agrees index now s
  rw [attempt_course, attemptCourse]
  generalize job.planning now s = planned at h hprepared
  generalize job.preparation index now s = prepared at hprepared
  cases hprepared with
  | finished entries ended hagree => cases h
  | crashed entries ended =>
    rw [Course.andThen_crashed]
    exact ⟨rfl, rfl⟩
  | never entries =>
    rw [Course.andThen_never]
    exact ⟨rfl, rfl⟩

end

end Job

end Sidecar
