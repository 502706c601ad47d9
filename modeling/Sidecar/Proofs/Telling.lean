import Sidecar.Proofs.Discretion
import Sidecar.Proofs.Retries
import Sidecar.Proofs.Settlement

/-!
# What is told about a step

A step tells what becomes of it in log records: one for each of its attempts, one if its reports cannot be
gathered, and one about its end if nobody waits for it any more. A run that returns before its step has ended says
so in a record too. Nothing is told twice, and no failure is passed over.

The main statement is `outcome_told_once`. It supposes that the collaborators of the step leave this to the step, as
those of the program do (`collaborators_discreet`). It rests on `tells_entries` for an attempt, `task_tells` for all
that a step tells while it runs, and `seenBefore_eq` for what a run adds to that.
-/

namespace Sidecar

open Activity

variable {σ α : Type}

/-! ## Attempts -/

/-- The record of an attempt that has succeeded. -/
def successRecord (fields : List (String × String)) : LogRecord where
  level := .info
  message := "Successfully executed background step"
  fields := fields

/-- A course that tells of its success when it ends with one, and of nothing else. -/
def TellsSuccess (succeeds : α → Bool) (c : Course Event α) : Prop :=
  match c.ending with
  | .finished time value =>
    if succeeds value then ∃ fields, only Event.isTelling c.entries = [⟨time, .log (successRecord fields)⟩]
    else only Event.isTelling c.entries = []
  | .crashed _ => only Event.isTelling c.entries = []
  | .never => only Event.isTelling c.entries = []

namespace TellsSuccess

variable {β : Type} {succeeds : α → Bool} {c : Course Event α}

/-- Nothing that is told is added in front. -/
theorem append {entries : List (Entry Event)} (hentries : only Event.isTelling entries = [])
    (h : TellsSuccess succeeds c) : TellsSuccess succeeds ⟨entries ++ c.entries, c.ending⟩ := by
  unfold TellsSuccess at h ⊢
  simp only [only_append, hentries, List.nil_append]
  exact h

/-- What is made of the result does not change its success. -/
theorem mapResult {succeeds' : β → Bool} {g : Nat → α → β}
    (hg : ∀ time value, succeeds' (g time value) = succeeds value) (h : TellsSuccess succeeds c) :
    TellsSuccess succeeds' ⟨c.entries, c.ending.bind fun time value => .finished time (g time value)⟩ := by
  unfold TellsSuccess at h ⊢
  cases hending : c.ending with
  | crashed time =>
    rw [hending] at h
    exact h
  | never =>
    rw [hending] at h
    exact h
  | finished time value =>
    rw [hending] at h
    simp only [Ending.finished_bind, hg]
    exact h

theorem of_quiet (hentries : only Event.isTelling c.entries = [])
    (hfails : ∀ time value, c.ending = .finished time value → succeeds value = false) : TellsSuccess succeeds c := by
  unfold TellsSuccess
  split
  · rename_i time value hending
    rw [if_neg (by simp [hfails time value hending])]
    exact hentries
  · exact hentries
  · exact hentries

end TellsSuccess

namespace Job

theorem planning_tells {job : Job σ} (h : job.collaborators.Discreet) (now : Nat) (s : σ) :
    only Event.isTelling (job.planning now s).entries = [] := by
  have hcovers : Resolution.Covers job.collaborators job.step fun item => item.isTelling = false :=
    ⟨fun _ => rfl, fun _ _ _ => rfl, h.lookup, fun _ _ => rfl⟩
  rw [planning_eq]
  exact only_of_shows (Resolution.shows_planFinding hcovers job.config.imageSecretVariable now s)

/-- What is logged about a process when it is gone tells of its success, and of nothing else. -/
theorem closingItems_tell (job : Job σ) (index : Nat) (command : CommandLine) (pid : Option Nat)
    (elapsed time : Nat) (result : Except ProcessError Unit) :
    only Event.isTelling (entriesAt time (job.closingItems index command pid elapsed result)) =
      match result with
      | .error _ => []
      | .ok () => [⟨time, .log (successRecord [("arguments", command.display), ("output", "\x7b\x7d"),
          ("elapsed_time_ms", shownMillis elapsed)])⟩] := by
  unfold closingItems
  cases job.measures <;> cases result <;> rfl

/-- Of a process one is told only that it has been successful, when it is gone. -/
theorem following_tells (job : Job σ) (index : Nat) (command : CommandLine) (process : RunningProcess σ)
    (started : Nat) (s : σ) :
    TellsSuccess (fun result => result.1.isOk) (job.following index command process started s) := by
  have hkillRecords : ∀ item ∈ process.killRecords, item.isTelling = false := by
    unfold RunningProcess.killRecords
    cases process.killFault with
    | none => simp
    | some cause =>
      intro item hitem
      rw [List.mem_singleton.1 hitem]
      rfl
  have hstarted : ∀ item ∈ job.startedRecords process.pid, item.isTelling = false := by
    unfold startedRecords
    cases process.pid with
    | none => simp
    | some pid =>
      cases job.measures with
      | false => simp
      | true =>
        intro item hitem
        rw [List.mem_singleton.1 hitem]
        rfl
  have hfate : (process.fate job.timeoutSeconds? started).Shows fun item => item.isTelling = false := by
    refine RunningProcess.shows_fate ?_ ?_ hkillRecords job.timeoutSeconds? started
    · rfl
    · rfl
  unfold following TellsSuccess
  generalize process.fate job.timeoutSeconds? started = fate at hfate
  obtain ⟨entries, ending⟩ := fate
  have hentries := only_of_shows hfate
  cases ending with
  | crashed time => simp [only_entriesAt hstarted, hentries]
  | never => simp [only_entriesAt hstarted, hentries]
  | finished time result =>
    simp only [Course.andThen_finished, only_append, only_entriesAt hstarted, hentries, closingItems_tell,
      List.nil_append]
    cases result with
    | error e => rfl
    | ok u => exact ⟨_, rfl⟩

theorem execution_tells (job : Job σ) (index : Nat) (command : CommandLine) (environment : Bindings)
    (now : Nat) (s : σ) :
    TellsSuccess (fun result => result.1.isOk) (job.execution index command environment now s) := by
  unfold execution
  dsimp only
  split
  · rename_i process s' _
    have hstart : only Event.isTelling [⟨now, .call (.start (job.invocation index command environment))⟩] = [] := rfl
    exact TellsSuccess.append hstart (job.following_tells index command process now s')
  · apply TellsSuccess.of_quiet
    · rfl
    · intro time value hending
      cases hending
      rfl
  · apply TellsSuccess.of_quiet
    · rfl
    · intro time value hending
      cases hending

/-- An attempt tells of the success of its process, and of nothing else. -/
theorem attempt_tells {job : Job σ} (h : job.collaborators.Discreet) (index now : Nat) (s : σ) :
    TellsSuccess (fun result => result.1.isSuccess) (((job.attempt index).run s).course now) := by
  have hplanning := planning_tells h now s
  rcases Ending.finished_or (job.planning now s).ending with ⟨time, ⟨found, s'⟩, hplanned⟩ | hunplanned
  · cases found with
    | error e =>
      obtain ⟨a, -, houtcome, hcourse⟩ := attempt_of_refused hplanned index
      rw [hcourse]
      apply TellsSuccess.of_quiet
      · exact hplanning
      · intro time value hending
        cases hending
        simp [Attempt.isSuccess, houtcome, Except.isOk, Except.toBool]
    | ok plan =>
      rw [attempt_of_planned hplanned]
      refine TellsSuccess.append hplanning (TellsSuccess.mapResult ?_
        (job.execution_tells index plan.command plan.environment time s'))
      rintro time ⟨result, s''⟩
      cases result <;> rfl
  · obtain ⟨hentries, hunfinished⟩ := attempt_of_unplanned hunplanned index
    apply TellsSuccess.of_quiet
    · rw [hentries, hplanning]
    · intro time value hending
      simp [hending, Ending.finishes] at hunfinished

end Job

namespace Round

/-- The record of an attempt that has failed. -/
def failureRecord (r : Round σ) (job : Job σ) (e : StepError) : LogRecord where
  level := .warn
  message := "background step attempt failed"
  fields := [("attempt", toString r.index), ("retries", toString job.retries), ("error", e.message)]

/-- An attempt that finishes is told about once, at its end: that it has failed, and why, or that it has succeeded.
An attempt that does not finish is not told about. -/
def Tells (r : Round σ) (job : Job σ) (told : List (Entry Event)) : Prop :=
  match (r.course job).ending with
  | .finished time (attempt, _) =>
    match attempt.outcome with
    | .error e => told = [⟨time, .log (r.failureRecord job e)⟩]
    | .ok _ => ∃ fields, told = [⟨time, .log ((successRecord fields).within "attempt")⟩]
  | .crashed _ => told = []
  | .never => told = []

theorem tells_entries {job : Job σ} (h : job.collaborators.Discreet) (r : Round σ) :
    r.Tells job (only Event.isTelling (r.entries job)) := by
  have hattempt : TellsSuccess (fun result => result.1.isSuccess) (r.course job) :=
    Job.attempt_tells h r.index r.began r.state
  have herror : r.entries job = (((r.course job).mapItems (.within "attempt")).andThen fun time result =>
      ⟨entriesAt time (job.failureRecords r.index result.1), .finished time (result.1.error?, result.2)⟩).entries := by
    rw [entries_eq, Job.attemptErrorCourse, course, Job.attempt_course]
  -- the span does not matter for what is told
  have hwithin := only_mapItems (Event.isTelling_within "attempt") (r.course job)
  rw [herror]
  unfold Tells
  unfold TellsSuccess at hattempt
  generalize r.course job = c at hattempt hwithin
  obtain ⟨entries, ending⟩ := c
  unfold Course.mapItems at hwithin ⊢
  cases ending with
  | crashed time =>
    rw [Course.andThen_crashed, hwithin, hattempt]
    rfl
  | never =>
    rw [Course.andThen_never, hwithin, hattempt]
    rfl
  | finished time result =>
    obtain ⟨attempt, s⟩ := result
    rw [Course.andThen_finished, only_append, hwithin]
    dsimp only at hattempt ⊢
    unfold Job.failureRecords Attempt.error?
    cases houtcome : attempt.outcome with
    | error e =>
      rw [if_neg (by simp [Attempt.isSuccess, houtcome, Except.isOk, Except.toBool])] at hattempt
      rw [hattempt]
      rfl
    | ok outputs =>
      rw [if_pos (by simp [Attempt.isSuccess, houtcome, Except.isOk, Except.toBool])] at hattempt
      obtain ⟨fields, hfields⟩ := hattempt
      rw [hfields]
      exact ⟨fields, rfl⟩

/-- What is told about an attempt is told by the step, not by its run. -/
theorem Tells.of_step {r : Round σ} {job : Job σ} {told : List (Entry Event)} (h : r.Tells job told) :
    ∀ e ∈ told, e.item.bears stepMessages = true := by
  have hsingle : ∀ e : Entry Event, e.item.bears stepMessages = true →
      ∀ e' ∈ [e], e'.item.bears stepMessages = true := by
    intro e he e' he'
    rw [List.mem_singleton.1 he']
    exact he
  unfold Tells at h
  split at h
  · split at h
    · rw [h]
      exact hsingle _ rfl
    · obtain ⟨fields, rfl⟩ := h
      exact hsingle _ rfl
  · simp [h]
  · simp [h]

end Round

/-! ## The whole step -/

/-- What is told about the collection of reports that follows a last attempt. -/
def collectionTold (last : Attempt) (time : Nat) : Except CollectionError Unit → List (Entry Event)
  | .ok () => []
  | .error e =>
    [⟨time, .log { level := .error,
                   message := match last.outcome with
                     | .ok _ => "unable to collect test reports"
                     | .error _ => "error while collecting test reports",
                   fields := [("error", e.message)] }⟩]

theorem entriesAt_collectionRecords (last : Attempt) (time : Nat) (collected : Except CollectionError Unit) :
    entriesAt time (Job.collectionRecords last.error? collected) = collectionTold last time collected := by
  unfold Job.collectionRecords collectionTold Attempt.error?
  cases collected <;> cases last.outcome <;> rfl

theorem collectionTold_of_step (last : Attempt) (time : Nat) (collected : Except CollectionError Unit) :
    ∀ e ∈ collectionTold last time collected, e.item.bears stepMessages = true := by
  unfold collectionTold
  cases collected with
  | ok u => simp
  | error e =>
    intro entry hentry
    rw [List.mem_singleton.1 hentry]
    cases last.outcome <;> rfl

namespace Job

/-- Behind the attempts a step tells of its reports if they cannot be gathered, and of nothing else. -/
theorem collectAfter_tells {job : Job σ} (h : job.collaborators.Discreet) (last : Attempt) (now : Nat) (s : σ) :
    let c := job.collectAfterCourse last.error? now s
    (c.ending.finishes = false → only Event.isTelling c.entries = []) ∧
    (∀ time result, c.ending = .finished time result → only Event.isTelling c.entries =
      collectionTold last time (job.collaborators.collect job.step.reports job.step.id s).1.result) := by
  have hcollect : (job.collectCourse now s).Shows fun item => item.isTelling = false := by
    refine job.shows_collectCourse ?_ ?_ now s
    · rfl
    · exact h.collect _ _
  have hquiet := only_of_shows hcollect
  intro c
  have hc : c = (job.collectCourse now s).andThen fun time result =>
    ⟨entriesAt time (collectionRecords last.error? result.1),
      .finished time (finalError last.error? result.1, result.2)⟩ := rfl
  rw [hc]
  rcases Ending.finished_or (job.collectCourse now s).ending with ⟨ended, collected, hending⟩ | hunfinished
  · obtain ⟨-, hresult, -⟩ := job.collectCourse_finished hending
    rw [Course.andThen_of_finished hending, ← hresult]
    constructor
    · intro hfinishes
      cases hfinishes
    · intro time result hfinished
      cases hfinished
      have htold := collectionTold_of_step last ended collected.1
      dsimp only
      rw [only_append, hquiet, entriesAt_collectionRecords, List.nil_append]
      exact only_eq_self fun e he => Event.isTelling_of_step (htold e he)
  · obtain ⟨hentries, hending⟩ := Course.andThen_of_not_finishes hunfinished fun time result =>
      Course.mk (entriesAt time (collectionRecords last.error? result.1))
        (.finished time (finalError last.error? result.1, result.2))
    constructor
    · intro _
      rw [hentries, hquiet]
    · intro time result hfinished
      simp [hfinished, Ending.finishes] at hending

/-- All that is told while a step runs: what its attempts tell, one after the other, and then the collection of its
reports. -/
theorem task_tells {job : Job σ} (h : job.collaborators.Discreet) (now : Nat) (s : σ) :
    let c := job.taskCourse now s
    let rounds := job.rounds 1 now s job.retries
    ∃ collection, only Event.isTelling c.entries =
        rounds.flatMap (fun r => only Event.isTelling (r.entries job)) ++ collection ∧
      (c.ending.finishes = false → collection = []) ∧
      (∀ time outcome s', c.ending = .finished time (outcome, s') →
        ∃ last ended attempt s₁, rounds.getLast? = some last ∧
          (last.course job).ending = .finished ended (attempt, s₁) ∧
          collection = collectionTold attempt time
            (job.collaborators.collect job.step.reports job.step.id s₁).1.result) := by
  intro c rounds
  have hattempts := job.attemptsCourse_entries job.retries 1 now none s
  have htold : only Event.isTelling (job.attemptsCourse 1 now none s job.retries).entries =
      rounds.flatMap fun r => only Event.isTelling (r.entries job) := by
    rw [hattempts, only_flatMap]
  rcases Ending.finished_or (job.attemptsCourse 1 now none s job.retries).ending with
    ⟨ended, ⟨failure, s₁⟩, hfinished⟩ | hunfinished
  · obtain ⟨-, last, attempt, hlast, hround, rfl⟩ := job.attempts_finished hfinished
    obtain ⟨hnone, hsome⟩ := collectAfter_tells h attempt ended s₁
    have hc : c = ⟨(job.attemptsCourse 1 now none s job.retries).entries ++
        (job.collectAfterCourse attempt.error? ended s₁).entries,
        (job.collectAfterCourse attempt.error? ended s₁).ending⟩ := Course.andThen_of_finished hfinished _
    rw [hc]
    refine ⟨only Event.isTelling (job.collectAfterCourse attempt.error? ended s₁).entries, ?_, hnone, ?_⟩
    · rw [only_append, htold]
    · intro time outcome s' hending
      exact ⟨last, ended, attempt, s₁, hlast, hround, hsome time _ hending⟩
  · obtain ⟨hentries, hending⟩ := Course.andThen_of_not_finishes hunfinished fun time result =>
      job.collectAfterCourse result.1 time result.2
    change c.entries = _ at hentries
    change c.ending.finishes = false at hending
    refine ⟨[], ?_, fun _ => rfl, ?_⟩
    · rw [hentries, htold, List.append_nil]
    · intro time outcome s' hfinished
      simp [hfinished, Ending.finishes] at hending

end Job

/-! ## The run -/

/-- What a run tells when its settle window of so many seconds is over first: that its step is still running. -/
def stillRunningTold (seconds : Nat) : Entry Event :=
  ⟨seconds * 1000, .log { level := .debug,
                          message := "step still running, treating as launched",
                          fields := [("settle_window", toString seconds ++ "s")],
                          spans := ["background_step"] }⟩

/-- What is told about the end of a step that nobody waits for any more: a warning with the error if there is one, and
otherwise no more than that the step has finished. -/
def lateTold (time : Nat) : Option StepError → Entry Event
  | some e =>
    ⟨time, .log { level := .warn,
                  message := "background step failed after settle window",
                  fields := [("error", e.message)],
                  spans := ["background_step"] }⟩
  | none =>
    ⟨time, .log { level := .debug,
                  message := "background step finished after settle window",
                  spans := ["background_step"] }⟩

theorem endRecords_finished (time : Nat) (outcome : Option StepError) (s : σ) :
    endRecords (.finished time (outcome, s)) = [lateTold time outcome] := by
  cases outcome <;> rfl

theorem endRecords_of_not_finishes {ending : Ending (Option StepError × σ)} (h : ending.finishes = false) :
    endRecords ending = [] := by
  cases ending with
  | finished time value => simp [Ending.finishes] at h
  | crashed time => rfl
  | never => rfl

/-- What is seen in the background, with its span. -/
def inBackground (entries : List (Entry Event)) : List (Entry Event) :=
  entries.map fun e => ⟨e.time, e.item.within backgroundSpan⟩

theorem lateEntries_bear (standing : Standing Event (Option StepError × σ)) :
    ∀ e ∈ lateEntries standing, e.item.bears lateMessages = true := by
  have hend : ∀ ending : Ending (Option StepError × σ), ∀ e ∈ endRecords ending, e.item.bears lateMessages = true := by
    intro ending e he
    cases ending with
    | finished time value =>
      obtain ⟨outcome, s'⟩ := value
      rw [List.mem_singleton.1 he]
      cases outcome <;> rfl
    | crashed time => cases he
    | never => cases he
  cases standing with
  | finished time value => simp [lateEntries]
  | crashed time => simp [lateEntries]
  | hanging => simp [lateEntries]
  | asleep wake resume => exact hend _

namespace Job

/-- What is still to come of a step makes up its ending. -/
theorem settled_ending (job : Job σ) (s : σ) : (job.settled s).course.ending = (job.taskCourse 0 s).ending := by
  have hcourse := congrArg Course.ending (course_eq_advance (job.background s) job.config.settleWindow 0)
  rw [background_course] at hcourse
  exact hcourse.symm

/-- What a step shows is seen within the window or after it. -/
theorem only_settled (job : Job σ) (s : σ) {sort : Event → Bool}
    (h : ∀ item, sort (item.within backgroundSpan) = sort item) :
    only sort ((job.background s).advance job.config.settleWindow 0).1 ++ only sort (job.settled s).course.entries =
      inBackground (only sort (job.taskCourse 0 s).entries) := by
  have hcourse := congrArg Course.entries (course_eq_advance (job.background s) job.config.settleWindow 0)
  rw [background_course] at hcourse
  rw [inBackground, ← only_mapItems h, hcourse, only_append]
  rfl

section

variable {job : Job σ} {s : σ}

theorem settled_of_before (hvalid : job.config.validate = .ok ())
    (h : (job.taskCourse 0 s).ending.Before job.config.settleWindow) :
    job.settled s = (job.taskCourse 0 s).ending.standing := by
  have hcourse : ((job.background s).course 0).ending = (job.taskCourse 0 s).ending := by
    rw [background_course]
    rfl
  rw [← hcourse] at h ⊢
  exact advance_of_before _ (Config.settleWindow_pos hvalid) h

/-- If a step ends within the window, nothing is logged about the window, and its end does not come too late. -/
theorem quiet_of_before (hvalid : job.config.validate = .ok ())
    (h : (job.taskCourse 0 s).ending.Before job.config.settleWindow) :
    job.launchedEntries (job.settled s) = [] ∧ lateEntries (job.settled s) = [] := by
  rw [settled_of_before hvalid h]
  cases hending : (job.taskCourse 0 s).ending with
  | finished time value => exact ⟨rfl, rfl⟩
  | crashed time => exact ⟨rfl, rfl⟩
  | never =>
    rw [hending] at h
    obtain ⟨time, htime, -⟩ := h
    cases htime

/-- A step that does not end within the window is reported as running then, and its end is logged when it comes. -/
theorem settled_of_not_before (hvalid : job.config.validate = .ok ())
    (h : ¬(job.taskCourse 0 s).ending.Before job.config.settleWindow) :
    job.launchedEntries (job.settled s) = [stillRunningTold job.config.settleWindowSeconds] ∧
    lateEntries (job.settled s) = endRecords (job.taskCourse 0 s).ending ∧
    (job.run s).result.error = none := by
  have hrespects := advance_respects (job.background s) (Config.settleWindow_pos hvalid)
  change (job.settled s).Respects job.config.settleWindow at hrespects
  rw [← settled_ending] at h ⊢
  rw [run_eq]
  cases hs : job.settled s with
  | finished time value =>
    rw [hs] at h hrespects
    exact absurd ⟨time, rfl, hrespects⟩ h
  | crashed time =>
    rw [hs] at h hrespects
    exact absurd ⟨time, rfl, hrespects⟩ h
  | hanging => exact ⟨rfl, rfl, rfl⟩
  | asleep wake resume => exact ⟨rfl, rfl, rfl⟩

/-- What is told while a step runs is told by the step. -/
theorem task_tells_of_step (h : job.collaborators.Discreet) (now : Nat) :
    ∀ e ∈ only Event.isTelling (job.taskCourse now s).entries, e.item.bears stepMessages = true := by
  obtain ⟨collection, hentries, hnone, hsome⟩ := task_tells h now s
  intro e he
  rw [hentries] at he
  rcases List.mem_append.1 he with he | he
  · obtain ⟨r, -, he⟩ := List.mem_flatMap.1 he
    exact (Round.tells_entries h r).of_step e he
  · rcases Ending.finished_or (job.taskCourse now s).ending with ⟨time, ⟨outcome, s'⟩, hending⟩ | hunfinished
    · obtain ⟨last, ended, attempt, s₁, -, -, hcollection⟩ := hsome time outcome s' hending
      rw [hcollection] at he
      exact collectionTold_of_step _ _ _ e he
    · rw [hnone hunfinished] at he
      cases he

/-- A run makes two records at most, about the window and about the end of its step, and nobody else makes any like
them. -/
theorem run_tells (h : job.collaborators.Discreet) (time : Nat) :
    only (Event.bears runMessages) ((job.run s).seenBefore time) =
      entriesBefore time (job.launchedEntries (job.settled s) ++ lateEntries (job.settled s)) := by
  have htask : only (Event.bears runMessages) (job.taskCourse 0 s).entries = [] := by
    have hnarrow : ∀ item : Event, item.bears runMessages = true → item.isTelling = true := by
      intro item hitem
      rw [Event.isTelling, Event.bears_append, hitem, Bool.or_true]
    rw [← only_only hnarrow]
    apply List.filter_eq_nil_iff.2
    intro e he
    simp [Event.not_run_of_step (task_tells_of_step h 0 e he)]
  have hsettled := job.only_settled s (Event.bears_within runMessages backgroundSpan)
  rw [htask] at hsettled
  obtain ⟨hseen, hrest⟩ := List.append_eq_nil_iff.1 hsettled
  have hlaunched : only (Event.bears runMessages) (job.launchedEntries (job.settled s)) =
      job.launchedEntries (job.settled s) := by
    cases job.settled s <;> rfl
  have hlate : only (Event.bears runMessages) (lateEntries (job.settled s)) = lateEntries (job.settled s) := by
    apply only_eq_self
    intro e he
    rw [runMessages, ← List.singleton_append, Event.bears_append, lateEntries_bear _ e he, Bool.or_true]
  rw [seenBefore_eq, only_entriesBefore, only_append, only_append, only_append, hseen, hrest, hlaunched, hlate]
  rfl

/-- What is told about outcomes is told by a step while it runs, and then by its run. -/
theorem outcomes_tell (h : job.collaborators.Discreet) (time : Nat) :
    only (Event.bears outcomeMessages) ((job.run s).seenBefore time) =
      entriesBefore time (inBackground (only Event.isTelling (job.taskCourse 0 s).entries) ++
        lateEntries (job.settled s)) := by
  have htask : only (Event.bears outcomeMessages) (job.taskCourse 0 s).entries =
      only Event.isTelling (job.taskCourse 0 s).entries := by
    have hnarrow : ∀ item : Event, item.bears outcomeMessages = true → item.isTelling = true := by
      intro item hitem
      rw [outcomeMessages, Event.bears_append, Bool.or_eq_true] at hitem
      rw [Event.isTelling, Event.bears_append, runMessages, ← List.singleton_append, Event.bears_append]
      rcases hitem with hitem | hitem <;> simp [hitem]
    rw [← only_only hnarrow]
    apply only_eq_self
    intro e he
    rw [outcomeMessages, Event.bears_append, task_tells_of_step h 0 e he, Bool.true_or]
  have hsettled := job.only_settled s (Event.bears_within outcomeMessages backgroundSpan)
  rw [htask] at hsettled
  have hlaunched : only (Event.bears outcomeMessages) (job.launchedEntries (job.settled s)) = [] := by
    cases job.settled s <;> rfl
  have hlate : only (Event.bears outcomeMessages) (lateEntries (job.settled s)) = lateEntries (job.settled s) := by
    apply only_eq_self
    intro e he
    rw [outcomeMessages, Event.bears_append, lateEntries_bear _ e he, Bool.or_true]
  rw [seenBefore_eq, only_entriesBefore, only_append, only_append, only_append, hlaunched, hlate, List.append_nil,
    ← List.append_assoc, hsettled]

end

/-- The end of a step is told once. If it comes within the settle window, it is the result of the run, and nothing is
logged about the window or about a late end. If the window is over first, the run logs this as the last thing that
it does, and returns no error; the end of the step is then logged when it comes. Until then the step tells once about
each of its attempts, in their order, and about its reports if they cannot be gathered. -/
theorem outcome_told_once (job : Job σ) (s : σ) (hvalid : job.config.validate = .ok ())
    (hdiscreet : job.collaborators.Discreet) :
    let window := job.config.settleWindowSeconds * 1000
    let ending := ((job.task.run s).course 0).ending
    let run := job.run s
    let rounds := job.rounds 1 0 s job.retries
    let stillRunning := stillRunningTold job.config.settleWindowSeconds
    (∀ time outcome s', ending = .finished time (outcome, s') → time < window →
      run.result.error = outcome ∧ ∀ t, only (Event.bears runMessages) (run.seenBefore t) = []) ∧
    (¬ending.Before window →
      run.result.error = none ∧ (∃ seen, run.entries = seen ++ [stillRunning]) ∧
      (∀ time outcome s', ending = .finished time (outcome, s') → ∀ t,
        only (Event.bears runMessages) (run.seenBefore t) =
          entriesBefore t [stillRunning, lateTold time outcome]) ∧
      (ending.finishes = false → ∀ t,
        only (Event.bears runMessages) (run.seenBefore t) = entriesBefore t [stillRunning])) ∧
    (∀ r ∈ rounds, r.Tells job (only Event.isTelling (r.entries job))) ∧
    ∃ collection late,
      (ending.finishes = false → collection = []) ∧
      (∀ time outcome s', ending = .finished time (outcome, s') →
        ∃ last ended attempt s₁, rounds.getLast? = some last ∧
          (last.course job).ending = .finished ended (attempt, s₁) ∧
          collection = collectionTold attempt time
            (job.collaborators.collect job.step.reports job.step.id s₁).1.result) ∧
      (ending.Before window → late = []) ∧
      (∀ time outcome s', ending = .finished time (outcome, s') → window ≤ time → late = [lateTold time outcome]) ∧
      (ending.finishes = false → late = []) ∧
      ∀ t, only (Event.bears outcomeMessages) (run.seenBefore t) =
        entriesBefore t (inBackground (rounds.flatMap (fun r => only Event.isTelling (r.entries job)) ++ collection) ++
          late) := by
  intro window ending run rounds stillRunning
  have htask : ending = (job.taskCourse 0 s).ending := congrArg Course.ending (job.task_course s 0)
  rw [htask]
  refine ⟨?_, ?_, ?_, ?_⟩
  · intro time outcome s' hending hlt
    have hbefore : (job.taskCourse 0 s).ending.Before window := by simpa [hending] using hlt
    obtain ⟨hlaunched, hlate⟩ := quiet_of_before hvalid hbefore
    constructor
    · change (job.run s).result.error = outcome
      rw [run_eq, settled_of_before hvalid hbefore, hending]
      rfl
    · intro t
      rw [run_tells hdiscreet, hlaunched, hlate]
      rfl
  · intro hbefore
    obtain ⟨hlaunched, hlate, hresult⟩ := settled_of_not_before hvalid hbefore
    have hrun : ∀ t, only (Event.bears runMessages) (run.seenBefore t) =
        entriesBefore t (stillRunning :: endRecords (job.taskCourse 0 s).ending) := by
      intro t
      rw [run_tells hdiscreet, hlaunched, hlate]
      rfl
    refine ⟨hresult, ⟨_, (job.run_entries s).trans (by rw [hlaunched])⟩, ?_, ?_⟩
    · intro time outcome s' hending t
      rw [hrun, hending, endRecords_finished]
    · intro hunfinished t
      rw [hrun, endRecords_of_not_finishes hunfinished]
  · intro r _
    exact Round.tells_entries hdiscreet r
  · obtain ⟨collection, hentries, hnone, hsome⟩ := task_tells hdiscreet 0 s
    have hquiet : (job.taskCourse 0 s).ending.Before window → lateEntries (job.settled s) = [] :=
      fun hbefore => (quiet_of_before hvalid hbefore).2
    have hlate : ¬(job.taskCourse 0 s).ending.Before window →
        lateEntries (job.settled s) = endRecords (job.taskCourse 0 s).ending :=
      fun hbefore => (settled_of_not_before hvalid hbefore).2.1
    refine ⟨collection, lateEntries (job.settled s), hnone, hsome, hquiet, ?_, ?_, ?_⟩
    · intro time outcome s' hending hle
      have hbefore : ¬(job.taskCourse 0 s).ending.Before window := by
        rw [hending, Ending.finished_before]
        omega
      rw [hlate hbefore, hending, endRecords_finished]
    · intro hunfinished
      by_cases hbefore : (job.taskCourse 0 s).ending.Before window
      · exact hquiet hbefore
      · rw [hlate hbefore, endRecords_of_not_finishes hunfinished]
    · intro t
      rw [outcomes_tell hdiscreet, hentries]

/-- A server that fails within the window is told about by the run's result. One that ends after it is told about
twice: that it is still running, and that it has ended, which is a warning if it has failed. -/
theorem outcome_told_once_server :
    let early := server.run [.ends 1000 (.exited 1), .ends 1500 (.exited 2)]
    let late := server.run [.ends 1000 (.exited 1), .ends 7000 (.exited 0)]
    let failing := server.run [.ends 1000 (.exited 1), .ends 7000 (.exited 2)]
    let launched : LogRecord := ⟨.debug, "step still running, treating as launched", [("settle_window", "5s")],
      ["background_step"]⟩
    let finished : LogRecord := ⟨.debug, "background step finished after settle window", [], ["background_step"]⟩
    let failed : LogRecord := ⟨.warn, "background step failed after settle window",
      [("error", "process exited with status 2")], ["background_step"]⟩
    (early.result.error = some (.process (.exit (some 2))) ∧
      only (Event.bears runMessages) (early.seenBefore 9000) = []) ∧
    (late.result.error = none ∧
      only (Event.bears runMessages) (late.seenBefore 9000) = [⟨5000, .log launched⟩, ⟨8200, .log finished⟩]) ∧
    (failing.result.error = none ∧
      only (Event.bears runMessages) (failing.seenBefore 9000) = [⟨5000, .log launched⟩, ⟨8200, .log failed⟩]) := by
  intro early late failing launched finished failed
  have hvalid : server.config.validate = .ok () := rfl
  have hdiscreet : server.collaborators.Discreet :=
    ⟨fun _ _ _ _ _ hr => (by cases hr), fun _ _ _ _ hr => (by cases hr)⟩
  refine ⟨?_, ?_, ?_⟩
  · obtain ⟨hresult, hquiet⟩ := (outcome_told_once server [.ends 1000 (.exited 1), .ends 1500 (.exited 2)] hvalid
      hdiscreet).1 2700 _ [] rfl (by decide)
    exact ⟨hresult, hquiet 9000⟩
  · have hending : ((server.task.run [.ends 1000 (.exited 1), .ends 7000 (.exited 0)]).course 0).ending =
        .finished 8200 (none, []) := rfl
    obtain ⟨hresult, -, hlate, -⟩ := (outcome_told_once server [.ends 1000 (.exited 1), .ends 7000 (.exited 0)] hvalid
      hdiscreet).2.1 (by rw [hending, Ending.finished_before]; decide)
    exact ⟨hresult, hlate 8200 none [] hending 9000⟩
  · have hending : ((server.task.run [.ends 1000 (.exited 1), .ends 7000 (.exited 2)]).course 0).ending =
        .finished 8200 (some (.process (.exit (some 2))), []) := rfl
    obtain ⟨hresult, -, hlate, -⟩ := (outcome_told_once server [.ends 1000 (.exited 1), .ends 7000 (.exited 2)] hvalid
      hdiscreet).2.1 (by rw [hending, Ending.finished_before]; decide)
    exact ⟨hresult, hlate 8200 _ [] hending 9000⟩

end Job

end Sidecar
