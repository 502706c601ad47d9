import Sidecar.Proofs.Timeline
import Sidecar.Settlement

/-!
# The settle window

The timeline of a step says when the step ends, and how. A run compares this with the settle window, and with
nothing else: what the step has shown until then plays no part in the result. The step in turn does not notice
that its run returns.

The main statements are `run_settles` and `run_detached`.
-/

namespace Sidecar

open Activity

variable {σ : Type}

/-- Settings that are accepted have a settle window of some length. -/
theorem Config.settleWindow_pos {c : Config} (h : c.validate = .ok ()) : 0 < c.settleWindow := by
  by_cases hzero : c.settleWindowSeconds = 0
  · simp [validate, hzero] at h
  · unfold settleWindow
    omega

namespace Job

/-- The course of the background activity is the timeline of the step, seen inside a span. -/
theorem background_course (job : Job σ) (s : σ) (now : Nat) :
    (job.background s).course now = (job.taskCourse now s).mapItems (.within backgroundSpan) := by
  rw [← task_course]
  exact course_mapItems _ _ now

/-! ## What is returned -/

/-- Where a step stands when its settle window is over. -/
def settled (job : Job σ) (s : σ) : Standing Event (Option StepError × σ) :=
  ((job.background s).advance job.config.settleWindow 0).2

theorem run_eq (job : Job σ) (s : σ) :
    job.run s = job.settle ((job.background s).advance job.config.settleWindow 0).1 (job.settled s) := rfl

/-- Whatever becomes of the step, the result is made from an error alone. -/
theorem run_result (job : Job σ) (s : σ) : ∃ error, (job.run s).result = job.resultOf error := by
  rw [run_eq]
  cases job.settled s with
  | finished time value => exact ⟨value.1, rfl⟩
  | crashed time => exact ⟨some (.lost job.step.id), rfl⟩
  | hanging => exact ⟨none, rfl⟩
  | asleep wake resume => exact ⟨none, rfl⟩

/-- A step ends as its timeline says. A run of it returns when the step ends, with its outcome, if this is before
the end of the settle window, and the step is lost if it crashes before. In all other cases the run returns at
the end of the settle window without an error. The window is so many seconds, and time is in milliseconds. There
are never any outputs, and the count of attempts is the one that is asked for: that of the step, or else the
default, but not zero. -/
theorem run_settles (job : Job σ) (s : σ) (hvalid : job.config.validate = .ok ()) :
    let window := job.config.settleWindowSeconds * 1000
    let count := if job.step.retries = 0 then max job.config.defaultRetries 1 else job.step.retries
    let ending := ((job.task.run s).course 0).ending
    ending = (job.taskCourse 0 s).ending ∧
    (∀ time outcome s', ending = .finished time (outcome, s') → time < window →
      (job.run s).returnedAt = time ∧ (job.run s).result.error = outcome) ∧
    (∀ time, ending = .crashed time → time < window →
      (job.run s).returnedAt = time ∧ (job.run s).result.error = some (.lost job.step.id)) ∧
    (¬ending.Before window →
      (job.run s).returnedAt = window ∧ (job.run s).result.error = none) ∧
    (job.run s).result.outputs = ∅ ∧
    (job.run s).result.retries = count := by
  intro window count ending
  have hwindow : 0 < job.config.settleWindow := Config.settleWindow_pos hvalid
  have htask : ending = (job.taskCourse 0 s).ending := by
    rw [← task_course]
  have hending : ((job.background s).course 0).ending = ending := by
    rw [background_course, htask]
    rfl
  obtain ⟨error, hresult⟩ := job.run_result s
  refine ⟨htask, ?_, ?_, ?_, ?_, ?_⟩
  · intro time outcome s' hfinished hlt
    have hs : job.settled s = .finished time (outcome, s') :=
      (advance_finished_iff _ hwindow).2 ⟨hending.trans hfinished, hlt⟩
    rw [run_eq, hs]
    exact ⟨rfl, rfl⟩
  · intro time hcrashed hlt
    have hs : job.settled s = .crashed time :=
      (advance_crashed_iff _ hwindow).2 ⟨hending.trans hcrashed, hlt⟩
    rw [run_eq, hs]
    exact ⟨rfl, rfl⟩
  · intro hbefore
    rw [run_eq]
    cases hs : job.settled s with
    | finished time value =>
      -- a step that has ended within the window has an ending before it
      obtain ⟨hcourse, hlt⟩ := (advance_finished_iff _ hwindow).1 hs
      rw [← hending, hcourse] at hbefore
      exact absurd (Ending.finished_before.2 hlt) hbefore
    | crashed time =>
      obtain ⟨hcourse, hlt⟩ := (advance_crashed_iff _ hwindow).1 hs
      rw [← hending, hcourse] at hbefore
      exact absurd (Ending.crashed_before.2 hlt) hbefore
    | hanging => exact ⟨rfl, rfl⟩
    | asleep wake resume => exact ⟨rfl, rfl⟩
  · rw [hresult]
    rfl
  · rw [hresult]
    rfl

/-- A server that does not say how many attempts there are, with three by default, in a window of two seconds. -/
def impatientServer : Job (List Lifetime) where
  config := { settleWindowSeconds := 2, defaultRetries := 3 }
  step := { id := "server", entrypoint := ["serve"] }
  collaborators := .foreseen

/-- The second failure of a server is returned, or its loss, or nothing if the server keeps running: after five
seconds, or earlier if the window is shorter. The attempts are those of the server, or else the default ones. -/
theorem run_settles_server :
    let failing := server.run [.ends 1000 (.exited 1), .ends 1500 (.exited 2)]
    let lost := server.run [.ends 1000 (.exited 1), .ends 500 .crash]
    let running := server.run [.ends 1000 (.exited 1), .endless]
    let running' := impatientServer.run [.ends 1000 (.exited 1), .endless]
    (failing.returnedAt = 2700 ∧ failing.result.error = some (.process (.exit (some 2)))) ∧
    (lost.returnedAt = 1500 ∧ lost.result.error = some (.lost "server")) ∧
    (running.returnedAt = 5000 ∧ running.result.error = none) ∧
    (running'.returnedAt = 2000 ∧ running'.result.error = none) ∧
    running.result.retries = 2 ∧ running'.result.retries = 3 := by
  have hvalid : server.config.validate = .ok () := rfl
  have hvalid' : impatientServer.config.validate = .ok () := rfl
  have hnever : ((server.task.run [.ends 1000 (.exited 1), .endless]).course 0).ending = .never := rfl
  have hnever' : ((impatientServer.task.run [.ends 1000 (.exited 1), .endless]).course 0).ending = .never := rfl
  refine ⟨?_, ?_, ?_, ?_, ?_, ?_⟩
  · exact (run_settles server _ hvalid).2.1 2700 _ [] rfl (by decide)
  · exact (run_settles server _ hvalid).2.2.1 1500 rfl (by decide)
  · refine (run_settles server _ hvalid).2.2.2.1 ?_
    rw [hnever]
    exact Ending.not_never_before
  · refine (run_settles impatientServer _ hvalid').2.2.2.1 ?_
    rw [hnever']
    exact Ending.not_never_before
  · exact (run_settles server _ hvalid).2.2.2.2.2
  · exact (run_settles impatientServer _ hvalid').2.2.2.2.2

end Job

/-! ## What goes on -/

/-- What is seen of a run before a time: until it returns, and from then on. -/
def Run.seenBefore (run : Run σ) (time : Nat) : List (Entry Event) :=
  entriesBefore time (run.entries ++ run.after (time - run.returnedAt))

/-- What is logged about the end of a step that nobody waits for. -/
def endRecords : Ending (Option StepError × σ) → List (Entry Event)
  | .finished time (outcome, _) => [⟨time, lateRecord outcome⟩]
  | .crashed _ => []
  | .never => []

theorem deeds_endRecords (ending : Ending (Option StepError × σ)) : deeds (endRecords ending) = [] := by
  cases ending with
  | finished time value =>
    obtain ⟨outcome, s'⟩ := value
    cases outcome <;> rfl
  | crashed time => rfl
  | never => rfl

/-- What will be logged about the end of a step, for where it stands when its run returns. -/
def lateEntries : Standing Event (Option StepError × σ) → List (Entry Event)
  | .finished .. => []
  | .crashed _ => []
  | .hanging => []
  | .asleep wake resume => endRecords ((resume wake).course wake).ending

/-- A step that does not end in time has no end to be logged in time. -/
theorem endRecords_too_late {limit : Nat} {ending : Ending (Option StepError × σ)}
    (h : ∀ time value, ending = .finished time value → limit ≤ time) :
    entriesBefore limit (endRecords ending) = [] := by
  apply entriesBefore_eq_nil
  intro e he
  cases ending with
  | finished time value =>
    rw [List.mem_singleton.1 he]
    exact h time value rfl
  | crashed time => cases he
  | never => cases he

/-- After a run has returned, its step goes on with what it still has before it, and its end is logged. -/
theorem Run.after_eq (run : Run σ) (millis : Nat) :
    run.after millis =
      entriesBefore (run.returnedAt + millis) (run.standing.course.entries ++ lateEntries run.standing) := by
  unfold after
  cases hstanding : run.standing with
  | finished time value => rfl
  | crashed time => rfl
  | hanging => rfl
  | asleep wake resume =>
    have hseen := Standing.advance_entries (Standing.asleep wake resume) (run.returnedAt + millis)
    have hends : ∀ time value, ((Standing.asleep wake resume).advance (run.returnedAt + millis)).2 =
        .finished time value ↔ ((resume wake).course wake).ending = .finished time value ∧
          time < run.returnedAt + millis := fun _ _ => Standing.advance_finished_iff
    dsimp only at hseen ⊢
    generalize (Standing.asleep wake resume).advance (run.returnedAt + millis) = rest at hseen hends
    obtain ⟨entries, standing⟩ := rest
    dsimp only at hseen hends ⊢
    rw [entriesBefore_append, ← hseen]
    cases standing with
    | finished time value =>
      obtain ⟨outcome, s'⟩ := value
      obtain ⟨hending, hlt⟩ := (hends _ _).1 rfl
      simp [lateEntries, endRecords, hending, entriesBefore, hlt]
    | crashed time => simp [lateEntries, endRecords_too_late (by simpa using hends)]
    | hanging => simp [lateEntries, endRecords_too_late (by simpa using hends)]
    | asleep wake' resume' => simp [lateEntries, endRecords_too_late (by simpa using hends)]

namespace Job

/-- A run stands where its step stands when the window is over. -/
theorem run_standing (job : Job σ) (s : σ) : (job.run s).standing = job.settled s := by
  rw [run_eq]
  cases job.settled s <;> rfl

/-- What is logged when the settle window is over, for where the step stands then. -/
def launchedEntries (job : Job σ) : Standing Event (Option StepError × σ) → List (Entry Event)
  | .finished .. => []
  | .crashed _ => []
  | .hanging => [⟨job.config.settleWindow, stillRunningRecord job.config.settleWindowSeconds⟩]
  | .asleep .. => [⟨job.config.settleWindow, stillRunningRecord job.config.settleWindowSeconds⟩]

/-- What the step shows until the end of the window is seen until its run returns. -/
theorem run_entries (job : Job σ) (s : σ) :
    (job.run s).entries =
      ((job.background s).advance job.config.settleWindow 0).1 ++ job.launchedEntries (job.settled s) := by
  rw [run_eq]
  cases job.settled s with
  | finished time value => exact (List.append_nil _).symm
  | crashed time => exact (List.append_nil _).symm
  | hanging => rfl
  | asleep wake resume => rfl

/-- All that is seen of a run: what its step shows within the window and what it shows from then on, with two
records that the step does not make itself. -/
theorem seenBefore_eq (job : Job σ) (s : σ) (time : Nat) :
    (job.run s).seenBefore time =
      entriesBefore time (((job.background s).advance job.config.settleWindow 0).1 ++
        job.launchedEntries (job.settled s) ++ ((job.settled s).course.entries ++ lateEntries (job.settled s))) := by
  -- what is seen after the return is cut at a time that is not earlier than the one looked at
  have hlate : time ≤ (job.run s).returnedAt + (time - (job.run s).returnedAt) := by omega
  unfold Run.seenBefore
  rw [run_entries, Run.after_eq, run_standing, entriesBefore_append, entriesBefore_entriesBefore hlate,
    ← entriesBefore_append]

/-- What a step has done before a time can be read off its timeline, with or without a run that returns. -/
theorem deeds_seenBefore (job : Job σ) (s : σ) (time : Nat) :
    deeds ((job.run s).seenBefore time) = deeds (entriesBefore time (job.taskCourse 0 s).entries) := by
  have hcourse : deeds (job.taskCourse 0 s).entries =
      deeds ((job.background s).advance job.config.settleWindow 0).1 ++
        deeds (job.settled s).course.entries := by
    rw [← deeds_within backgroundSpan, ← background_course,
      course_eq_advance (job.background s) job.config.settleWindow 0, deeds_append]
    rfl
  -- the two records are no deeds
  have hlaunched : deeds (job.launchedEntries (job.settled s)) = [] := by
    cases job.settled s <;> rfl
  have hlate : deeds (lateEntries (job.settled s)) = [] := by
    cases job.settled s with
    | finished time value => rfl
    | crashed time => rfl
    | hanging => rfl
    | asleep wake resume => exact deeds_endRecords _
  rw [seenBefore_eq, deeds_entriesBefore, deeds_entriesBefore, hcourse, deeds_append, deeds_append, deeds_append,
    hlaunched, hlate, List.append_nil, List.append_nil]

/-! ## Another settle window -/

/-- The same step, with another settle window. -/
def withWindow (job : Job σ) (seconds : Nat) : Job σ :=
  { job with config := { job.config with settleWindowSeconds := seconds } }

/-- No attempt knows the settle window. -/
theorem attemptErrorCourse_withWindow (job : Job σ) (seconds : Nat) :
    (job.withWindow seconds).attemptErrorCourse = job.attemptErrorCourse := rfl

theorem attemptsCourse_withWindow (job : Job σ) (seconds count index now : Nat) (last : Option StepError)
    (s : σ) :
    (job.withWindow seconds).attemptsCourse index now last s count =
      job.attemptsCourse index now last s count := by
  induction count generalizing index now last s with
  | zero => rfl
  | succ count ih =>
    simp only [attemptsCourse, attemptErrorCourse_withWindow, ih]

/-- The timeline of a step does not depend on the settle window. -/
theorem taskCourse_withWindow (job : Job σ) (seconds now : Nat) (s : σ) :
    (job.withWindow seconds).taskCourse now s = job.taskCourse now s := by
  unfold taskCourse
  rw [attemptsCourse_withWindow]
  rfl

/-- Two runs of a step whose settle windows differ show the same calls with the same contents at the same
times, and record the same metrics, up to any time. They show what the step would do if nobody waited for it,
so no return of a run keeps it from anything. -/
theorem run_detached (job : Job σ) (seconds : Nat) (s : σ) (time : Nat) :
    let first := (job.run s).seenBefore time
    let second := ((job.withWindow seconds).run s).seenBefore time
    deeds first = deeds second ∧
    MetricsCollector.ofList (metricsIn first) = MetricsCollector.ofList (metricsIn second) ∧
    deeds first = deeds (entriesBefore time ((job.task.run s).course 0).entries) := by
  intro first second
  have hfirst : deeds first = deeds (entriesBefore time (job.taskCourse 0 s).entries) :=
    job.deeds_seenBefore s time
  have hsecond : deeds second = deeds (entriesBefore time (job.taskCourse 0 s).entries) := by
    rw [← job.taskCourse_withWindow seconds]
    exact (job.withWindow seconds).deeds_seenBefore s time
  refine ⟨hfirst.trans hsecond.symm, ?_, ?_⟩
  · rw [← metricsIn_deeds first, ← metricsIn_deeds second, hfirst, hsecond]
  · rw [hfirst, task_course]

end Job

end Sidecar
