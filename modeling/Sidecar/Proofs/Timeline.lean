import Sidecar.Proofs.Finding
import Sidecar.Retry

/-!
# The timeline of a step

An account of everything that a step does in the background, without activities: what is seen, at which times,
and how it ends. Nothing but the collaborators decides about it: answers come when they come, processes end
after the time that they take, or are killed when a timeout is over and gone when killing them is done, and the
reports are gathered in some time too. Nothing else takes any. Whoever crashes takes the step with it, and a
wait that never ends keeps it.

The main statement is `task_course`: the timeline of a step is the course of its background activity. There is
one such statement for each part of it, from the wait for a process (`waitOrKill_course`) up to the attempts
(`attempt_course`, `attemptsFrom_course`) and the collection of reports (`collect_course`).
-/

namespace Sidecar

open Activity

variable {σ : Type}

/-! ## Waiting for a process -/

/-- How a process that ends by itself at a time appears to whoever waits for it. -/
def Closing.ending (time : Nat) : Closing → Ending (Except ProcessError Unit)
  | .exited code => .finished time (if code = 0 then .ok () else .error (.exit (some code)))
  | .signalled => .finished time (.error (.exit none))
  | .unknown cause => .finished time (.error (.wait cause))
  | .crash => .crashed time

theorem Closing.result_course (closing : Closing) (now : Nat) :
    closing.result.course now = ⟨[], closing.ending now⟩ := by
  cases closing <;> rfl

namespace RunningProcess

/-- When and how a process ends by itself, if it does so before it is killed. At the very end of its timeout
it still ends by itself. -/
def closing? (p : RunningProcess σ) (timeoutSeconds : Option Nat) : Option (Nat × Closing) :=
  match p.lifetime, timeoutSeconds with
  | .endless, _ => none
  | .ends millis closing, none => some (millis, closing)
  | .ends millis closing, some seconds =>
    if millis ≤ seconds * 1000 then some (millis, closing) else none

/-- What is logged about a process that could not be killed. -/
def killRecords (p : RunningProcess σ) : List Event :=
  match p.killFault with
  | none => []
  | some cause =>
    [.log { level := .warn, message := "failed to kill timed out process",
            fields := [("error", (ProcessError.wait cause).message)] }]

theorem shows_killRecords (p : RunningProcess σ) {kind : Event → Prop} (hlog : ∀ r, kind (.log r)) :
    ∀ item ∈ p.killRecords, kind item := by
  unfold killRecords
  cases p.killFault <;> simp [hlog]

/-- What becomes of a process that is killed at a time, because it has not ended for so many seconds. -/
def killing (p : RunningProcess σ) (seconds now : Nat) : Course Event (Except ProcessError Unit) :=
  (Course.mk [⟨now, .call .kill⟩] (p.killLag.ending now ())).andThen fun time _ =>
    ⟨entriesAt time p.killRecords, .finished time (.error (.timedOut seconds))⟩

/-- What becomes of a process that somebody waits for from a time on. -/
def fate (p : RunningProcess σ) (timeoutSeconds : Option Nat) (now : Nat) :
    Course Event (Except ProcessError Unit) :=
  match p.closing? timeoutSeconds, timeoutSeconds with
  | some (millis, closing), _ => ⟨[⟨now + millis, .call .exited⟩], closing.ending (now + millis)⟩
  | none, none => ⟨[], .never⟩
  | none, some seconds => p.killing seconds (now + seconds * 1000)

theorem killing_course (p : RunningProcess σ) (seconds now : Nat) :
    (do match ← p.kill with
        | .ok () => pure ()
        | .error e => Event.report .warn "failed to kill timed out process" [("error", e.message)]
        return .error (.timedOut seconds) : Activity Event (Except ProcessError Unit)).course now =
      p.killing seconds now := by
  have hask : (Event.ask .kill).course now = ⟨[⟨now, .call .kill⟩], .finished now ()⟩ := rfl
  unfold kill killing killRecords
  simp only [bind_eq, bind_assoc]
  rw [course_bind_eq, hask, Course.andThen_finished, course_bind_eq, Lag.wait_course]
  simp only [Course.andThen, List.nil_append, List.singleton_append]
  cases p.killFault with
  | none => rfl
  | some cause => rfl

theorem waitOrKill_course (p : RunningProcess σ) (timeoutSeconds : Option Nat) (now : Nat) :
    (p.waitOrKill timeoutSeconds).course now = p.fate timeoutSeconds now := by
  unfold waitOrKill fate closing?
  cases timeoutSeconds with
  | none =>
    cases hlife : p.lifetime with
    | endless => rfl
    | ends millis closing =>
      simp only [Lifetime.wait, course]
      rw [Closing.result_course]
  | some seconds =>
    cases hlife : p.lifetime with
    | endless => exact p.killing_course seconds (now + seconds * 1000)
    | ends millis closing =>
      by_cases hmillis : millis ≤ seconds * 1000
      · -- the process ends first, and the timeout has no part in what follows
        simp only [Lifetime.wait, withTimeout, hmillis, if_true]
        cases closing with
        | exited code => by_cases hcode : code = 0 <;> simp [hcode] <;> rfl
        | signalled => rfl
        | unknown cause => rfl
        | crash => rfl
      · simp only [Lifetime.wait, withTimeout, hmillis, if_false]
        exact p.killing_course seconds (now + seconds * 1000)

end RunningProcess

namespace Job

/-! ## Attempts -/

/-- What is logged when a process has been started. -/
def startedRecords (job : Job σ) (pid : Option Nat) : List Event :=
  match pid with
  | some pid =>
    if job.measures then
      [.log { level := .info, message := "started background step process",
              fields := [("pid", toString pid)] }]
    else []
  | none => []

theorem shows_startedRecords (job : Job σ) {kind : Event → Prop} (hlog : ∀ r, kind (.log r)) (pid : Option Nat) :
    ∀ item ∈ job.startedRecords pid, kind item := by
  unfold startedRecords
  cases pid with
  | none => simp
  | some pid => cases job.measures <;> simp [hlog]

/-- The metrics of a process that is gone after so many milliseconds. -/
def metricsOf (job : Job σ) (index : Nat) (pid : Option Nat) (elapsed : Nat) : ProcessMetrics :=
  ⟨job.step.id, index, pid, job.peakKb? pid elapsed, elapsed⟩

/-- What is seen when a process is gone: its metrics, and whether it was successful. -/
def closingItems (job : Job σ) (index : Nat) (command : CommandLine) (pid : Option Nat) (elapsed : Nat)
    (result : Except ProcessError Unit) : List Event :=
  (if job.measures then
    [.metrics (job.metricsOf index pid elapsed),
      .log { level := .info, message := "background step process metrics",
             fields := metricsFields (job.metricsOf index pid elapsed) }]
  else []) ++
  match result with
  | .error _ => []
  | .ok () =>
    [.log { level := .info, message := "Successfully executed background step",
            fields := [("arguments", command.display), ("output", "\x7b\x7d"),
              ("elapsed_time_ms", shownMillis elapsed)] }]

theorem shows_closingItems (job : Job σ) {kind : Event → Prop} (hlog : ∀ r, kind (.log r))
    (hmetrics : ∀ m, kind (.metrics m)) (index : Nat) (command : CommandLine) (pid : Option Nat) (elapsed : Nat)
    (result : Except ProcessError Unit) : ∀ item ∈ job.closingItems index command pid elapsed result, kind item := by
  unfold closingItems
  cases job.measures <;> cases result <;> simp [hlog, hmetrics]

/-- What becomes of a process that has been started. -/
def following (job : Job σ) (index : Nat) (command : CommandLine) (process : RunningProcess σ)
    (started : Nat) (s : σ) : Course Event (Except ProcessError Unit × σ) :=
  let fate := process.fate job.timeoutSeconds? started
  (Course.mk (entriesAt started (job.startedRecords process.pid) ++ fate.entries) fate.ending).andThen
    fun time result =>
      ⟨entriesAt time (job.closingItems index command process.pid (time - started) result),
        .finished time (result, process.effect (time - started) s)⟩

theorem measure_course (job : Job σ) (index : Nat) (pid : Option Nat) (elapsed now : Nat) :
    (job.measure index pid elapsed).course now =
      ⟨entriesAt now (if job.measures then
        [.metrics (job.metricsOf index pid elapsed),
          .log { level := .info, message := "background step process metrics",
                 fields := metricsFields (job.metricsOf index pid elapsed) }] else []),
        .finished now ()⟩ := by
  unfold measure
  split
  · rfl
  · rfl

theorem announce_course (job : Job σ) (pid : Option Nat) (now : Nat) :
    (job.announce pid).course now = ⟨entriesAt now (job.startedRecords pid), .finished now ()⟩ := by
  cases pid with
  | none => rfl
  | some pid => cases hmeasures : job.measures <;> simp [announce, startedRecords, hmeasures] <;> rfl

theorem conclude_course (job : Job σ) (index : Nat) (command : CommandLine) (started : Nat)
    (process : RunningProcess σ) (waited : Except ProcessError Unit) (s : σ) (now : Nat) :
    ((job.conclude index command started process waited).run s).course now =
      ⟨entriesAt now (job.closingItems index command process.pid (now - started) waited),
        .finished now (waited, process.effect (now - started) s)⟩ := by
  unfold conclude closingItems
  rw [clock_bind_course, modify_bind_course, lift_bind_course, measure_course, Course.andThen_finished]
  cases waited with
  | error e =>
    rw [List.append_nil]
    simp only [StateT.run_pure, pure_eq_done, course, List.append_nil]
  | ok u =>
    rw [entriesAt_append]
    rfl

theorem follow_course (job : Job σ) (index : Nat) (command : CommandLine) (process : RunningProcess σ)
    (started : Nat) (s : σ) :
    ((job.follow index command started process).run s).course started =
      job.following index command process started s := by
  unfold follow following
  rw [lift_bind_course, announce_course, Course.andThen_finished, lift_bind_course,
    RunningProcess.waitOrKill_course]
  simp only [conclude_course]
  rw [Course.append_andThen]

/-- What becomes of a process that is to be started. -/
def execution (job : Job σ) (index : Nat) (command : CommandLine) (environment : Bindings) (now : Nat)
    (s : σ) : Course Event (Except ProcessError Unit × σ) :=
  let invocation := job.invocation index command environment
  let started : Entry Event := ⟨now, .call (.start invocation)⟩
  match job.collaborators.start invocation s with
  | (.started process, s') =>
    let c := job.following index command process now s'
    ⟨started :: c.entries, c.ending⟩
  | (.refused e, s') => ⟨[started], .finished now (.error e, s')⟩
  | (.crash, _) => ⟨[started], .crashed now⟩

theorem execute_course (job : Job σ) (index : Nat) (command : CommandLine) (environment : Bindings)
    (s : σ) (now : Nat) :
    ((job.execute index command environment).run s).course now =
      job.execution index command environment now s := by
  have hask : (Event.ask (.start (job.invocation index command environment))).course now =
      ⟨[⟨now, .call (.start (job.invocation index command environment))⟩], .finished now ()⟩ := rfl
  simp only [execute, execution]
  rw [clock_bind_course, lift_bind_course, hask, Course.andThen_finished, modifyGet_bind_course]
  rcases job.collaborators.start (job.invocation index command environment) s with ⟨reply, s'⟩
  cases reply with
  | started process =>
    simp only [follow_course]
    rfl
  | refused e => rfl
  | crash => rfl

/-- What an attempt finds out: the script, the environment and the command line, up to the first failure. Its
record has a command if there is a process to start. -/
def preparation (job : Job σ) (index now : Nat) (s : σ) : Course Event (Attempt × σ) :=
  let c := job.collaborators
  let begun : Attempt := { index := index }
  (Resolution.scriptFinding c job.step now s).andThen fun time found =>
    match found with
    | (.error e, s) => ⟨[], .finished time (begun.fail (.resolution e), s)⟩
    | (.ok script, s) =>
      (Resolution.environmentFinding c job.step time s).andThen fun time found =>
        match found with
        | (.error e, s) => ⟨[], .finished time (begun.fail (.resolution e), s)⟩
        | (.ok environment, s) =>
          let begun := { begun with environment := environment }
          (Resolution.commandFinding c job.config.imageSecretVariable job.step script time s).andThen
            fun time found =>
              match found with
              | (.error e, s) => ⟨[], .finished time (begun.fail (.resolution e), s)⟩
              | (.ok (_, command), s) => ⟨[], .finished time ({ begun with command := some command }, s)⟩

end Job

/-- The record of an attempt whose process has been executed. -/
def Attempt.conclude (a : Attempt) : Except ProcessError Unit → Attempt
  | .ok () => a
  | .error e => a.fail (.process e)

/-- The error of an attempt that has failed. -/
def Attempt.error? (a : Attempt) : Option StepError :=
  match a.outcome with
  | .ok _ => none
  | .error e => some e

namespace Job

/-- What becomes of an attempt. -/
def attemptCourse (job : Job σ) (index now : Nat) (s : σ) : Course Event (Attempt × σ) :=
  (job.preparation index now s).andThen fun time prepared =>
    match prepared.1.command with
    | none => ⟨[], .finished time prepared⟩
    | some command =>
      (job.execution index command prepared.1.environment time prepared.2).andThen fun time result =>
        ⟨[], .finished time (prepared.1.conclude result.1, result.2)⟩

theorem attempt_course (job : Job σ) (index : Nat) (s : σ) (now : Nat) :
    ((job.attempt index).run s).course now = job.attemptCourse index now s := by
  simp only [attempt, attemptCourse, preparation]
  -- stage by stage; a stage that fails ends both sides alike
  rw [session_bind_course, Resolution.script_finds _ _ now s, Course.andThen_assoc]
  apply Course.andThen_congr
  rintro time ⟨e | script, s⟩
  · rfl
  · dsimp only
    rw [session_bind_course, Resolution.environment_finds _ _ time s, Course.andThen_assoc]
    apply Course.andThen_congr
    rintro time ⟨e | environment, s⟩
    · rfl
    · dsimp only
      rw [session_bind_course, Resolution.command_finds _ _ _ _ time s, Course.andThen_assoc]
      apply Course.andThen_congr
      rintro time ⟨e | ⟨strategy, command⟩, s⟩
      · rfl
      · dsimp only
        rw [session_bind_course, execute_course, Course.andThen_finished]
        apply Course.andThen_congr
        rintro time ⟨e | _, s⟩
        · rfl
        · rfl

/-! ## Retries -/

/-- What is logged about an attempt when it is over. -/
def failureRecords (job : Job σ) (index : Nat) (a : Attempt) : List Event :=
  match a.error? with
  | none => []
  | some e =>
    [.log { level := .warn, message := "background step attempt failed",
            fields := [("attempt", toString index), ("retries", toString job.retries), ("error", e.message)] }]

theorem shows_failureRecords (job : Job σ) {kind : Event → Prop} (hlog : ∀ r, kind (.log r)) (index : Nat)
    (a : Attempt) : ∀ item ∈ job.failureRecords index a, kind item := by
  unfold failureRecords
  cases a.error? <;> simp [hlog]

/-- What becomes of an attempt, up to its error. -/
def attemptErrorCourse (job : Job σ) (index now : Nat) (s : σ) : Course Event (Option StepError × σ) :=
  ((job.attemptCourse index now s).mapItems (.within "attempt")).andThen fun time result =>
    ⟨entriesAt time (job.failureRecords index result.1), .finished time (result.1.error?, result.2)⟩

theorem attemptError?_course (job : Job σ) (index : Nat) (s : σ) (now : Nat) :
    ((job.attemptError? index).run s).course now = job.attemptErrorCourse index now s := by
  have hrecord : ∀ (a : Attempt) (s : σ) (time : Nat),
      ((match a.outcome with
        | .ok _ => pure none
        | .error e => do
          Event.report .warn "background step attempt failed"
            [("attempt", toString index), ("retries", toString job.retries), ("error", e.message)]
          return some e : Session σ (Option StepError)).run s).course time =
        ⟨entriesAt time (job.failureRecords index a), .finished time (a.error?, s)⟩ := by
    intro a s time
    unfold failureRecords Attempt.error?
    cases a.outcome with
    | ok outputs => rfl
    | error e => rfl
  unfold attemptError? attemptErrorCourse
  rw [session_bind_course, within_course, attempt_course]
  exact Course.andThen_congr fun time result => hrecord result.1 result.2 time

/-- What becomes of so many attempts from an index on. -/
def attemptsCourse (job : Job σ) (index now : Nat) (last : Option StepError) (s : σ) :
    Nat → Course Event (Option StepError × σ)
  | 0 => ⟨[], .finished now (last, s)⟩
  | count + 1 =>
    (job.attemptErrorCourse index now s).andThen fun time result =>
      job.attemptsCourse (index + 1) time result.1 result.2 count

theorem attemptsFrom_course (job : Job σ) (count index : Nat) (last : Option StepError) (s : σ)
    (now : Nat) :
    ((job.attemptsFrom index last count).run s).course now = job.attemptsCourse index now last s count := by
  induction count generalizing index last s now with
  | zero => rfl
  | succ count ih =>
    unfold attemptsFrom attemptsCourse
    rw [session_bind_course, attemptError?_course]
    simp only [ih]

/-! ## Reports -/

/-- What becomes of gathering the reports once the collector has answered. -/
def gathering (reply : CollectReply) (now : Nat) (s : σ) :
    Course Event (Except CollectionError Unit × σ) :=
  if reply.crashes then ⟨[], .crashed (now + reply.millis)⟩
  else
    ⟨entriesAt (now + reply.millis) (reply.records.map .log),
      .finished (now + reply.millis) (reply.result, s)⟩

/-- What becomes of the collection of reports. -/
def collectCourse (job : Job σ) (now : Nat) (s : σ) : Course Event (Except CollectionError Unit × σ) :=
  let c := job.collaborators
  let call := Call.collect job.step.id job.step.reports
  (Course.mk [⟨now, .call call⟩]
    ((c.lag call s).ending now (c.collect job.step.reports job.step.id s))).andThen fun time reply =>
      gathering reply.1 time reply.2

theorem collect_course (job : Job σ) (s : σ) (now : Nat) :
    (job.collect.run s).course now = job.collectCourse now s := by
  simp only [collect, collectCourse]
  rw [session_bind_course, consult_course]
  apply Course.andThen_congr
  rintro time ⟨⟨result, millis, crashes, records⟩, s'⟩
  rw [pause_bind_course]
  cases crashes with
  | true => rfl
  | false =>
    simp only [Bool.false_eq_true, if_false, gathering]
    rw [lift_bind_course, reportAll_course]
    simp [course]

/-- What is logged about a collection of reports that has failed. -/
def collectionRecords (failure : Option StepError) : Except CollectionError Unit → List Event
  | .ok () => []
  | .error e =>
    [.log { level := .error,
            message := match failure with
              | none => "unable to collect test reports"
              | some _ => "error while collecting test reports",
            fields := [("error", e.message)] }]

theorem shows_collectionRecords {kind : Event → Prop} (hlog : ∀ r, kind (.log r)) (failure : Option StepError)
    (collected : Except CollectionError Unit) : ∀ item ∈ collectionRecords failure collected, kind item := by
  unfold collectionRecords
  cases collected <;> simp [hlog]

/-- The error of a step: that of its last attempt if there is one, and else that of the collection. -/
def finalError (failure : Option StepError) (collected : Except CollectionError Unit) : Option StepError :=
  match failure, collected with
  | some e, _ => some e
  | none, .error e => some (.collection e)
  | none, .ok () => none

/-- What becomes of a step after its attempts. -/
def collectAfterCourse (job : Job σ) (failure : Option StepError) (now : Nat) (s : σ) :
    Course Event (Option StepError × σ) :=
  (job.collectCourse now s).andThen fun time result =>
    ⟨entriesAt time (collectionRecords failure result.1),
      .finished time (finalError failure result.1, result.2)⟩

theorem collectAfter_course (job : Job σ) (failure : Option StepError) (s : σ) (now : Nat) :
    ((job.collectAfter failure).run s).course now = job.collectAfterCourse failure now s := by
  unfold collectAfter collectAfterCourse
  rw [session_bind_course, collect_course]
  apply Course.andThen_congr
  rintro time ⟨result, s'⟩
  cases failure with
  | none => cases result <;> rfl
  | some e => cases result <;> rfl

/-! ## The whole step -/

/-- What becomes of a step. -/
def taskCourse (job : Job σ) (now : Nat) (s : σ) : Course Event (Option StepError × σ) :=
  (job.attemptsCourse 1 now none s job.retries).andThen fun time result =>
    job.collectAfterCourse result.1 time result.2

theorem task_course (job : Job σ) (s : σ) (now : Nat) :
    (job.task.run s).course now = job.taskCourse now s := by
  unfold task taskCourse
  rw [session_bind_course, attemptsFrom_course]
  simp only [collectAfter_course]

end Job

/-! ## Processes that are known beforehand -/

/-- Collaborators whose state tells of the processes that are going to be started, one after the other. -/
def Collaborators.foreseen : Collaborators (List Lifetime) where
  expand raw := .ok raw
  environment _ := none
  lookup _ _ _ s := (⟨.error .emptyReference, []⟩, s)
  start i
    | [] => (.refused (.start i.command.program .notFound), [])
    | lifetime :: rest => (.started { pid := none, lifetime := lifetime }, rest)
  collect _ _ s := ({ millis := 200 }, s)
  processStatus? _ := none

/-- A server, for which there are two attempts. -/
def Job.server : Job (List Lifetime) where
  step := { id := "server", entrypoint := ["serve"], retries := 2 }
  collaborators := .foreseen

end Sidecar
