import Mathlib.Data.List.Nodup
import Sidecar.Proofs.Collecting
import Sidecar.Proofs.Lifecycle
import Sidecar.Proofs.Settlement

/-!
# What is recorded about processes

An attempt leaves a record about its process when the wait for the process is over, whatever has come of it: success,
a failure of the process, a failure of the wait itself, or a timeout. No other attempt leaves one. As the attempts
come one after the other, the records of a step stand in the order of its attempts.

The main statement is `Job.measured_once`. It rests on what is measured in a single attempt
(`Round.metrics_of_launches`, `Round.launches_or_metrics_eq_nil`), and on what a collector keeps of a list of records
(`MetricsCollector.get_ofList`).
-/

namespace Sidecar

open Activity

variable {σ α : Type}

/-! ## Metrics among what is seen -/

/-- Whether an event shows the metrics of a process. -/
def Event.isMetrics : Event → Bool
  | .metrics _ => true
  | _ => false

theorem metrics_deeds (entries : List (Entry Event)) :
    only Event.isMetrics (deeds entries) = only Event.isMetrics entries := by
  have hdeed : ∀ item : Event, item.isMetrics = true → item.isDeed = true := by
    intro item h
    cases item with
    | call asked => cases h
    | log record => cases h
    | metrics m => rfl
  exact only_only hdeed entries

theorem metricsIn_only (entries : List (Entry Event)) :
    metricsIn (only Event.isMetrics entries) = metricsIn entries := by
  induction entries with
  | nil => rfl
  | cons e entries ih =>
    obtain ⟨time, item⟩ := e
    cases item with
    | call asked => exact ih
    | log record => exact ih
    | metrics m => exact congrArg (m :: ·) ih

theorem mem_metricsIn {entries : List (Entry Event)} {m : ProcessMetrics} :
    m ∈ metricsIn entries ↔ ∃ time, ⟨time, .metrics m⟩ ∈ entries := by
  unfold metricsIn
  rw [List.mem_filterMap]
  constructor
  · rintro ⟨⟨time, item⟩, hentry, hm⟩
    cases item with
    | call asked => cases hm
    | log record => cases hm
    | metrics m' =>
      cases hm
      exact ⟨time, hentry⟩
  · rintro ⟨time, hentry⟩
    exact ⟨_, hentry, rfl⟩

namespace Job

/-- Of what is seen when a process is gone the metrics are one item, if there are to be any. -/
theorem metrics_closingItems (job : Job σ) (index : Nat) (command : CommandLine) (pid : Option Nat)
    (elapsed : Nat) (result : Except ProcessError Unit) (time : Nat) :
    only Event.isMetrics (entriesAt time (job.closingItems index command pid elapsed result)) =
      if job.measures then [⟨time, .metrics (job.metricsOf index pid elapsed)⟩] else [] := by
  unfold closingItems
  cases job.measures <;> cases result <;> rfl

/-- What is seen of the metrics of a process that an attempt has started. -/
def measurements (job : Job σ) (index : Nat) (process : RunningProcess σ) (started : Nat) : List (Entry Event) :=
  match ((process.waitOrKill job.timeoutSeconds?).course started).ending with
  | .finished ended _ =>
    if job.measures then [⟨ended, .metrics (job.metricsOf index process.pid (ended - started))⟩] else []
  | .crashed _ => []
  | .never => []

/-- A process is measured once, when the wait for it is over. -/
theorem metrics_following (job : Job σ) (index : Nat) (command : CommandLine) (process : RunningProcess σ)
    (started : Nat) (s : σ) :
    only Event.isMetrics (job.following index command process started s).entries =
      job.measurements index process started := by
  -- neither the start of the process nor its killing shows any metrics
  have hstarted : only Event.isMetrics (entriesAt started (job.startedRecords process.pid)) = [] :=
    only_entriesAt (job.shows_startedRecords (fun _ => rfl) _) started
  have hshows : (process.fate job.timeoutSeconds? started).Shows fun item => item.isMetrics = false := by
    refine RunningProcess.shows_fate ?_ ?_ (process.shows_killRecords ?_) _ started
    · rfl
    · rfl
    · exact fun _ => rfl
  have hfate := only_of_shows hshows
  rw [measurements, RunningProcess.waitOrKill_course, following]
  generalize process.fate job.timeoutSeconds? started = fate at hfate
  obtain ⟨entries, ending⟩ := fate
  change only Event.isMetrics entries = [] at hfate
  cases ending with
  | finished ended waited =>
    rw [Course.andThen_finished, only_append, only_append, hstarted, hfate, metrics_closingItems]
    rfl
  | crashed ended => rw [Course.andThen_crashed, only_append, hstarted, hfate, List.nil_append]
  | never => rw [Course.andThen_never, only_append, hstarted, hfate, List.nil_append]

/-- Nothing is measured while a step finds out what to execute. -/
theorem metrics_planning (job : Job σ) (now : Nat) (s : σ) :
    only Event.isMetrics (job.planning now s).entries = [] :=
  job.only_planning Event.isMetrics (fun _ => rfl) (fun _ _ _ => rfl) (fun _ => rfl) now s

end Job

namespace Round

/-- The attempt starts a process, and the wait for it, or for it to be killed, is over at this time; these are the
metrics of the process then. -/
def Measures (r : Round σ) (job : Job σ) (ended : Nat) (m : ProcessMetrics) : Prop :=
  ∃ launch waited, r.Launches job launch ∧
    ((launch.process.waitOrKill job.timeoutSeconds?).course launch.time).ending = .finished ended waited ∧
    let pid := launch.process.pid
    let elapsed := ended - launch.time
    m = { stepId := job.step.id, attempt := r.index, pid := pid, peakKb := job.peakKb? pid elapsed,
          elapsedMillis := elapsed }

section

variable {r : Round σ} {job : Job σ}

theorem metrics_of_launches {launch : Launch σ} (h : r.Launches job launch) :
    only Event.isMetrics (r.course job).entries = job.measurements r.index launch.process launch.time := by
  rw [course_of_launches h, only_append, job.metrics_planning, ← Job.metrics_following]
  rfl

/-- Without a process there is nothing to measure. -/
theorem launches_or_metrics_eq_nil (r : Round σ) (job : Job σ) :
    (∃ launch, r.Launches job launch) ∨ only Event.isMetrics (r.course job).entries = [] := by
  have hplanning := job.metrics_planning r.began r.state
  unfold course
  rcases Ending.finished_or (job.planning r.began r.state).ending with ⟨time, ⟨found, s⟩, hplanned⟩ | hunplanned
  · cases found with
    | error e =>
      obtain ⟨a, -, -, hcourse⟩ := Job.attempt_of_refused hplanned r.index
      rw [hcourse]
      exact .inr hplanning
    | ok plan =>
      rw [Job.attempt_of_planned hplanned]
      dsimp only
      rw [only_append, hplanning, List.nil_append, Job.execution]
      dsimp only
      rcases hreply : job.collaborators.start (job.invocation r.index plan.command plan.environment) s with ⟨reply, s'⟩
      cases reply with
      | started process => exact .inl ⟨⟨time, plan, process, s'⟩, s, hplanned, hreply⟩
      | refused e => exact .inr rfl
      | crash => exact .inr rfl
  · rw [(Job.attempt_of_unplanned hunplanned r.index).1]
    exact .inr hplanning

/-- The metrics that are seen in an attempt are those of its process. -/
theorem mem_metrics (hmeasures : job.measures = true) {ended : Nat} {m : ProcessMetrics} :
    ⟨ended, .metrics m⟩ ∈ only Event.isMetrics (r.course job).entries ↔ r.Measures job ended m := by
  constructor
  · intro h
    rcases r.launches_or_metrics_eq_nil job with ⟨launch, hlaunch⟩ | hnone
    · rw [metrics_of_launches hlaunch, Job.measurements, hmeasures] at h
      cases hwaited : ((launch.process.waitOrKill job.timeoutSeconds?).course launch.time).ending with
      | finished time waited =>
        rw [hwaited] at h
        cases List.mem_singleton.1 h
        exact ⟨launch, waited, hlaunch, hwaited, rfl⟩
      | crashed time =>
        rw [hwaited] at h
        cases h
      | never =>
        rw [hwaited] at h
        cases h
    · rw [hnone] at h
      cases h
  · rintro ⟨launch, waited, hlaunch, hwaited, rfl⟩
    rw [metrics_of_launches hlaunch, Job.measurements, hwaited]
    dsimp only
    rw [if_pos hmeasures]
    exact List.mem_singleton_self _

/-- An attempt is measured at most once. -/
theorem metrics_length_le (r : Round σ) (job : Job σ) :
    (only Event.isMetrics (r.course job).entries).length ≤ 1 := by
  rcases r.launches_or_metrics_eq_nil job with ⟨launch, hlaunch⟩ | hnone
  · rw [metrics_of_launches hlaunch, Job.measurements]
    split
    · split <;> simp
    · simp
    · simp
  · simp [hnone]

/-- Nothing is measured if there are to be no metrics. -/
theorem metrics_of_not_measures (r : Round σ) (hmeasures : job.measures = false) :
    only Event.isMetrics (r.course job).entries = [] := by
  rcases r.launches_or_metrics_eq_nil job with ⟨launch, hlaunch⟩ | hnone
  · rw [metrics_of_launches hlaunch, Job.measurements, hmeasures]
    split
    · rfl
    · rfl
    · rfl
  · exact hnone

/-- The record of a failure has no metrics. -/
theorem metrics_entries (r : Round σ) (job : Job σ) :
    only Event.isMetrics (r.entries job) = only Event.isMetrics (r.course job).entries := by
  rw [entries_eq, Job.attemptErrorCourse, only_andThen, ← metrics_deeds, deeds_within, metrics_deeds, course,
    Job.attempt_course]
  intro time result
  exact Course.shows_entriesAt (job.shows_failureRecords (fun _ => rfl) r.index result.1) time _

end

end Round

namespace Job

/-- The metrics that have been seen of a run before a time are those of its attempts. -/
theorem metrics_seenBefore (job : Job σ) (s : σ) (time : Nat) :
    metricsIn ((job.run s).seenBefore time) =
      metricsIn (entriesBefore time ((job.rounds 1 0 s job.retries).flatMap fun r =>
        only Event.isMetrics (r.course job).entries)) := by
  obtain ⟨rest, hentries, hrest⟩ := job.task_entries Event.isMetrics rfl (fun _ => rfl) 0 s
  rw [task_course] at hentries
  have htask : only Event.isMetrics (job.taskCourse 0 s).entries =
      (job.rounds 1 0 s job.retries).flatMap fun r => only Event.isMetrics (r.course job).entries := by
    rw [hentries, only_append, hrest, List.append_nil, only_flatMap]
    simp only [Round.metrics_entries]
  rw [← metricsIn_deeds, deeds_seenBefore, metricsIn_deeds, ← metricsIn_only, only_entriesBefore, htask]

/-- The metrics that have been seen are those of the attempts whose process was gone by then. -/
theorem mem_metrics_seenBefore {job : Job σ} (hmeasures : job.measures = true) {s : σ} {time : Nat}
    {m : ProcessMetrics} :
    m ∈ metricsIn ((job.run s).seenBefore time) ↔
      ∃ r ∈ job.rounds 1 0 s job.retries, ∃ ended < time, r.Measures job ended m := by
  rw [metrics_seenBefore, mem_metricsIn]
  simp only [entriesBefore, List.mem_filter, List.mem_flatMap, decide_eq_true_eq, Round.mem_metrics hmeasures]
  constructor
  · rintro ⟨ended, ⟨r, hr, hm⟩, hended⟩
    exact ⟨r, hr, ended, hended, hm⟩
  · rintro ⟨r, hr, ended, hended, hm⟩
    exact ⟨ended, ⟨r, hr, hm⟩, hended⟩

/-- The metrics that have been seen stand in the order of the attempts, and no two of them belong to one attempt. -/
theorem metrics_seenBefore_ordered {job : Job σ} (hmeasures : job.measures = true) (s : σ) (time : Nat) :
    (metricsIn ((job.run s).seenBefore time)).Pairwise fun m m' => m.attempt < m'.attempt := by
  rw [metrics_seenBefore, metricsIn, List.pairwise_filterMap]
  apply List.Pairwise.filter
  rw [List.pairwise_flatMap]
  constructor
  · intro r _
    have hlength := r.metrics_length_le job
    match only Event.isMetrics (r.course job).entries, hlength with
    | [], _ => exact List.Pairwise.nil
    | [e], _ => exact List.pairwise_singleton _ e
  · apply (job.rounds_in_turn job.retries 1 0 s).imp
    rintro r r' ⟨hindex, -⟩ ⟨ended, item⟩ hentry ⟨ended', item'⟩ hentry' m hm m' hm'
    cases item <;> cases hm
    cases item' <;> cases hm'
    obtain ⟨launch, waited, -, -, rfl⟩ := (Round.mem_metrics hmeasures).1 hentry
    obtain ⟨launch', waited', -, -, rfl⟩ := (Round.mem_metrics hmeasures).1 hentry'
    exact hindex

/-- With metrics there is one record for each attempt that has started a process and has waited for it, in the order
of the attempts, and no other attempt has one. Without them there are no records. -/
theorem measured_once (job : Job σ) (s : σ) (time : Nat) :
    let rounds := job.rounds 1 0 s job.retries
    let collector := MetricsCollector.ofList (metricsIn ((job.run s).seenBefore time))
    (job.measures = true →
      let records := collector.get job.step.id
      (records.Pairwise fun m m' => m.attempt < m'.attempt) ∧
      (∀ m, m ∈ records ↔ ∃ r ∈ rounds, ∃ ended < time, r.Measures job ended m) ∧
      (∀ r ∈ rounds, (∀ ended m, r.Measures job ended m → time ≤ ended) → ∀ m ∈ records, m.attempt ≠ r.index) ∧
      ∀ id, id ≠ job.step.id → collector.get id = []) ∧
    (job.measures = false → collector = {}) := by
  intro rounds collector
  constructor
  · intro hmeasures records
    have hown : ∀ m ∈ metricsIn ((job.run s).seenBefore time), m.stepId = job.step.id := by
      intro m hm
      obtain ⟨r, -, ended, -, launch, waited, -, -, rfl⟩ := (mem_metrics_seenBefore hmeasures).1 hm
      rfl
    have hrecords : records = metricsIn ((job.run s).seenBefore time) := by
      refine (MetricsCollector.get_ofList _ _).trans (List.filter_eq_self.2 ?_)
      intro m hm
      exact decide_eq_true (hown m hm)
    have hmem : ∀ m, m ∈ records ↔ ∃ r ∈ rounds, ∃ ended < time, r.Measures job ended m := by
      intro m
      rw [hrecords]
      exact mem_metrics_seenBefore hmeasures
    refine ⟨?_, hmem, ?_, ?_⟩
    · rw [hrecords]
      exact metrics_seenBefore_ordered hmeasures s time
    · intro r hr hlate m hm hindex
      obtain ⟨r', hr', ended, hended, hmeasured⟩ := (hmem m).1 hm
      have hattempt : m.attempt = r'.index := by
        obtain ⟨launch, waited, -, -, rfl⟩ := hmeasured
        rfl
      have hindexes : (rounds.map (·.index)).Nodup := by
        rw [rounds_indexes]
        exact List.nodup_range'
      -- attempts with one index are the same
      obtain rfl : r' = r := List.inj_on_of_nodup_map hindexes hr' hr (hattempt.symm.trans hindex)
      exact absurd (hlate ended m hmeasured) (Nat.not_le_of_lt hended)
    · intro id hid
      refine (MetricsCollector.get_ofList _ _).trans (List.filter_eq_nil_iff.2 ?_)
      intro m hm hother
      exact hid ((of_decide_eq_true hother).symm.trans (hown m hm))
  · intro hmeasures
    have hnone : metricsIn ((job.run s).seenBefore time) = [] := by
      rw [metrics_seenBefore]
      simp only [Round.metrics_of_not_measures _ hmeasures]
      rw [List.flatMap_eq_nil_iff.2 fun _ _ => rfl]
      rfl
    simp only [collector, hnone]
    rfl

/-- A server that has ten seconds for each of its attempts, and whose processes are measured. -/
def measuredServer : Job (List Lifetime) :=
  { hurriedServer with measures := true }

/-- A server that is killed after its ten seconds and one that fails a second after it has been started leave a record
each, the second one long after the run has returned. Until a process is gone there is no record about it, and without
metrics there is none at all. -/
theorem measured_once_server :
    let lives := [.endless, .ends 1000 (.exited 1)]
    let records (time : Nat) :=
      (MetricsCollector.ofList (metricsIn ((measuredServer.run lives).seenBefore time))).get "server"
    ((⟨"server", 1, none, none, 10000⟩ : ProcessMetrics) ∈ records 30000) ∧
    ((⟨"server", 2, none, none, 1000⟩ : ProcessMetrics) ∈ records 30000) ∧
    (measuredServer.run lives).returnedAt < 10000 ∧
    (∀ m ∈ records 10000, m.attempt ≠ 1) ∧
    MetricsCollector.ofList (metricsIn ((hurriedServer.run lives).seenBefore 30000)) = {} := by
  intro lives records
  let first : Round (List Lifetime) := ⟨1, 0, lives⟩
  let second : Round (List Lifetime) := ⟨2, 10000, [.ends 1000 (.exited 1)]⟩
  have hrounds : measuredServer.rounds 1 0 [.endless, .ends 1000 (.exited 1)] 2 =
      [⟨1, 0, [.endless, .ends 1000 (.exited 1)]⟩, ⟨2, 10000, [.ends 1000 (.exited 1)]⟩] := rfl
  have hfirst : first.Measures measuredServer 10000 ⟨"server", 1, none, none, 10000⟩ :=
    ⟨⟨0, ⟨.entrypoint, ⟨"serve", []⟩, ∅⟩, { pid := none, lifetime := .endless }, [.ends 1000 (.exited 1)]⟩, _,
      ⟨_, rfl, rfl⟩, rfl, rfl⟩
  have hsecond : second.Measures measuredServer 11000 ⟨"server", 2, none, none, 1000⟩ :=
    ⟨⟨10000, ⟨.entrypoint, ⟨"serve", []⟩, ∅⟩, { pid := none, lifetime := .ends 1000 (.exited 1) }, []⟩, _,
      ⟨_, rfl, rfl⟩, rfl, rfl⟩
  obtain ⟨-, hlate, -⟩ := (measured_once measuredServer lives 30000).1 rfl
  obtain ⟨-, -, hearly, -⟩ := (measured_once measuredServer lives 10000).1 rfl
  have hmetrics : only Event.isMetrics
      (Round.course ⟨1, 0, [.endless, .ends 1000 (.exited 1)]⟩ measuredServer).entries =
      [⟨10000, .metrics ⟨"server", 1, none, none, 10000⟩⟩] := rfl
  have hbusy : ∀ ended m, first.Measures measuredServer ended m → 10000 ≤ ended := by
    intro ended m hmeasured
    have hentry := (Round.mem_metrics rfl).2 hmeasured
    rw [hmetrics] at hentry
    cases List.mem_singleton.1 hentry
    exact Nat.le_refl _
  refine ⟨?_, ?_, by decide, ?_, (measured_once hurriedServer lives 30000).2 rfl⟩
  · exact (hlate _).2 ⟨first, hrounds ▸ List.mem_cons_self, 10000, by decide, hfirst⟩
  · exact (hlate _).2 ⟨second, hrounds ▸ List.mem_cons_of_mem _ List.mem_cons_self, 11000, by decide, hsecond⟩
  · exact hearly first (hrounds ▸ List.mem_cons_self) hbusy

end Job

end Sidecar
