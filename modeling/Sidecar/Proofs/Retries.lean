import Sidecar.Proofs.Planning

/-!
# The retries of a step

The attempts of a step are counted from one, and each of them goes on from where the one before it has ended.
None is left out for what another one came to; only an attempt that never ends, or that crashes, is the last
one. The reports are gathered once, behind all attempts, and the last attempt decides before them.

The main statement is `task_rounds`. It rests on what a single attempt asks for (`milestones_of_found`),
and on three statements about attempts in a row, by induction on their number: `attemptsCourse_entries` for what
is seen of them, `attemptsCourse_finishes` for whether they finish, and `attemptsCourse_finished` for what they
come to.
-/

namespace Sidecar

open Activity

variable {σ : Type}

/-! ## What an attempt asks for -/

section

variable {kind : Event → Prop}

/-- Of a process that is waited for one sees that it has ended, or that it is killed, and what is logged if it
cannot be killed. -/
theorem RunningProcess.shows_fate {p : RunningProcess σ} (hexited : kind (.call .exited))
    (hkill : kind (.call .kill)) (hrecords : ∀ item ∈ p.killRecords, kind item) (timeoutSeconds : Option Nat)
    (now : Nat) : (p.fate timeoutSeconds now).Shows kind := by
  unfold fate
  split
  · intro e he
    rw [List.mem_singleton.1 he]
    exact hexited
  · simp [Course.Shows]
  · apply Course.Shows.andThen
    · intro e he
      rw [List.mem_singleton.1 he]
      exact hkill
    · intro time _
      exact Course.shows_entriesAt hrecords time _

/-- Everything else that is seen of a process is logged, or its metrics. -/
theorem Job.shows_following (job : Job σ) (hexited : kind (.call .exited)) (hkill : kind (.call .kill))
    (hlog : ∀ r, kind (.log r)) (hmetrics : ∀ m, kind (.metrics m)) (index : Nat) (command : CommandLine)
    (process : RunningProcess σ) (started : Nat) (s : σ) :
    (job.following index command process started s).Shows kind := by
  apply Course.Shows.andThen
  · intro e he
    rcases List.mem_append.1 he with he | he
    · exact Course.shows_entriesAt (job.shows_startedRecords hlog _) started (.never : Ending Unit) e he
    · exact RunningProcess.shows_fate hexited hkill (process.shows_killRecords hlog) job.timeoutSeconds? started e he
  · intro time result
    exact Course.shows_entriesAt (job.shows_closingItems hlog hmetrics _ _ _ _ _) time _

end

namespace Job

/-- A process that has been started starts no other one. -/
theorem plain_following (job : Job σ) (index : Nat) (command : CommandLine) (process : RunningProcess σ)
    (started : Nat) (s : σ) : Plain (job.following index command process started s) := by
  apply plain_of_shows
  refine job.shows_following ?_ ?_ ?_ ?_ index command process started s
  all_goals simp [Event.call?, Call.isMilestone, Call.isCollect]

/-- What is executed is started once. -/
theorem execution_milestones (job : Job σ) (index : Nat) (command : CommandLine) (environment : Bindings)
    (now : Nat) (s : σ) :
    milestones (job.execution index command environment now s).entries =
      [.start (job.invocation index command environment)] := by
  unfold execution
  dsimp only
  split
  · rename_i process s' _
    have hfollowing := job.plain_following index command process now s'
    unfold Plain at hfollowing
    rw [← List.singleton_append, milestones_append, hfollowing]
    rfl
  · rfl
  · rfl

/-- What a step executes is found out without starting or gathering anything. -/
theorem plain_planning (job : Job σ) (now : Nat) (s : σ) : Plain (job.planning now s) := by
  have hcovers : Resolution.Covers job.collaborators job.step
      fun item => ∀ call ∈ item.call?, call.isMilestone = false :=
    ⟨fun _ => by simp [Event.call?, Call.isMilestone, Call.isCollect],
      fun _ _ _ => by simp [Event.call?, Call.isMilestone, Call.isCollect],
      fun _ _ _ _ _ _ => by simp [Event.call?], fun _ _ => by simp [Event.call?, Resolution.resolvedRecord]⟩
  rw [planning_eq]
  exact plain_of_shows (Resolution.shows_planFinding hcovers job.config.imageSecretVariable now s)

end Job

/-! ## Attempts in a row -/

/-- One of the attempts of a step: its index, and when and in which state of the collaborators it begins. -/
structure Round (σ : Type) where
  index : Nat
  began : Nat
  state : σ

namespace Round

/-- What becomes of the attempt. -/
def course (r : Round σ) (job : Job σ) : Course Event (Attempt × σ) :=
  ((job.attempt r.index).run r.state).course r.began

/-- What is seen of the attempt, with the record of its failure. -/
def entries (r : Round σ) (job : Job σ) : List (Entry Event) :=
  (((job.attemptError? r.index).run r.state).course r.began).entries

theorem entries_eq (r : Round σ) (job : Job σ) :
    r.entries job = (job.attemptErrorCourse r.index r.began r.state).entries := by
  rw [entries, Job.attemptError?_course]

/-- The record of a failure is no call. -/
theorem callsOf_entries (r : Round σ) (job : Job σ) : callsOf (r.entries job) = callsOf (r.course job).entries := by
  have hfailure : ∀ a : Attempt, callsIn (job.failureRecords r.index a) = [] := by
    intro a
    unfold Job.failureRecords
    cases a.error? <;> rfl
  rw [entries_eq, Job.attemptErrorCourse, callsOf_andThen, callsOf_within, course, Job.attempt_course]
  intro time result
  rw [callsOf_entriesAt, hfailure]

/-- What an attempt starts, for what it has found out. -/
def starts (r : Round σ) (job : Job σ) : Option (Except ResolutionError Resolution.Plan) → List Call
  | some (.ok plan) => [.start (job.invocation r.index plan.command plan.environment)]
  | some (.error _) => []
  | none => []

/-- An attempt that has found out what to execute starts it, and no other attempt starts anything. None gathers
reports. -/
theorem milestones_of_found (r : Round σ) (job : Job σ) :
    milestones (r.entries job) = r.starts job (Finding.found? (job.planning r.began r.state)) := by
  have hplanning := job.plain_planning r.began r.state
  unfold Plain at hplanning
  unfold milestones
  rw [callsOf_entries, course]
  cases hfound : Finding.found? (job.planning r.began r.state) with
  | none =>
    rw [(Job.attempt_of_unplanned (Finding.found?_eq_none.1 hfound) r.index).1]
    exact hplanning
  | some found =>
    obtain ⟨time, s, hending⟩ := Finding.found?_eq_some.1 hfound
    cases found with
    | error e =>
      obtain ⟨a, -, -, hcourse⟩ := Job.attempt_of_refused hending r.index
      rw [hcourse]
      exact hplanning
    | ok plan =>
      have hexecution := job.execution_milestones r.index plan.command plan.environment time s
      rw [Job.attempt_of_planned hending]
      dsimp only
      rw [← milestones, milestones_append, hplanning, hexecution]
      rfl

/-- An attempt starts at most one process, and says which attempt it is. It gathers no reports. -/
theorem milestones_entries (r : Round σ) (job : Job σ) :
    milestones (r.entries job) = [] ∨
    ∃ command environment, milestones (r.entries job) =
      [.start (job.invocation r.index command environment)] := by
  rw [milestones_of_found]
  unfold starts
  split
  · exact .inr ⟨_, _, rfl⟩
  · exact .inl rfl
  · exact .inl rfl

/-- What is started in an attempt belongs to this attempt. -/
theorem attempt_of_start {r : Round σ} {job : Job σ} {i : Invocation} (h : .start i ∈ callsOf (r.entries job)) :
    i.attempt = r.index := by
  have hmilestone : .start i ∈ milestones (r.entries job) := List.mem_filter.2 ⟨h, rfl⟩
  rcases r.milestones_entries job with hr | ⟨command, environment, hr⟩
  · simp [hr] at hmilestone
  · rw [hr, List.mem_singleton] at hmilestone
    cases hmilestone
    rfl

end Round

namespace Job

/-- So many attempts, from an index on. Each one begins when the one before it has finished, in the state that
it has left; behind an attempt that does not finish there are no others. -/
def rounds (job : Job σ) (index now : Nat) (s : σ) : Nat → List (Round σ)
  | 0 => []
  | count + 1 =>
    let r : Round σ := ⟨index, now, s⟩
    r :: match (r.course job).ending with
      | .finished time (_, s') => job.rounds (index + 1) time s' count
      | .crashed _ => []
      | .never => []

section

variable {job : Job σ} {index now : Nat} {s : σ}

theorem rounds_of_finished {time : Nat} {result : Attempt × σ}
    (h : ((Round.mk index now s).course job).ending = .finished time result) (count : Nat) :
    job.rounds index now s (count + 1) =
      ⟨index, now, s⟩ :: job.rounds (index + 1) time result.2 count := by
  rw [rounds, h]

theorem rounds_of_not_finishes (h : ((Round.mk index now s).course job).ending.finishes = false)
    (count : Nat) : job.rounds index now s (count + 1) = [⟨index, now, s⟩] := by
  rw [rounds]
  cases hround : ((Round.mk index now s).course job).ending with
  | finished time result => simp [hround, Ending.finishes] at h
  | crashed time => rfl
  | never => rfl

/-- How an attempt ends when only its error counts. -/
theorem attemptErrorCourse_ending :
    (job.attemptErrorCourse index now s).ending =
      ((Round.mk index now s).course job).ending.bind fun time result =>
        .finished time (result.1.error?, result.2) := by
  rw [attemptErrorCourse, Course.andThen_ending, Round.course, attempt_course]
  rfl

theorem attemptErrorCourse_of_finished {time : Nat} {result : Attempt × σ}
    (h : ((Round.mk index now s).course job).ending = .finished time result) :
    (job.attemptErrorCourse index now s).ending = .finished time (result.1.error?, result.2) := by
  rw [attemptErrorCourse_ending, h]
  rfl

theorem attemptErrorCourse_of_not_finishes
    (h : ((Round.mk index now s).course job).ending.finishes = false) :
    (job.attemptErrorCourse index now s).ending.finishes = false := by
  rw [attemptErrorCourse_ending]
  cases hround : ((Round.mk index now s).course job).ending with
  | finished time result => simp [hround, Ending.finishes] at h
  | crashed time => rfl
  | never => rfl

/-- An attempt whose error is there has finished with this error. -/
theorem attemptErrorCourse_finished {time : Nat} {result : Option StepError × σ}
    (h : (job.attemptErrorCourse index now s).ending = .finished time result) :
    ∃ attempt, ((Round.mk index now s).course job).ending = .finished time (attempt, result.2) ∧
      result.1 = attempt.error? := by
  rcases Ending.finished_or ((Round.mk index now s).course job).ending with ⟨time', found, hround⟩ | hround
  · rw [attemptErrorCourse_of_finished hround] at h
    cases h
    exact ⟨found.1, hround, rfl⟩
  · have hunfinished := attemptErrorCourse_of_not_finishes hround
    simp [h, Ending.finishes] at hunfinished

end

theorem retries_eq_succ (job : Job σ) : ∃ count, job.retries = count + 1 :=
  Nat.exists_eq_succ_of_ne_zero (Nat.ne_of_gt (job.step.effectiveRetries_pos _))

/-- There is always a first attempt. -/
theorem first_mem_rounds (job : Job σ) (now : Nat) (s : σ) : ⟨1, now, s⟩ ∈ job.rounds 1 now s job.retries := by
  obtain ⟨count, hcount⟩ := job.retries_eq_succ
  rw [hcount]
  exact List.mem_cons_self

/-- The indexes of attempts in a row have no gaps. -/
theorem rounds_indexes (job : Job σ) (count index now : Nat) (s : σ) :
    (job.rounds index now s count).map (·.index) =
      List.range' index (job.rounds index now s count).length := by
  induction count generalizing index now s with
  | zero => rfl
  | succ count ih =>
    rcases Ending.finished_or ((Round.mk index now s).course job).ending with ⟨time, result, hround⟩ | hround
    · rw [rounds_of_finished hround, List.map_cons, List.length_cons, List.range'_succ, ih]
    · rw [rounds_of_not_finishes hround]
      rfl

/-- If attempts are counted from one, the last index is their number. -/
theorem rounds_length (job : Job σ) {count now : Nat} {s : σ} {r : Round σ}
    (h : (job.rounds 1 now s count).getLast? = some r) : (job.rounds 1 now s count).length = r.index := by
  have hlast := congrArg List.getLast? (job.rounds_indexes count 1 now s)
  rw [List.getLast?_map, h, List.getLast?_range'] at hlast
  split at hlast
  · cases hlast
  · simp only [Option.map_some, Option.some.injEq] at hlast
    omega

/-- What is seen of attempts in a row is what is seen of each of them. -/
theorem attemptsCourse_entries (job : Job σ) (count index now : Nat) (last : Option StepError) (s : σ) :
    (job.attemptsCourse index now last s count).entries =
      (job.rounds index now s count).flatMap (·.entries job) := by
  induction count generalizing index now last s with
  | zero => rfl
  | succ count ih =>
    unfold attemptsCourse
    rcases Ending.finished_or ((Round.mk index now s).course job).ending with ⟨time, result, hround⟩ | hround
    · rw [rounds_of_finished hround, List.flatMap_cons, Round.entries_eq,
        Course.andThen_of_finished (attemptErrorCourse_of_finished hround), ih]
    · rw [rounds_of_not_finishes hround, List.flatMap_singleton, Round.entries_eq,
        (Course.andThen_of_not_finishes (attemptErrorCourse_of_not_finishes hround) _).1]

/-- If attempts in a row finish, none is left out, and they come to what the last one has come to. -/
theorem attemptsCourse_finished (job : Job σ) {count index now time : Nat} {last : Option StepError} {s : σ}
    {error : Option StepError} {s' : σ}
    (h : (job.attemptsCourse index now last s (count + 1)).ending = .finished time (error, s')) :
    (job.rounds index now s (count + 1)).length = count + 1 ∧
    ∃ r attempt, (job.rounds index now s (count + 1)).getLast? = some r ∧
      (r.course job).ending = .finished time (attempt, s') ∧ error = attempt.error? := by
  induction count generalizing index now last s with
  | zero =>
    obtain ⟨first, result, hfirst, hrest, -⟩ := Course.andThen_eq_finished h
    obtain ⟨attempt, hround, herror⟩ := attemptErrorCourse_finished hfirst
    rw [rounds_of_finished hround]
    -- nothing follows the only attempt
    cases hrest
    exact ⟨rfl, ⟨index, now, s⟩, attempt, rfl, hround, herror⟩
  | succ count ih =>
    obtain ⟨first, result, hfirst, hrest, -⟩ := Course.andThen_eq_finished h
    obtain ⟨attempt, hround, -⟩ := attemptErrorCourse_finished hfirst
    -- there are attempts behind the first one, so the last of them is the last of all
    obtain ⟨hlength, r, attempt', hlast, hr, herror⟩ := ih hrest
    rw [rounds_of_finished hround]
    refine ⟨?_, r, attempt', ?_, hr, herror⟩
    · rw [List.length_cons, hlength]
    · rw [List.getLast?_cons, hlast]
      rfl

/-- If all attempts of a step finish, there has been a last one, since there is always a first one. -/
theorem attempts_finished (job : Job σ) {now ended : Nat} {s s₁ : σ} {failure : Option StepError}
    (h : (job.attemptsCourse 1 now none s job.retries).ending = .finished ended (failure, s₁)) :
    (job.rounds 1 now s job.retries).length = job.retries ∧
    ∃ last attempt, (job.rounds 1 now s job.retries).getLast? = some last ∧
      (last.course job).ending = .finished ended (attempt, s₁) ∧ failure = attempt.error? := by
  obtain ⟨count, hcount⟩ := job.retries_eq_succ
  rw [hcount] at h ⊢
  exact job.attemptsCourse_finished h

/-- Attempts in a row finish if each of them does, and not otherwise. -/
theorem attemptsCourse_finishes (job : Job σ) {count index now : Nat} {last : Option StepError} {s : σ} :
    (job.attemptsCourse index now last s count).ending.finishes = true ↔
      ∀ r ∈ job.rounds index now s count, (r.course job).ending.finishes = true := by
  induction count generalizing index now last s with
  | zero => simp [attemptsCourse, rounds, Ending.finishes]
  | succ count ih =>
    unfold attemptsCourse
    rcases Ending.finished_or ((Round.mk index now s).course job).ending with ⟨time, result, hround⟩ | hround
    · have hfirst : ((Round.mk index now s).course job).ending.finishes = true := by
        rw [hround]
        rfl
      rw [rounds_of_finished hround, List.forall_mem_cons, and_iff_right hfirst,
        Course.andThen_of_finished (attemptErrorCourse_of_finished hround), ih]
    · have hrest := Course.andThen_of_not_finishes (attemptErrorCourse_of_not_finishes hround) fun time result =>
        job.attemptsCourse (index + 1) time result.1 result.2 count
      rw [rounds_of_not_finishes hround, List.forall_mem_singleton, hrest.2, hround]

/-- Behind an attempt that does not finish there is no other one. -/
theorem rounds_getLast?_of_not_finishes {job : Job σ} {count index now : Nat} {s : σ} {r : Round σ}
    (hr : r ∈ job.rounds index now s count) (h : (r.course job).ending.finishes = false) :
    (job.rounds index now s count).getLast? = some r := by
  induction count generalizing index now s with
  | zero => simp [rounds] at hr
  | succ count ih =>
    rcases Ending.finished_or ((Round.mk index now s).course job).ending with ⟨time, result, hround⟩ | hround
    · rw [rounds_of_finished hround] at hr ⊢
      rcases List.mem_cons.1 hr with rfl | hr
      · -- the first attempt has finished, so it is not the one
        simp [hround, Ending.finishes] at h
      · rw [List.getLast?_cons, ih hr]
        rfl
    · rw [rounds_of_not_finishes hround] at hr ⊢
      rw [List.mem_singleton.1 hr]
      rfl

/-! ## The collection of reports -/

/-- The question for the reports, and what the collector logs, are all that is seen of collecting them. -/
theorem shows_collectCourse (job : Job σ) {kind : Event → Prop}
    (hcall : kind (.call (.collect job.step.id job.step.reports)))
    (hrecords : ∀ s, ∀ r ∈ (job.collaborators.collect job.step.reports job.step.id s).1.records, kind (.log r))
    (now : Nat) (s : σ) : (job.collectCourse now s).Shows kind := by
  apply Course.Shows.andThen_of_ending
  · intro e he
    rw [List.mem_singleton.1 he]
    exact hcall
  · intro time reply hending
    obtain ⟨-, rfl⟩ := Lag.of_ending_eq_finished hending
    unfold gathering
    split
    · simp [Course.Shows]
    · apply Course.shows_entriesAt
      intro item hitem
      obtain ⟨r, hr, rfl⟩ := List.mem_map.1 hitem
      exact hrecords s r hr

/-- The collector answers in this state: there is an answer in the end, and it does not crash when it is worked on. -/
def CollectorAnswers (job : Job σ) (s : σ) : Prop :=
  (job.collaborators.lag (.collect job.step.id job.step.reports) s).comes = true ∧
    (job.collaborators.collect job.step.reports job.step.id s).1.crashes = false

theorem gathering_finishes (reply : CollectReply) (now : Nat) (s : σ) :
    (gathering reply now s).ending.finishes = !reply.crashes := by
  unfold gathering
  cases reply.crashes <;> rfl

theorem collectCourse_finishes (job : Job σ) {now : Nat} {s : σ} :
    (job.collectCourse now s).ending.finishes = true ↔ job.CollectorAnswers s := by
  unfold collectCourse CollectorAnswers
  dsimp only
  rw [Course.andThen_finishes]
  constructor
  · rintro ⟨time, answer, hlag, hgathering⟩
    have hcomes := congrArg Ending.finishes hlag
    rw [Lag.ending_finishes] at hcomes
    obtain ⟨-, rfl⟩ := Lag.of_ending_eq_finished hlag
    rw [gathering_finishes, Bool.not_eq_true'] at hgathering
    exact ⟨hcomes, hgathering⟩
  · rintro ⟨hcomes, hcrashes⟩
    refine ⟨_, _, Lag.ending_of_comes hcomes now _, ?_⟩
    rw [gathering_finishes, hcrashes]
    rfl

theorem collectAfterCourse_finishes (job : Job σ) {failure : Option StepError} {now : Nat} {s : σ} :
    (job.collectAfterCourse failure now s).ending.finishes = true ↔ job.CollectorAnswers s := by
  have hcollect : (job.collectCourse now s).ending.finishes = true ↔ job.CollectorAnswers s :=
    job.collectCourse_finishes
  rw [collectAfterCourse, Course.andThen_finishes, ← hcollect, Ending.finishes_iff]
  simp [Ending.finishes]

/-- If gathering the reports comes to an end, the collector has not crashed. -/
theorem gathering_finished {reply : CollectReply} {now time : Nat} {s : σ}
    {result : Except CollectionError Unit × σ} (h : (gathering reply now s).ending = .finished time result) :
    time = now + reply.millis ∧ result = (reply.result, s) ∧
      (gathering reply now s).entries = entriesAt time (reply.records.map .log) := by
  unfold gathering at h ⊢
  split at h
  · cases h
  · rename_i hcrashes
    cases h
    rw [if_neg hcrashes]
    exact ⟨rfl, rfl, rfl⟩

/-- If collecting the reports comes to an end, it has begun with the one question for them, and the answer is its
result. -/
theorem collectCourse_finished (job : Job σ) {now time : Nat} {s : σ} {result : Except CollectionError Unit × σ}
    (h : (job.collectCourse now s).ending = .finished time result) :
    let call := Call.collect job.step.id job.step.reports
    let reply := (job.collaborators.collect job.step.reports job.step.id s).1
    time = now + (job.collaborators.lag call s).millis + reply.millis ∧ result.1 = reply.result ∧
    (job.collectCourse now s).entries = ⟨now, .call call⟩ :: entriesAt time (reply.records.map .log) := by
  intro call reply
  obtain ⟨answered, answer, hlag, hgathering, hentries⟩ := Course.andThen_eq_finished h
  obtain ⟨rfl, rfl⟩ := Lag.of_ending_eq_finished hlag
  obtain ⟨rfl, rfl, hrecords⟩ := gathering_finished hgathering
  rw [hrecords] at hentries
  exact ⟨rfl, rfl, hentries⟩

/-- The error of a step is settled when its reports have been collected. -/
theorem collectAfterCourse_finished (job : Job σ) {failure : Option StepError} {now time : Nat} {s : σ}
    {error : Option StepError} {s' : σ}
    (h : (job.collectAfterCourse failure now s).ending = .finished time (error, s')) :
    let call := Call.collect job.step.id job.step.reports
    let reply := (job.collaborators.collect job.step.reports job.step.id s).1
    time = now + (job.collaborators.lag call s).millis + reply.millis ∧
    error = finalError failure reply.result ∧
    ∃ records, callsIn records = [] ∧
      (job.collectAfterCourse failure now s).entries = ⟨now, .call call⟩ :: entriesAt time records := by
  intro call reply
  obtain ⟨collected, result, hcollect, hrest, hentries⟩ := Course.andThen_eq_finished h
  obtain ⟨htime, hresult, hcollected⟩ := job.collectCourse_finished hcollect
  cases hrest
  refine ⟨htime, ?_, reply.records.map .log ++ collectionRecords failure result.1, ?_, ?_⟩
  · rw [hresult]
  · have hcollection : callsIn (collectionRecords failure result.1) = [] := by
      unfold collectionRecords
      cases result.1 <;> rfl
    rw [callsIn_append, callsIn_logs, hcollection, List.append_nil]
  · rw [hcollected] at hentries
    rw [entriesAt_append]
    exact hentries

/-! ## The whole step -/

/-- None of some attempts gathers reports. -/
theorem filter_isCollect_rounds (job : Job σ) (rounds : List (Round σ)) :
    (callsOf (rounds.flatMap (·.entries job))).filter Call.isCollect = [] := by
  rw [← filter_isCollect_milestones]
  induction rounds with
  | nil => rfl
  | cons r rounds ih =>
    rw [List.flatMap_cons, milestones_append, List.filter_append, ih]
    rcases r.milestones_entries job with h | ⟨command, environment, h⟩
    · rw [h]
      rfl
    · rw [h]
      rfl

/-- What is started by some attempts is started by one of them. -/
theorem start_of_rounds (job : Job σ) {rounds : List (Round σ)} {i : Invocation}
    (h : .start i ∈ callsOf (rounds.flatMap (·.entries job))) : ∃ r ∈ rounds, i.attempt = r.index := by
  induction rounds with
  | nil => simp at h
  | cons r rounds ih =>
    rw [List.flatMap_cons, callsOf_append] at h
    rcases List.mem_append.1 h with h | h
    · exact ⟨r, List.mem_cons_self, Round.attempt_of_start h⟩
    · obtain ⟨r', hr', hindex⟩ := ih h
      exact ⟨r', List.mem_cons_of_mem r hr', hindex⟩

/-- A step finishes if each of its attempts does and the collector of reports answers, and not otherwise. -/
theorem taskCourse_finishes (job : Job σ) (now : Nat) (s : σ) :
    let rounds := job.rounds 1 now s job.retries
    (job.taskCourse now s).ending.finishes = true ↔
      (∀ r ∈ rounds, (r.course job).ending.finishes = true) ∧
      ∀ last ended attempt s₁, rounds.getLast? = some last → (last.course job).ending = .finished ended (attempt, s₁) →
        job.CollectorAnswers s₁ := by
  intro rounds
  rw [← job.attemptsCourse_finishes, taskCourse, Course.andThen_finishes]
  constructor
  · rintro ⟨ended, ⟨failure, s₁⟩, hattempts, hcollected⟩
    refine ⟨Ending.finishes_iff.2 ⟨ended, _, hattempts⟩, ?_⟩
    obtain ⟨-, last, attempt, hlast, hround, -⟩ := job.attempts_finished hattempts
    intro last' ended' attempt' s' hlast' hround'
    -- there is only one last attempt, and only one state that it leaves
    cases hlast.symm.trans hlast'
    cases hround.symm.trans hround'
    exact job.collectAfterCourse_finishes.1 hcollected
  · rintro ⟨hattempts, hanswers⟩
    obtain ⟨ended, ⟨failure, s₁⟩, hattempts⟩ := Ending.finishes_iff.1 hattempts
    refine ⟨ended, (failure, s₁), hattempts, job.collectAfterCourse_finishes.2 ?_⟩
    obtain ⟨-, last, attempt, hlast, hround, -⟩ := job.attempts_finished hattempts
    exact hanswers last ended attempt s₁ hlast hround

/-- What becomes of a step whose attempts all finish and whose reports are gathered: it makes all its attempts in
their order, then asks for its reports, once, and its error is that of the last attempt, or that of the
collection if there is no other. If an attempt does not finish, because it hangs or crashes, it is the last one,
and nothing asks for reports. There are as many attempts as the step asks for, or else as there are by default, but
one at least, and nothing but an attempt or the collector keeps the step from finishing. -/
theorem task_rounds (job : Job σ) (s : σ) (now : Nat) :
    let c := (job.task.run s).course now
    let count := if job.step.retries = 0 then max job.config.defaultRetries 1 else job.step.retries
    let rounds := job.rounds 1 now s count
    let collecting := Call.collect job.step.id job.step.reports
    (∀ r ∈ rounds, milestones (r.entries job) = [] ∨
      ∃ command environment, milestones (r.entries job) =
        [.start (job.invocation r.index command environment)]) ∧
    (∀ time error s', c.ending = .finished time (error, s') →
      rounds.map (·.index) = List.range' 1 count ∧
      ∃ last ended attempt s₁,
        rounds.getLast? = some last ∧
        (last.course job).ending = .finished ended (attempt, s₁) ∧
        let reply := (job.collaborators.collect job.step.reports job.step.id s₁).1
        time = ended + (job.collaborators.lag collecting s₁).millis + reply.millis ∧
        (error = match attempt.outcome, reply.result with
          | .error e, _ => some e
          | .ok _, .error e => some (.collection e)
          | .ok _, .ok () => none) ∧
        (callsOf c.entries).filter Call.isCollect = [collecting] ∧
        ∃ records, callsIn records = [] ∧
          c.entries = rounds.flatMap (·.entries job) ++ ⟨ended, .call collecting⟩ :: entriesAt time records) ∧
    (∀ r ∈ rounds, (r.course job).ending.finishes = false →
      rounds.map (·.index) = List.range' 1 r.index ∧
      c.ending.finishes = false ∧
      c.entries = rounds.flatMap (·.entries job) ∧
      (callsOf c.entries).filter Call.isCollect = [] ∧
      ∀ i, .start i ∈ callsOf c.entries → i.attempt ≤ r.index) ∧
    (c.ending.finishes = true ↔
      (∀ r ∈ rounds, (r.course job).ending.finishes = true) ∧
      ∀ last ended attempt s₁, rounds.getLast? = some last → (last.course job).ending = .finished ended (attempt, s₁) →
        job.CollectorAnswers s₁) := by
  intro c number rounds collecting
  have hc : c = job.taskCourse now s := job.task_course s now
  have hindexes : rounds.map (·.index) = List.range' 1 rounds.length :=
    job.rounds_indexes job.retries 1 now s
  have hentries : (job.attemptsCourse 1 now none s job.retries).entries = rounds.flatMap (·.entries job) :=
    job.attemptsCourse_entries job.retries 1 now none s
  refine ⟨?_, ?_, ?_, ?_⟩
  · intro r _
    exact r.milestones_entries job
  · intro time error s' hfinished
    rw [hc] at hfinished ⊢
    -- the attempts have finished with some failure, and the collection with the outcome
    obtain ⟨ended, ⟨failure, s₁⟩, hattempts, hcollected, htask⟩ := Course.andThen_eq_finished hfinished
    obtain ⟨htime, herror, records, hrecords, hcollecting⟩ := job.collectAfterCourse_finished hcollected
    obtain ⟨hlength, last, attempt, hlast, hround, hfailure⟩ := job.attempts_finished hattempts
    have htaskEntries : (job.taskCourse now s).entries = rounds.flatMap (·.entries job) ++
        ⟨ended, .call collecting⟩ :: entriesAt time records := by
      rw [← hentries, ← hcollecting]
      exact htask
    refine ⟨?_, last, ended, attempt, s₁, hlast, hround, htime, ?_, ?_, records, hrecords, htaskEntries⟩
    · exact hindexes.trans (congrArg (List.range' 1) hlength)
    · rw [herror, hfailure]
      unfold finalError Attempt.error?
      cases attempt.outcome <;> split <;> simp_all
    · rw [htaskEntries, callsOf_append, List.filter_append, job.filter_isCollect_rounds]
      simp [hrecords, collecting, Call.isCollect]
  · intro r hr hunfinished
    have hlast : rounds.getLast? = some r := rounds_getLast?_of_not_finishes hr hunfinished
    have hattempts : (job.attemptsCourse 1 now none s job.retries).ending.finishes = false := by
      rw [← Bool.not_eq_true, job.attemptsCourse_finishes]
      intro hall
      simp [hall r hr] at hunfinished
    obtain ⟨htask, hending⟩ := Course.andThen_of_not_finishes hattempts fun time result =>
      job.collectAfterCourse result.1 time result.2
    have htaskEntries : (job.taskCourse now s).entries = rounds.flatMap (·.entries job) :=
      htask.trans hentries
    rw [job.rounds_length hlast] at hindexes
    rw [hc, htaskEntries]
    refine ⟨hindexes, hending, rfl, job.filter_isCollect_rounds rounds, ?_⟩
    -- whatever has been started belongs to one of the attempts that were made, and their indexes end at this one
    intro i hi
    obtain ⟨r', hr', hindex⟩ := job.start_of_rounds hi
    have hmem : r'.index ∈ List.range' 1 r.index := by
      rw [← hindexes]
      exact List.mem_map_of_mem hr'
    rw [List.mem_range'_1] at hmem
    omega
  · rw [hc]
    exact job.taskCourse_finishes now s

/-- A server that fails twice has its reports gathered all the same, and one that never ends does not, so only the
first one finishes. -/
theorem task_rounds_server :
    let failing := (server.task.run [.ends 1000 (.exited 1), .ends 1500 (.exited 2)]).course 0
    let hanging := (server.task.run [.endless]).course 0
    (callsOf failing.entries).filter Call.isCollect = [.collect "server" []] ∧ failing.ending.finishes = true ∧
    (callsOf hanging.entries).filter Call.isCollect = [] ∧ hanging.ending.finishes = false := by
  intro failing hanging
  have hfailing : failing.ending = .finished 2700 (some (.process (.exit (some 2))), []) := rfl
  have hfirst : ⟨1, 0, [.endless]⟩ ∈ server.rounds 1 0 [.endless] 2 := List.mem_cons_self
  obtain ⟨-, hfinished, -, hfinishes⟩ := task_rounds server [.ends 1000 (.exited 1), .ends 1500 (.exited 2)] 0
  obtain ⟨-, -, hunfinished, -⟩ := task_rounds server [.endless] 0
  obtain ⟨-, last, ended, attempt, s₁, -, -, -, -, hcollect, -⟩ := hfinished _ _ _ hfailing
  obtain ⟨-, hending, -, hnoCollect, -⟩ := hunfinished _ hfirst rfl
  refine ⟨hcollect, hfinishes.2 ⟨?_, ?_⟩, hnoCollect, hending⟩
  · show ∀ r ∈ [(⟨1, 0, [.ends 1000 (.exited 1), .ends 1500 (.exited 2)]⟩ : Round (List Lifetime)),
      ⟨2, 1000, [.ends 1500 (.exited 2)]⟩], (r.course server).ending.finishes = true
    simp only [List.forall_mem_cons]
    exact ⟨rfl, rfl, fun _ hr => absurd hr List.not_mem_nil⟩
  · -- the collector of the server answers in all states
    intro last ended attempt s₁ _ _
    exact ⟨rfl, rfl⟩

end Job

end Sidecar
