import Sidecar.Proofs.Retries

/-!
# The life of a process

A process that has been started ends in one of two ways, as far as its step can see: by itself, or because it is
killed when its timeout is over. The step sees one of the two and no more, and it sees neither only if there is no
timeout and the process never ends. The attempt ends when its process is gone, so the processes of a step live one
after the other.

The main statement is `processes_live_in_turn`. Its first half rests on what becomes of a process that is waited for
(`fate_of_own_end`, `fate_of_endless`, `fate_of_overtime`), and its second half on the order of the attempts
(`rounds_in_turn`).
-/

namespace Sidecar

open Activity

variable {σ α : Type}

/-! ## Starts and ends -/

/-- Whether a call ends the life of a process. -/
def Call.isClosing : Call → Bool
  | .exited => true
  | .kill => true
  | _ => false

/-- Whether a call begins or ends the life of a process. -/
def Call.isLifecycle : Call → Bool
  | .start _ => true
  | call => call.isClosing

/-- Whether an event begins or ends the life of a process. -/
def Event.isLifecycle : Event → Bool
  | .call asked => asked.isLifecycle
  | _ => false

/-- Lives of processes are among the deeds. -/
theorem lifecycle_deeds (entries : List (Entry Event)) :
    only Event.isLifecycle (deeds entries) = only Event.isLifecycle entries := by
  unfold only deeds
  rw [List.filter_filter]
  apply List.filter_congr
  intro e _
  cases e.item <;> simp [Event.isLifecycle, Event.isDeed]

@[simp] theorem lifecycle_within (span : String) (c : Course Event α) :
    only Event.isLifecycle (c.mapItems (.within span)).entries = only Event.isLifecycle c.entries := by
  rw [← lifecycle_deeds, deeds_within, lifecycle_deeds]

/-! ## Waiting for a process -/

/-- A process that does not crash whoever waits for it ends with its result. -/
theorem Closing.ending_of_result {closing : Closing} {result : Except ProcessError Unit}
    (h : closing.result = .done result) (time : Nat) : closing.ending time = .finished time result := by
  have hcourse := closing.result_course time
  rw [h] at hcourse
  exact (congrArg Course.ending hcourse).symm

namespace RunningProcess

theorem lifecycle_killing (p : RunningProcess σ) (seconds now : Nat) :
    only Event.isLifecycle (p.killing seconds now).entries = [⟨now, .call .kill⟩] := by
  unfold killing
  rw [only_andThen]
  · rfl
  · intro time _
    exact Course.shows_entriesAt (p.shows_killRecords fun _ => rfl) time _

section

variable {p : RunningProcess σ} {timeoutSeconds : Option Nat}

theorem fate_of_own_end {millis : Nat} {closing : Closing} {result : Except ProcessError Unit}
    (hlifetime : p.lifetime = .ends millis closing) (hresult : closing.result = .done result)
    (htimely : ∀ seconds ∈ timeoutSeconds, millis ≤ seconds * 1000) (now : Nat) :
    p.fate timeoutSeconds now = ⟨[⟨now + millis, .call .exited⟩], .finished (now + millis) result⟩ := by
  have hclosing : p.closing? timeoutSeconds = some (millis, closing) := by
    unfold closing?
    rw [hlifetime]
    cases timeoutSeconds with
    | none => rfl
    | some seconds => simp [htimely seconds rfl]
  unfold fate
  rw [hclosing]
  simp only [Closing.ending_of_result hresult]

theorem fate_of_endless (hlifetime : p.lifetime = .endless) (now : Nat) : p.fate none now = ⟨[], .never⟩ := by
  unfold fate closing?
  rw [hlifetime]

/-- A process that has not ended when its timeout is over is killed then, and gone when this is done. -/
theorem fate_of_overtime {seconds : Nat}
    (hlate : ∀ millis closing, p.lifetime = .ends millis closing → seconds * 1000 < millis)
    (hcrashes : p.killCrashes = false) (now : Nat) :
    only Event.isLifecycle (p.fate (some seconds) now).entries = [⟨now + seconds * 1000, .call .kill⟩] ∧
    (p.fate (some seconds) now).ending =
      if p.killHangs then .never
      else .finished (now + seconds * 1000 + p.killMillis) (.error (.timedOut seconds)) := by
  have hclosing : p.closing? (some seconds) = none := by
    unfold closing?
    cases hlifetime : p.lifetime with
    | endless => rfl
    | ends millis closing =>
      have hmillis := hlate millis closing hlifetime
      simp only [ite_eq_right_iff, reduceCtorEq, imp_false]
      omega
  unfold fate
  rw [hclosing]
  refine ⟨p.lifecycle_killing seconds (now + seconds * 1000), ?_⟩
  unfold killing killLag Lag.ending
  rw [Course.andThen_ending]
  simp only [hcrashes, Bool.false_eq_true, if_false]
  cases p.killHangs with
  | true => rfl
  | false => rfl

/-- If the wait for a process is over, its end has been seen once, and not later. -/
theorem lifecycle_fate_of_finished {now time : Nat} {result : Except ProcessError Unit}
    (h : (p.fate timeoutSeconds now).ending = .finished time result) :
    ∃ ended call, only Event.isLifecycle (p.fate timeoutSeconds now).entries = [⟨ended, .call call⟩] ∧
      (call = .exited ∨ call = .kill) ∧ ended ≤ time := by
  unfold fate at h ⊢
  split at h
  · rename_i millis closing hclosing
    refine ⟨now + millis, .exited, rfl, .inl rfl, ?_⟩
    change closing.ending (now + millis) = _ at h
    have hordered := course_ordered closing.result (now + millis)
    rw [closing.result_course, h] at hordered
    exact hordered.endsNotBefore time rfl
  · cases h
  · rename_i seconds hclosing
    obtain ⟨killed, _, hlag, hrest, -⟩ := Course.andThen_eq_finished h
    obtain ⟨rfl, -⟩ := Lag.of_ending_eq_finished hlag
    cases hrest
    refine ⟨now + seconds * 1000, .kill, ?_, .inr rfl, Nat.le_add_right _ _⟩
    exact p.lifecycle_killing _ _

end

end RunningProcess

/-! ## Attempts that start a process -/

/-- A process that has been started: when and for which plan, and the state of the collaborators then. -/
structure Launch (σ : Type) where
  time : Nat
  plan : Resolution.Plan
  process : RunningProcess σ
  state : σ

namespace Job

/-- Nothing that is logged about a process belongs to its life. -/
theorem lifecycle_following (job : Job σ) (index : Nat) (command : CommandLine) (process : RunningProcess σ)
    (started : Nat) (s : σ) :
    only Event.isLifecycle (job.following index command process started s).entries =
      only Event.isLifecycle (process.fate job.timeoutSeconds? started).entries := by
  unfold following
  rw [only_andThen, only_append, only_entriesAt (job.shows_startedRecords (fun _ => rfl) _),
    List.nil_append]
  intro time result
  exact Course.shows_entriesAt (job.shows_closingItems (fun _ => rfl) (fun _ => rfl) _ _ _ _ _) time _

/-- Finding out what to execute asks for expansions and for the image, and all else about it is logged. -/
theorem only_planning (job : Job σ) (sort : Event → Bool) (hexpand : ∀ raw, sort (.call (.expand raw)) = false)
    (hlookup : ∀ stepId image secret, sort (.call (.lookup stepId image secret)) = false)
    (hlog : ∀ r, sort (.log r) = false) (now : Nat) (s : σ) : only sort (job.planning now s).entries = [] := by
  have hcovers : Resolution.Covers job.collaborators job.step fun item => sort item = false :=
    ⟨hexpand, hlookup, fun _ _ _ _ r _ => hlog r, fun _ _ => hlog _⟩
  rw [planning_eq]
  exact only_of_shows (Resolution.shows_planFinding hcovers job.config.imageSecretVariable now s)

theorem following_ending (job : Job σ) (index : Nat) (command : CommandLine) (process : RunningProcess σ)
    (started : Nat) (s : σ) :
    (job.following index command process started s).ending =
      (process.fate job.timeoutSeconds? started).ending.bind fun time result =>
        .finished time (result, process.effect (time - started) s) :=
  Course.andThen_ending _ _

/-- What is executed is started at once, and nothing else is started. -/
theorem start_of_execution {job : Job σ} {index now time : Nat} {command : CommandLine} {environment : Bindings}
    {s : σ} {i : Invocation}
    (h : ⟨time, .call (.start i)⟩ ∈ (job.execution index command environment now s).entries) :
    time = now ∧ i = job.invocation index command environment := by
  unfold execution at h
  dsimp only at h
  split at h
  · rename_i process s' _
    rcases List.mem_cons.1 h with h | h
    · cases h
      exact ⟨rfl, rfl⟩
    · exact absurd h ((job.plain_following index command process now s').not_start time i)
  · cases List.mem_singleton.1 h
    exact ⟨rfl, rfl⟩
  · cases List.mem_singleton.1 h
    exact ⟨rfl, rfl⟩

end Job

namespace Round

/-- What is started in an attempt is what the attempt has found out before. -/
theorem planned_of_start {r : Round σ} {job : Job σ} {time : Nat} {i : Invocation}
    (h : ⟨time, .call (.start i)⟩ ∈ (r.course job).entries) :
    ∃ plan s, (job.planning r.began r.state).ending = .finished time (.ok plan, s) ∧
      i = job.invocation r.index plan.command plan.environment := by
  have hplanning := (job.plain_planning r.began r.state).not_start time i
  unfold course at h
  rcases Ending.finished_or (job.planning r.began r.state).ending with ⟨planned, ⟨found, s⟩, hplanned⟩ | hunplanned
  · cases found with
    | error e =>
      obtain ⟨a, -, -, hcourse⟩ := Job.attempt_of_refused hplanned r.index
      rw [hcourse] at h
      exact absurd h hplanning
    | ok plan =>
      rw [Job.attempt_of_planned hplanned] at h
      rcases List.mem_append.1 h with h | h
      · exact absurd h hplanning
      · obtain ⟨rfl, hi⟩ := Job.start_of_execution h
        exact ⟨plan, s, hplanned, hi⟩
  · rw [(Job.attempt_of_unplanned hunplanned r.index).1] at h
    exact absurd h hplanning

/-- The attempt finds out what to execute, and the launcher starts a process for it. -/
def Launches (r : Round σ) (job : Job σ) (launch : Launch σ) : Prop :=
  ∃ s, (job.planning r.began r.state).ending = .finished launch.time (.ok launch.plan, s) ∧
    job.collaborators.start (job.invocation r.index launch.plan.command launch.plan.environment) s =
      (.started launch.process, launch.state)

/-- How the start of a process in an attempt is seen. -/
def startEntry (r : Round σ) (job : Job σ) (launch : Launch σ) : Entry Event :=
  ⟨launch.time, .call (.start (job.invocation r.index launch.plan.command launch.plan.environment))⟩

/-- The record of an attempt while its process is running. -/
def begun (r : Round σ) (launch : Launch σ) : Attempt :=
  { index := r.index, command := some launch.plan.command, environment := launch.plan.environment }

section

variable {r : Round σ} {job : Job σ} {launch : Launch σ}

/-- An attempt with a process shows first what a plan shows, then the start, and then what becomes of the
process. -/
theorem course_of_launches (h : r.Launches job launch) :
    let following := job.following r.index launch.plan.command launch.process launch.time launch.state
    r.course job =
      ⟨(job.planning r.began r.state).entries ++ r.startEntry job launch :: following.entries,
        following.ending.bind fun time result => .finished time ((r.begun launch).conclude result.1, result.2)⟩ := by
  obtain ⟨s, hplanned, hstarted⟩ := h
  intro following
  have hexecuted : job.execution r.index launch.plan.command launch.plan.environment launch.time s =
      ⟨r.startEntry job launch :: following.entries, following.ending⟩ := by
    unfold Job.execution
    dsimp only
    rw [hstarted]
    rfl
  unfold course
  rw [Job.attempt_of_planned hplanned, hexecuted]
  rfl

/-- An attempt with a process ends when the wait for the process is over, with what has become of it. -/
theorem ending_of_launches (h : r.Launches job launch) :
    (r.course job).ending = (launch.process.fate job.timeoutSeconds? launch.time).ending.bind fun time result =>
      .finished time ((r.begun launch).conclude result, launch.process.effect (time - launch.time) launch.state) := by
  rw [course_of_launches h, Job.following_ending]
  cases (launch.process.fate job.timeoutSeconds? launch.time).ending with
  | finished time result => rfl
  | crashed time => rfl
  | never => rfl

/-- The life of its process is all that is seen of processes in an attempt. -/
theorem lifecycle_of_launches (h : r.Launches job launch) :
    only Event.isLifecycle (r.course job).entries =
      r.startEntry job launch ::
        only Event.isLifecycle (launch.process.fate job.timeoutSeconds? launch.time).entries := by
  have hplanning : only Event.isLifecycle (job.planning r.began r.state).entries = [] :=
    job.only_planning Event.isLifecycle (fun _ => rfl) (fun _ _ _ => rfl) (fun _ => rfl) _ _
  rw [course_of_launches h, only_append, hplanning, ← List.singleton_append, only_append, job.lifecycle_following]
  rfl

/-- The record of a failure does not belong to the life of a process. -/
theorem lifecycle_entries (r : Round σ) (job : Job σ) :
    only Event.isLifecycle (r.entries job) = only Event.isLifecycle (r.course job).entries := by
  rw [entries_eq, Job.attemptErrorCourse, only_andThen, lifecycle_within, course, Job.attempt_course]
  intro time result
  exact Course.shows_entriesAt (job.shows_failureRecords (fun _ => rfl) r.index result.1) time _

/-- If an attempt with a process finishes, the process has gone before. -/
theorem closed_of_finished (h : r.Launches job launch) {ended : Nat} {result : Attempt × σ}
    (hended : (r.course job).ending = .finished ended result) :
    ∃ closed call, only Event.isLifecycle (r.entries job) = [r.startEntry job launch, ⟨closed, .call call⟩] ∧
      (call = .exited ∨ call = .kill) ∧ closed ≤ ended := by
  rw [ending_of_launches h] at hended
  cases hfate : (launch.process.fate job.timeoutSeconds? launch.time).ending with
  | crashed time => simp [hfate] at hended
  | never => simp [hfate] at hended
  | finished time waited =>
    rw [hfate] at hended
    cases hended
    obtain ⟨closed, call, hclosed, hclosing, hle⟩ := RunningProcess.lifecycle_fate_of_finished hfate
    refine ⟨closed, call, ?_, hclosing, hle⟩
    rw [lifecycle_entries, lifecycle_of_launches h, hclosed]

end

end Round

/-! ## Attempts in turn -/

/-- Something that is not in the second of two parts is in the first one. -/
theorem append_split {x : α} {front back before after : List α} (h : front ++ back = before ++ x :: after)
    (hx : x ∉ back) : ∃ rest, front = before ++ x :: rest := by
  rcases List.append_eq_append_iff.1 h with ⟨between, -, hback⟩ | ⟨rest, hfront, hback⟩
  · rw [hback] at hx
    simp at hx
  · cases rest with
    | nil =>
      rw [List.nil_append] at hback
      rw [← hback] at hx
      simp at hx
    | cons y rest =>
      obtain ⟨rfl, -⟩ := List.cons.inj hback
      exact ⟨rest, hfront⟩

/-- A position in a list that is made of parts is in one of them. All earlier parts are in front of it. -/
theorem flatMap_split {β : Type} {f : α → List β} {parts : List α} {x : β} {before after : List β}
    (h : parts.flatMap f = before ++ x :: after) :
    ∃ earlier part later front rest, parts = earlier ++ part :: later ∧ f part = front ++ x :: rest ∧
      before = earlier.flatMap f ++ front := by
  induction parts generalizing before with
  | nil => simp at h
  | cons part parts ih =>
    rw [List.flatMap_cons] at h
    rcases List.append_eq_append_iff.1 h with ⟨front, hbefore, hrest⟩ | ⟨rest, hpart, hrest⟩
    · obtain ⟨earlier, found, later, front', rest, hparts, hfound, hfront⟩ := ih hrest
      refine ⟨part :: earlier, found, later, front', rest, ?_, hfound, ?_⟩
      · rw [hparts, List.cons_append]
      · rw [hbefore, hfront, List.flatMap_cons, List.append_assoc]
    · cases rest with
      | nil =>
        have hfirst : parts.flatMap f = [] ++ x :: after := hrest.symm
        obtain ⟨earlier, found, later, front', rest, hparts, hfound, hfront⟩ := ih hfirst
        refine ⟨part :: earlier, found, later, front', rest, ?_, hfound, ?_⟩
        · rw [hparts, List.cons_append]
        · rw [List.flatMap_cons, List.append_assoc, ← hfront, hpart, List.append_nil, List.append_nil]
      | cons y rest =>
        obtain ⟨rfl, -⟩ := List.cons.inj hrest
        exact ⟨[], part, parts, before, rest, rfl, hpart, rfl⟩

namespace Job

variable {job : Job σ}

/-- No attempt in a row is counted or begins before the first one. -/
theorem rounds_from {count index now : Nat} {s : σ} {r : Round σ} (h : r ∈ job.rounds index now s count) :
    index ≤ r.index ∧ now ≤ r.began := by
  induction count generalizing index now s with
  | zero => simp [rounds] at h
  | succ count ih =>
    rcases Ending.finished_or ((Round.mk index now s).course job).ending with ⟨time, result, hround⟩ | hround
    · rw [rounds_of_finished hround] at h
      rcases List.mem_cons.1 h with rfl | h
      · exact ⟨Nat.le_refl index, Nat.le_refl now⟩
      · obtain ⟨hindex, hbegan⟩ := ih h
        -- time does not run backwards in the first attempt
        have hordered := course_ordered ((job.attempt index).run s) now
        have htime : now ≤ time := hordered.endsNotBefore time (congrArg Ending.time? hround)
        omega
    · rw [rounds_of_not_finishes hround, List.mem_singleton] at h
      subst h
      exact ⟨Nat.le_refl index, Nat.le_refl now⟩

/-- Of two attempts in a row the first one is counted first, and has finished when the second one begins. -/
theorem rounds_in_turn (job : Job σ) (count index now : Nat) (s : σ) :
    (job.rounds index now s count).Pairwise fun r r' =>
      r.index < r'.index ∧ ∃ ended result, (r.course job).ending = .finished ended result ∧ ended ≤ r'.began := by
  induction count generalizing index now s with
  | zero => exact List.Pairwise.nil
  | succ count ih =>
    rcases Ending.finished_or ((Round.mk index now s).course job).ending with ⟨time, result, hround⟩ | hround
    · rw [rounds_of_finished hround]
      refine List.pairwise_cons.2 ⟨?_, ih (index + 1) time result.2⟩
      intro r' hr'
      obtain ⟨hindex, hbegan⟩ := rounds_from hr'
      exact ⟨hindex, time, result, hround, hbegan⟩
    · rw [rounds_of_not_finishes hround]
      exact List.pairwise_singleton _ _

/-- What is neither the question for the reports nor logged is seen of the attempts while a step runs. -/
theorem task_entries (job : Job σ) (sort : Event → Bool)
    (hcollect : sort (.call (.collect job.step.id job.step.reports)) = false) (hlog : ∀ r, sort (.log r) = false)
    (now : Nat) (s : σ) :
    ∃ rest, ((job.task.run s).course now).entries =
      (job.rounds 1 now s job.retries).flatMap (·.entries job) ++ rest ∧ only sort rest = [] := by
  have hattempts := job.attemptsCourse_entries job.retries 1 now none s
  rw [task_course, taskCourse]
  generalize job.attemptsCourse 1 now none s job.retries = attempts at hattempts
  obtain ⟨entries, ending⟩ := attempts
  cases hattempts
  cases ending with
  | finished time result =>
    rw [Course.andThen_finished]
    refine ⟨_, rfl, ?_⟩
    have hgathering : (job.collectCourse time result.2).Shows fun item => sort item = false :=
      job.shows_collectCourse hcollect (fun _ r _ => hlog r) time result.2
    apply only_of_shows
    apply hgathering.andThen
    intro ended collected
    exact Course.shows_entriesAt (shows_collectionRecords hlog result.1 collected.1) ended _
  | crashed time =>
    rw [Course.andThen_crashed]
    exact ⟨[], (List.append_nil _).symm, rfl⟩
  | never =>
    rw [Course.andThen_never]
    exact ⟨[], (List.append_nil _).symm, rfl⟩

/-- A start that is seen while a step runs is seen in one of its attempts, behind all that is seen of the attempts
before it. -/
theorem start_split (job : Job σ) {now : Nat} {s : σ} {before after : List (Entry Event)} {time : Nat} {i : Invocation}
    (h : ((job.task.run s).course now).entries = before ++ ⟨time, .call (.start i)⟩ :: after) :
    ∃ earlier r later front, job.rounds 1 now s job.retries = earlier ++ r :: later ∧ i.attempt = r.index ∧
      r.began ≤ time ∧ before = earlier.flatMap (·.entries job) ++ front := by
  obtain ⟨rest, hentries, hrest⟩ := job.task_entries Event.isLifecycle rfl (fun _ => rfl) now s
  -- behind the attempts nothing is started any more
  have hnot : ⟨time, .call (.start i)⟩ ∉ rest := by
    intro hmem
    have hmem : (⟨time, .call (.start i)⟩ : Entry Event) ∈ only Event.isLifecycle rest :=
      List.mem_filter.2 ⟨hmem, rfl⟩
    simp [hrest] at hmem
  rw [h] at hentries
  obtain ⟨after', hattempts⟩ := append_split hentries.symm hnot
  obtain ⟨earlier, r, later, front, back, hrounds, hr, hbefore⟩ := flatMap_split hattempts
  have hmem : ⟨time, .call (.start i)⟩ ∈ r.entries job := by
    rw [hr]
    exact List.mem_append_right front List.mem_cons_self
  refine ⟨earlier, r, later, front, hrounds, ?_, ?_, hbefore⟩
  · apply Round.attempt_of_start
    exact List.mem_filterMap.2 ⟨_, List.mem_map_of_mem hmem, rfl⟩
  · exact (course_ordered ((job.attemptError? r.index).run r.state) r.began).notBefore _ hmem

/-- In front of an attempt there are all attempts that are counted before it, and they have finished when it
begins. -/
theorem rounds_in_front {job : Job σ} {count now : Nat} {s : σ} {earlier later : List (Round σ)} {r : Round σ}
    (h : job.rounds 1 now s count = earlier ++ r :: later) {k : Nat} (hk : 1 ≤ k) (hlt : k < r.index) :
    ∃ q ∈ earlier, q.index = k ∧
      ∃ ended result, (q.course job).ending = .finished ended result ∧ ended ≤ r.began := by
  have hturn := job.rounds_in_turn count 1 now s
  have hindexes := job.rounds_indexes count 1 now s
  rw [h] at hturn hindexes
  obtain ⟨-, hlater, hearlier⟩ := List.pairwise_append.1 hturn
  have hr : r.index ∈ (earlier ++ r :: later).map (·.index) :=
    List.mem_map_of_mem (List.mem_append_right earlier List.mem_cons_self)
  have hmem : k ∈ (earlier ++ r :: later).map (·.index) := by
    rw [hindexes, List.mem_range'_1] at hr ⊢
    omega
  obtain ⟨q, hq, rfl⟩ := List.mem_map.1 hmem
  rcases List.mem_append.1 hq with hq | hq
  · exact ⟨q, hq, rfl, (hearlier q hq r List.mem_cons_self).2⟩
  · -- from this attempt on the indexes are too large
    rcases List.mem_cons.1 hq with rfl | hq
    · omega
    · have hgt := ((List.pairwise_cons.1 hlater).1 q hq).1
      omega

end Job

/-! ## The whole life -/

/-- The attempt ends at a time, with what has become of its process. -/
def Round.Concludes (r : Round σ) (job : Job σ) (time : Nat) (result : Except ProcessError Unit) : Prop :=
  ∃ attempt s, (r.course job).ending = .finished time (attempt, s) ∧
    attempt.outcome = match result with
      | .ok () => .ok ∅
      | .error e => .error (.process e)

namespace Round

section

variable {r : Round σ} {job : Job σ} {launch : Launch σ}

theorem concludes_of_fate (h : r.Launches job launch) {time : Nat} {result : Except ProcessError Unit}
    (hfate : (launch.process.fate job.timeoutSeconds? launch.time).ending = .finished time result) :
    r.Concludes job time result := by
  refine ⟨(r.begun launch).conclude result, launch.process.effect (time - launch.time) launch.state, ?_, ?_⟩
  · rw [ending_of_launches h, hfate]
    rfl
  · cases result <;> rfl

/-- A process that ends by itself soon enough is seen to do so, and nothing else is. -/
theorem own_end (h : r.Launches job launch) {millis : Nat} {closing : Closing} {result : Except ProcessError Unit}
    (hlifetime : launch.process.lifetime = .ends millis closing) (hresult : closing.result = .done result)
    (htimely : job.config.enforceTimeout = true →
      millis ≤ job.step.effectiveTimeout job.config.defaultTimeoutSeconds * 1000) :
    only Event.isLifecycle (r.course job).entries =
      [r.startEntry job launch, ⟨launch.time + millis, .call .exited⟩] ∧
    r.Concludes job (launch.time + millis) result := by
  have hseconds : ∀ seconds ∈ job.timeoutSeconds?, millis ≤ seconds * 1000 := by
    unfold Job.timeoutSeconds?
    split
    · rintro seconds ⟨⟩
      exact htimely ‹_›
    · simp
  have hfate := RunningProcess.fate_of_own_end hlifetime hresult hseconds launch.time
  constructor
  · rw [lifecycle_of_launches h, hfate]
    rfl
  · apply concludes_of_fate h
    rw [hfate]

/-- A process that never ends keeps its attempt if there is no timeout. -/
theorem endless (h : r.Launches job launch) (hlifetime : launch.process.lifetime = .endless)
    (henforced : job.config.enforceTimeout = false) :
    only Event.isLifecycle (r.course job).entries = [r.startEntry job launch] ∧ (r.course job).ending = .never := by
  have hseconds : job.timeoutSeconds? = none := by simp [Job.timeoutSeconds?, henforced]
  have hfate := RunningProcess.fate_of_endless hlifetime launch.time
  constructor
  · rw [lifecycle_of_launches h, hseconds, hfate]
    rfl
  · rw [ending_of_launches h, hseconds, hfate]
    rfl

/-- A process that has not ended in time is killed once, and its attempt has timed out when this is done. -/
theorem overtime (h : r.Launches job launch) (henforced : job.config.enforceTimeout = true)
    (hlate : ∀ millis closing, launch.process.lifetime = .ends millis closing →
      job.step.effectiveTimeout job.config.defaultTimeoutSeconds * 1000 < millis)
    (hcrashes : launch.process.killCrashes = false) :
    let limit := job.step.effectiveTimeout job.config.defaultTimeoutSeconds
    only Event.isLifecycle (r.course job).entries =
      [r.startEntry job launch, ⟨launch.time + limit * 1000, .call .kill⟩] ∧
    if launch.process.killHangs then (r.course job).ending = .never
    else r.Concludes job (launch.time + limit * 1000 + launch.process.killMillis) (.error (.timedOut limit)) := by
  intro limit
  have hseconds : job.timeoutSeconds? = some limit := by simp [Job.timeoutSeconds?, henforced, limit]
  obtain ⟨hkill, hending⟩ := RunningProcess.fate_of_overtime hlate hcrashes launch.time
  constructor
  · rw [lifecycle_of_launches h, hseconds, hkill]
  · split at hending
    · rw [if_pos ‹_›, ending_of_launches h, hseconds, hending]
      rfl
    · rw [if_neg ‹_›]
      apply concludes_of_fate h
      rw [hseconds, hending]

end

end Round

namespace Job

/-- What an attempt starts is what it has found out. Once its process has been started, the attempt sees one end of
it. Without a timeout this is the end that the process comes to by itself, if it does. With a timeout it is this one
too if the process ends by then, and else the process is killed at that time. The timeout is that of the step, or the
default if the step has none, in seconds and not zero. What comes of the process is the outcome of its attempt, which
ends when the process is gone, so when a process is started, all processes of earlier attempts are gone. -/
theorem processes_live_in_turn (job : Job σ) :
    let limit :=
      if job.step.timeoutSeconds = 0 then max job.config.defaultTimeoutSeconds 1 else job.step.timeoutSeconds
    let enforced := job.config.enforceTimeout
    1 ≤ limit ∧
    (∀ (r : Round σ) time i, ⟨time, .call (.start i)⟩ ∈ (r.course job).entries →
      ∃ plan s, (job.planning r.began r.state).ending = .finished time (.ok plan, s) ∧
        i = job.invocation r.index plan.command plan.environment) ∧
    (∀ (r : Round σ) (launch : Launch σ), r.Launches job launch →
      let seen := only Event.isLifecycle (r.course job).entries
      (∀ millis closing result, launch.process.lifetime = .ends millis closing → closing.result = .done result →
        (enforced = true → millis ≤ limit * 1000) →
        seen = [r.startEntry job launch, ⟨launch.time + millis, .call .exited⟩] ∧
        r.Concludes job (launch.time + millis) result) ∧
      (launch.process.lifetime = .endless → enforced = false →
        seen = [r.startEntry job launch] ∧ (r.course job).ending = .never) ∧
      (enforced = true → (∀ millis closing, launch.process.lifetime = .ends millis closing → limit * 1000 < millis) →
        launch.process.killCrashes = false →
        seen = [r.startEntry job launch, ⟨launch.time + limit * 1000, .call .kill⟩] ∧
        if launch.process.killHangs then (r.course job).ending = .never
        else r.Concludes job (launch.time + limit * 1000 + launch.process.killMillis) (.error (.timedOut limit)))) ∧
    (∀ (now : Nat) (s : σ) (before : List (Entry Event)) (time : Nat) (i : Invocation) (after : List (Entry Event)),
      ((job.task.run s).course now).entries = before ++ ⟨time, .call (.start i)⟩ :: after →
      ∀ k, 1 ≤ k → k < i.attempt →
        ∃ r ∈ job.rounds 1 now s job.retries, r.index = k ∧
        ∃ ended result, (r.course job).ending = .finished ended result ∧ ended ≤ time ∧
          ∀ launch, r.Launches job launch →
            ∃ first last closed call, before = first ++ r.entries job ++ last ∧
              only Event.isLifecycle (r.entries job) = [r.startEntry job launch, ⟨closed, .call call⟩] ∧
              (call = .exited ∨ call = .kill) ∧ closed ≤ ended) := by
  intro limit enforced
  refine ⟨job.step.effectiveTimeout_pos _, fun r time i => Round.planned_of_start, ?_, ?_⟩
  · intro r launch h seen
    refine ⟨?_, ?_, ?_⟩
    · intro millis closing result hlifetime hresult htimely
      exact Round.own_end h hlifetime hresult htimely
    · intro hlifetime henforced
      exact Round.endless h hlifetime henforced
    · intro henforced hlate hcrashes
      exact Round.overtime h henforced hlate hcrashes
  · intro now s before time i after hstart k hk hlt
    obtain ⟨earlier, r, later, front, hrounds, hindex, hbegan, hbefore⟩ := job.start_split hstart
    rw [hindex] at hlt
    obtain ⟨q, hq, hqk, ended, result, hended, hle⟩ := rounds_in_front hrounds hk hlt
    have hmem : q ∈ job.rounds 1 now s job.retries := by
      rw [hrounds]
      exact List.mem_append_left _ hq
    refine ⟨q, hmem, hqk, ended, result, hended, Nat.le_trans hle hbegan, ?_⟩
    intro launch hlaunch
    obtain ⟨closed, call, hclosed, hcall, hclosedBy⟩ := Round.closed_of_finished hlaunch hended
    obtain ⟨first, last, hsplit⟩ := List.append_of_mem hq
    refine ⟨first.flatMap (·.entries job), last.flatMap (·.entries job) ++ front, closed, call, ?_, hclosed,
      hcall, hclosedBy⟩
    rw [hbefore, hsplit, List.flatMap_append, List.flatMap_cons]
    simp only [List.append_assoc]

/-- A server that has ten seconds for each of its attempts. -/
def hurriedServer : Job (List Lifetime) :=
  { server with config := { defaultTimeoutSeconds := 10, enforceTimeout := true } }

/-- The same server, but it says itself that it has three seconds. -/
def briefServer : Job (List Lifetime) :=
  { hurriedServer with step := { server.step with timeoutSeconds := 3 } }

/-- A server that never ends is killed after its ten seconds, one that ends at that very moment is not, and the
second one is not started before the first one is gone. If the server has only three seconds, it is killed when these
are over. -/
theorem processes_live_in_turn_server :
    let first : Round (List Lifetime) := ⟨1, 0, [.endless, .ends 10000 (.exited 1)]⟩
    let second : Round (List Lifetime) := ⟨2, 10000, [.ends 10000 (.exited 1)]⟩
    first.Concludes hurriedServer 10000 (.error (.timedOut 10)) ∧
    second.Concludes hurriedServer 20000 (.error (.exit (some 1))) ∧
    (∃ r ∈ hurriedServer.rounds 1 0 [.endless, .ends 10000 (.exited 1)] 2, r.index = 1 ∧
      ∃ ended result, (r.course hurriedServer).ending = .finished ended result ∧ ended ≤ 10000) ∧
    second.Concludes briefServer 13000 (.error (.timedOut 3)) := by
  intro first second
  obtain ⟨-, -, hlife, hturn⟩ := processes_live_in_turn hurriedServer
  obtain ⟨-, -, hbrief, -⟩ := processes_live_in_turn briefServer
  have hfirst : first.Launches hurriedServer
      ⟨0, ⟨.entrypoint, ⟨"serve", []⟩, ∅⟩, { pid := none, lifetime := .endless }, [.ends 10000 (.exited 1)]⟩ :=
    ⟨_, rfl, rfl⟩
  have hsecond : second.Launches hurriedServer
      ⟨10000, ⟨.entrypoint, ⟨"serve", []⟩, ∅⟩, { pid := none, lifetime := .ends 10000 (.exited 1) }, []⟩ :=
    ⟨_, rfl, rfl⟩
  have hbriefly : second.Launches briefServer
      ⟨10000, ⟨.entrypoint, ⟨"serve", []⟩, ∅⟩, { pid := none, lifetime := .ends 10000 (.exited 1) }, []⟩ :=
    ⟨_, rfl, rfl⟩
  refine ⟨?_, ?_, ?_, ?_⟩
  · obtain ⟨-, -, hovertime⟩ := hlife first _ hfirst
    exact (hovertime rfl (by simp) rfl).2
  · obtain ⟨hownEnd, -⟩ := hlife second _ hsecond
    exact (hownEnd 10000 _ _ rfl rfl (by decide)).2
  · let c := (hurriedServer.task.run [.endless, .ends 10000 (.exited 1)]).course 0
    have hstart : c.entries = c.entries.take 5 ++ ⟨10000, .call (.start
        (hurriedServer.invocation 2 ⟨"serve", []⟩ ∅))⟩ :: c.entries.drop 6 := rfl
    obtain ⟨r, hr, hindex, ended, result, hended, hle, -⟩ :=
      hturn 0 _ _ _ _ _ hstart 1 (Nat.le_refl 1) (by decide)
    exact ⟨r, hr, hindex, ended, result, hended, hle⟩
  · -- the server would end by itself, but seven seconds too late
    have hlate : ∀ millis closing, Lifetime.ends 10000 (.exited 1) = .ends millis closing → 3 * 1000 < millis := by
      rintro millis closing ⟨⟩
      decide
    obtain ⟨-, -, hovertime⟩ := hbrief second _ hbriefly
    exact (hovertime rfl hlate rfl).2

end Job

end Sidecar
