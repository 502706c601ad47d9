import Sidecar.Proofs.Precedence
import Sidecar.Proofs.Retries

/-!
# What is shown is what is executed

A plan is made to be shown, and each attempt of a step finds out for itself what to execute. Both ask the same, so
with collaborators that give the same answers at all times both come to the same: to one command line with one
environment, to one error, or to nothing at all.

The main statement is `shown_is_executed`. It rests on `steady_planFinding`: with such collaborators a plan does not
depend on when it is made, and makes one lookup of an image at most.
-/

namespace Sidecar

open Activity

variable {σ α β : Type}

/-! ## Lookups of images -/

/-- Whether a call is a lookup of an image. -/
def Call.isLookup : Call → Bool
  | .lookup .. => true
  | _ => false

/-- The lookups of images that have been made, in their order. -/
def lookups (entries : List (Entry Event)) : List Call :=
  (callsOf entries).filter Call.isLookup

@[simp] theorem lookups_append (first second : List (Entry Event)) :
    lookups (first ++ second) = lookups first ++ lookups second := by
  simp [lookups]

/-- No image is looked up for a process. -/
theorem Job.lookups_execution (job : Job σ) (index : Nat) (command : CommandLine) (environment : Bindings)
    (now : Nat) (s : σ) : lookups (job.execution index command environment now s).entries = [] := by
  have hfollowing : ∀ (process : RunningProcess σ) (s' : σ),
      lookups (job.following index command process now s').entries = [] := by
    intro process s'
    apply filter_callsOf_of_shows
    refine job.shows_following ?_ ?_ ?_ ?_ index command process now s'
    all_goals simp [Event.call?, Call.isLookup]
  unfold execution
  dsimp only
  split
  · rename_i process s' _
    rw [← List.singleton_append, lookups_append, hfollowing]
    rfl
  · rfl
  · rfl

/-- An attempt makes the lookups that it makes to find out what to execute. -/
theorem Round.lookups_entries (r : Round σ) (job : Job σ) :
    lookups (r.entries job) = lookups (job.planning r.began r.state).entries := by
  unfold lookups
  rw [callsOf_entries, course]
  rcases Ending.finished_or (job.planning r.began r.state).ending with ⟨time, ⟨found, s⟩, hplanned⟩ | hunplanned
  · cases found with
    | error e =>
      obtain ⟨a, -, -, hcourse⟩ := Job.attempt_of_refused hplanned r.index
      rw [hcourse]
    | ok plan =>
      have hexecution := job.lookups_execution r.index plan.command plan.environment time s
      rw [Job.attempt_of_planned hplanned]
      dsimp only
      rw [← lookups, lookups_append, hexecution, List.append_nil, lookups]
  · rw [(Job.attempt_of_unplanned hunplanned r.index).1]

/-! ## The same answers at all times -/

/-- Collaborators that always answer the questions of a step in the same way: they know what its image is, and what
is never answered is never answered. How long an answer takes, and what is logged with it, may vary. -/
structure Collaborators.Steady (c : Collaborators σ) (secretVariable : String) (step : Step)
    (reply : Except ImageError ImageMetadata) : Prop where
  lookup : ∀ s, (c.lookup step.id step.image (c.environment secretVariable) s).1.value = reply
  lookupComes : ∀ s s', (c.lag (.lookup step.id step.image (c.environment secretVariable)) s).comes =
    (c.lag (.lookup step.id step.image (c.environment secretVariable)) s').comes
  expandComes : ∀ raw s s', (c.lag (.expand raw) s).comes = (c.lag (.expand raw) s').comes

namespace Finding

section

variable {f : Finding σ α} {now : Nat} {s : σ}

/-- What has been found out first is passed on. -/
theorem andThen_of_ok {a : α} (h : found? (f now s) = some (.ok a)) (g : α → Finding σ β) :
    ∃ time s', (f.andThen g) now s =
      ⟨(f now s).entries ++ (g a time s').entries, (g a time s').ending⟩ := by
  obtain ⟨time, s', hending⟩ := found?_eq_some.1 h
  exact ⟨time, s', Course.andThen_of_finished hending _⟩

/-- If the first thing that is found out is an error, nothing else is asked. -/
theorem andThen_of_error {e : ResolutionError} (h : found? (f now s) = some (.error e)) (g : α → Finding σ β) :
    ((f.andThen g) now s).entries = (f now s).entries ∧ found? ((f.andThen g) now s) = some (.error e) := by
  obtain ⟨time, s', hending⟩ := found?_eq_some.1 h
  have hcourse : (f.andThen g) now s = ⟨(f now s).entries ++ [], .finished time (.error e, s')⟩ :=
    Course.andThen_of_finished hending _
  rw [hcourse, List.append_nil]
  exact ⟨rfl, rfl⟩

theorem andThen_of_none (h : found? (f now s) = none) (g : α → Finding σ β) :
    ((f.andThen g) now s).entries = (f now s).entries ∧ found? ((f.andThen g) now s) = none := by
  have hcourse : ((f.andThen g) now s).entries = (f now s).entries ∧ ((f.andThen g) now s).ending.finishes = false :=
    Course.andThen_of_not_finishes (found?_eq_none.1 h) _
  exact ⟨hcourse.1, found?_eq_none.2 hcourse.2⟩

/-- Two things have been found out in a row only if the first one has been, and the second one after it. -/
theorem andThen_eq_ok {g : α → Finding σ β} {b : β} (h : found? ((f.andThen g) now s) = some (.ok b)) :
    ∃ a time s', found? (f now s) = some (.ok a) ∧ found? (g a time s') = some (.ok b) := by
  cases hfound : found? (f now s) with
  | none => simp [(andThen_of_none hfound g).2] at h
  | some found =>
    cases found with
    | error e => simp [(andThen_of_error hfound g).2] at h
    | ok a =>
      obtain ⟨time, s', hcourse⟩ := andThen_of_ok hfound g
      rw [hcourse] at h
      exact ⟨a, time, s', rfl, h⟩

end

/-- Whenever this is found out, the same is asked, and the same is found out. -/
def Gives (f : Finding σ α) (calls : List Call) (result? : Option (Except ResolutionError α)) : Prop :=
  ∀ now s, callsOf (f now s).entries = calls ∧ found? (f now s) = result?

/-- Something that is found out in the same way at all times, with so many lookups at most. -/
def Steady (most : Nat) (f : Finding σ α) : Prop :=
  ∃ calls result?, (calls.filter Call.isLookup).length ≤ most ∧ f.Gives calls result?

section

variable {f : Finding σ α} {most more : Nat}

theorem Steady.mono (h : f.Steady most) (hle : most ≤ more) : f.Steady more := by
  obtain ⟨calls, result?, hcalls, hf⟩ := h
  exact ⟨calls, result?, Nat.le_trans hcalls hle, hf⟩

/-- What has been found out once is found out at all times. -/
theorem Steady.found (h : f.Steady most) {now : Nat} {s : σ} {result : Except ResolutionError α}
    (hfound : found? (f now s) = some result) (now' : Nat) (s' : σ) : found? (f now' s') = some result := by
  obtain ⟨calls, result?, -, hf⟩ := h
  rw [(hf now' s').2, ← (hf now s).2, hfound]

theorem steady_noted {items : List Event} (h : callsIn items = []) (result : Except ResolutionError α) :
    (noted items result : Finding σ α).Steady 0 :=
  ⟨[], some result, Nat.le_refl 0, fun now s => ⟨by simp [noted, h], rfl⟩⟩

theorem steady_known (result : Except ResolutionError α) : (known result : Finding σ α).Steady 0 :=
  steady_noted rfl result

/-- What is found out in the same way first leads on in the same way. -/
theorem Steady.andThen {g : α → Finding σ β} (hf : f.Steady most) (hg : ∀ a, (g a).Steady more) :
    (f.andThen g).Steady (most + more) := by
  obtain ⟨calls, result?, hcalls, hf⟩ := hf
  cases result? with
  | none =>
    refine ⟨calls, none, by omega, ?_⟩
    intro now s
    obtain ⟨hentries, hfound⟩ := andThen_of_none (hf now s).2 g
    exact ⟨by rw [hentries, (hf now s).1], hfound⟩
  | some result =>
    cases result with
    | error e =>
      refine ⟨calls, some (.error e), by omega, ?_⟩
      intro now s
      obtain ⟨hentries, hfound⟩ := andThen_of_error (hf now s).2 g
      exact ⟨by rw [hentries, (hf now s).1], hfound⟩
    | ok a =>
      obtain ⟨calls', result?, hcalls', hga⟩ := hg a
      refine ⟨calls ++ calls', result?, ?_, ?_⟩
      · rw [List.filter_append, List.length_append]
        omega
      · intro now s
        obtain ⟨time, s', hcourse⟩ := andThen_of_ok (hf now s).2 g
        rw [hcourse]
        constructor
        · rw [callsOf_append, (hf now s).1, (hga time s').1]
        · exact (hga time s').2

theorem Steady.mapResult (hf : f.Steady most) (g : α → Except ResolutionError β) : (f.mapResult g).Steady most :=
  hf.andThen fun a => steady_known (g a)

/-- A question is steady if it is always answered or never, and what is made of the answer does not vary. -/
theorem steady_asked_andThen (c : Collaborators σ) {call : Call} {answer : σ → α × σ} {g : α → Finding σ β}
    (hcomes : ∀ s s', (c.lag call s).comes = (c.lag call s').comes)
    (hcall : ([call].filter Call.isLookup).length ≤ most) {result : Except ResolutionError β}
    (hg : ∀ s, (g (answer s).1).Immediate result) :
    ((asked c call answer).andThen g).Steady most := by
  by_cases hanswered : ∃ s, (c.lag call s).comes = true
  · obtain ⟨s₀, hs₀⟩ := hanswered
    refine ⟨[call], some result, hcall, ?_⟩
    intro now s
    obtain ⟨hcalls, hending⟩ := asked_andThen c call answer g s (hg s) now
    rw [Lag.ending_of_comes ((hcomes s s₀).trans hs₀)] at hending
    exact ⟨hcalls, found?_eq_some.2 ⟨_, _, hending⟩⟩
  · refine ⟨[call], none, hcall, ?_⟩
    intro now s
    obtain ⟨hcalls, hending⟩ := asked_andThen c call answer g s (hg s) now
    have hs : (c.lag call s).comes = false := by
      rw [Bool.eq_false_iff]
      exact fun h => hanswered ⟨s, h⟩
    refine ⟨hcalls, found?_eq_none.2 ?_⟩
    rw [hending]
    exact (Lag.ending_finishes _ now _).trans hs

end

end Finding

namespace Resolution

open Finding

section

variable {c : Collaborators σ} {secretVariable : String} {step : Step} {reply : Except ImageError ImageMetadata}

theorem steady_expandFinding (h : c.Steady secretVariable step reply) (field raw : String) :
    (expandFinding c field raw).Steady 0 := by
  have hanswer : ∀ s : σ, (known (expandResult field (c.expand raw, s).1) : Finding σ String).Immediate
      (expandResult field (c.expand raw)) := fun _ => ⟨[], rfl, rfl⟩
  exact steady_asked_andThen c (h.expandComes raw) (Nat.le_refl 0) hanswer

theorem steady_scriptFinding (h : c.Steady secretVariable step reply) : (scriptFinding c step).Steady 0 := by
  unfold scriptFinding
  split
  · split
    · exact steady_known _
    · exact (steady_expandFinding h _ _).mapResult _
  · exact steady_known _

theorem steady_entriesFinding (h : c.Steady secretVariable step reply) (entries : List (String × String)) :
    (entriesFinding c entries).Steady 0 := by
  induction entries with
  | nil => exact steady_known _
  | cons entry rest ih =>
    have hentry : (environmentEntryFinding c entry).Steady 0 := (steady_expandFinding h _ _).mapResult _
    exact hentry.andThen fun resolved => ih.mapResult _

theorem steady_environmentFinding (h : c.Steady secretVariable step reply) : (environmentFinding c step).Steady 0 :=
  (steady_entriesFinding h _).mapResult _

theorem steady_imageFinding (h : c.Steady secretVariable step reply) :
    (imageFinding c secretVariable step).Steady 1 := by
  have hanswer : ∀ s, Immediate
      (noted ((c.lookup step.id step.image (c.environment secretVariable) s).1.records.map .log)
        (imageResult step (c.lookup step.id step.image (c.environment secretVariable) s).1.value) : Finding σ _)
      (imageResult step reply) := by
    intro s
    rw [h.lookup s]
    exact ⟨_, callsIn_logs _, rfl⟩
  exact steady_asked_andThen c h.lookupComes (Nat.le_refl 1) hanswer

/-- Only the image is looked up to find a command line. -/
theorem steady_applyFinding (h : c.Steady secretVariable step reply) (script : Option String) (strategy : Strategy) :
    (applyFinding c secretVariable step script strategy).Steady ([strategy].count .image) := by
  cases strategy with
  | entrypoint => exact steady_known _
  | image => exact steady_imageFinding h
  | shell =>
    cases script with
    | none => exact steady_known _
    | some text =>
      unfold applyFinding
      dsimp only
      split
      · exact steady_known _
      · exact steady_known _

theorem steady_strategiesFinding (h : c.Steady secretVariable step reply) (script : Option String)
    (strategies : List Strategy) :
    (strategiesFinding c secretVariable step script strategies).Steady (strategies.count .image) := by
  induction strategies with
  | nil => exact steady_known _
  | cons strategy rest ih =>
    rw [← List.singleton_append, List.count_append]
    apply (steady_applyFinding h script strategy).andThen
    intro found
    cases found with
    | none => exact ih
    | some command =>
      have hresolved : (noted [resolvedRecord step strategy command] (.ok (strategy, command)) :
          Finding σ (Strategy × CommandLine)).Steady 0 := steady_noted rfl _
      exact hresolved.mono (Nat.zero_le _)

/-- The image is among the strategies once. -/
theorem steady_commandFinding (h : c.Steady secretVariable step reply) (script : Option String) :
    (commandFinding c secretVariable step script).Steady 1 :=
  steady_strategiesFinding h script Strategy.priority

theorem steady_planFinding (h : c.Steady secretVariable step reply) :
    (planFinding c secretVariable step).Steady 1 := by
  have hplan : (planFinding c secretVariable step).Steady (0 + (0 + 1)) := by
    apply (steady_scriptFinding h).andThen
    intro text
    apply (steady_environmentFinding h).andThen
    intro environment
    exact (steady_commandFinding h text).mapResult _
  exact hplan

/-- Without the environment of a plan one comes to the same command line. -/
theorem resolveFinding_of_plan (h : c.Steady secretVariable step reply) {now : Nat} {s : σ} {plan : Plan}
    (hplan : found? (planFinding c secretVariable step now s) = some (.ok plan)) (now' : Nat) (s' : σ) :
    found? (resolveFinding c secretVariable step now' s') = some (.ok plan.command) := by
  obtain ⟨text, time, s₁, hscript, hrest⟩ := andThen_eq_ok hplan
  obtain ⟨environment, time₂, s₂, -, hrest⟩ := andThen_eq_ok hrest
  obtain ⟨⟨strategy, command⟩, time₃, s₃, hcommand, hrest⟩ := andThen_eq_ok hrest
  cases hrest
  -- the script is found at the other time too, and then the command line for it
  obtain ⟨time', s₁', hresolve⟩ := andThen_of_ok ((steady_scriptFinding h).found hscript now' s')
    fun text => (commandFinding c secretVariable step text).mapResult fun found => .ok found.2
  obtain ⟨time'', s₂', hcommand'⟩ := andThen_of_ok ((steady_commandFinding h text).found hcommand time' s₁')
    fun found => known (.ok found.2)
  unfold resolveFinding
  rw [hresolve]
  show found? ((commandFinding c secretVariable step text).mapResult _ time' s₁') = _
  unfold mapResult
  rw [hcommand']
  rfl

end

end Resolution

/-! ## Plans and attempts -/

theorem Round.of_mem_starts {r : Round σ} {job : Job σ} {i : Invocation}
    {found? : Option (Except ResolutionError Resolution.Plan)} (h : .start i ∈ r.starts job found?) :
    ∃ plan, found? = some (.ok plan) ∧ i = job.invocation r.index plan.command plan.environment := by
  unfold starts at h
  split at h
  · rename_i plan
    cases List.mem_singleton.1 h
    exact ⟨plan, rfl, rfl⟩
  · cases h
  · cases h

/-- The attempt fails because of an error about what to execute. -/
def Round.Refuses (r : Round σ) (job : Job σ) (e : ResolutionError) : Prop :=
  ∃ time attempt s, (r.course job).ending = .finished time (attempt, s) ∧ attempt.outcome = .error (.resolution e)

/-- An attempt fails because of such an error if this is what it finds out. Later it can only fail because of its
process. -/
theorem Round.refuses_iff (r : Round σ) (job : Job σ) (e : ResolutionError) :
    r.Refuses job e ↔ Finding.found? (job.planning r.began r.state) = some (.error e) := by
  unfold Refuses course
  cases hfound : Finding.found? (job.planning r.began r.state) with
  | none =>
    have hunfinished := (Job.attempt_of_unplanned (Finding.found?_eq_none.1 hfound) r.index).2
    constructor
    · rintro ⟨time, attempt, s, hending, -⟩
      simp [hending, Ending.finishes] at hunfinished
    · simp
  | some found =>
    obtain ⟨time, s, hending⟩ := Finding.found?_eq_some.1 hfound
    cases found with
    | error e' =>
      obtain ⟨a, -, houtcome, hcourse⟩ := Job.attempt_of_refused hending r.index
      rw [hcourse]
      constructor
      · rintro ⟨time', attempt, s', hfinished, hrefused⟩
        cases hfinished
        rw [houtcome] at hrefused
        cases hrefused
        rfl
      · rintro ⟨⟩
        exact ⟨time, a, s, rfl, houtcome⟩
    | ok plan =>
      rw [Job.attempt_of_planned hending]
      constructor
      · rintro ⟨time', attempt, s', hfinished, hrefused⟩
        dsimp only at hfinished
        cases hexecuted : (job.execution r.index plan.command plan.environment time s).ending with
        | crashed ended => simp [hexecuted] at hfinished
        | never => simp [hexecuted] at hfinished
        | finished ended result =>
          rw [hexecuted] at hfinished
          cases hfinished
          -- what has become of the process is no error of this kind
          cases hresult : result.1 <;> simp [hresult, Attempt.conclude, Attempt.fail] at hrefused
      · simp

namespace Job

/-- With steady collaborators a plan is what is executed, whenever it is made: it has a command line and an
environment exactly if each attempt starts a process with them, and an error exactly if each attempt fails because
of this error without having started anything. Each attempt makes the lookups that the plan makes, one at most. Once
an attempt has started something, its command line is found without the environment too. -/
theorem shown_is_executed (job : Job σ) {reply : Except ImageError ImageMetadata}
    (h : job.collaborators.Steady job.config.imageSecretVariable job.step reply) (shownAt now : Nat)
    (shownFrom s : σ) :
    let c := job.collaborators
    let secretVariable := job.config.imageSecretVariable
    let shown := ((Resolution.plan c secretVariable job.step).run.run shownFrom).course shownAt
    let rounds := job.rounds 1 now s job.retries
    (∀ command environment,
      (∃ time plan s', shown.ending = .finished time (.ok plan, s') ∧
        plan.command = command ∧ plan.environment = environment) ↔
      ∀ r ∈ rounds, ∃ i, milestones (r.entries job) = [.start i] ∧
        i.command = command ∧ i.environment = environment) ∧
    (∀ e, (∃ time s', shown.ending = .finished time (.error e, s')) ↔
      ∀ r ∈ rounds, milestones (r.entries job) = [] ∧ r.Refuses job e) ∧
    (∀ r ∈ rounds, lookups (r.entries job) = lookups shown.entries) ∧
    (lookups shown.entries).length ≤ 1 ∧
    (∀ r ∈ rounds, ∀ i, .start i ∈ callsOf (r.entries job) → ∀ resolvedAt resolvedFrom,
      ∃ time s', (((Resolution.resolve c secretVariable job.step).run.run resolvedFrom).course resolvedAt).ending =
        .finished time (.ok i.command, s')) := by
  intro c secretVariable shown rounds
  have hfirst : (⟨1, now, s⟩ : Round σ) ∈ rounds := job.first_mem_rounds now s
  have hsteady := Resolution.steady_planFinding h
  obtain ⟨calls, result?, hcalls, hgives⟩ := hsteady
  have hplanning : ∀ time s', callsOf (job.planning time s').entries = calls ∧
      Finding.found? (job.planning time s') = result? := by
    intro time s'
    rw [planning_eq]
    exact hgives time s'
  obtain ⟨hshownCalls, hshown⟩ := hplanning shownAt shownFrom
  -- all attempts find out what has been shown, and go on accordingly
  have hstarts : ∀ r : Round σ, milestones (r.entries job) = r.starts job result? := by
    intro r
    rw [r.milestones_of_found, (hplanning r.began r.state).2]
  have hrefuses : ∀ (r : Round σ) e, r.Refuses job e ↔ result? = some (.error e) := by
    intro r e
    rw [r.refuses_iff, (hplanning r.began r.state).2]
  refine ⟨?_, ?_, ?_, ?_, ?_⟩
  · intro command environment
    constructor
    · rintro ⟨time, plan, s', hending, rfl, rfl⟩ r -
      have hplan : result? = some (.ok plan) := hshown.symm.trans (Finding.found?_eq_some.2 ⟨time, s', hending⟩)
      refine ⟨job.invocation r.index plan.command plan.environment, ?_, rfl, rfl⟩
      rw [hstarts r, hplan]
      rfl
    · intro hall
      obtain ⟨i, hi, rfl, rfl⟩ := hall _ hfirst
      have hmem : .start i ∈ (⟨1, now, s⟩ : Round σ).starts job result? := by
        rw [← hstarts, hi]
        exact List.mem_singleton_self _
      obtain ⟨plan, hplan, rfl⟩ := Round.of_mem_starts hmem
      obtain ⟨time, s', hending⟩ := Finding.found?_eq_some.1 (hshown.trans hplan)
      exact ⟨time, plan, s', hending, rfl, rfl⟩
  · intro e
    constructor
    · rintro ⟨time, s', hending⟩ r -
      have hrefused : result? = some (.error e) := hshown.symm.trans (Finding.found?_eq_some.2 ⟨time, s', hending⟩)
      refine ⟨?_, (hrefuses r e).2 hrefused⟩
      rw [hstarts r, hrefused]
      rfl
    · intro hall
      exact Finding.found?_eq_some.1 (hshown.trans ((hrefuses _ e).1 (hall _ hfirst).2))
  · intro r _
    rw [Round.lookups_entries, lookups, (hplanning r.began r.state).1, ← hshownCalls]
    rfl
  · rw [← hshownCalls] at hcalls
    exact hcalls
  · intro r _ i hi resolvedAt resolvedFrom
    have hmilestone : .start i ∈ milestones (r.entries job) := List.mem_filter.2 ⟨hi, rfl⟩
    rw [hstarts] at hmilestone
    obtain ⟨plan, hplan, rfl⟩ := Round.of_mem_starts hmilestone
    have hfound := Resolution.resolveFinding_of_plan h ((hgives shownAt shownFrom).2.trans hplan) resolvedAt
      resolvedFrom
    rw [← Resolution.resolve_finds c secretVariable job.step resolvedAt resolvedFrom] at hfound
    exact Finding.found?_eq_some.1 hfound

/-- A step whose command cannot be expanded. -/
def unreadable : Job Unit where
  step := { id := "unreadable", command := "$(", shell := .bash }
  collaborators := .refusing

/-- Both attempts of a server execute what is shown for it, and a step without a plan fails as is shown. -/
theorem shown_is_executed_server :
    (∀ r ∈ server.rounds 1 0 [.ends 1000 (.exited 1), .ends 1500 (.exited 2)] server.retries,
      ∃ i, milestones (r.entries server) = [.start i] ∧ i.command = ⟨"serve", []⟩ ∧ i.environment = ∅) ∧
    (∀ r ∈ unreadable.rounds 1 0 () unreadable.retries, milestones (r.entries unreadable) = [] ∧
      r.Refuses unreadable (.expression "command" (.malformed 0 "$("))) := by
  have hserver : server.collaborators.Steady server.config.imageSecretVariable server.step (.error .emptyReference) :=
    ⟨fun _ => rfl, fun _ _ => rfl, fun _ _ _ => rfl⟩
  have hunreadable : unreadable.collaborators.Steady unreadable.config.imageSecretVariable unreadable.step
      (.error .emptyReference) := ⟨fun _ => rfl, fun _ _ => rfl, fun _ _ _ => rfl⟩
  constructor
  · exact ((shown_is_executed server hserver 7 0 [] _).1 ⟨"serve", []⟩ ∅).1 ⟨7, _, _, rfl, rfl, rfl⟩
  · exact ((shown_is_executed unreadable hunreadable 7 0 () ()).2.1 _).1 ⟨7, _, rfl⟩

end Job

end Sidecar
