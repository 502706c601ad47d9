import Sidecar.Collaborators
import Sidecar.Proofs.Course

/-!
# Observations

Views on what has been seen of a step: the calls of its collaborators, the metrics of its processes, and both
of them with their times. Log records belong to none of these, and the spans that an event is seen in do not
matter for any.
-/

namespace Sidecar

open Activity

variable {α : Type}

/-- The call that an event shows. -/
def Event.call? : Event → Option Call
  | .call asked => some asked
  | _ => none

/-- The metrics that an event shows. -/
def Event.metrics? : Event → Option ProcessMetrics
  | .metrics m => some m
  | _ => none

@[simp] theorem Event.call?_within (span : String) (e : Event) : (e.within span).call? = e.call? := by
  cases e <;> rfl

/-! ## Calls -/

/-- The calls among items. -/
def callsIn (items : List Event) : List Call :=
  items.filterMap Event.call?

@[simp] theorem callsIn_nil : callsIn [] = [] := rfl

@[simp] theorem callsIn_append (first second : List Event) :
    callsIn (first ++ second) = callsIn first ++ callsIn second :=
  List.filterMap_append

@[simp] theorem callsIn_call (call : Call) (items : List Event) :
    callsIn (.call call :: items) = call :: callsIn items := rfl

@[simp] theorem callsIn_log (r : LogRecord) (items : List Event) :
    callsIn (.log r :: items) = callsIn items := rfl

@[simp] theorem callsIn_metrics (m : ProcessMetrics) (items : List Event) :
    callsIn (.metrics m :: items) = callsIn items := rfl

/-- Log records are no calls. -/
@[simp] theorem callsIn_logs (records : List LogRecord) : callsIn (records.map .log) = [] := by
  induction records with
  | nil => rfl
  | cons r records ih => simpa using ih

/-- The calls that have been seen, in their order. -/
def callsOf (entries : List (Entry Event)) : List Call :=
  callsIn (entries.map (·.item))

@[simp] theorem callsOf_nil : callsOf [] = [] := rfl

@[simp] theorem callsOf_append (first second : List (Entry Event)) :
    callsOf (first ++ second) = callsOf first ++ callsOf second := by
  simp [callsOf]

@[simp] theorem callsOf_cons (time : Nat) (item : Event) (entries : List (Entry Event)) :
    callsOf (⟨time, item⟩ :: entries) = callsIn [item] ++ callsOf entries := by
  rw [callsOf, List.map_cons, ← List.singleton_append, callsIn_append]
  rfl

@[simp] theorem callsOf_entriesAt (time : Nat) (items : List Event) :
    callsOf (entriesAt time items) = callsIn items := by
  simp [callsOf, entriesAt, Function.comp_def]

/-- A span changes no call. -/
@[simp] theorem callsOf_within (span : String) (c : Course Event α) :
    callsOf (c.mapItems (.within span)).entries = callsOf c.entries := by
  simp [callsOf, callsIn, Course.mapItems, List.filterMap_map, Function.comp_def]

/-- What follows without calls adds none. -/
theorem callsOf_andThen {β : Type} (c : Course Event α) {f : Nat → α → Course Event β}
    (hf : ∀ time value, callsOf (f time value).entries = []) :
    callsOf (c.andThen f).entries = callsOf c.entries := by
  obtain ⟨entries, ending⟩ := c
  cases ending with
  | finished time value => rw [Course.andThen_finished, callsOf_append, hf, List.append_nil]
  | crashed time => rw [Course.andThen_crashed]
  | never => rw [Course.andThen_never]

/-! ## Milestones -/

/-- Whether a call is one to gather reports. -/
def Call.isCollect : Call → Bool
  | .collect .. => true
  | _ => false

/-- Whether a call is one that starts a process, or one to gather reports. -/
def Call.isMilestone : Call → Bool
  | .start _ => true
  | call => call.isCollect

/-- The calls that have started a process or gathered reports, in their order. -/
def milestones (entries : List (Entry Event)) : List Call :=
  (callsOf entries).filter Call.isMilestone

@[simp] theorem milestones_append (first second : List (Entry Event)) :
    milestones (first ++ second) = milestones first ++ milestones second := by
  simp [milestones]

/-- All calls to gather reports are among the milestones. -/
theorem filter_isCollect_milestones (entries : List (Entry Event)) :
    (milestones entries).filter Call.isCollect = (callsOf entries).filter Call.isCollect := by
  unfold milestones
  rw [List.filter_filter]
  apply List.filter_congr
  intro call _
  cases call <;> rfl

/-- A course without any milestones. -/
def Plain (c : Course Event α) : Prop :=
  milestones c.entries = []

/-- Calls of a sort that a course does not show are not among its calls. -/
theorem filter_callsOf_of_shows {sort : Call → Bool} {c : Course Event α}
    (h : c.Shows fun item => ∀ call ∈ item.call?, sort call = false) : (callsOf c.entries).filter sort = [] := by
  unfold callsOf callsIn
  rw [List.filter_eq_nil_iff]
  intro call hcall
  obtain ⟨item, hitem, hcall⟩ := List.mem_filterMap.1 hcall
  obtain ⟨e, he, rfl⟩ := List.mem_map.1 hitem
  simp [h e he call hcall]

/-- A course is plain if none of its calls is a milestone. -/
theorem plain_of_shows {c : Course Event α}
    (h : c.Shows fun item => ∀ call ∈ item.call?, call.isMilestone = false) : Plain c :=
  filter_callsOf_of_shows h

/-- No process is started in a plain course. -/
theorem Plain.not_start {c : Course Event α} (h : Plain c) (time : Nat) (i : Invocation) :
    ⟨time, .call (.start i)⟩ ∉ c.entries := by
  intro hmem
  have hcall : .start i ∈ callsOf c.entries := List.mem_filterMap.2 ⟨_, List.mem_map_of_mem hmem, rfl⟩
  have hmilestone : .start i ∈ milestones c.entries := List.mem_filter.2 ⟨hcall, rfl⟩
  rw [h] at hmilestone
  cases hmilestone

/-! ## Deeds -/

/-- Whether an event is something that a step does, and not only a word about it. -/
def Event.isDeed : Event → Bool
  | .log _ => false
  | _ => true

/-- What a step has done: its calls and its metrics, with their times. -/
def deeds (entries : List (Entry Event)) : List (Entry Event) :=
  entries.filter fun e => e.item.isDeed

@[simp] theorem deeds_append (first second : List (Entry Event)) :
    deeds (first ++ second) = deeds first ++ deeds second :=
  List.filter_append _ _

/-- A span changes no deed. -/
@[simp] theorem deeds_within (span : String) (c : Course Event α) :
    deeds (c.mapItems (.within span)).entries = deeds c.entries := by
  show deeds (c.entries.map _) = deeds c.entries
  induction c.entries with
  | nil => rfl
  | cons e entries ih =>
    obtain ⟨time, item⟩ := e
    cases item with
    | call asked => exact congrArg (⟨time, .call asked⟩ :: ·) ih
    | log record => exact ih
    | metrics m => exact congrArg (⟨time, .metrics m⟩ :: ·) ih

/-- Deeds before a time can be picked out in either order. -/
theorem deeds_entriesBefore (time : Nat) (entries : List (Entry Event)) :
    deeds (entriesBefore time entries) = entriesBefore time (deeds entries) :=
  only_entriesBefore Event.isDeed time entries

/-- The metrics that have been seen, in their order. -/
def metricsIn (entries : List (Entry Event)) : List ProcessMetrics :=
  entries.filterMap fun e => e.item.metrics?

/-- All metrics are among the deeds. -/
theorem metricsIn_deeds (entries : List (Entry Event)) : metricsIn (deeds entries) = metricsIn entries := by
  induction entries with
  | nil => rfl
  | cons e entries ih =>
    obtain ⟨time, item⟩ := e
    cases item with
    | call asked => exact ih
    | log record => exact ih
    | metrics m => exact congrArg (m :: ·) ih

end Sidecar
