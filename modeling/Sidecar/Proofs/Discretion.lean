import Sidecar.Host.Launcher
import Sidecar.Proofs.Observation

/-!
# Who tells what

Log records are told apart by their messages. A step has messages of its own for what becomes of its attempts and
its reports, and a run of the step has others for the settle window and for an end that comes too late. Both rely on
their collaborators not to use any of these messages.

The main statement is `collaborators_discreet`: the collaborators of the program, which consult a container runtime
and gather reports, do not use them, whatever they meet with.
-/

namespace Sidecar

open Activity

variable {σ α : Type}

/-! ## Records by their messages -/

/-- The messages of the records that a step makes about its attempts and its reports. -/
def stepMessages : List String :=
  ["Successfully executed background step", "background step attempt failed", "unable to collect test reports",
    "error while collecting test reports"]

/-- The message of the record that the settle window is over. -/
def launchedMessage : String :=
  "step still running, treating as launched"

/-- The messages of the records about the end of a step that nobody waits for. -/
def lateMessages : List String :=
  ["background step failed after settle window", "background step finished after settle window"]

/-- The messages of the records that a run makes about its step. -/
def runMessages : List String :=
  launchedMessage :: lateMessages

/-- The messages of the records about outcomes, by a step or by its run. -/
def outcomeMessages : List String :=
  stepMessages ++ lateMessages

/-- Whether an event is a log record with one of these messages. -/
def Event.bears (messages : List String) : Event → Bool
  | .log r => messages.contains r.message
  | _ => false

/-- Whether an event is a record that tells something about a step. -/
def Event.isTelling : Event → Bool :=
  bears (stepMessages ++ runMessages)

theorem Event.bears_append (first second : List String) (e : Event) :
    e.bears (first ++ second) = (e.bears first || e.bears second) := by
  cases e with
  | call call => rfl
  | metrics m => rfl
  | log r => simp [bears]

theorem Event.isTelling_of_step {e : Event} (h : e.bears stepMessages = true) : e.isTelling = true := by
  rw [isTelling, bears_append, h]
  rfl

/-- No message is used by a step and by its run. -/
theorem Event.not_run_of_step {e : Event} (h : e.bears stepMessages = true) : e.bears runMessages = false := by
  have hdisjoint : ∀ m ∈ stepMessages, m ∉ runMessages := by decide
  cases e with
  | call call => rfl
  | metrics m => rfl
  | log r =>
    simp only [bears, List.contains_iff_mem] at h
    simp [bears, hdisjoint _ h]

theorem Event.bears_within (messages : List String) (span : String) (e : Event) :
    (e.within span).bears messages = e.bears messages := by
  cases e <;> rfl

theorem Event.isTelling_within (span : String) (e : Event) : (e.within span).isTelling = e.isTelling :=
  bears_within _ span e

/-- Collaborators that leave it to a step and its run to tell what becomes of the step. -/
structure Collaborators.Discreet (c : Collaborators σ) : Prop where
  lookup : ∀ stepId image secret s, ∀ r ∈ (c.lookup stepId image secret s).1.records, (Event.log r).isTelling = false
  collect : ∀ declarations stepId s, ∀ r ∈ (c.collect declarations stepId s).1.records,
    (Event.log r).isTelling = false

/-! ## The collaborators of a machine -/

namespace Consultation

/-- Whatever is answered in a conversation, all that is logged in it is of some kind. -/
def Logs (kind : LogRecord → Prop) : Consultation α → Prop
  | finished _ => True
  | log record rest => kind record ∧ rest.Logs kind
  | store _ next => ∀ stored, (next stored).Logs kind
  | discard rest => rest.Logs kind
  | ask _ _ next => ∀ reply, (next reply).Logs kind

variable {β : Type} {kind : LogRecord → Prop}

theorem Logs.bind {x : Consultation α} {f : α → Consultation β} (hx : x.Logs kind) (hf : ∀ a, (f a).Logs kind) :
    (x >>= f).Logs kind := by
  change (x.bind f).Logs kind
  induction x with
  | finished value => exact hf value
  | log record rest ih => exact ⟨hx.1, ih hx.2⟩
  | store content next ih => exact fun stored => ih stored (hx stored)
  | discard rest ih => exact ih hx
  | ask argv credentials next ih => exact fun reply => ih reply (hx reply)

theorem Logs.carryOut {x : Consultation α} (hx : x.Logs kind) (partner : Partner σ) (t : Transcript) (s : σ)
    (ht : ∀ r ∈ t.records, kind r) : ∀ r ∈ (x.carryOut partner t s).2.1.records, kind r := by
  induction x generalizing t s with
  | finished value => exact ht
  | log record rest ih =>
    apply ih hx.2
    intro r hr
    rcases List.mem_append.1 hr with hr | hr
    · exact ht r hr
    · rw [List.mem_singleton.1 hr]
      exact hx.1
  | store content next ih =>
    unfold Consultation.carryOut
    split
    · exact ih _ (hx _) t s ht
    · exact ih _ (hx _) _ s ht
  | discard rest ih => exact ih hx _ s ht
  | ask argv credentials next ih => exact ih _ (hx _) _ _ ht

end Consultation

theorem ImageLookup.inspectOrPull_discreet (runtime : ContainerRuntime) (credentials : Option CredentialsVariable)
    (stepId image : String) :
    (inspectOrPull runtime credentials stepId image).Logs fun r => (Event.log r).isTelling = false := by
  have hinspect : (inspect runtime credentials image).Logs fun r => (Event.log r).isTelling = false :=
    fun _ => trivial
  have hpull : (run runtime credentials .pull ["pull", "--quiet", image]).Logs
      fun r => (Event.log r).isTelling = false := fun _ => trivial
  apply hinspect.bind
  intro result
  split
  · refine ⟨rfl, rfl, hpull.bind ?_⟩
    intro pulled
    cases pulled with
    | error e => trivial
    | ok text => exact hinspect
  · trivial

theorem ImageLookup.lookup_discreet (runtime : ContainerRuntime) (stepId image : String) (secret : Option String) :
    (lookup runtime stepId image secret).Logs fun r => (Event.log r).isTelling = false := by
  unfold lookup
  split
  · trivial
  · split
    · exact inspectOrPull_discreet _ _ _ _
    · split
      · trivial
      · intro stored
        cases stored with
        | error cause => trivial
        | ok u => exact (inspectOrPull_discreet _ _ _ _).bind fun result => trivial

theorem ReportSummary.addPatterns_discreet (w : Workspace) (stepId : String) (patterns : List String)
    (s : ReportSummary) : ∀ r ∈ (s.addPatterns w stepId patterns).records, (Event.log r).isTelling = false := by
  induction patterns generalizing s with
  | nil => simp [addPatterns]
  | cons pattern rest ih =>
    unfold addPatterns
    split
    · simp
    · intro r hr
      rcases List.mem_append.1 hr with hr | hr
      · rw [List.mem_singleton.1 hr]
        rfl
      · exact ih s r hr
    · split
      · simp
      · exact ih _

theorem Workspace.collect_discreet (w : Workspace) (declarations : List ReportDeclaration) (stepId : String) :
    ∀ r ∈ (w.collect declarations stepId).records, (Event.log r).isTelling = false := by
  have hsummary := ReportSummary.addPatterns_discreet w stepId (declarations.flatMap (·.paths)) {}
  rw [← w.summarize_eq] at hsummary
  unfold collect
  split
  · simp
  · intro r hr
    rcases List.mem_append.1 hr with hr | hr
    · exact hsummary r hr
    · dsimp only at hr
      split at hr
      · cases hr
      · rcases List.mem_append.1 hr with hr | hr
        · rw [List.mem_singleton.1 hr]
          rfl
        · cases hr

/-- The program leaves it to its steps and their runs to tell what becomes of them. -/
theorem Host.Machine.collaborators_discreet (runtime : ContainerRuntime) (root : String)
    (variableOf : String → Option String) (environment : Bindings) :
    (Host.Machine.collaborators runtime root variableOf environment).Discreet where
  lookup stepId image secret m :=
    (ImageLookup.lookup_discreet runtime stepId image secret).carryOut Host.Machine.runtimePartner {} m (by simp)
  collect declarations stepId m := (Workspace.mk m.tree root).collect_discreet declarations stepId

end Sidecar
