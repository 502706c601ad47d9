import Sidecar.Activity
import Sidecar.Image.Metadata
import Sidecar.Log
import Sidecar.Metrics
import Sidecar.Process.Invocation
import Sidecar.Step.Spec

/-!
# Collaborators

What a step relies on: something that expands expressions, looks up images, starts processes and gathers
reports. Collaborators are described by their answers, and by how these come: an answer may take its time, and
there may never be one. They share a state of type `σ`, through which an answer may depend on what has been
asked before and on what processes have done.

A process is described by its whole life: when and how it ends if it is left alone, and how killing it goes.
Everything that is asked of a collaborator is seen as a `Call` in the activity that asks.
-/

namespace Sidecar

/-- How a process ends when nobody kills it. -/
inductive Closing where
  | exited (code : Int)
  | signalled
  /-- Nobody can tell how it ended. -/
  | unknown (cause : SystemError)
  /-- Whoever waits for the process crashes. -/
  | crash
deriving DecidableEq, Repr, Inhabited

/-- How long a process lives when nobody kills it. -/
inductive Lifetime where
  | endless
  | ends (millis : Nat) (closing : Closing)
deriving DecidableEq, Repr, Inhabited

/-- How an answer comes: after how long, and whether it comes at all. -/
structure Lag where
  millis : Nat := 0
  /-- Whether whoever should answer crashes instead. -/
  crashes : Bool := false
  /-- Whether there is never an answer. -/
  hangs : Bool := false
deriving DecidableEq, Repr, Inhabited

/-- A process that has been started. -/
structure RunningProcess (σ : Type) where
  pid : Option Nat
  lifetime : Lifetime
  /-- How long killing takes. -/
  killMillis : Nat := 0
  /-- Whether whoever kills it crashes. -/
  killCrashes : Bool := false
  /-- Whether killing it never comes to an end. -/
  killHangs : Bool := false
  /-- Why it cannot be killed. -/
  killFault : Option SystemError := none
  /-- What the process has done to the state when it is gone after so many milliseconds. -/
  effect : Nat → σ → σ := fun _ s => s

/-- What starting a process leads to. -/
inductive StartReply (σ : Type) where
  | started (process : RunningProcess σ)
  | refused (error : ProcessError)
  | crash

/-- What gathering reports leads to. -/
structure CollectReply where
  result : Except CollectionError Unit := .ok ()
  /-- How long it takes. -/
  millis : Nat := 0
  /-- Whether it crashes in the end. -/
  crashes : Bool := false
  records : List LogRecord := []

/-- Something that is asked of a collaborator, or seen of a process. -/
inductive Call where
  | expand (raw : String)
  | lookup (stepId image : String) (secret : Option String)
  | start (invocation : Invocation)
  /-- A process has ended by itself. -/
  | exited
  | kill
  | collect (stepId : String) (declarations : List ReportDeclaration)
deriving DecidableEq, Repr

/-- What a step relies on. -/
structure Collaborators (σ : Type) where
  /-- Expands the references in a text. -/
  expand : String → Except ExpressionError String
  /-- The variables of the environment. -/
  environment : String → Option String
  /-- Looks up the image of a step, with a secret for pulling it. -/
  lookup : String → String → Option String → σ → Logged (Except ImageError ImageMetadata) × σ
  /-- Starts a process. -/
  start : Invocation → σ → StartReply σ × σ
  /-- Gathers the reports of a step. -/
  collect : List ReportDeclaration → String → σ → CollectReply × σ
  /-- The status text that the system keeps for a process. -/
  processStatus? : Nat → Option String
  /-- How the answer to a question comes: to expand a text, to look up an image, to gather reports. -/
  lag : Call → σ → Lag := fun _ _ => {}

/-- What can be seen of a step. -/
inductive Event where
  | call (call : Call)
  | log (record : LogRecord)
  | metrics (metrics : ProcessMetrics)
deriving DecidableEq, Repr

/-- An event as it is seen inside a span. -/
def Event.within (span : String) : Event → Event
  | .log r => .log (r.within span)
  | event => event

namespace Event

/-- Makes an event visible. -/
def see (event : Event) : Activity Event Unit :=
  .perform event

/-- Asks something of a collaborator. -/
def ask (call : Call) : Activity Event Unit :=
  see (.call call)

/-- Makes a log record. -/
def report (level : LogLevel) (message : String) (fields : List (String × String)) :
    Activity Event Unit :=
  see (.log { level := level, message := message, fields := fields })

/-- Makes log records that a collaborator has written. -/
def reportAll (records : List LogRecord) : Activity Event Unit :=
  records.forM fun r => see (.log r)

end Event

/-- Waits for an answer. -/
def Lag.wait (lag : Lag) : Activity Event Unit :=
  .sleep lag.millis fun _ =>
    if lag.crashes then .crash
    else if lag.hangs then .hang
    else .done ()

/-- An activity of a step, which its collaborators' state is passed through. -/
abbrev Session (σ : Type) := StateT σ (Activity Event)

namespace Session

variable {σ α : Type}

/-- The time. -/
def clock : Session σ Nat :=
  fun s => Activity.sleep 0 fun now => .done (now, s)

/-- Lets time pass. -/
def pause (millis : Nat) : Session σ Unit :=
  fun s => Activity.sleep millis fun _ => .done ((), s)

/-- Crashes. -/
def crash : Session σ α :=
  fun _ => Activity.crash

/-- Does something inside a span. -/
def within (span : String) (x : Session σ α) : Session σ α :=
  fun s => (x s).mapItems (.within span)

end Session

/-- Asks something of a collaborator, and waits for the answer. -/
def Collaborators.consult {σ α : Type} (c : Collaborators σ) (call : Call) (answer : σ → α × σ) :
    Session σ α := do
  Event.ask call
  let lag := c.lag call (← get)
  let reply ← modifyGet answer
  lag.wait
  return reply

/-- The result of a process that ends by itself, for whoever waits for it. -/
def Closing.result : Closing → Activity Event (Except ProcessError Unit)
  | .exited code => .done (if code = 0 then .ok () else .error (.exit (some code)))
  | .signalled => .done (.error (.exit none))
  | .unknown cause => .done (.error (.wait cause))
  | .crash => .crash

/-- Waits for a process to end by itself. -/
def Lifetime.wait : Lifetime → Activity Event (Except ProcessError Unit)
  | .endless => .hang
  | .ends millis closing =>
    .sleep millis fun _ => .emit (.call .exited) closing.result

namespace RunningProcess

variable {σ : Type}

/-- How the answer to killing a process comes. -/
def killLag (p : RunningProcess σ) : Lag :=
  ⟨p.killMillis, p.killCrashes, p.killHangs⟩

/-- Kills a process. -/
def kill (p : RunningProcess σ) : Activity Event (Except ProcessError Unit) := do
  Event.ask .kill
  p.killLag.wait
  match p.killFault with
  | none => return .ok ()
  | some cause => return .error (.wait cause)

end RunningProcess

end Sidecar
