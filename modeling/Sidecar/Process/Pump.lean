import Sidecar.Sink
import Sidecar.Text.Line

/-!
# Pumps

How the output of a process gets into a writer. The process writes to a pipe, which delivers the stream in pieces of
any size, and a pump writes it to a sink line by line. A pump works in rounds, each of which writes one line: the next
one that has come as a whole, or what is left of the stream when its end has come. A pump stops for good when a write
fails or when nothing is left to come.

The pumps of both streams of a process share one sink. They run side by side, so a schedule says in which order the
deliveries of their pipes and their own rounds follow one another.
-/

namespace Sidecar

/-- What a pipe delivers: a piece of the stream, or its end. -/
inductive Delivery where
  | piece (bytes : List UInt8)
  | closed
deriving DecidableEq, Repr, Inhabited

/-- The streams that a process writes to. -/
inductive OutputStream where
  | stdout
  | stderr
deriving DecidableEq, Repr, Inhabited

/-- The line feed. -/
def lineFeed : UInt8 := 10

/-- The first line of some bytes, if it is complete, and what stands behind it. -/
def firstLine? : List UInt8 → Option (List UInt8 × List UInt8)
  | [] => none
  | b :: rest =>
    if b = lineFeed then some ([b], rest)
    else (firstLine? rest).map fun (line, behind) => (b :: line, behind)

/-- A complete line goes up to the first line feed. -/
theorem exists_of_firstLine? {bytes line rest : List UInt8} (h : firstLine? bytes = some (line, rest)) :
    ∃ front, line = front ++ [lineFeed] ∧ lineFeed ∉ front ∧ bytes = line ++ rest := by
  induction bytes generalizing line with
  | nil => cases h
  | cons b bytes ih =>
    simp only [firstLine?] at h
    by_cases hb : b = lineFeed
    · rw [if_pos hb] at h
      cases h
      exact ⟨[], congrArg (fun c => [c]) hb, List.not_mem_nil, rfl⟩
    · rw [if_neg hb] at h
      obtain ⟨⟨line', rest'⟩, hrest, hsplit⟩ := Option.map_eq_some_iff.1 h
      obtain ⟨rfl, rfl⟩ := Prod.mk.inj hsplit
      obtain ⟨front, rfl, hfront, rfl⟩ := ih hrest
      exact ⟨b :: front, rfl, List.not_mem_cons_of_ne_of_not_mem (Ne.symm hb) hfront, rfl⟩

/-- Without a complete line there is no line feed. -/
theorem not_mem_of_firstLine? {bytes : List UInt8} (h : firstLine? bytes = none) : lineFeed ∉ bytes := by
  induction bytes with
  | nil => exact List.not_mem_nil
  | cons b bytes ih =>
    simp only [firstLine?] at h
    by_cases hb : b = lineFeed
    · rw [if_pos hb] at h
      cases h
    · rw [if_neg hb, Option.map_eq_none_iff] at h
      exact List.not_mem_cons_of_ne_of_not_mem (Ne.symm hb) (ih h)

theorem firstLine?_eq_append {bytes line rest : List UInt8} (h : firstLine? bytes = some (line, rest)) :
    line ≠ [] ∧ bytes = line ++ rest := by
  obtain ⟨front, rfl, -, hbytes⟩ := exists_of_firstLine? h
  exact ⟨List.concat_ne_nil _ _, hbytes⟩

/-- A pump. -/
structure Pump where
  /-- What has been delivered and not written yet. -/
  pending : List UInt8 := []
  /-- Whether the end of the stream has been delivered. -/
  closed : Bool := false
  /-- Whether the pump has stopped. -/
  stopped : Bool := false
deriving DecidableEq, Repr, Inhabited

namespace Pump

/-- The pipe of a pump delivers something. Nothing comes behind the end of the stream, and to a pump that has stopped
it does not matter. -/
def receive (p : Pump) (d : Delivery) : Pump :=
  if p.closed || p.stopped then p
  else
    match d with
    | .piece bytes => { p with pending := p.pending ++ bytes }
    | .closed => { p with closed := true }

/-- What a pump writes next, and what is left behind it. -/
def next? (p : Pump) : Option (List UInt8 × List UInt8) :=
  if p.stopped then none
  else
    match firstLine? p.pending with
    | some split => some split
    | none => if p.closed && !p.pending.isEmpty then some (p.pending, []) else none

/-- A round of a pump. -/
def turn (sink : OutputSink) (p : Pump) (o : Outputs) : Pump × Outputs :=
  match p.next? with
  | some (line, rest) =>
    match o.write sink line with
    | (o, .ok ()) => ({ p with pending := rest }, o)
    | (o, .error _) => ({ p with pending := [], stopped := true }, o)
  | none => ({ p with stopped := p.stopped || p.closed }, o)

theorem receive_of_stopped {p : Pump} (h : p.stopped = true) (d : Delivery) : p.receive d = p := by
  simp [receive, h]

theorem receive_of_closed {p : Pump} (h : p.closed = true) (d : Delivery) : p.receive d = p := by
  simp [receive, h]

theorem receive_of_running {p : Pump} (hclosed : p.closed = false) (hstopped : p.stopped = false) (d : Delivery) :
    p.receive d =
      match d with
      | .piece bytes => { p with pending := p.pending ++ bytes }
      | .closed => { p with closed := true } := by
  simp [receive, hclosed, hstopped]

theorem next?_of_stopped {p : Pump} (h : p.stopped = true) : p.next? = none := by
  rw [next?, if_pos h]

theorem turn_of_idle {p : Pump} (h : p.next? = none) (sink : OutputSink) (o : Outputs) :
    p.turn sink o = ({ p with stopped := p.stopped || p.closed }, o) := by
  simp only [turn, h]

theorem turn_of_stopped {p : Pump} (h : p.stopped = true) (sink : OutputSink) (o : Outputs) :
    p.turn sink o = (p, o) := by
  rw [turn_of_idle (next?_of_stopped h)]
  obtain ⟨pending, closed, stopped⟩ := p
  obtain rfl : stopped = true := h
  rfl

/-- A pump that has nothing to write when its stream has ended has written everything. -/
theorem pending_of_idle {p : Pump} (h : p.next? = none) (hstopped : p.stopped = false) (hclosed : p.closed = true) :
    p.pending = [] := by
  unfold next? at h
  rw [hstopped] at h
  cases hfirst : firstLine? p.pending with
  | some split => simp [hfirst] at h
  | none => simpa [hfirst, hclosed] using h

theorem next?_eq_append {p : Pump} {line rest : List UInt8} (h : p.next? = some (line, rest)) :
    line ≠ [] ∧ p.pending = line ++ rest := by
  unfold next? at h
  split at h
  · cases h
  · split at h
    · rename_i split hfirst
      obtain rfl : split = (line, rest) := Option.some.inj h
      exact firstLine?_eq_append hfirst
    · split at h
      · rename_i hlast
        obtain ⟨rfl, rfl⟩ := Prod.mk.inj (Option.some.inj h)
        simp only [Bool.and_eq_true, Bool.not_eq_true', List.isEmpty_eq_false_iff] at hlast
        exact ⟨hlast.2, (List.append_nil _).symm⟩
      · cases h

/-- A round in which something is written leaves less to be written. -/
theorem length_turn_lt {p : Pump} {line rest : List UInt8} (h : p.next? = some (line, rest)) (sink : OutputSink)
    (o : Outputs) : (p.turn sink o).1.pending.length < p.pending.length := by
  obtain ⟨hline, hpending⟩ := next?_eq_append h
  have hlength := List.length_pos_iff.2 hline
  simp only [turn, h]
  split <;> simp only [hpending, List.length_append, List.length_nil] <;> omega

/-- Makes rounds until there is nothing more to write, and a last one that may stop the pump. -/
def drain (sink : OutputSink) (p : Pump) (o : Outputs) : Pump × Outputs :=
  match _h : p.next? with
  | none => p.turn sink o
  | some _ =>
    let after := p.turn sink o
    drain sink after.1 after.2
termination_by p.pending.length
decreasing_by exact length_turn_lt _h sink o

/-- Takes a delivery, and makes all the rounds that it allows. -/
def take (sink : OutputSink) (p : Pump) (d : Delivery) (o : Outputs) : Pump × Outputs :=
  (p.receive d).drain sink o

end Pump

/-- The pumps of both streams of a process. -/
structure PumpPair where
  stdout : Pump := {}
  stderr : Pump := {}
deriving DecidableEq, Repr, Inhabited

/-- What may happen next to one of two pumps: its pipe delivers something, or it makes a round. -/
inductive Move where
  | deliver (d : Delivery)
  | turn
deriving DecidableEq, Repr, Inhabited

/-- The order in which two pumps and their pipes make their moves. -/
abbrev Schedule :=
  List (OutputStream × Move)

namespace PumpPair

/-- The pump of a stream. -/
def get (pumps : PumpPair) : OutputStream → Pump
  | .stdout => pumps.stdout
  | .stderr => pumps.stderr

/-- Replaces the pump of a stream. -/
def set (pumps : PumpPair) (p : Pump) : OutputStream → PumpPair
  | .stdout => { pumps with stdout := p }
  | .stderr => { pumps with stderr := p }

@[simp] theorem get_set (pumps : PumpPair) (p : Pump) (stream : OutputStream) :
    (pumps.set p stream).get stream = p := by
  cases stream <;> rfl

theorem get_set_of_ne (pumps : PumpPair) (p : Pump) {stream other : OutputStream} (h : other ≠ stream) :
    (pumps.set p other).get stream = pumps.get stream := by
  cases stream <;> cases other <;> first | rfl | exact absurd rfl h

@[simp] theorem set_set (pumps : PumpPair) (p q : Pump) (stream : OutputStream) :
    (pumps.set p stream).set q stream = pumps.set q stream := by
  cases stream <;> rfl

/-- Takes a delivery of a stream, and makes all the rounds that it allows. -/
def take (sink : OutputSink) (pumps : PumpPair) (stream : OutputStream) (d : Delivery) (o : Outputs) :
    PumpPair × Outputs :=
  let (p, o) := (pumps.get stream).take sink d o
  (pumps.set p stream, o)

/-- Makes a move of a stream. -/
def step (sink : OutputSink) (pumps : PumpPair) (o : Outputs) (stream : OutputStream) :
    Move → PumpPair × Outputs
  | .deliver d => (pumps.set ((pumps.get stream).receive d) stream, o)
  | .turn =>
    let (p, o) := (pumps.get stream).turn sink o
    (pumps.set p stream, o)

/-- Makes the moves of a schedule. -/
def run (sink : OutputSink) (schedule : Schedule) (pumps : PumpPair) (o : Outputs) : PumpPair × Outputs :=
  schedule.foldl (fun (pumps, o) (stream, move) => pumps.step sink o stream move) (pumps, o)

end PumpPair

end Sidecar
