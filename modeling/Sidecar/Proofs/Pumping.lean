import Mathlib.Data.List.Induction
import Mathlib.Data.List.TakeWhile
import Sidecar.Process.Pump

/-!
# Two pumps and one writer

What two pumps make of the streams of a process, whatever pieces the pipes deliver, in whatever order the pumps get
their turns, and whatever the writer does. Every write is a line of one of the streams, and the lines of a stream are
written in their order; so what the writer receives is made up of whole lines until a write fails. A pump that sees a
failure stops, and the other one goes on. Reading from a pipe does not fail here.

The main statement is `pumps_tear_nothing`. It rests on one invariant of a single pump, `Pump.Standing`, which is kept
by deliveries (`Standing.receive_piece`, `Standing.receive_closed`) and by rounds (`Standing.turn`) and so holds
throughout a schedule (`standing_run`); and on `run_writes`, which says what all the writes have left in the writer.
Whoever takes each delivery with all the rounds that it allows follows a schedule, too (`take_eq_run`).
-/

namespace Sidecar

open Text

/-! ## Lines -/

/-- The first complete line stays the first one when more comes behind. -/
theorem splitLines_of_firstLine? {bytes line rest : List UInt8} (h : firstLine? bytes = some (line, rest))
    (more : List UInt8) :
    splitLines lineFeed (bytes ++ more) = line :: splitLines lineFeed (rest ++ more) := by
  obtain ⟨front, rfl, hfront, rfl⟩ := exists_of_firstLine? h
  rw [List.append_assoc, List.append_assoc, List.singleton_append, splitLines_append_cons hfront]

/-- Bytes without a complete line are one unfinished line. -/
theorem splitLines_of_unfinished {bytes : List UInt8} (h : firstLine? bytes = none) (hne : bytes ≠ []) :
    splitLines lineFeed bytes = [bytes] :=
  splitLines_of_not_mem (not_mem_of_firstLine? h) hne

/-- What a pump writes next is the first of its lines, whatever more may come behind it. -/
theorem Pump.splitLines_of_next? {p : Pump} {line rest : List UInt8} (h : p.next? = some (line, rest))
    {more : List UInt8} (hmore : p.closed = true → more = []) :
    splitLines lineFeed (p.pending ++ more) = line :: splitLines lineFeed (rest ++ more) := by
  unfold next? at h
  split at h
  · cases h
  · cases hfirst : firstLine? p.pending with
    | some split =>
      rw [hfirst] at h
      obtain rfl : split = (line, rest) := Option.some.inj h
      exact splitLines_of_firstLine? hfirst more
    | none =>
      rw [hfirst] at h
      simp only [Option.ite_none_right_eq_some, Bool.and_eq_true, Bool.not_eq_true', List.isEmpty_eq_false_iff] at h
      obtain ⟨⟨hclosed, hne⟩, hsplit⟩ := h
      obtain ⟨rfl, rfl⟩ := Prod.mk.inj (Option.some.inj hsplit)
      -- Only the end of the stream lets a pump write an unfinished line, and nothing follows it.
      rw [hmore hclosed, List.append_nil, splitLines_of_unfinished hfirst hne]
      rfl

/-- Two sequences are put into one, with the order of each of them kept. -/
inductive Interleaves {α : Type} : List α → List α → List α → Prop
  | nil : Interleaves [] [] []
  | left {x : α} {xs ys zs : List α} (h : Interleaves xs ys zs) : Interleaves (x :: xs) ys (x :: zs)
  | right {y : α} {xs ys zs : List α} (h : Interleaves xs ys zs) : Interleaves xs (y :: ys) (y :: zs)

/-! ## What a schedule brings to a stream -/

namespace OutputStream

/-- The end of a stream is delivered. -/
def closing (stream : OutputStream) : OutputStream × Move :=
  (stream, .deliver .closed)

/-- What a move delivers of a stream. -/
def piece (stream : OutputStream) : OutputStream × Move → List UInt8
  | (s, .deliver (.piece bytes)) => if s = stream then bytes else []
  | _ => []

/-- All that is delivered of a stream. Nothing comes behind its end. -/
def delivered (stream : OutputStream) (schedule : Schedule) : List UInt8 :=
  (schedule.takeWhile (· ≠ stream.closing)).flatMap stream.piece

/-- How many rounds the pump of a stream has made since the end of the stream was delivered. -/
def lateRounds (stream : OutputStream) (schedule : Schedule) : Nat :=
  (schedule.dropWhile (· ≠ stream.closing)).count (stream, .turn)

/-- The end of a stream is delivered, and its pump makes enough rounds to write whatever is left of it by then, and
one to find that nothing is left. -/
def Completes (stream : OutputStream) (schedule : Schedule) : Prop :=
  stream.closing ∈ schedule ∧
    (splitLines lineFeed (stream.delivered schedule)).length < stream.lateRounds schedule

instance (stream : OutputStream) (schedule : Schedule) : Decidable (stream.Completes schedule) :=
  inferInstanceAs (Decidable (_ ∧ _))

/-- As long as a stream has not been closed, every move counts. -/
theorem ne_closing {stream : OutputStream} {schedule : Schedule} (h : stream.closing ∉ schedule) :
    ∀ move ∈ schedule, decide (move ≠ stream.closing) = true := by
  intro move hmove
  refine decide_eq_true ?_
  rintro rfl
  exact h hmove

theorem closing_mem_append (stream : OutputStream) (schedule : Schedule) (move : OutputStream × Move) :
    stream.closing ∈ schedule ++ [move] ↔ stream.closing ∈ schedule ∨ move = stream.closing := by
  rw [List.mem_append, List.mem_singleton, eq_comm (a := move)]

theorem delivered_append (stream : OutputStream) (schedule : Schedule) (move : OutputStream × Move) :
    stream.delivered (schedule ++ [move]) =
      stream.delivered schedule ++ if stream.closing ∈ schedule then [] else stream.piece move := by
  unfold delivered
  split
  case isTrue hclosed =>
    obtain ⟨front, behind, rfl, hfront⟩ := List.eq_append_cons_of_mem hclosed
    simp only [List.append_assoc, List.takeWhile_append_of_pos (ne_closing hfront)]
    simp
  case isFalse hopen =>
    have hall := ne_closing hopen
    rw [List.takeWhile_append_of_pos hall, List.takeWhile_eq_self_iff.2 hall, List.flatMap_append]
    by_cases hmove : move = stream.closing
    · subst hmove
      simp [closing, piece]
    · simp [hmove]

theorem lateRounds_append (stream : OutputStream) (schedule : Schedule) (move : OutputStream × Move) :
    stream.lateRounds (schedule ++ [move]) =
      if stream.closing ∈ schedule then stream.lateRounds schedule + [move].count (stream, .turn) else 0 := by
  unfold lateRounds
  split
  case isTrue hclosed =>
    obtain ⟨front, behind, rfl, hfront⟩ := List.eq_append_cons_of_mem hclosed
    simp only [List.append_assoc, List.dropWhile_append_of_pos (ne_closing hfront)]
    simp [List.count_cons, List.count_append]
    omega
  case isFalse hopen =>
    rw [List.dropWhile_append_of_pos (ne_closing hopen)]
    by_cases hmove : move = stream.closing
    · subst hmove
      simp [closing]
    · simp [hmove]

end OutputStream

/-! ## What a writer takes -/

namespace Writer

/-- What a writer takes of some bytes. -/
def accepted (w : Writer) (bytes : List UInt8) : List UInt8 :=
  match w with
  | .buffer _ => bytes
  | .discard => bytes
  | .limited _ room _ => bytes.take room
  | .planned _ plan =>
    match plan.head?.join with
    | some (.cut taken _) => bytes.take taken
    | _ => bytes

/-- Why a writer fails to write some bytes. -/
def failure? (w : Writer) (bytes : List UInt8) : Option SystemError :=
  match (w.write bytes).2 with
  | .ok () => none
  | .error cause => some cause

theorem content?_write (w : Writer) (bytes : List UInt8) :
    (w.write bytes).1.content? = w.content?.map (· ++ w.accepted bytes) := by
  cases w with
  | buffer content => rfl
  | discard => rfl
  | limited content room failFlush =>
    simp only [write, accepted]
    split <;> rfl
  | planned content plan =>
    simp only [write, accepted]
    split <;> simp_all [content?]

theorem isPrefix_accepted (w : Writer) (bytes : List UInt8) : w.accepted bytes <+: bytes := by
  cases w with
  | buffer content => exact List.prefix_rfl
  | discard => exact List.prefix_rfl
  | limited content room failFlush => exact List.take_prefix _ _
  | planned content plan =>
    simp only [accepted]
    split
    · exact List.take_prefix _ _
    · exact List.prefix_rfl

/-- A writer that does not fail takes everything. -/
theorem accepted_of_success {w : Writer} {bytes : List UInt8} (h : w.failure? bytes = none) :
    w.accepted bytes = bytes := by
  cases w with
  | buffer content => rfl
  | discard => rfl
  | limited content room failFlush =>
    simp only [failure?, write] at h
    simp only [accepted]
    by_cases hfull : (bytes.take room).length < bytes.length
    · rw [if_pos hfull] at h
      cases h
    · exact (List.take_prefix room bytes).eq_of_length_le (Nat.le_of_not_lt hfull)
  | planned content plan =>
    simp only [failure?, write] at h
    simp only [accepted]
    cases hplan : plan.head?.join with
    | none => rfl
    | some failure => cases failure <;> simp_all

end Writer

/-! ## The writes of a schedule -/

/-- A line that a pump has told a writer to write. -/
structure WriteCall where
  stream : OutputStream
  line : List UInt8
  /-- What the writer has taken of it. -/
  taken : List UInt8
  /-- Why the call has failed. -/
  failure : Option SystemError
deriving DecidableEq, Repr

/-- A call that does not fail leaves nothing out, and one that fails leaves out an end of the line. -/
def WriteCall.Sound (call : WriteCall) : Prop :=
  call.taken <+: call.line ∧ (call.failure = none → call.taken = call.line)

/-- When only the last of some calls may have failed, only an end of their lines is left out. -/
theorem isPrefix_taken_line {calls : List WriteCall} (hsound : ∀ call ∈ calls, call.Sound)
    (hfailure : ∀ call ∈ calls.dropLast, call.failure = none) :
    calls.flatMap (·.taken) <+: calls.flatMap (·.line) := by
  induction calls with
  | nil => exact List.prefix_rfl
  | cons call calls ih =>
    have hfirst := hsound call List.mem_cons_self
    cases calls with
    | nil => simpa using hfirst.1
    | cons next calls =>
      -- a call with others behind it has not failed, so that it leaves no gap
      rw [List.flatMap_cons, List.flatMap_cons, hfirst.2 (hfailure call (by simp))]
      refine (List.prefix_append_right_inj _).2 (ih ?_ ?_)
      · exact fun c hc => hsound c (List.mem_cons_of_mem _ hc)
      · exact fun c hc => hfailure c (by simp [List.dropLast_cons_of_ne_nil, hc])

/-- The calls that come from a stream. -/
def OutputStream.callsIn (stream : OutputStream) (calls : List WriteCall) : List WriteCall :=
  calls.filter (·.stream = stream)

theorem OutputStream.callsIn_append (stream : OutputStream) (first second : List WriteCall) :
    stream.callsIn (first ++ second) = stream.callsIn first ++ stream.callsIn second :=
  List.filter_append _ _

/-- Replaces a writer. -/
def Outputs.setWriter (o : Outputs) (number : Nat) (w : Writer) : Outputs :=
  { o with writers := o.writers.set number w }

theorem Outputs.getElem?_setWriter {o : Outputs} {number : Nat} {w : Writer} (hw : o.writers[number]? = some w)
    (w' : Writer) : (o.setWriter number w').writers[number]? = some w' :=
  List.getElem?_set_self (List.getElem?_eq_some_iff.1 hw).1

theorem Outputs.setWriter_self {o : Outputs} {number : Nat} {w : Writer} (hw : o.writers[number]? = some w) :
    o.setWriter number w = o := by
  obtain ⟨hlt, rfl⟩ := List.getElem?_eq_some_iff.1 hw
  rw [setWriter, List.set_getElem_self]

theorem Outputs.setWriter_setWriter (o : Outputs) (number : Nat) (w w' : Writer) :
    (o.setWriter number w).setWriter number w' = o.setWriter number w' := by
  simp only [setWriter, List.set_set]

/-- The call that a pump makes in a round. -/
def Pump.call? (p : Pump) (stream : OutputStream) (w : Writer) : Option WriteCall :=
  p.next?.map fun (line, _) => ⟨stream, line, w.accepted line, w.failure? line⟩

/-- The writer after a round. -/
def Pump.writerAfter (p : Pump) (w : Writer) : Writer :=
  match p.next? with
  | some (line, _) => (w.write line).1
  | none => w

namespace Pump

variable {p : Pump} {stream : OutputStream} {o : Outputs} {number : Nat} {w : Writer} {line rest : List UInt8}

theorem sound_of_call? {call : WriteCall} (h : p.call? stream w = some call) : call.Sound := by
  obtain ⟨split, -, rfl⟩ := Option.map_eq_some_iff.1 h
  exact ⟨w.isPrefix_accepted _, Writer.accepted_of_success⟩

theorem call?_of_idle (h : p.next? = none) : p.call? stream w = none := by
  rw [call?, h, Option.map_none]

theorem call?_of_next? (h : p.next? = some (line, rest)) :
    p.call? stream w = some ⟨stream, line, w.accepted line, w.failure? line⟩ := by
  rw [call?, h, Option.map_some]

/-- What a round leaves in the writer. -/
theorem content?_writerAfter (p : Pump) (stream : OutputStream) (w : Writer) :
    (p.writerAfter w).content? = w.content?.map (· ++ (p.call? stream w).toList.flatMap (·.taken)) := by
  simp only [writerAfter, call?]
  cases p.next? with
  | none => simp
  | some split => simpa using w.content?_write split.1

theorem write_writer (hw : o.writers[number]? = some w) (line : List UInt8) :
    o.write (.writer number) line = (o.setWriter number (w.write line).1, (w.write line).2) := by
  simp only [Outputs.write, hw, Outputs.setWriter]

/-- A round in which a line is written. -/
theorem turn_of_next? (h : p.next? = some (line, rest)) (hw : o.writers[number]? = some w) :
    p.turn (.writer number) o =
      ((match w.failure? line with
        | none => { p with pending := rest }
        | some _ => { p with pending := [], stopped := true }),
        o.setWriter number (w.write line).1) := by
  simp only [turn, h, write_writer hw, Writer.failure?]
  cases (w.write line).2 with
  | ok => rfl
  | error cause => rfl

/-- A round changes nothing but the writer. -/
theorem turn_outputs (hw : o.writers[number]? = some w) :
    (p.turn (.writer number) o).2 = o.setWriter number (p.writerAfter w) := by
  unfold writerAfter
  cases h : p.next? with
  | none => rw [turn_of_idle h, Outputs.setWriter_self hw]
  | some split => rw [turn_of_next? h hw]

end Pump

namespace PumpPair

/-- The call that a pump makes in a move. -/
def call? (pumps : PumpPair) (stream : OutputStream) (w : Writer) : Move → Option WriteCall
  | .deliver _ => none
  | .turn => (pumps.get stream).call? stream w

/-- The calls that two pumps make on a schedule. -/
def calls (number : Nat) : Schedule → PumpPair → Outputs → List WriteCall
  | [], _, _ => []
  | (stream, move) :: schedule, pumps, o =>
    let after := pumps.step (.writer number) o stream move
    (o.writers[number]?.bind fun w => pumps.call? stream w move).toList ++ calls number schedule after.1 after.2

variable {pumps : PumpPair} {stream : OutputStream} {o : Outputs} {number : Nat} {w : Writer}

theorem run_append (sink : OutputSink) (first second : Schedule) (pumps : PumpPair) (o : Outputs) :
    run sink (first ++ second) pumps o =
      run sink second (run sink first pumps o).1 (run sink first pumps o).2 := by
  simp only [run, List.foldl_append]

theorem calls_append (number : Nat) (first second : Schedule) (pumps : PumpPair) (o : Outputs) :
    calls number (first ++ second) pumps o =
      calls number first pumps o ++
        calls number second (run (.writer number) first pumps o).1 (run (.writer number) first pumps o).2 := by
  induction first generalizing pumps o with
  | nil => rfl
  | cons move first ih =>
    obtain ⟨stream, move⟩ := move
    simp only [List.cons_append, calls, ih, List.append_assoc]
    rfl

theorem stream_of_call? {move : Move} {call : WriteCall} (h : pumps.call? stream w move = some call) :
    call.stream = stream := by
  cases move with
  | deliver d => cases h
  | turn =>
    obtain ⟨split, -, rfl⟩ := Option.map_eq_some_iff.1 h
    rfl

theorem sound_of_calls {schedule : Schedule} : ∀ call ∈ calls number schedule pumps o, call.Sound := by
  induction schedule generalizing pumps o with
  | nil => exact fun _ h => absurd h List.not_mem_nil
  | cons move schedule ih =>
    obtain ⟨stream, move⟩ := move
    intro call hcall
    rcases List.mem_append.1 hcall with hfirst | hlater
    · obtain ⟨w, -, hw⟩ := Option.bind_eq_some_iff.1 (Option.mem_toList.1 hfirst)
      cases move with
      | deliver d => cases hw
      | turn => exact Pump.sound_of_call? hw
    · exact ih call hlater

/-- What a move leaves in the writer. -/
theorem step_writes (pumps : PumpPair) (hw : o.writers[number]? = some w) (stream : OutputStream) (move : Move) :
    ∃ w' : Writer, (pumps.step (.writer number) o stream move).2 = o.setWriter number w' ∧
      w'.content? = w.content?.map (· ++ (pumps.call? stream w move).toList.flatMap (·.taken)) := by
  cases move with
  | deliver d => exact ⟨w, (Outputs.setWriter_self hw).symm, by simp [call?]⟩
  | turn => exact ⟨_, Pump.turn_outputs hw, Pump.content?_writerAfter _ stream w⟩

/-- What a schedule leaves in the writer: all that has been taken in its calls. Nothing else changes. -/
theorem run_writes (schedule : Schedule) (pumps : PumpPair) (hw : o.writers[number]? = some w) :
    ∃ w' : Writer, (run (.writer number) schedule pumps o).2 = o.setWriter number w' ∧
      w'.content? = w.content?.map (· ++ (calls number schedule pumps o).flatMap (·.taken)) := by
  induction schedule generalizing pumps o w with
  | nil => exact ⟨w, (Outputs.setWriter_self hw).symm, by simp [calls]⟩
  | cons move schedule ih =>
    obtain ⟨stream, move⟩ := move
    obtain ⟨w₁, houtputs, hcontent⟩ := step_writes pumps hw stream move
    have hw₁ : (pumps.step (.writer number) o stream move).2.writers[number]? = some w₁ := by
      rw [houtputs]
      exact Outputs.getElem?_setWriter hw w₁
    -- the writer stands in its place for the rest of the schedule, with what it has taken already
    obtain ⟨w₂, hrest, hafter⟩ := ih (pumps.step (.writer number) o stream move).1 hw₁
    refine ⟨w₂, ?_, ?_⟩
    · rw [← Outputs.setWriter_setWriter o number w₁ w₂, ← houtputs]
      exact hrest
    · rw [hafter, hcontent]
      simp [calls, hw, Function.comp_def]

end PumpPair

/-! ## How a single pump stands -/

/-- How a pump stands after so many bytes of its stream, whether the stream has been closed, how many rounds it has
made since, and the calls it has made. -/
inductive Pump.Standing (bytes : List UInt8) (closed : Prop) (rounds : Nat) (calls : List WriteCall) (p : Pump) : Prop
  /-- It has written the first lines, and the other ones are pending. -/
  | running (hstopped : p.stopped = false) (hclosed : p.closed = true ↔ closed)
      (hcalls : ∀ call ∈ calls, call.failure = none)
      (hlines : ∀ more, (closed → more = []) → splitLines lineFeed (bytes ++ more) =
        calls.map (·.line) ++ splitLines lineFeed (p.pending ++ more))
      (hrounds : closed → rounds ≤ calls.length)
  /-- It has written everything. -/
  | finished (hstopped : p.stopped = true) (hclosed : closed) (hcalls : ∀ call ∈ calls, call.failure = none)
      (hlines : splitLines lineFeed bytes = calls.map (·.line))
  /-- It has written the first lines, and its last write has failed. -/
  | failed (hstopped : p.stopped = true) (front : List WriteCall) (last : WriteCall) (hsplit : calls = front ++ [last])
      (hfront : ∀ call ∈ front, call.failure = none) (hlast : last.failure ≠ none)
      (hlines : ∀ more, (closed → more = []) → calls.map (·.line) <+: splitLines lineFeed (bytes ++ more))

namespace Pump.Standing

variable {bytes : List UInt8} {closed : Prop} {rounds : Nat} {calls : List WriteCall} {p : Pump}

/-- A pump that has not made a move yet. -/
theorem start (hopen : ¬closed) : Standing [] closed 0 [] {} :=
  .running rfl (by simp [hopen]) (by simp) (fun _ _ => rfl) fun h => absurd h hopen

theorem mono (h : Standing bytes closed rounds calls p) {fewer : Nat} (hle : fewer ≤ rounds) :
    Standing bytes closed fewer calls p := by
  cases h with
  | running hstopped hclosed hcalls hlines hrounds =>
    exact .running hstopped hclosed hcalls hlines fun h => hle.trans (hrounds h)
  | finished hstopped hclosed hcalls hlines => exact .finished hstopped hclosed hcalls hlines
  | failed hstopped front last hsplit hfront hlast hlines =>
    exact .failed hstopped front last hsplit hfront hlast hlines

/-- A piece comes. -/
theorem receive_piece (h : Standing bytes closed rounds calls p) (hopen : ¬closed) (piece : List UInt8) :
    Standing (bytes ++ piece) closed rounds calls (p.receive (.piece piece)) := by
  cases h with
  | running hstopped hclosed hcalls hlines hrounds =>
    have hpump : p.closed = false := Bool.eq_false_iff.2 fun h => hopen (hclosed.1 h)
    rw [receive_of_running hpump hstopped]
    refine .running hstopped hclosed hcalls (fun more _ => ?_) hrounds
    -- what comes now was only a part of what might have come
    rw [List.append_assoc, List.append_assoc]
    exact hlines (piece ++ more) fun h => absurd h hopen
  | finished hstopped hclosed hcalls hlines => exact absurd hclosed hopen
  | failed hstopped front last hsplit hfront hlast hlines =>
    rw [receive_of_stopped hstopped]
    refine .failed hstopped front last hsplit hfront hlast fun more _ => ?_
    rw [List.append_assoc]
    exact hlines (piece ++ more) fun h => absurd h hopen

/-- The end of the stream comes. -/
theorem receive_closed (h : Standing bytes closed rounds calls p) (hopen : ¬closed) :
    Standing bytes True 0 calls (p.receive .closed) := by
  cases h with
  | running hstopped hclosed hcalls hlines hrounds =>
    have hpump : p.closed = false := Bool.eq_false_iff.2 fun h => hopen (hclosed.1 h)
    rw [receive_of_running hpump hstopped]
    refine .running hstopped (by simp) hcalls ?_ fun _ => Nat.zero_le _
    exact fun more _ => hlines more fun h => absurd h hopen
  | finished hstopped hclosed hcalls hlines => exact absurd hclosed hopen
  | failed hstopped front last hsplit hfront hlast hlines =>
    rw [receive_of_stopped hstopped]
    exact .failed hstopped front last hsplit hfront hlast fun more _ => hlines more fun h => absurd h hopen

/-- Something comes behind the end of the stream. -/
theorem receive_late (h : Standing bytes closed rounds calls p) (hclosed : closed) (d : Delivery) :
    Standing bytes closed rounds calls (p.receive d) := by
  have hreceive : p.receive d = p := by
    cases h with
    | running hstopped hpump hcalls hlines hrounds => exact receive_of_closed (hpump.2 hclosed) d
    | finished hstopped hclosed hcalls hlines => exact receive_of_stopped hstopped d
    | failed hstopped front last hsplit hfront hlast hlines => exact receive_of_stopped hstopped d
  rw [hreceive]
  exact h

/-- A pump makes a round. -/
theorem turn {stream : OutputStream} {o : Outputs} {number : Nat} {w : Writer}
    (h : Standing bytes closed rounds calls p) (hw : o.writers[number]? = some w) :
    Standing bytes closed (rounds + 1) (calls ++ (p.call? stream w).toList) (p.turn (.writer number) o).1 := by
  cases h with
  | running hstopped hclosed hcalls hlines hrounds =>
    cases hnext : p.next? with
    | none =>
      rw [turn_of_idle hnext, call?_of_idle hnext, Option.toList_none, List.append_nil]
      by_cases hend : p.closed = true
      · -- Nothing is left, so that the pump has written everything.
        refine .finished (by simp [hend]) (hclosed.1 hend) hcalls ?_
        have hall := hlines [] fun _ => rfl
        simpa only [List.append_nil, pending_of_idle hnext hstopped hend, splitLines] using hall
      · refine .running (by simp [hstopped, hend]) hclosed hcalls hlines fun h => absurd (hclosed.2 h) hend
    | some split =>
      obtain ⟨line, rest⟩ := split
      -- The line that is written is the first one of those that are pending.
      have hwritten : ∀ more, (closed → more = []) → splitLines lineFeed (bytes ++ more) =
          calls.map (·.line) ++ line :: splitLines lineFeed (rest ++ more) := fun more hmore => by
        rw [hlines more hmore, splitLines_of_next? hnext fun h => hmore (hclosed.1 h)]
      rw [turn_of_next? hnext hw, call?_of_next? hnext, Option.toList_some]
      -- Whether the pump goes on is for the writer to say.
      cases hfailure : w.failure? line with
      | none =>
        refine .running hstopped hclosed ?_ ?_ ?_
        · intro call hcall
          rcases List.mem_append.1 hcall with hbefore | hlast
          · exact hcalls call hbefore
          · rw [List.mem_singleton.1 hlast]
        · intro more hmore
          rw [hwritten more hmore, List.map_append, List.append_assoc]
          rfl
        · intro h
          simpa using hrounds h
      | some cause =>
        refine .failed rfl calls _ rfl hcalls (Option.some_ne_none cause) fun more hmore => ?_
        rw [hwritten more hmore, List.map_append]
        exact List.prefix_append_right_inj _ |>.2 ⟨_, rfl⟩
  | finished hstopped hclosed hcalls hlines =>
    rw [turn_of_stopped hstopped, call?_of_idle (next?_of_stopped hstopped), Option.toList_none, List.append_nil]
    exact .finished hstopped hclosed hcalls hlines
  | failed hstopped front last hsplit hfront hlast hlines =>
    rw [turn_of_stopped hstopped, call?_of_idle (next?_of_stopped hstopped), Option.toList_none, List.append_nil]
    exact .failed hstopped front last hsplit hfront hlast hlines

/-- Every call writes a line of the stream, and the calls write the lines in their order. -/
theorem isPrefix_lines (h : Standing bytes closed rounds calls p) :
    calls.map (·.line) <+: splitLines lineFeed bytes := by
  cases h with
  | running hstopped hclosed hcalls hlines hrounds => exact ⟨_, by simpa using (hlines [] fun _ => rfl).symm⟩
  | finished hstopped hclosed hcalls hlines => exact hlines ▸ List.prefix_rfl
  | failed hstopped front last hsplit hfront hlast hlines => simpa using hlines [] fun _ => rfl

theorem succeeds_dropLast (h : Standing bytes closed rounds calls p) :
    ∀ call ∈ calls.dropLast, call.failure = none := by
  cases h with
  | running hstopped hclosed hcalls hlines hrounds => exact fun call h => hcalls call (List.dropLast_subset _ h)
  | finished hstopped hclosed hcalls hlines => exact fun call h => hcalls call (List.dropLast_subset _ h)
  | failed hstopped front last hsplit hfront hlast hlines =>
    rw [hsplit, List.dropLast_concat]
    exact hfront

/-- What the writer has taken is a prefix of the stream. -/
theorem isPrefix_taken (h : Standing bytes closed rounds calls p) (hsound : ∀ call ∈ calls, call.Sound) :
    calls.flatMap (·.taken) <+: bytes := by
  have hlines : calls.flatMap (·.line) <+: bytes := by
    obtain ⟨more, hmore⟩ := h.isPrefix_lines
    exact ⟨more.flatten, by rw [List.flatMap_def, ← List.flatten_append, hmore, flatten_splitLines]⟩
  have htaken : calls.flatMap (·.taken) <+: calls.flatMap (·.line) :=
    isPrefix_taken_line hsound h.succeeds_dropLast
  exact htaken.trans hlines

/-- A failure stops a pump. -/
theorem stopped_of_failure (h : Standing bytes closed rounds calls p) (hfailure : ∃ call ∈ calls, call.failure ≠ none) :
    p.stopped = true := by
  obtain ⟨call, hcall, hfails⟩ := hfailure
  cases h with
  | running hstopped hclosed hcalls hlines hrounds => exact absurd (hcalls call hcall) hfails
  | finished hstopped hclosed hcalls hlines => exact hstopped
  | failed hstopped front last hsplit hfront hlast hlines => exact hstopped

/-- A pump stops for a failure of its own, or because all of its stream has been written. -/
theorem cause_of_stopped (h : Standing bytes closed rounds calls p) (hstop : p.stopped = true) :
    (∃ call ∈ calls, call.failure ≠ none) ∨ closed ∧ calls.map (·.line) = splitLines lineFeed bytes := by
  cases h with
  | running hstopped hclosed hcalls hlines hrounds => simp [hstopped] at hstop
  | finished hstopped hclosed hcalls hlines => exact .inr ⟨hclosed, hlines.symm⟩
  | failed hstopped front last hsplit hfront hlast hlines => exact .inl ⟨last, by simp [hsplit], hlast⟩

/-- A pump that is given enough rounds stops. -/
theorem stopped_of_rounds (h : Standing bytes closed rounds calls p) (hclosed : closed)
    (henough : (splitLines lineFeed bytes).length < rounds) : p.stopped = true := by
  have hlength := h.isPrefix_lines.length_le
  rw [List.length_map] at hlength
  cases h with
  | running hstopped hpump hcalls hlines hrounds =>
    -- every round since the end has written a line, and there are not so many
    have hwritten := hrounds hclosed
    omega
  | finished hstopped hclosed hcalls hlines => exact hstopped
  | failed hstopped front last hsplit hfront hlast hlines => exact hstopped

end Pump.Standing

/-! ## Both pumps on a schedule -/

namespace PumpPair

variable {o : Outputs} {number : Nat} {w : Writer}

theorem callsIn_call? (pumps : PumpPair) (stream : OutputStream) (w : Writer) (move : Move) :
    stream.callsIn (pumps.call? stream w move).toList = (pumps.call? stream w move).toList := by
  refine List.filter_eq_self.2 fun call hcall => ?_
  simpa using stream_of_call? (Option.mem_toList.1 hcall)

theorem callsIn_call?_of_ne {pumps : PumpPair} {stream other : OutputStream} (h : other ≠ stream) (w : Writer)
    (move : Move) : stream.callsIn (pumps.call? other w move).toList = [] := by
  refine List.filter_eq_nil_iff.2 fun call hcall => ?_
  simpa [stream_of_call? (Option.mem_toList.1 hcall)] using h

/-- How the pump of a stream stands after a schedule. -/
def StandsAfter (stream : OutputStream) (schedule : Schedule) (calls : List WriteCall) (p : Pump) : Prop :=
  p.Standing (stream.delivered schedule) (stream.closing ∈ schedule) (stream.lateRounds schedule) calls

section

variable {stream : OutputStream} {schedule : Schedule} {calls : List WriteCall} {p : Pump}

/-- A move of one stream leaves the other one alone. -/
theorem StandsAfter.other (h : StandsAfter stream schedule calls p) {other : OutputStream} (hne : other ≠ stream)
    (move : Move) : StandsAfter stream (schedule ++ [(other, move)]) calls p := by
  have hclosing : (other, move) ≠ stream.closing := fun heq => hne (congrArg Prod.fst heq)
  have hturn : (other, move) ≠ (stream, .turn) := fun heq => hne (congrArg Prod.fst heq)
  have hpiece : stream.piece (other, move) = [] := by
    unfold OutputStream.piece
    split <;> simp_all
  have hrounds : stream.lateRounds (schedule ++ [(other, move)]) ≤ stream.lateRounds schedule := by
    rw [OutputStream.lateRounds_append]
    split <;> simp [hturn]
  unfold StandsAfter
  simp only [OutputStream.delivered_append, hpiece, ite_self, List.append_nil, OutputStream.closing_mem_append,
    hclosing, or_false]
  exact h.mono hrounds

/-- A delivery of the stream. -/
theorem StandsAfter.deliver (h : StandsAfter stream schedule calls p) (d : Delivery) :
    StandsAfter stream (schedule ++ [(stream, .deliver d)]) calls (p.receive d) := by
  unfold StandsAfter at h ⊢
  have hturn : ((stream, .deliver d) : OutputStream × Move) ≠ (stream, .turn) := fun heq => nomatch heq
  simp only [OutputStream.delivered_append, OutputStream.closing_mem_append, OutputStream.lateRounds_append,
    List.count_singleton, beq_iff_eq, if_neg hturn, Nat.add_zero]
  by_cases hclosed : stream.closing ∈ schedule
  · simpa [hclosed] using h.receive_late hclosed d
  rw [if_neg hclosed, if_neg hclosed]
  cases d with
  | piece bytes =>
    have hpiece : ((stream, .deliver (.piece bytes)) : OutputStream × Move) ≠ stream.closing := fun heq => nomatch heq
    simp only [OutputStream.piece, if_true, hpiece, or_false]
    exact (h.receive_piece hclosed bytes).mono (Nat.zero_le _)
  | closed =>
    simp only [OutputStream.piece, List.append_nil, OutputStream.closing, or_true]
    exact h.receive_closed hclosed

/-- A round of the pump of the stream. -/
theorem StandsAfter.turn (h : StandsAfter stream schedule calls p) (hw : o.writers[number]? = some w) :
    StandsAfter stream (schedule ++ [(stream, .turn)]) (calls ++ (p.call? stream w).toList)
      (p.turn (.writer number) o).1 := by
  have hrounds : stream.lateRounds (schedule ++ [(stream, .turn)]) ≤ stream.lateRounds schedule + 1 := by
    rw [OutputStream.lateRounds_append]
    split <;> simp
  have hclosing : ((stream, .turn) : OutputStream × Move) ≠ stream.closing := fun heq => nomatch heq
  unfold StandsAfter
  simp only [OutputStream.delivered_append, OutputStream.piece, ite_self, List.append_nil,
    OutputStream.closing_mem_append, hclosing, or_false]
  exact (Pump.Standing.turn h hw).mono hrounds

end

/-- Each of two pumps stands, throughout a schedule, as its own deliveries and rounds have it. -/
theorem standing_run (stream : OutputStream) (schedule : Schedule) (hw : o.writers[number]? = some w) :
    StandsAfter stream schedule (stream.callsIn (calls number schedule {} o))
      ((run (.writer number) schedule {} o).1.get stream) := by
  induction schedule using List.reverseRecOn with
  | nil => cases stream <;> exact Pump.Standing.start List.not_mem_nil
  | append_singleton schedule move ih =>
    obtain ⟨other, move⟩ := move
    obtain ⟨w', houtputs, -⟩ := run_writes schedule {} hw
    have hw' : (run (.writer number) schedule {} o).2.writers[number]? = some w' := by
      rw [houtputs]
      exact Outputs.getElem?_setWriter hw w'
    rw [run_append, calls_append]
    generalize run (.writer number) schedule {} o = after at ih hw' ⊢
    obtain ⟨pumps, o'⟩ := after
    simp only [calls, hw', Option.bind_some, List.append_nil]
    rw [OutputStream.callsIn_append]
    -- The pumps meet in the writer only: a move of the other stream is none of this one.
    by_cases hne : other = stream
    case neg =>
      rw [callsIn_call?_of_ne hne, List.append_nil]
      have hpump : (pumps.step (.writer number) o' other move).1.get stream = pumps.get stream := by
        cases move <;> exact get_set_of_ne _ _ hne
      exact hpump ▸ ih.other hne move
    case pos =>
      subst hne
      rw [callsIn_call?]
      cases move with
      | deliver d =>
        have hpump : (pumps.step (.writer number) o' other (.deliver d)).1.get other = (pumps.get other).receive d :=
          get_set _ _ _
        rw [call?, Option.toList_none, List.append_nil]
        exact hpump ▸ ih.deliver d
      | turn =>
        have hpump : (pumps.step (.writer number) o' other .turn).1.get other =
            ((pumps.get other).turn (.writer number) o').1 := get_set _ _ _
        exact hpump ▸ ih.turn hw'

/-- The calls come from one stream or the other. -/
theorem interleaves_callsIn (calls : List WriteCall) :
    Interleaves ((OutputStream.stdout.callsIn calls).map (·.line)) ((OutputStream.stderr.callsIn calls).map (·.line))
      (calls.map (·.line)) := by
  induction calls with
  | nil => exact .nil
  | cons call calls ih =>
    cases hstream : call.stream with
    | stdout => simpa [OutputStream.callsIn, hstream] using ih.left
    | stderr => simpa [OutputStream.callsIn, hstream] using ih.right

/-- Draining a pump is a number of rounds. -/
theorem drain_eq_run (sink : OutputSink) (stream : OutputStream) (p : Pump) (o : Outputs) (pumps : PumpPair) :
    ∃ rounds, run sink (List.replicate rounds (stream, .turn)) (pumps.set p stream) o =
      (pumps.set (p.drain sink o).1 stream, (p.drain sink o).2) := by
  fun_induction Pump.drain sink p o generalizing pumps with
  | case1 p o hnext =>
    refine ⟨1, ?_⟩
    simp [run, step]
  | case2 p o split hnext after ih =>
    obtain ⟨rounds, hrun⟩ := ih pumps
    refine ⟨rounds + 1, ?_⟩
    rw [List.replicate_succ, ← hrun]
    simp [run, step, after]

/-- Taking a delivery with all the rounds that it allows is a schedule, too. -/
theorem take_eq_run (sink : OutputSink) (pumps : PumpPair) (stream : OutputStream) (d : Delivery) (o : Outputs) :
    ∃ rounds, pumps.take sink stream d o =
      run sink ((stream, .deliver d) :: List.replicate rounds (stream, .turn)) pumps o := by
  obtain ⟨rounds, hrun⟩ := drain_eq_run sink stream ((pumps.get stream).receive d) o pumps
  exact ⟨rounds, hrun.symm⟩

end PumpPair

open PumpPair in
/-- Nothing is lost, duplicated or torn. Whatever a schedule delivers to two pumps that share a writer, and whatever the
writer does:

- the writer receives what it takes of the calls of the pumps, and nothing else changes;
- if it never fails and the schedule is long enough, both pumps stop, and it has received an interleaving of the lines
  of both streams;
- each stream makes its calls with its lines, in their order, and contributes a prefix of itself. Only its last call
  may fail. Its pump stops when a call of its own fails or all of its stream has been written, and for nothing else;
  and it does stop when the schedule is long enough. -/
theorem pumps_tear_nothing (schedule : Schedule) (o : Outputs) (number : Nat) (w : Writer)
    (hw : o.writers[number]? = some w) :
    let calls := PumpPair.calls number schedule {} o
    let after := PumpPair.run (.writer number) schedule {} o
    (∃ w' : Writer, after.2 = o.setWriter number w' ∧
      w'.content? = w.content?.map (· ++ calls.flatMap (·.taken))) ∧
    ((∀ call ∈ calls, call.failure = none) → (∀ stream : OutputStream, stream.Completes schedule) →
      (∀ stream, (after.1.get stream).stopped = true) ∧
      ∃ lines, Interleaves (splitLines lineFeed (OutputStream.stdout.delivered schedule))
          (splitLines lineFeed (OutputStream.stderr.delivered schedule)) lines ∧
        after.2.writers[number]?.bind Writer.content? = w.content?.map (· ++ lines.flatten)) ∧
    ∀ stream : OutputStream,
      let own := stream.callsIn calls
      let p := after.1.get stream
      own.map (·.line) <+: splitLines lineFeed (stream.delivered schedule) ∧
      own.flatMap (·.taken) <+: stream.delivered schedule ∧
      (∀ call ∈ own.dropLast, call.failure = none) ∧
      ((∃ call ∈ own, call.failure ≠ none) → p.stopped = true) ∧
      (p.stopped = true → (∃ call ∈ own, call.failure ≠ none) ∨
        stream.closing ∈ schedule ∧ own.map (·.line) = splitLines lineFeed (stream.delivered schedule)) ∧
      (stream.Completes schedule → p.stopped = true) := by
  intro calls after
  obtain ⟨w', houtputs, hcontent⟩ : ∃ w' : Writer, after.2 = o.setWriter number w' ∧
      w'.content? = w.content?.map (· ++ calls.flatMap (·.taken)) := run_writes schedule {} hw
  have hsound : ∀ call ∈ calls, call.Sound := sound_of_calls
  have hstanding (stream : OutputStream) : StandsAfter stream schedule (stream.callsIn calls) (after.1.get stream) :=
    standing_run stream schedule hw
  have hstops (stream : OutputStream) (h : stream.Completes schedule) : (after.1.get stream).stopped = true :=
    (hstanding stream).stopped_of_rounds h.1 h.2
  -- The second part follows from the third one: without failures, each stream has made its calls with all of its lines.
  refine ⟨⟨w', houtputs, hcontent⟩, fun hsuccess hlong => ⟨fun stream => hstops stream (hlong stream), ?_⟩,
    fun stream => ⟨(hstanding stream).isPrefix_lines, (hstanding stream).isPrefix_taken ?_,
      (hstanding stream).succeeds_dropLast, (hstanding stream).stopped_of_failure,
      (hstanding stream).cause_of_stopped, hstops stream⟩⟩
  · have hlines (stream : OutputStream) :
        (stream.callsIn calls).map (·.line) = splitLines lineFeed (stream.delivered schedule) := by
      rcases (hstanding stream).cause_of_stopped (hstops stream (hlong stream)) with ⟨call, hcall, hfails⟩ | hall
      · exact absurd (hsuccess call (List.mem_filter.1 hcall).1) hfails
      · exact hall.2
    have htaken : calls.map (·.taken) = calls.map (·.line) :=
      List.map_congr_left fun call hcall => (hsound call hcall).2 (hsuccess call hcall)
    refine ⟨calls.map (·.line), hlines .stdout ▸ hlines .stderr ▸ interleaves_callsIn calls, ?_⟩
    rw [houtputs, Outputs.getElem?_setWriter hw, Option.bind_some, hcontent, List.flatMap_def, htaken]
  · exact fun call hcall => hsound call (List.mem_filter.1 hcall).1

/-- Two short streams that come in uneven pieces: with a buffer, and with a writer that tears its first line. The pump
that has written this line stops, and the other one writes all of its stream. -/
theorem pumps_tear_nothing_abreast :
    let schedule : Schedule :=
      [(.stdout, .deliver (.piece [97])), (.stderr, .deliver (.piece [120, 121, 10])), (.stdout, .turn),
        (.stderr, .turn), (.stdout, .deliver (.piece [10, 98])), (.stderr, .deliver .closed), (.stdout, .turn),
        (.stdout, .deliver .closed), (.stdout, .turn), (.stderr, .turn), (.stderr, .turn), (.stdout, .turn),
        (.stdout, .turn)]
    let whole : Outputs := { writers := [.buffer [35]] }
    let torn : Outputs := { writers := [.planned [35] [some (.cut 1 ⟨"full"⟩)]] }
    (∃ lines, Interleaves [[97, 10], [98]] [[120, 121, 10]] lines ∧
      (PumpPair.run (.writer 0) schedule {} whole).2.writers[0]?.bind Writer.content? = some (35 :: lines.flatten)) ∧
    (PumpPair.run (.writer 0) schedule {} torn).1.stderr.stopped = true ∧
    (OutputStream.stdout.callsIn (PumpPair.calls 0 schedule {} torn)).map (·.line) = [[97, 10], [98]] := by
  intro schedule whole torn
  have hlong (stream : OutputStream) : stream.Completes schedule := by cases stream <;> decide
  have hwhole := pumps_tear_nothing schedule whole 0 (.buffer [35]) rfl
  have htorn := pumps_tear_nothing schedule torn 0 (.planned [35] [some (.cut 1 ⟨"full"⟩)]) rfl
  refine ⟨(hwhole.2.1 (by decide) hlong).2, ?_, ?_⟩
  · obtain ⟨-, -, -, hfails, -⟩ := htorn.2.2 .stderr
    exact hfails (by decide)
  · obtain ⟨-, -, -, -, hcause, hstops⟩ := htorn.2.2 .stdout
    exact ((hcause (hstops (hlong .stdout))).resolve_left (by decide)).2

end Sidecar
