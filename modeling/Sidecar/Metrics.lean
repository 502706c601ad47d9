import Sidecar.Document
import Sidecar.Text.Blank
import Sidecar.Text.Line

/-!
# Process metrics

What is recorded about each process that was started: its number, the most memory it was seen to use, and how
long it took. A collector keeps the records of every step in the order in which they were made.

The memory is read from the status text that the system keeps for a process: `residentKb?` takes the first
line that begins with `VmRSS:`.
-/

namespace Sidecar

/-- What is recorded about one process. -/
structure ProcessMetrics where
  stepId : String
  attempt : Nat
  pid : Option Nat
  /-- The most memory that was seen, in KiB. -/
  peakKb : Option Nat
  elapsedMillis : Nat
deriving DecidableEq, Repr, Inhabited

/-- Records by step: for each step that has any, its records in the order in which they were made. -/
structure MetricsCollector where
  groups : List (String × List ProcessMetrics) := []
deriving DecidableEq, Repr, Inhabited

namespace MetricsCollector

/-- Adds a record to the group of its step. -/
def addTo (m : ProcessMetrics) :
    List (String × List ProcessMetrics) → List (String × List ProcessMetrics)
  | [] => [(m.stepId, [m])]
  | (id, records) :: rest =>
    if id = m.stepId then (id, records ++ [m]) :: rest else (id, records) :: addTo m rest

/-- Records the metrics of a process. -/
def record (c : MetricsCollector) (m : ProcessMetrics) : MetricsCollector :=
  ⟨addTo m c.groups⟩

/-- The records of a step, in the order in which they were made. -/
def get (c : MetricsCollector) (stepId : String) : List ProcessMetrics :=
  (c.groups.lookup stepId).getD []

/-- All records, step by step. -/
def getAll (c : MetricsCollector) : List ProcessMetrics :=
  c.groups.flatMap (·.2)

/-- The number of records. -/
def size (c : MetricsCollector) : Nat :=
  c.getAll.length

/-- The collector after records have been made one after the other. -/
def ofList (records : List ProcessMetrics) : MetricsCollector :=
  records.foldl record {}

/-- A new record stands behind those of its step, and nothing changes for other steps. -/
@[simp] theorem get_record (c : MetricsCollector) (m : ProcessMetrics) (stepId : String) :
    (c.record m).get stepId = if stepId = m.stepId then c.get stepId ++ [m] else c.get stepId := by
  simp only [get, record]
  induction c.groups with
  | nil => by_cases h : stepId = m.stepId <;> simp [addTo, List.lookup_cons, h, beq_eq_false_iff_ne.2]
  | cons group rest ih =>
    obtain ⟨id, records⟩ := group
    simp only [addTo]
    by_cases hm : id = m.stepId
    · by_cases h : stepId = m.stepId <;> simp [List.lookup_cons, hm, h, beq_eq_false_iff_ne.2]
    · by_cases h : stepId = id
      · simp [hm, h]
      · simp [List.lookup_cons, hm, beq_eq_false_iff_ne.2 h, ih]

end MetricsCollector

/-- Reads a number that may have a plus sign and does not exceed 64 bits. -/
def readCount? (word : List Char) : Option Nat :=
  let digits := match word with
    | '+' :: rest => rest
    | cs => cs
  if digits.isEmpty || !digits.all Char.isDigit then none
  else
    let n := Nat.ofDigitChars 10 digits 0
    if n ≤ maxWord64 then some n else none

/-- The memory that a status text tells of, in KiB: the first word after `VmRSS:` in the first line that
begins with it. -/
def residentKb? (status : String) : Option Nat := do
  let rest ← (Text.linesOf status.toList).findSome? fun line =>
    if "VmRSS:".toList.isPrefixOf line then some (line.drop 6) else none
  let word ← (Text.wordsOf rest).head?
  readCount? word

end Sidecar
