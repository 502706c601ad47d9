import Mathlib.Data.Fin.Tuple.Basic
import Sidecar.Proofs.Decoding
import Sidecar.Proofs.Placing
import Sidecar.Sink

/-!
# Sinks that share a destination

What becomes of destinations in any history in which sinks are created, copied and written to. A sink leads to the
destination of the sink that it was copied from, however many copies lie between; so all that is written through the
sinks of one creation stands behind one another at one destination, and nothing else does.

The main statement is `SinkHistory.sinks_share`. It rests on one invariant, `Kept`, which says where every sink leads
and what has arrived there, and that two sinks are the same just if they are of one class. Each kind of step keeps it
(`Kept.create`, `Kept.copy`, `Kept.write`), and so every history does (`kept_run`). What a single write does is known
from the sink that it goes through (`Leads.write_self`, `Leads.write_other`).

Files are opened for appending, each by one creation only, and where a file can be opened.
-/

namespace Sidecar

/-! ## Destinations -/

/-- What a sink is created for. -/
inductive Destination where
  | buffer (content : List UInt8)
  | file (path : List String)
  | stdout
  | stderr
deriving DecidableEq, Repr

/-- Whether what arrives can be read back: a standard stream keeps nothing. -/
def Destination.isStored : Destination → Bool
  | .buffer _ => true
  | .file _ => true
  | .stdout => false
  | .stderr => false

namespace Outputs

/-- Creates a sink for a destination. A file is opened for appending. -/
def create (o : Outputs) : Destination → OutputSink × Outputs
  | .buffer content => o.addWriter (.buffer content)
  | .file path => o.openFile path .append
  | .stdout => (.stdout, o)
  | .stderr => (.stderr, o)

/-- The bytes that a buffer or a file holds. -/
def bytes? (o : Outputs) : OutputSink → Option (List UInt8)
  | .writer number => o.writers[number]?.bind Writer.content?
  | .file number => o.handles[number]?.map fun handle => o.fileContent handle.path
  | .stdout => none
  | .stderr => none

/-- The text that can be read back is that of the bytes. -/
theorem contents?_eq (o : Outputs) (sink : OutputSink) :
    o.contents? sink = (o.bytes? sink).map Text.Utf8.decodeLossy := by
  cases sink with
  | writer number => rfl
  | file number =>
    rw [contents?, bytes?, Option.map_map]
    rfl
  | stdout => rfl
  | stderr => rfl

/-- What a destination holds in the beginning. -/
def initial (o : Outputs) : Destination → List UInt8
  | .buffer content => content
  | .file path => o.fileContent path
  | .stdout => []
  | .stderr => []

/-- A sink leads to a destination, and a buffer or a file holds these bytes. -/
def Leads (o : Outputs) (sink : OutputSink) (content : List UInt8) : Destination → Prop
  | .buffer _ => ∃ number, sink = .writer number ∧ o.writers[number]? = some (.buffer content)
  | .file path => ∃ number, sink = .file number ∧ o.handles[number]? = some ⟨path, .append⟩ ∧
      o.tree.get? path = some (.file content)
  | .stdout => sink = .stdout
  | .stderr => sink = .stderr

/-- Two destinations are not two files one of which is on the way to the other, or the same one. -/
def Apart (d d' : Destination) : Prop :=
  ∀ path path', d = .file path → d' = .file path' → ¬path <+: path' ∧ ¬path' <+: path

section

variable {o : Outputs} {sink sink' : OutputSink} {content content' : List UInt8} {d d' : Destination}

theorem write_buffer {number : Nat} (h : o.writers[number]? = some (.buffer content)) (chunk : List UInt8) :
    o.write (.writer number) chunk =
      ({ o with writers := o.writers.set number (.buffer (content ++ chunk)) }, .ok ()) := by
  simp only [write, h, Writer.write]

theorem write_append {number : Nat} {path : List String} (h : o.handles[number]? = some ⟨path, .append⟩)
    (hfile : o.tree.get? path = some (.file content)) (chunk : List UInt8) :
    o.write (.file number) chunk = ({ o with tree := o.tree.insert path (.file (content ++ chunk)) }, .ok ()) := by
  have hcontent : o.fileContent path = content := by
    rw [fileContent, hfile]
    rfl
  simp only [write, writeFile, h, hcontent]

/-- The bytes of a buffer or a file are those that have arrived. -/
theorem Leads.bytes?_eq (h : o.Leads sink content d) (hstored : d.isStored = true) : o.bytes? sink = some content := by
  cases d with
  | buffer start =>
    obtain ⟨number, rfl, hwriter⟩ := h
    simp only [bytes?, hwriter, Option.bind_some, Writer.content?]
  | file path =>
    obtain ⟨number, rfl, hhandle, hfile⟩ := h
    simp only [bytes?, hhandle, Option.map_some, fileContent, hfile, Option.bind_some, FileTree.content?,
      Option.getD_some]
  | stdout => cases hstored
  | stderr => cases hstored

/-- What is written through a sink comes behind what its destination holds, and nothing can go wrong. -/
theorem Leads.write_self (h : o.Leads sink content d) (chunk : List UInt8) :
    (o.write sink chunk).1.Leads sink (content ++ chunk) d ∧ (o.write sink chunk).2 = .ok () := by
  cases d with
  | buffer start =>
    obtain ⟨number, rfl, hwriter⟩ := h
    rw [write_buffer hwriter]
    have hlt : number < o.writers.length := (List.getElem?_eq_some_iff.1 hwriter).1
    exact ⟨⟨number, rfl, List.getElem?_set_self hlt⟩, rfl⟩
  | file path =>
    obtain ⟨number, rfl, hhandle, hfile⟩ := h
    rw [write_append hhandle hfile]
    exact ⟨⟨number, rfl, hhandle, FileTree.get?_insert_self ..⟩, rfl⟩
  | stdout =>
    cases h
    exact ⟨rfl, rfl⟩
  | stderr =>
    cases h
    exact ⟨rfl, rfl⟩

/-- A sink leads to where it led if its writer, its open file and the content of this file are still the same. -/
theorem Leads.of_same {o' : Outputs} (h : o.Leads sink content d)
    (hwriters : ∀ number w, sink = .writer number → o.writers[number]? = some w → o'.writers[number]? = some w)
    (hhandles : ∀ number handle, sink = .file number → o.handles[number]? = some handle →
      o'.handles[number]? = some handle)
    (htree : ∀ path, d = .file path → o'.tree.get? path = o.tree.get? path) : o'.Leads sink content d := by
  cases d with
  | buffer start =>
    obtain ⟨number, hsink, hwriter⟩ := h
    exact ⟨number, hsink, hwriters number _ hsink hwriter⟩
  | file path =>
    obtain ⟨number, hsink, hhandle, hfile⟩ := h
    exact ⟨number, hsink, hhandles number _ hsink hhandle, (htree path rfl).trans hfile⟩
  | stdout => exact h
  | stderr => exact h

/-- What is written through another sink does not arrive. -/
theorem Leads.write_other (h : o.Leads sink content d) (h' : o.Leads sink' content' d') (hne : sink ≠ sink')
    (happart : Apart d d') (chunk : List UInt8) : (o.write sink' chunk).1.Leads sink content d := by
  cases d' with
  | buffer start' =>
    obtain ⟨number', rfl, hwriter'⟩ := h'
    rw [write_buffer hwriter']
    refine h.of_same ?_ (fun _ _ _ hhandle => hhandle) fun _ _ => rfl
    intro number w hsink hwriter
    have hnumber : number' ≠ number := by
      rintro rfl
      exact hne hsink
    exact (List.getElem?_set_ne hnumber).trans hwriter
  | file path' =>
    obtain ⟨number', rfl, hhandle', hfile'⟩ := h'
    rw [write_append hhandle' hfile']
    refine h.of_same (fun _ _ _ hwriter => hwriter) (fun _ _ _ hhandle => hhandle) ?_
    intro path hd
    obtain ⟨hpath, hpath'⟩ := happart path path' hd rfl
    exact FileTree.get?_insert_of_apart hpath' hpath ..
  | stdout =>
    cases h'
    exact h.of_same (fun _ _ _ hwriter => hwriter) (fun _ _ _ hhandle => hhandle) fun _ _ => rfl
  | stderr =>
    cases h'
    exact h.of_same (fun _ _ _ hwriter => hwriter) (fun _ _ _ hhandle => hhandle) fun _ _ => rfl

/-- What is written through a sink changes no file that the sink does not lead to. -/
theorem Leads.get?_write (h : o.Leads sink content d) {other : List String}
    (hother : ∀ path, d = .file path → ¬path <+: other ∧ ¬other <+: path) (chunk : List UInt8) :
    (o.write sink chunk).1.tree.get? other = o.tree.get? other := by
  cases d with
  | buffer start =>
    obtain ⟨number, rfl, hwriter⟩ := h
    rw [write_buffer hwriter]
  | file path =>
    obtain ⟨number, rfl, hhandle, hfile⟩ := h
    obtain ⟨hpath, hpath'⟩ := hother path rfl
    rw [write_append hhandle hfile]
    exact FileTree.get?_insert_of_apart hpath hpath' ..
  | stdout =>
    cases h
    rfl
  | stderr =>
    cases h
    rfl

/-- A file that is opened changes no other file. -/
theorem get?_openFile {path other : List String} (hpath : ¬path <+: other) (hother : ¬other <+: path)
    (mode : FileMode) : (o.openFile path mode).2.tree.get? other = o.tree.get? other := by
  rw [openFile]
  dsimp only
  split
  · rfl
  · exact FileTree.get?_insert_of_apart hpath hother ..

/-- A new sink changes nothing for the others. -/
theorem Leads.create_other (h : o.Leads sink content d) (happart : Apart d d') :
    (o.create d').2.Leads sink content d := by
  cases d' with
  | buffer start' =>
    refine h.of_same ?_ (fun _ _ _ hhandle => hhandle) fun _ _ => rfl
    intro number w _ hwriter
    have hlt : number < o.writers.length := (List.getElem?_eq_some_iff.1 hwriter).1
    exact (List.getElem?_append_left hlt).trans hwriter
  | file path' =>
    refine h.of_same (fun _ _ _ hwriter => hwriter) ?_ ?_
    · intro number handle _ hhandle
      have hlt : number < o.handles.length := (List.getElem?_eq_some_iff.1 hhandle).1
      exact (List.getElem?_append_left hlt).trans hhandle
    · intro path hd
      obtain ⟨hpath, hpath'⟩ := happart path path' hd rfl
      exact get?_openFile hpath' hpath _
  | stdout => exact h
  | stderr => exact h

/-- A new sink leads to its destination, which holds what it held before. -/
theorem create_leads (o : Outputs) (hdir : ∀ path entries, d = .file path → o.tree.get? path ≠ some (.dir entries)) :
    (o.create d).2.Leads (o.create d).1 (o.initial d) d := by
  cases d with
  | buffer content => exact ⟨o.writers.length, rfl, List.getElem?_concat_length⟩
  | file path =>
    refine ⟨o.handles.length, rfl, List.getElem?_concat_length, ?_⟩
    simp only [create, openFile, initial, fileContent]
    cases hfound : o.tree.get? path with
    | none => exact FileTree.get?_insert_self ..
    | some found =>
      cases found with
      | file content => exact hfound
      | dir entries => exact absurd hfound (hdir path entries rfl)
  | stdout => rfl
  | stderr => rfl

/-- A new sink is none of those there are, except that a standard stream has only one. -/
theorem Leads.eq_create (h : o.Leads sink content d) (d' : Destination) :
    sink = (o.create d').1 ↔ d = .stdout ∧ d' = .stdout ∨ d = .stderr ∧ d' = .stderr := by
  cases d with
  | buffer start =>
    obtain ⟨number, rfl, hwriter⟩ := h
    have hlt : number < o.writers.length := (List.getElem?_eq_some_iff.1 hwriter).1
    cases d' with
    | buffer start' => simp [create, addWriter, hlt.ne]
    | file path' => simp [create, openFile]
    | stdout => simp [create]
    | stderr => simp [create]
  | file path =>
    obtain ⟨number, rfl, hhandle, -⟩ := h
    have hlt : number < o.handles.length := (List.getElem?_eq_some_iff.1 hhandle).1
    cases d' with
    | buffer start' => simp [create, addWriter]
    | file path' => simp [create, openFile, hlt.ne]
    | stdout => simp [create]
    | stderr => simp [create]
  | stdout =>
    cases h
    cases d' <;> simp [create, addWriter, openFile]
  | stderr =>
    cases h
    cases d' <;> simp [create, addWriter, openFile]

end

end Outputs

/-! ## Histories -/

/-- What is done with sinks, the sinks being numbered as they come. In the end there are `n` of them. -/
inductive SinkHistory : Nat → Type where
  | start : SinkHistory 0
  | create {n : Nat} (past : SinkHistory n) (d : Destination) : SinkHistory (n + 1)
  | copy {n : Nat} (past : SinkHistory n) (x : Fin n) : SinkHistory (n + 1)
  | write {n : Nat} (past : SinkHistory n) (x : Fin n) (chunk : List UInt8) : SinkHistory n

/-- Sinks with all destinations. -/
structure OpenSinks (n : Nat) where
  sinks : Fin n → OutputSink
  outputs : Outputs

/-- Whether two of the sinks are told to be the same. -/
def OpenSinks.same {n : Nat} (s : OpenSinks n) (x y : Fin n) : Bool :=
  (s.sinks x).sameAs (s.sinks y)

theorem OpenSinks.same_iff {n : Nat} {s : OpenSinks n} {x y : Fin n} : s.same x y = true ↔ s.sinks x = s.sinks y :=
  decide_eq_true_iff

namespace SinkHistory

variable {n : Nat}

/-- Which sink of those there were is meant by a number when one has been copied: the last number means the copy. -/
def copyOf (x : Fin n) : Fin (n + 1) → Fin n :=
  Fin.snoc (α := fun _ => Fin n) id x

/-- The sinks and the destinations after a history. A copy of a sink is the same sink. -/
def run (o : Outputs) {n : Nat} : SinkHistory n → OpenSinks n
  | .start => ⟨Fin.elim0, o⟩
  | .create past d =>
    let s := past.run o
    let created := s.outputs.create d
    ⟨Fin.snoc (α := fun _ => OutputSink) s.sinks created.1, created.2⟩
  | .copy past x =>
    let s := past.run o
    ⟨fun y => s.sinks (copyOf x y), s.outputs⟩
  | .write past x chunk =>
    let s := past.run o
    ⟨s.sinks, (s.outputs.write (s.sinks x) chunk).1⟩

/-- The creation that a sink descends from by copying, given by the number of the sink that was created. -/
def origin {n : Nat} : SinkHistory n → Fin n → Nat
  | .start => Fin.elim0
  | .create (n := m) past _ => Fin.snoc (α := fun _ => Nat) past.origin m
  | .copy past x => fun y => past.origin (copyOf x y)
  | .write past _ _ => past.origin

/-- The destination that was named at the creation of a sink. -/
def destination {n : Nat} : SinkHistory n → Fin n → Destination
  | .start => Fin.elim0
  | .create past d => Fin.snoc (α := fun _ => Destination) past.destination d
  | .copy past x => fun y => past.destination (copyOf x y)
  | .write past _ _ => past.destination

/-- All that is written, in order, each time with the creation that the sink descends from. -/
def writes {n : Nat} : SinkHistory n → List (Nat × List UInt8)
  | .start => []
  | .create past _ => past.writes
  | .copy past _ => past.writes
  | .write past x chunk => past.writes ++ [(past.origin x, chunk)]

/-- All that is written through a sink and through those that descend from the same creation. -/
def received (h : SinkHistory n) (x : Fin n) : List UInt8 :=
  (h.writes.filter fun w => w.1 = h.origin x).flatMap (·.2)

/-- Two sinks descend from the same creation, or both are for the same standard stream. -/
def SameClass (h : SinkHistory n) (x y : Fin n) : Prop :=
  h.origin x = h.origin y ∨ h.destination x = .stdout ∧ h.destination y = .stdout ∨
    h.destination x = .stderr ∧ h.destination y = .stderr

/-- Every file is opened by one creation only, at a place where a file can be opened. -/
def OwnFiles (tree : FileTree) {n : Nat} : SinkHistory n → Prop
  | .start => True
  | .create past d =>
    past.OwnFiles tree ∧ ∀ path, d = .file path → tree.Opens path ∧ ∀ x, past.destination x ≠ .file path
  | .copy past _ => past.OwnFiles tree
  | .write past _ _ => past.OwnFiles tree

/-! ### New sinks -/

section

variable (past : SinkHistory n) (d : Destination) (o : Outputs)

@[simp] theorem copyOf_last (x : Fin n) : copyOf x (Fin.last n) = x :=
  Fin.snoc_last ..

@[simp] theorem copyOf_castSucc (x y : Fin n) : copyOf x y.castSucc = y :=
  Fin.snoc_castSucc ..

@[simp] theorem sinks_create_last :
    ((past.create d).run o).sinks (Fin.last n) = ((past.run o).outputs.create d).1 := by
  simp only [run, Fin.snoc_last]

@[simp] theorem sinks_create_castSucc (x : Fin n) :
    ((past.create d).run o).sinks x.castSucc = (past.run o).sinks x := by
  simp only [run, Fin.snoc_castSucc]

@[simp] theorem origin_create_last : (past.create d).origin (Fin.last n) = n :=
  Fin.snoc_last ..

@[simp] theorem origin_create_castSucc (x : Fin n) : (past.create d).origin x.castSucc = past.origin x :=
  Fin.snoc_castSucc ..

@[simp] theorem destination_create_last : (past.create d).destination (Fin.last n) = d :=
  Fin.snoc_last ..

@[simp] theorem destination_create_castSucc (x : Fin n) :
    (past.create d).destination x.castSucc = past.destination x :=
  Fin.snoc_castSucc ..

end

/-! ### Classes -/

section

variable {h : SinkHistory n} {tree : FileTree} {x y : Fin n}

theorem SameClass.symm (hxy : h.SameClass x y) : h.SameClass y x := by
  rcases hxy with horigin | ⟨hx, hy⟩ | ⟨hx, hy⟩
  · exact .inl horigin.symm
  · exact .inr (.inl ⟨hy, hx⟩)
  · exact .inr (.inr ⟨hy, hx⟩)

/-- A creation is numbered by a sink that there is. -/
theorem origin_lt (h : SinkHistory n) (x : Fin n) : h.origin x < n := by
  induction h with
  | start => exact x.elim0
  | create past d ih =>
    cases x using Fin.lastCases with
    | last =>
      rw [origin_create_last]
      exact Nat.lt_succ_self _
    | cast x =>
      rw [origin_create_castSucc]
      exact Nat.lt_succ_of_lt (ih x)
  | copy past z ih => exact Nat.lt_succ_of_lt (ih (copyOf z x))
  | write past z chunk ih => exact ih x

theorem lt_of_mem_writes (h : SinkHistory n) : ∀ w ∈ h.writes, w.1 < n := by
  induction h with
  | start => exact fun w hw => absurd hw List.not_mem_nil
  | create past d ih => exact fun w hw => Nat.lt_succ_of_lt (ih w hw)
  | copy past z ih => exact fun w hw => Nat.lt_succ_of_lt (ih w hw)
  | write past z chunk ih =>
    intro w hw
    rcases List.mem_append.1 hw with hold | hnew
    · exact ih w hold
    · rw [List.mem_singleton.1 hnew]
      exact past.origin_lt z

/-- Files are opened where they can be. -/
theorem OwnFiles.opens (hown : h.OwnFiles tree) {path : List String} (hx : h.destination x = .file path) :
    tree.Opens path := by
  induction h with
  | start => exact x.elim0
  | create past d ih =>
    cases x using Fin.lastCases with
    | last =>
      rw [destination_create_last] at hx
      exact (hown.2 path hx).1
    | cast x =>
      rw [destination_create_castSucc] at hx
      exact ih hown.1 hx
  | copy past z ih => exact ih hown hx
  | write past z chunk ih => exact ih hown hx

/-- Two sinks for one file descend from the same creation. -/
theorem OwnFiles.origin_eq (hown : h.OwnFiles tree) {path : List String} (hx : h.destination x = .file path)
    (hy : h.destination y = .file path) : h.origin x = h.origin y := by
  induction h with
  | start => exact x.elim0
  | create past d ih =>
    -- a file that is opened now is no destination of the sinks there have been
    cases x using Fin.lastCases with
    | last =>
      rw [destination_create_last] at hx
      cases y using Fin.lastCases with
      | last => rfl
      | cast y =>
        rw [destination_create_castSucc] at hy
        exact absurd hy ((hown.2 path hx).2 y)
    | cast x =>
      rw [destination_create_castSucc] at hx
      cases y using Fin.lastCases with
      | last =>
        rw [destination_create_last] at hy
        exact absurd hx ((hown.2 path hy).2 x)
      | cast y =>
        rw [destination_create_castSucc] at hy
        rw [origin_create_castSucc, origin_create_castSucc]
        exact ih hown.1 hx hy
  | copy past z ih => exact ih hown hx hy
  | write past z chunk ih => exact ih hown hx hy

/-- Sinks of different creations do not meet in a file. -/
theorem OwnFiles.apart (hown : h.OwnFiles tree) (hne : h.origin x ≠ h.origin y) :
    Outputs.Apart (h.destination x) (h.destination y) := by
  intro path path' hx hy
  have hpaths : path ≠ path' := by
    rintro rfl
    exact hne (hown.origin_eq hx hy)
  exact (hown.opens hx).apart (hown.opens hy) hpaths

end

/-! ### What is received -/

section

variable (past : SinkHistory n)

theorem received_create_last (d : Destination) : (past.create d).received (Fin.last n) = [] := by
  rw [received, origin_create_last, List.filter_eq_nil_iff.2]
  · rfl
  · intro w hw hlast
    exact absurd (of_decide_eq_true hlast) (past.lt_of_mem_writes w hw).ne

theorem received_create_castSucc (d : Destination) (x : Fin n) :
    (past.create d).received x.castSucc = past.received x := by
  rw [received, origin_create_castSucc]
  rfl

theorem received_write_of_eq (z : Fin n) (chunk : List UInt8) {x : Fin n} (hx : past.origin x = past.origin z) :
    (past.write z chunk).received x = past.received x ++ chunk := by
  simp [received, writes, origin, hx]

theorem received_write_of_ne (z : Fin n) (chunk : List UInt8) {x : Fin n} (hx : past.origin x ≠ past.origin z) :
    (past.write z chunk).received x = past.received x := by
  rw [received, writes, List.filter_append, List.filter_cons_of_neg, List.filter_nil, List.append_nil]
  · rfl
  · exact fun heq => hx (of_decide_eq_true heq).symm

end

/-! ### The invariant -/

/-- Where the sinks of a history lead, and what has arrived there. -/
structure Kept (o : Outputs) (h : SinkHistory n) : Prop where
  /-- Every sink leads to its destination, which has received what was written for it. -/
  leads : ∀ x, (h.run o).outputs.Leads ((h.run o).sinks x) (o.initial (h.destination x) ++ h.received x)
    (h.destination x)
  /-- Sinks are the same just if they are of one class. -/
  same : ∀ x y, (h.run o).sinks x = (h.run o).sinks y ↔ h.SameClass x y
  /-- Files that have not been opened are as they were. -/
  unopened : ∀ path, o.tree.Opens path → (∀ x, h.destination x ≠ .file path) →
    (h.run o).outputs.tree.get? path = o.tree.get? path

section

variable {o : Outputs} {past : SinkHistory n}

theorem sameClass_create_castSucc (d : Destination) (x y : Fin n) :
    (past.create d).SameClass x.castSucc y.castSucc ↔ past.SameClass x y := by
  simp only [SameClass, origin_create_castSucc, destination_create_castSucc]

/-- A new sink makes a class of its own, unless it is for a standard stream. -/
theorem sameClass_create_last (d : Destination) (x : Fin n) :
    (past.create d).SameClass x.castSucc (Fin.last n) ↔
      past.destination x = .stdout ∧ d = .stdout ∨ past.destination x = .stderr ∧ d = .stderr := by
  simp only [SameClass, origin_create_castSucc, origin_create_last, destination_create_castSucc,
    destination_create_last]
  exact or_iff_right (past.origin_lt x).ne

/-- Creating a sink keeps the invariant. -/
theorem Kept.create (hkept : Kept o past) {d : Destination} (hown : (past.create d).OwnFiles o.tree) :
    Kept o (past.create d) := by
  obtain ⟨hpast, hnew⟩ := hown
  have hfile : ∀ path, d = .file path → (past.run o).outputs.tree.get? path = o.tree.get? path := by
    intro path hd
    exact hkept.unopened path (hnew path hd).1 (hnew path hd).2
  have hinitial : (past.run o).outputs.initial d = o.initial d := by
    cases d with
    | buffer content => rfl
    | file path => simp only [Outputs.initial, Outputs.fileContent, hfile path rfl]
    | stdout => rfl
    | stderr => rfl
  have hapart : ∀ x, Outputs.Apart (past.destination x) d := by
    intro x path path' hx hd
    have hne : path ≠ path' := by
      rintro rfl
      exact (hnew path hd).2 x hx
    exact (hpast.opens hx).apart (hnew path' hd).1 hne
  constructor
  · -- nothing has arrived at the new destination, and the others are let alone
    intro x
    cases x using Fin.lastCases with
    | last =>
      rw [sinks_create_last, destination_create_last, received_create_last, List.append_nil, ← hinitial]
      refine Outputs.create_leads _ ?_
      intro path entries hd
      rw [hfile path hd]
      exact (hnew path hd).1.ne_dir entries
    | cast x =>
      rw [sinks_create_castSucc, destination_create_castSucc, received_create_castSucc]
      exact (hkept.leads x).create_other (hapart x)
  · -- the new sink is the same as another one for a standard stream only
    have hlast : ∀ x : Fin n, ((past.create d).run o).sinks x.castSucc = ((past.create d).run o).sinks (Fin.last n) ↔
        (past.create d).SameClass x.castSucc (Fin.last n) := by
      intro x
      rw [sinks_create_castSucc, sinks_create_last, sameClass_create_last]
      exact (hkept.leads x).eq_create d
    intro x y
    cases x using Fin.lastCases with
    | last =>
      cases y using Fin.lastCases with
      | last => exact iff_of_true rfl (.inl rfl)
      | cast y =>
        rw [eq_comm, hlast]
        exact ⟨SameClass.symm, SameClass.symm⟩
    | cast x =>
      cases y using Fin.lastCases with
      | last => exact hlast x
      | cast y =>
        rw [sinks_create_castSucc, sinks_create_castSucc, sameClass_create_castSucc]
        exact hkept.same x y
  · -- a file that is still not opened is not the one that is opened now, nor on the way to it
    intro path hopens hunopened
    have hothers : ∀ x, past.destination x ≠ .file path := by
      intro x hx
      exact hunopened x.castSucc (by rw [destination_create_castSucc, hx])
    have hd : d ≠ .file path := by
      intro hd
      exact hunopened (Fin.last n) (by rw [destination_create_last, hd])
    rw [← hkept.unopened path hopens hothers]
    cases d with
    | buffer content => rfl
    | file path' =>
      have hne : path' ≠ path := fun heq => hd (congrArg Destination.file heq)
      obtain ⟨hpath, hpath'⟩ := (hnew path' rfl).1.apart hopens hne
      exact Outputs.get?_openFile hpath hpath' _
    | stdout => rfl
    | stderr => rfl

/-- Copying a sink keeps the invariant. -/
theorem Kept.copy (hkept : Kept o past) (z : Fin n) : Kept o (past.copy z) where
  leads x := hkept.leads (copyOf z x)
  same x y := hkept.same (copyOf z x) (copyOf z y)
  unopened path hopens hunopened := by
    apply hkept.unopened path hopens
    intro x hx
    apply hunopened x.castSucc
    rw [← hx]
    exact congrArg past.destination (copyOf_castSucc z x)

/-- Writing keeps the invariant. -/
theorem Kept.write (hkept : Kept o past) (hown : past.OwnFiles o.tree) (z : Fin n) (chunk : List UInt8) :
    Kept o (past.write z chunk) := by
  constructor
  · intro x
    have hx := hkept.leads x
    by_cases horigin : past.origin x = past.origin z
    · -- the chunk goes through the sink itself
      have hsink : (past.run o).sinks z = (past.run o).sinks x := ((hkept.same x z).2 (.inl horigin)).symm
      rw [received_write_of_eq past z chunk horigin, ← List.append_assoc]
      simp only [run, hsink]
      exact (hx.write_self chunk).1
    · rw [received_write_of_ne past z chunk horigin]
      by_cases hsink : (past.run o).sinks x = (past.run o).sinks z
      · -- two sinks for the same standard stream, of which nothing is known but that
        rcases (hkept.same x z).1 hsink with hsame | ⟨hdestination, -⟩ | ⟨hdestination, -⟩
        · exact absurd hsame horigin
        · simp only [destination, hdestination] at hx ⊢
          exact hx
        · simp only [destination, hdestination] at hx ⊢
          exact hx
      · exact hx.write_other (hkept.leads z) hsink (hown.apart horigin) chunk
  · exact hkept.same
  · intro path hopens hunopened
    rw [← hkept.unopened path hopens hunopened]
    refine (hkept.leads z).get?_write ?_ chunk
    intro path' hz
    have hne : path' ≠ path := by
      rintro rfl
      exact hunopened z hz
    exact (hown.opens hz).apart hopens hne

end

/-- The invariant holds after every history in which each file is opened by one creation only. -/
theorem kept_run (o : Outputs) {h : SinkHistory n} (hown : h.OwnFiles o.tree) : Kept o h := by
  induction h with
  | start => exact ⟨fun x => x.elim0, fun x => x.elim0, fun path _ _ => rfl⟩
  | create past d ih => exact (ih hown.1).create hown
  | copy past z ih => exact (ih hown).copy z
  | write past z chunk ih => exact (ih hown).write hown z chunk

/-- After any history, two sinks are the same just if they descend from the same creation or are for the same standard
stream. This is an equivalence, which further writing, copying and creating do not change, and a copy is in the class of
what was copied. Every buffer and every file holds what it held in the beginning and behind it all that was written
through the sinks of its class, in order; a write always succeeds, and does not touch what a sink of another class leads
to. The text of a buffer is decoded from all its bytes, so a character is intact in whatever pieces it was written. -/
theorem sinks_share (o : Outputs) (h : SinkHistory n) (hown : h.OwnFiles o.tree) :
    let s := h.run o
    (∀ x y, s.same x y = true ↔ h.SameClass x y) ∧
    Equivalence (fun x y => s.same x y = true) ∧
    (∀ x y,
      (∀ z chunk, ((h.write z chunk).run o).same x y = s.same x y) ∧
      (∀ z, ((h.copy z).run o).same x.castSucc y.castSucc = s.same x y) ∧
      (∀ d, ((h.create d).run o).same x.castSucc y.castSucc = s.same x y) ∧
      ((h.copy x).run o).same (Fin.last n) y.castSucc = s.same x y) ∧
    (∀ x, (h.destination x).isStored = true →
      s.outputs.bytes? (s.sinks x) = some (o.initial (h.destination x) ++ h.received x) ∧
      ∀ y chunk, ¬h.SameClass x y →
        ((h.write y chunk).run o).outputs.bytes? (s.sinks x) = s.outputs.bytes? (s.sinks x)) ∧
    (∀ x chunk, (s.outputs.write (s.sinks x) chunk).2 = .ok ()) ∧
    ∀ x content, h.destination x = .buffer content →
      s.outputs.contents? (s.sinks x) = some (Text.Utf8.decodeLossy (content ++ h.received x)) ∧
      ∀ front c behind, content ++ h.received x = front ++ String.utf8EncodeChar c ++ behind →
        s.outputs.contents? (s.sinks x) =
          some (Text.Utf8.decodeLossy front ++ String.singleton c ++ Text.Utf8.decodeLossy behind) := by
  intro s
  have hkept := kept_run o hown
  refine ⟨?_, ?_, ?_, ?_, ?_, ?_⟩
  · intro x y
    rw [OpenSinks.same_iff]
    exact hkept.same x y
  · simp only [OpenSinks.same_iff]
    exact eq_equivalence.comap s.sinks
  · intro x y
    refine ⟨fun z chunk => rfl, fun z => ?_, fun d => ?_, ?_⟩
    · simp only [OpenSinks.same, run, copyOf_castSucc]
      rfl
    · rw [OpenSinks.same, sinks_create_castSucc, sinks_create_castSucc]
      rfl
    · simp only [OpenSinks.same, run, copyOf_castSucc, copyOf_last]
      rfl
  · intro x hstored
    have hbytes := (hkept.leads x).bytes?_eq hstored
    refine ⟨hbytes, ?_⟩
    intro y chunk hclass
    have hwritten := (hkept.write hown y chunk).leads x
    rw [received_write_of_ne h y chunk fun horigin => hclass (.inl horigin)] at hwritten
    exact (hwritten.bytes?_eq hstored).trans hbytes.symm
  · intro x chunk
    exact ((hkept.leads x).write_self chunk).2
  · intro x content hx
    have hleads := hkept.leads x
    rw [hx] at hleads
    have htext : s.outputs.contents? (s.sinks x) = some (Text.Utf8.decodeLossy (content ++ h.received x)) := by
      rw [Outputs.contents?_eq, hleads.bytes?_eq rfl]
      rfl
    refine ⟨htext, ?_⟩
    intro front c behind hsplit
    rw [htext, hsplit, Text.Utf8.decodeLossy_char]

/-- A character whose two bytes are written through a sink for a buffer and its copy, with a write to a file between. -/
theorem sinks_share_character :
    let o : Outputs := { tree := .dir [("log", .file [0x78])] }
    let opened := ((SinkHistory.start.create (.buffer [])).copy 0).create (.file ["log"])
    let h := ((opened.write 0 [0xC3]).write 2 [0x61]).write 1 [0xA9]
    let s := h.run o
    h.OwnFiles o.tree ∧ s.same 0 1 = true ∧ s.outputs.contents? (s.sinks 1) = some "é" ∧
      s.outputs.bytes? (s.sinks 2) = some [0x78, 0x61] := by
  intro o opened h s
  have hown : h.OwnFiles o.tree := by
    refine ⟨⟨trivial, ?_⟩, ?_⟩
    · intro path hd
      cases hd
    · intro path hd
      cases hd
      exact ⟨.inl ⟨[0x78], rfl⟩, by decide⟩
  obtain ⟨hsame, -, -, hbytes, -, htext⟩ := sinks_share o h hown
  have hshown := (htext 1 [] rfl).2 [] 'é' [] rfl
  rw [Text.Utf8.decodeLossy_nil] at hshown
  exact ⟨hown, (hsame 0 1).2 (.inl rfl), hshown, (hbytes 2 rfl).1⟩

end SinkHistory

end Sidecar
