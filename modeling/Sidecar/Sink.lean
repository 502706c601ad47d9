import Sidecar.Error
import Sidecar.FileTree
import Sidecar.Text.Utf8

/-!
# Output sinks

Where the output of processes goes. A sink is a writer that output is copied into, an open file, or one of
the standard streams. A sink is only a reference: its copies share one destination, and `Outputs` holds what
has arrived at all destinations.

A file or a standard stream can be handed to a process directly; a writer has to be fed through a pipe.
-/

namespace Sidecar

/-- A sink. Writers and files are told apart by the order in which they were opened. -/
inductive OutputSink where
  | writer (number : Nat)
  | file (number : Nat)
  | stdout
  | stderr
deriving DecidableEq, Repr, Inhabited

namespace OutputSink

/-- Whether two sinks have the same destination. -/
def sameAs (a b : OutputSink) : Bool :=
  a = b

/-- Whether a process can write to the destination itself. -/
def isDirect : OutputSink → Bool
  | .writer _ => false
  | _ => true

/-- The kind of a destination. -/
def kind : OutputSink → String
  | .writer _ => "writer"
  | .file _ => "file"
  | .stdout => "stdout"
  | .stderr => "stderr"

end OutputSink

/-- How a writer can fail: it takes only so many of the bytes, or it takes all and cannot flush them. -/
inductive WriteFailure where
  | cut (taken : Nat) (cause : SystemError)
  | unflushed (cause : SystemError)
deriving DecidableEq, Repr

/-- A writer. -/
inductive Writer where
  /-- Keeps everything. -/
  | buffer (content : List UInt8)
  /-- Drops everything. -/
  | discard
  /-- Has room for so many more bytes; its flushing may fail. -/
  | limited (content : List UInt8) (room : Nat) (failFlush : Bool)
  /-- Keeps what it takes, and fails whenever that is planned. It does not fail when the plan is over. -/
  | planned (content : List UInt8) (plan : List (Option WriteFailure))
deriving DecidableEq, Repr, Inhabited

namespace Writer

/-- Writes all bytes, or as many as the writer takes, and flushes if all were written. -/
def write (w : Writer) (bytes : List UInt8) : Writer × Except SystemError Unit :=
  match w with
  | .buffer content => (.buffer (content ++ bytes), .ok ())
  | .discard => (.discard, .ok ())
  | .limited content room failFlush =>
    let taken := bytes.take room
    let after := Writer.limited (content ++ taken) (room - taken.length) failFlush
    if taken.length < bytes.length then (after, .error ⟨"writer is full"⟩)
    else (after, if failFlush then .error ⟨"flush failed"⟩ else .ok ())
  | .planned content plan =>
    match plan.head?.join with
    | some (.cut taken cause) => (.planned (content ++ bytes.take taken) plan.tail, .error cause)
    | some (.unflushed cause) => (.planned (content ++ bytes) plan.tail, .error cause)
    | none => (.planned (content ++ bytes) plan.tail, .ok ())

/-- What has been kept. -/
def content? : Writer → Option (List UInt8)
  | .buffer content => some content
  | .discard => none
  | .limited content _ _ => some content
  | .planned content _ => some content

end Writer

/-- How a file is open. -/
inductive FileMode where
  | append
  | at (position : Nat)
  | readOnly
deriving DecidableEq, Repr, Inhabited

/-- An open file. -/
structure FileHandle where
  path : List String
  mode : FileMode
deriving DecidableEq, Repr, Inhabited

/-- Puts bytes over others from a position on. -/
def overwrite (position : Nat) (bytes content : List UInt8) : List UInt8 :=
  content.take position ++ List.replicate (position - content.length) 0 ++ bytes ++
    content.drop (position + bytes.length)

/-- All destinations with what has arrived there. -/
structure Outputs where
  writers : List Writer := []
  handles : List FileHandle := []
  tree : FileTree := .empty
  stdout : List UInt8 := []
  stderr : List UInt8 := []
deriving Inhabited

namespace Outputs

/-- A new writer. -/
def addWriter (o : Outputs) (w : Writer) : OutputSink × Outputs :=
  (.writer o.writers.length, { o with writers := o.writers ++ [w] })

/-- An open file. It is made if there is none. -/
def openFile (o : Outputs) (path : List String) (mode : FileMode) : OutputSink × Outputs :=
  let tree := if (o.tree.get? path).isSome then o.tree else o.tree.insert path (.file [])
  (.file o.handles.length, { o with handles := o.handles ++ [⟨path, mode⟩], tree := tree })

/-- The bytes of a file. -/
def fileContent (o : Outputs) (path : List String) : List UInt8 :=
  ((o.tree.get? path).bind FileTree.content?).getD []

/-- Writes to an open file. Nothing can be written to a file that is open for reading, except nothing. -/
def writeFile (o : Outputs) (number : Nat) (bytes : List UInt8) : Outputs × Except SystemError Unit :=
  match o.handles[number]? with
  | none => (o, .error .badDescriptor)
  | some handle =>
    let content := o.fileContent handle.path
    match handle.mode with
    | .readOnly => (o, if bytes.isEmpty then .ok () else .error .badDescriptor)
    | .append =>
      ({ o with tree := o.tree.insert handle.path (.file (content ++ bytes)) }, .ok ())
    | .at position =>
      ({ o with
          tree := o.tree.insert handle.path (.file (overwrite position bytes content))
          handles := o.handles.set number { handle with mode := .at (position + bytes.length) } },
        .ok ())

/-- Writes bytes to a sink. -/
def write (o : Outputs) (sink : OutputSink) (bytes : List UInt8) :
    Outputs × Except SystemError Unit :=
  match sink with
  | .writer number =>
    match o.writers[number]? with
    | none => (o, .error .badDescriptor)
    | some w =>
      let (w, result) := w.write bytes
      ({ o with writers := o.writers.set number w }, result)
  | .file number => o.writeFile number bytes
  | .stdout => ({ o with stdout := o.stdout ++ bytes }, .ok ())
  | .stderr => ({ o with stderr := o.stderr ++ bytes }, .ok ())

/-- What can be read back from a sink, as text. -/
def contents? (o : Outputs) (sink : OutputSink) : Option String :=
  match sink with
  | .writer number => (o.writers[number]?.bind Writer.content?).map Text.Utf8.decodeLossy
  | .file number => o.handles[number]?.map fun handle => Text.Utf8.decodeLossy (o.fileContent handle.path)
  | .stdout => none
  | .stderr => none

end Outputs

end Sidecar
