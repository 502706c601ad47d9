import Sidecar.Error
import Sidecar.Glob.Walk
import Sidecar.Log
import Sidecar.Step.Spec
import Sidecar.Text.Utf8

/-!
# Gathering reports

The test reports that a step declares are looked for in a workspace. A relative pattern is joined to the root
of the workspace, and the files that match are read in the order of their names; each occurrence of
`<testcase` counts as a test case.

The patterns of all declarations are gone through in their order, and the first one that fails decides. For
one pattern, a failure to read the pattern or to list a directory comes before a failure to read the files it
matches.

What can fail depends on the file system. In a `FileTree` every directory can be listed, and a file can be read
unless its bytes are no text; `filesMatching_eq` and `readText_eq` say what this makes of the two questions.
-/

namespace Sidecar

/-- A directory that a search comes to and that cannot be listed. -/
structure Unlisted where
  path : String
  cause : SystemError
deriving DecidableEq, Repr

/-- What is asked of a file system to find reports in it. -/
class FileSystem (φ : Type) where
  /-- What an absolute pattern matches, and the directories that could not be listed, in the order of the search. -/
  search : φ → Glob.AbsolutePath → Except Glob.PatternError (List (Except Unlisted Glob.Place))
  /-- Whether a regular file stands at a place. -/
  isFile : φ → Glob.Place → Bool
  /-- The text of a file. -/
  readText : φ → Glob.Place → Except SystemError String

instance : FileSystem FileTree where
  search tree pattern := (Glob.PathPattern.compile pattern).map fun compiled => (compiled.find tree).map .ok
  isFile tree p := ((tree.get? p.trail).bind FileTree.content?).isSome
  readText tree p :=
    match (tree.get? p.trail).bind FileTree.content? with
    | none => .error .notFound
    | some bytes =>
      match Text.Utf8.decode? bytes with
      | none => .error .notText
      | some text => .ok text

theorem FileTree.readText_eq (tree : FileTree) (p : Glob.Place) :
    FileSystem.readText tree p =
      match (tree.get? p.trail).bind FileTree.content? with
      | none => .error .notFound
      | some bytes =>
        match Text.Utf8.decode? bytes with
        | none => .error .notText
        | some text => .ok text := rfl

/-- A directory in a file system where steps work. -/
structure Workspace (φ : Type := FileTree) where
  tree : φ
  root : String

/-- What has been found in reports. -/
structure ReportSummary where
  files : Nat := 0
  testCases : Nat := 0
deriving DecidableEq, Repr, Inhabited

namespace Workspace

variable {φ : Type}

/-- The absolute form of the root. A relative one is taken from the top, as by a program that works there. -/
def rootPath (w : Workspace φ) : Glob.AbsolutePath :=
  Glob.AbsolutePath.top.join w.root

/-- The absolute form of a pattern. -/
def absolutePattern (w : Workspace φ) (pattern : String) : Glob.AbsolutePath :=
  w.rootPath.join pattern

variable [FileSystem φ]

/-- The places of files among what a search has come to, unless a directory could not be listed. -/
def keepFiles (w : Workspace φ) : List (Except Unlisted Glob.Place) → Except CollectionError (List Glob.Place)
  | [] => .ok []
  | .error unlisted :: _ => .error (.read unlisted.path unlisted.cause)
  | .ok p :: rest =>
    if FileSystem.isFile w.tree p then (p :: ·) <$> w.keepFiles rest else w.keepFiles rest

/-- The places of the files that a pattern matches. -/
def filesMatching (w : Workspace φ) (pattern : String) : Except CollectionError (List Glob.Place) :=
  match FileSystem.search w.tree (w.absolutePattern pattern) with
  | .error cause => .error (.pattern pattern cause)
  | .ok found => w.keepFiles found

/-- Reads a file as text. -/
def readText (w : Workspace φ) (p : Glob.Place) : Except CollectionError String :=
  (FileSystem.readText w.tree p).mapError (.read p.shown)

theorem keepFiles_map_ok (w : Workspace φ) (places : List Glob.Place) :
    w.keepFiles (places.map .ok) = .ok (places.filter (FileSystem.isFile w.tree)) := by
  induction places with
  | nil => rfl
  | cons p rest ih =>
    rw [List.map_cons, keepFiles, ih, List.filter_cons]
    split
    · rfl
    · rfl

/-- In a file tree only a pattern that cannot be read is a failure. -/
theorem filesMatching_eq (w : Workspace) (pattern : String) :
    w.filesMatching pattern =
      match Glob.PathPattern.compile (w.absolutePattern pattern) with
      | .error cause => .error (.pattern pattern cause)
      | .ok compiled =>
        .ok ((compiled.find w.tree).filter fun p =>
          ((w.tree.get? p.trail).bind FileTree.content?).isSome) := by
  have hsearch : FileSystem.search w.tree (w.absolutePattern pattern) =
      (Glob.PathPattern.compile (w.absolutePattern pattern)).map fun compiled =>
        (compiled.find w.tree).map .ok := rfl
  rw [filesMatching, hsearch]
  cases Glob.PathPattern.compile (w.absolutePattern pattern) with
  | error cause => rfl
  | ok compiled => exact keepFiles_map_ok w (compiled.find w.tree)

/-- In a file tree only a file that is no text cannot be read. -/
theorem readText_eq (w : Workspace) (p : Glob.Place) :
    w.readText p =
      match (w.tree.get? p.trail).bind FileTree.content? with
      | none => .error (.read p.shown .notFound)
      | some bytes =>
        match Text.Utf8.decode? bytes with
        | none => .error (.read p.shown .notText)
        | some text => .ok text := by
  rw [readText, FileTree.readText_eq]
  cases (w.tree.get? p.trail).bind FileTree.content? with
  | none => rfl
  | some bytes =>
    dsimp only
    cases Text.Utf8.decode? bytes with
    | none => rfl
    | some text => rfl

end Workspace

namespace ReportSummary

variable {φ : Type} [FileSystem φ]

/-- Counts the places in a text where a word begins, and adds them to a number. -/
def countOccurrences (word : List Char) (count : Nat) : List Char → Nat
  | [] => count
  | c :: rest =>
    countOccurrences word (if word.isPrefixOf (c :: rest) then count + 1 else count) rest

/-- The number of test cases in a report. -/
def testCasesIn (report : String) : Nat :=
  countOccurrences "<testcase".toList 0 report.toList

/-- The summary with a further report. -/
def addReport (s : ReportSummary) (report : String) : ReportSummary :=
  ⟨s.files + 1, s.testCases + testCasesIn report⟩

/-- Reads files one after the other, up to the first one that cannot be read. -/
def addFiles (w : Workspace φ) (s : ReportSummary) :
    List Glob.Place → Except CollectionError ReportSummary
  | [] => .ok s
  | p :: rest =>
    match w.readText p with
    | .error e => .error e
    | .ok report => (s.addReport report).addFiles w rest

/-- What is logged when a pattern matches no file. -/
def nothingMatched (stepId pattern : String) : LogRecord where
  level := .warn
  message := "no report files matched"
  fields := [("step_id", stepId), ("pattern", pattern)]

/-- Goes through patterns one after the other, up to the first one that fails. -/
def addPatterns (w : Workspace φ) (stepId : String) (s : ReportSummary) :
    List String → Logged (Except CollectionError ReportSummary)
  | [] => pure (.ok s)
  | pattern :: rest =>
    match w.filesMatching pattern with
    | .error e => pure (.error e)
    | .ok [] => do
      Logged.record (nothingMatched stepId pattern)
      s.addPatterns w stepId rest
    | .ok places =>
      match s.addFiles w places with
      | .error e => pure (.error e)
      | .ok s => s.addPatterns w stepId rest

/-- Goes through the patterns of declarations one after the other, up to the first one that fails. -/
def addDeclarations (w : Workspace φ) (stepId : String) (s : ReportSummary) :
    List ReportDeclaration → Logged (Except CollectionError ReportSummary)
  | [] => pure (.ok s)
  | declaration :: rest => do
    match ← s.addPatterns w stepId declaration.paths with
    | .error e => return .error e
    | .ok s => s.addDeclarations w stepId rest

/-- Further patterns are gone through with what the first ones have come to, unless one of these fails. -/
theorem addPatterns_append_eq (w : Workspace φ) (stepId : String) (s : ReportSummary) (first second : List String) :
    s.addPatterns w stepId (first ++ second) =
      (s.addPatterns w stepId first >>= fun result =>
        match result with
        | .error e => pure (.error e)
        | .ok s' => s'.addPatterns w stepId second) := by
  induction first generalizing s with
  | nil => rfl
  | cons pattern first ih =>
    rw [List.cons_append, addPatterns, addPatterns]
    cases w.filesMatching pattern with
    | error e => rfl
    | ok places =>
      cases places with
      | nil =>
        dsimp only
        rw [ih, bind_assoc]
      | cons p places =>
        dsimp only
        cases s.addFiles w (p :: places) with
        | error e => rfl
        | ok s' => exact ih s'

/-- All declarations together come to what their patterns come to in one list. -/
theorem addDeclarations_eq (w : Workspace φ) (stepId : String) (s : ReportSummary)
    (declarations : List ReportDeclaration) :
    s.addDeclarations w stepId declarations = s.addPatterns w stepId (declarations.flatMap (·.paths)) := by
  induction declarations generalizing s with
  | nil => rfl
  | cons declaration rest ih =>
    rw [List.flatMap_cons, addPatterns_append_eq, addDeclarations]
    congr 1
    funext result
    cases result with
    | error e => rfl
    | ok s' => exact ih s'

end ReportSummary

namespace Workspace

variable {φ : Type} [FileSystem φ]

/-- Sums up the reports that are declared. -/
def summarize (w : Workspace φ) (declarations : List ReportDeclaration) (stepId : String) :
    Logged (Except CollectionError ReportSummary) :=
  ({} : ReportSummary).addDeclarations w stepId declarations

/-- It does not matter how the patterns are spread over the declarations. -/
theorem summarize_eq (w : Workspace φ) (declarations : List ReportDeclaration) (stepId : String) :
    w.summarize declarations stepId =
      ({} : ReportSummary).addPatterns w stepId (declarations.flatMap (·.paths)) :=
  ReportSummary.addDeclarations_eq w stepId {} declarations

/-- What is logged when the reports have been gathered. -/
def gathered (stepId : String) (s : ReportSummary) : LogRecord where
  level := .info
  message := "collected test reports"
  fields := [("step_id", stepId), ("files", toString s.files), ("test_cases", toString s.testCases)]

/-- Gathers the reports that are declared. Without any declaration there is nothing to do. -/
def collect (w : Workspace φ) (declarations : List ReportDeclaration) (stepId : String) :
    Logged (Except CollectionError Unit) :=
  if declarations.isEmpty then pure (.ok ())
  else do
    match ← w.summarize declarations stepId with
    | .error e => return .error e
    | .ok s =>
      Logged.record (gathered stepId s)
      return .ok ()

end Workspace

end Sidecar
