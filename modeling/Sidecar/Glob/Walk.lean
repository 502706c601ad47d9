import Sidecar.FileTree
import Sidecar.Glob.Pattern

/-!
# Finding paths

The paths in a file tree that an absolute pattern matches, in the order of their names. The pattern is taken
apart at its separators and each component is matched against the names in a directory. A component without
wildcards is looked up and may also be `.` or `..`; a component `**` stands for the directories below.

Main statement: `visit_literal`, by which components without wildcards lead to the same places as the names
themselves.
-/

namespace Sidecar.Glob

/-- A component of a pattern. -/
inductive Component where
  | literal (name : String)
  | anyDirs
  | wild (tokens : List Token)
deriving DecidableEq, Repr

/-- Reads a component that has been compiled. -/
def Component.ofTokens (tokens : List Token) : Component :=
  match literal? tokens with
  | some name => .literal (String.ofList name)
  | none => if tokens = [.anyDirs] then .anyDirs else .wild tokens

/-- Whether a name in a directory matches. -/
def Component.accepts : Component → String → Bool
  | .literal name, s => name == s
  | .anyDirs, _ => true
  | .wild tokens, s => matchesAll tokens s.toList

/-- Splits a text at the separators. Nothing follows a separator at the end. -/
def splitPath : List Char → List (List Char)
  | [] => []
  | c :: rest =>
    if c = separator then [] :: splitPath rest
    else
      match splitPath rest with
      | [] => [[c]]
      | first :: others => (c :: first) :: others

/-- A place that a walk has come to: the path as it is shown, and the names that lead to it. -/
structure Place where
  shown : String
  trail : List String
deriving DecidableEq, Repr

/-- Appends a component to the path that is shown. -/
def joinShown (path name : String) : String :=
  if path.endsWith "/" then path ++ name else path ++ "/" ++ name

/-- What is joined to an absolute path is absolute. -/
theorem joinShown_startsWith {path : String} (h : path.startsWith "/" = true) (name : String) :
    (joinShown path name).startsWith "/" = true := by
  rw [String.startsWith_string_iff] at h ⊢
  have hprefix : path.toList <+: (joinShown path name).toList := by
    unfold joinShown
    split
    · simp
    · simp
  exact h.trans hprefix

/-- A path, or a pattern for paths, from the top of a file system. -/
structure AbsolutePath where
  text : String
  absolute : text.startsWith "/" = true
deriving DecidableEq, Repr

namespace AbsolutePath

/-- The top of a file system. -/
def top : AbsolutePath :=
  ⟨"/", by decide +kernel⟩

/-- What a path means in a directory: the same everywhere if it is absolute, and else what is below the directory. -/
def join (directory : AbsolutePath) (path : String) : AbsolutePath :=
  if h : path.startsWith "/" = true then ⟨path, h⟩
  else ⟨joinShown directory.text path, joinShown_startsWith directory.absolute path⟩

theorem text_join (directory : AbsolutePath) (path : String) :
    (directory.join path).text = if path.startsWith "/" then path else joinShown directory.text path := by
  unfold join
  split
  · rfl
  · rfl

theorem text_join_of_relative {path : String} (h : path.startsWith "/" = false) (directory : AbsolutePath) :
    (directory.join path).text = joinShown directory.text path := by
  rw [text_join, if_neg (by simp [h])]

/-- What stands behind the separator at the front. -/
def belowTop (p : AbsolutePath) : List Char :=
  p.text.toList.drop 1

theorem toList_text (p : AbsolutePath) : p.text.toList = separator :: p.belowTop := by
  rcases String.startsWith_string_iff.1 p.absolute with ⟨rest, hrest⟩
  rw [belowTop, ← hrest]
  rfl

end AbsolutePath

/-- The place of an entry. -/
def Place.child (p : Place) (name : String) : Place :=
  ⟨joinShown p.shown name, p.trail ++ [name]⟩

/-- The place that a component without wildcards leads to. -/
def Place.step (p : Place) (name : String) : Place :=
  if name = ".." then ⟨joinShown p.shown name, p.trail.dropLast⟩
  else if name = "." ∨ name = "" then ⟨joinShown p.shown name, p.trail⟩
  else p.child name

/-- Whether a directory stands at a place. -/
def Place.isDir (tree : FileTree) (p : Place) : Bool :=
  ((tree.get? p.trail).map FileTree.isDir).getD false

/-- Whether a component without wildcards leads from a place to another one that exists. -/
def Place.hasStep (tree : FileTree) (p : Place) (name : String) : Bool :=
  if name = "." ∨ name = ".." ∨ name = "" then p.isDir tree
  else (tree.get? (p.trail ++ [name])).isSome

/-- The places of the entries of a directory. -/
def Place.children (tree : FileTree) (p : Place) : List (String × Place) :=
  match tree.get? p.trail with
  | some node => node.children.map fun entry => (entry.1, p.child entry.1)
  | none => []

/-- All places below a directory, each with its name. -/
def Place.below (tree : FileTree) (p : Place) : List (String × Place) :=
  match tree.get? p.trail with
  | some node =>
    node.descendants.map fun found =>
      (found.1.getLast?.getD "", ⟨found.1.foldl joinShown p.shown, p.trail ++ found.1⟩)
  | none => []

/-- The entries `..` and `.` of a directory. They are found only by a pattern that begins with a dot. -/
def dotNames : List Token → List String
  | .char '.' :: tokens => ["..", "."].filter fun name => matchesAll (.char '.' :: tokens) name.toList
  | _ => []

/-- The places that components lead to from a directory. -/
def visit (tree : FileTree) : List Component → Place → List Place
  | [], p => [p]
  | .literal name :: rest, p =>
    if p.hasStep tree name then visit tree rest (p.step name) else []
  | .wild tokens :: rest, p =>
    if p.isDir tree then
      (dotNames tokens).flatMap (fun name => visit tree rest (p.step name)) ++
        (p.children tree).flatMap fun entry =>
          if matchesAll tokens entry.1.toList then visit tree rest entry.2 else []
    else []
  | .anyDirs :: rest, p =>
    match h : rest.dropWhile (· = .anyDirs) with
    | [] => ((p.below tree).map (·.2)).filter (·.isDir tree)
    | next :: others =>
      have : others.length ≤ rest.length := by
        have := (rest.dropWhile_suffix (· = .anyDirs)).length_le
        rw [h, List.length_cons] at this
        omega
      (p.below tree).flatMap fun entry =>
        if next.accepts entry.1 then visit tree others entry.2 else []
termination_by components => components.length

/-- A component without wildcards leads to the place of that name, if there is one. -/
theorem visit_literal (tree : FileTree) (name : String) (rest : List Component) (p : Place) :
    visit tree (.literal name :: rest) p =
      if p.hasStep tree name then visit tree rest (p.step name) else [] := by
  rw [visit]

/-- A pattern that has been read: its components, and whether it asks for directories. -/
structure PathPattern where
  components : List Component
  wantsDir : Bool
deriving Repr

/-- Reads an absolute pattern. The pattern as a whole is read first, then each of its components. -/
def PathPattern.compile (pattern : AbsolutePath) : Except PatternError PathPattern := do
  let _ ← Glob.compile pattern.text
  let components ← (splitPath pattern.belowTop).mapM fun component =>
    Component.ofTokens <$> compileFrom 0 none component
  return ⟨if components.isEmpty then [.literal ""] else components, pattern.text.endsWith "/"⟩

/-- The places in a tree that an absolute pattern matches. -/
def PathPattern.find (pattern : PathPattern) (tree : FileTree) : List Place :=
  (visit tree pattern.components ⟨"/", []⟩).filter fun p => !pattern.wantsDir || p.isDir tree

end Sidecar.Glob
