import Sidecar.Error
import Sidecar.FileTree

/-!
# Files of a host

Paths as programs write them, and reading and writing the files that they lead to. The refusals are those of
the operating system.
-/

namespace Sidecar.Host

/-- The place that a path leads to from a directory. -/
def placeFrom (directory : List String) (path : String) : List String :=
  let start := if path.startsWith "/" then [] else directory
  (path.splitOn "/").foldl (fun trail name =>
    if name = "" ∨ name = "." then trail
    else if name = ".." then trail.dropLast
    else trail ++ [name]) start

/-- The absolute path of a place. -/
def pathOf (trail : List String) : String :=
  "/" ++ "/".intercalate trail

/-- The longest name that a file may have, in bytes. -/
def maxNameLength : Nat := 255

/-- Why nothing is found at a place: a name is too long, or something on the way is a file, or nothing is
there. -/
def missing (tree : FileTree) (trail : List String) : SystemError :=
  if trail.any fun name => name.utf8ByteSize > maxNameLength then ⟨"File name too long (os error 36)"⟩
  else if (List.range trail.length).any fun k =>
      ((tree.get? (trail.take k)).map (!·.isDir)).getD false then
    .notADirectory
  else .notFound

/-- A refusal in the words that programs use: without its number. -/
def plainReason (e : SystemError) : String :=
  (e.text.splitOn " (os error").head?.getD e.text

/-- Reads a file. The null device is empty. -/
def readFile (tree : FileTree) (directory : List String) (path : String) :
    Except SystemError (List UInt8) :=
  let trail := placeFrom directory path
  if trail = ["dev", "null"] then .ok []
  else if path = "" then .error .notFound
  else
    match tree.get? trail with
    | some (.file content) => if path.endsWith "/" then .error .notADirectory else .ok content
    | some (.dir _) => .error .isADirectory
    | none => .error (missing tree trail)

/-- Checks that a file can be written, and makes it if it does not exist. -/
def prepareFile (tree : FileTree) (directory : List String) (path : String) :
    Except SystemError (List String × FileTree) :=
  let trail := placeFrom directory path
  if path = "" then .error .notFound
  else
    match tree.get? trail with
    | some (.file _) => if path.endsWith "/" then .error .notADirectory else .ok (trail, tree)
    | some (.dir _) => .error .isADirectory
    | none =>
      if ((tree.get? trail.dropLast).map FileTree.isDir).getD false then
        if path.endsWith "/" then .error .isADirectory
        else if trail.any fun name => name.utf8ByteSize > maxNameLength then
          .error (missing tree trail)
        else .ok (trail, tree.insert trail (.file []))
      else .error (missing tree trail)

end Sidecar.Host
