/-!
# File trees

A file system as a value: directories with named entries, and files with their bytes. A place in a tree is
the list of names that leads to it from the root.
-/

namespace Sidecar

/-- A file, or a directory with its entries. -/
inductive FileTree where
  | file (content : List UInt8)
  | dir (entries : List (String × FileTree))
deriving Inhabited, Repr

namespace FileTree

/-- The empty directory. -/
def empty : FileTree :=
  .dir []

/-- Whether this is a directory. -/
def isDir : FileTree → Bool
  | .dir _ => true
  | .file _ => false

/-- The bytes of a file. -/
def content? : FileTree → Option (List UInt8)
  | .file content => some content
  | .dir _ => none

/-- The entries of a directory in the order of their names; a file has none. -/
def children : FileTree → List (String × FileTree)
  | .dir entries => entries.mergeSort fun a b => a.1 ≤ b.1
  | .file _ => []

/-- The entry of a name. -/
def child? (name : String) : FileTree → Option FileTree
  | .dir entries => entries.lookup name
  | .file _ => none

/-- What stands at a place. -/
def get? : List String → FileTree → Option FileTree
  | [], tree => some tree
  | name :: path, tree =>
    match tree.child? name with
    | some next => get? path next
    | none => none

/-- Sets the entry of a name. -/
def setEntry (name : String) (tree : FileTree) : List (String × FileTree) → List (String × FileTree)
  | [] => [(name, tree)]
  | entry :: rest =>
    if entry.1 = name then (name, tree) :: rest else entry :: setEntry name tree rest

/-- Puts something at a place, and makes the directories on the way to it. A file on the way gives way to a
directory. -/
def insert : List String → FileTree → FileTree → FileTree
  | [], _, new => new
  | name :: path, .dir entries, new =>
    .dir (setEntry name (insert path ((entries.lookup name).getD empty) new) entries)
  | name :: path, .file _, new =>
    .dir [(name, insert path empty new)]

/-- A directory, unless something stands at the place already. -/
def makeDir (path : List String) (tree : FileTree) : FileTree :=
  match tree.get? path with
  | some _ => tree
  | none => tree.insert path empty

mutual

/-- Everything below a directory, each directory before its entries and the entries in the order of their
names. A place is given by the names that lead to it. -/
def descendants : FileTree → List (List String × FileTree)
  | .file _ => []
  | .dir entries =>
    ((entryDescendants entries).mergeSort fun a b => a.1 ≤ b.1).flatMap fun entry => entry.2

/-- Each entry with everything that is found at it and below it. -/
def entryDescendants : List (String × FileTree) → List (String × List (List String × FileTree))
  | [] => []
  | (name, tree) :: rest =>
    (name, ([name], tree) :: (descendants tree).map fun found => (name :: found.1, found.2)) ::
      entryDescendants rest

end

end FileTree

end Sidecar
