import Sidecar.Cli.Execute

/-!
# Command line

Runs the program on a model of the surroundings it is called in: the files below the working directory and the
environment are read first, and what the program has printed and changed is carried over afterwards. Processes
run on the model, so nothing but files below the working directory is touched.
-/

namespace Sidecar.Cli

open Host

/-- How deep directories are read. -/
def maxDepth : Nat := 32

/-- Reads an entry of a directory with everything below it. What cannot be read is left out. -/
def readEntry : Nat → IO.FS.DirEntry → IO (Option (String × FileTree))
  | 0, _ => return none
  | depth + 1, entry => do
    try
      if ← entry.path.isDir then
        let entries ← entry.path.readDir
        let children ← entries.toList.filterMapM (readEntry depth)
        return some (entry.fileName, .dir children)
      else
        return some (entry.fileName, .file (← IO.FS.readBinFile entry.path).toList)
    catch _ => return none

/-- Reads the settings of the environment from their listing, in which each one ends with a zero. -/
def environmentOf (listing : List UInt8) : Bindings :=
  let entries := (Text.splitLines 0 listing).map fun entry =>
    if entry.getLast? = some 0 then entry.dropLast else entry
  Bindings.ofList (entries.filterMap fun entry => Shell.setting? (Text.Utf8.decodeLossy entry))

/-- Models the surroundings of a call. -/
def readSurroundings : IO Machine := do
  let workspace ← IO.currentDir
  let children ← (← workspace.readDir).toList.filterMapM (readEntry maxDepth)
  let directory := placeFrom [] workspace.toString
  let listing ← try pure (← IO.FS.readBinFile "/proc/self/environ").toList catch _ => pure []
  return {
    outputs := { tree := FileTree.empty.insert directory (.dir children) }
    directory := directory
    environment := environmentOf listing }

/-- Writes the files that are new or different. -/
def writeChanges (before after : FileTree) : IO Unit := do
  for (trail, found) in after.descendants do
    match found with
    | .file content =>
      if (before.get? trail).bind FileTree.content? ≠ some content then
        IO.FS.createDirAll (pathOf trail.dropLast)
        IO.FS.writeBinFile (pathOf trail) ⟨content.toArray⟩
    | .dir _ => pure ()

end Sidecar.Cli

/-- Runs the program. -/
def main (args : List String) : IO UInt32 := do
  let before ← Sidecar.Cli.readSurroundings
  let (status, after) := Sidecar.Cli.execute before args
  Sidecar.Cli.writeChanges before.tree after.tree
  (← IO.getStdout).write ⟨after.outputs.stdout.toArray⟩
  (← IO.getStderr).write ⟨after.outputs.stderr.toArray⟩
  return UInt32.ofNat status
