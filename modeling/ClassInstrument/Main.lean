import ClassInstrument.CommandLine

/-!
# The program

The files that a job may need are read into a tree, the job runs on the tree, and what it has
changed is written back.
-/

namespace ClassInstrument

/-- The paths that a route passes from a directory on, if there are directories on the way. -/
def Route.passes : Path → List String → List Path
  | path, [] => [path]
  | path, piece :: rest =>
    let next :=
      if stays piece then path else if piece = ".." then path.parent else path ++ [piece]
    path :: passes next rest

namespace Disk

/-- Where something is on the disk. -/
def entryAt (tree : FileTree) (path : Path) : IO.FS.DirEntry :=
  { root := tree.locate path.parent, fileName := path.fileName }

/-- Reads what is at a path: a file, or a directory with everything in it. -/
partial def load (tree : FileTree) (path : Path) : IO FileTree := do
  let place := (entryAt tree path).path
  if ← place.isDir then
    let mut tree := if path = [] then tree else tree.set path .directory
    for entry in ← place.readDir do
      tree ← load tree (path ++ [entry.fileName])
    return tree
  else if ← place.pathExists then
    let content ← IO.FS.readBinFile place
    return tree.set path (.file (.bytes content.data.toList))
  else return tree

/-- Reads what stands on the way to a path, without what else is in the directories there. -/
def loadWay (tree : FileTree) (path : Path) : IO FileTree := do
  let mut tree := tree
  for length in List.range path.length do
    let front := path.take length
    if front ≠ [] then
      if ← (entryAt tree front).path.isDir then tree := tree.set front .directory
      else tree ← load tree front
  return tree

/-- Reads what a route leads to, and what stands on the way. -/
def loadRoute (tree : FileTree) (route : Route) : IO FileTree := do
  let passed := Route.passes (if route.isAbsolute then [] else tree.start) route.pieces
  let tree ← passed.foldlM loadWay tree
  passed.getLast?.elim (pure tree) (load tree)

/-- Reads what given routes lead to from a directory. -/
def loadAll (directory : Path) (routes : List Route) : IO FileTree :=
  routes.foldlM loadRoute { FileTree.empty with start := directory }

/-- Writes what is new or different in the second tree, and removes what is gone. -/
def save (before after : FileTree) : IO Unit := do
  for (path, node) in after.nodes do
    if before.node? path ≠ some node then
      let place := (entryAt after path).path
      match node with
      | .directory => IO.FS.createDirAll place
      | .file content => IO.FS.writeBinFile place ⟨content.toBytes.toArray⟩
  for (path, _) in before.nodes do
    if (after.node? path).isNone then IO.FS.removeFile (entryAt before path).path

end Disk

/-- Does a job that is given in a directory, and gives the exit code. -/
def Job.perform (job : Job) (directory : Path) : IO UInt32 := do
  let before ← Disk.loadAll directory job.routes
  let (after, failure) := job.run before
  Disk.save before after
  match failure with
  | none => return 0
  | some text =>
    IO.eprintln text
    return 1

end ClassInstrument

open ClassInstrument

/-- Does what the command line asks for. -/
def main (arguments : List String) : IO UInt32 := do
  if arguments.contains CommandLine.helpOption then
    IO.println CommandLine.usage
    return 0
  else
    match CommandLine.parse arguments with
    | .error fault =>
      IO.eprintln fault.message
      return 2
    | .ok command =>
      let directory := (Route.ofText (← IO.currentDir).toString).steps
      try (Job.ofCommandLine command).perform directory
      catch problem =>
        IO.eprintln problem.toString
        return 1
