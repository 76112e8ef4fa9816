import ClassInstrument.Storage.Tree

/-!
# Changing a tree of files

The operations that change a tree, each by the route to what is changed.  An operation that is
refused leaves the tree as it is, apart from `createDirectories`, which may have created some of the
directories on the way.  No operation changes anything that the route does not lead to, apart from
the directories that are created on the way to it.
-/

namespace ClassInstrument

/-- Actions on a tree of files; what has been changed stays if a later step is refused. -/
abbrev Updating := ExceptT FileFault (StateM FileTree)

namespace Updating

/-- Where a route leads by its last step. -/
def lastStep (route : Route) : Updating FileTree.LastStep := do
  (← get).lastStep route

/-- Puts something at a path. -/
def put (path : Path) (node : FileNode) : Updating Unit :=
  modify fun tree => tree.set path node

/-- Replaces or creates a file.  The directory for it has to be there. -/
def write (route : Route) (content : FileContent) : Updating Unit := do
  let last ← lastStep route
  if last.isUnnamed || last.slash || (← get).isDirectory last.path then throw .isADirectory
  else put last.path (.file content)

/-- Takes away a file, if there is one. -/
def remove (route : Route) : Updating Unit := do
  let tree ← get
  match tree.place? route with
  | some path => if tree.isFile path then set (tree.erase path) else return ()
  | none => return ()

/-- Where a file ends up that is moved to what a route leads to. -/
def landing (target : Route) : Updating Path := do
  let last ← lastStep target
  if last.isUnnamed then throw .busy
  else if last.slash then throw .notADirectory
  else if (← get).isDirectory last.path then throw .isADirectory
  else return last.path

/-- Moves a file, in place of a file that is there. -/
def move (source target : Route) : Updating Unit := do
  let content ← (← get).read source
  let path ← landing target
  remove source
  put path (.file content)

/-- Moves a file into the tree from outside of it, in place of a file that is there. -/
def receive (content : FileContent) (target : Route) : Updating Unit := do
  put (← landing target) (.file content)

/-- Creates a directory in one that is there. -/
def createDirectory (route : Route) : Updating Unit := do
  let last ← lastStep route
  if last.isUnnamed || ((← get).node? last.path).isSome then throw .alreadyExists
  else put last.path .directory

/-- Creates a directory, unless there is one. -/
def ensureDirectory (route : Route) : Updating Unit := do
  try createDirectory route
  catch fault => if !(← get).leadsToDirectory route then throw fault

/-- Creates a directory behind the ones of a list of routes, the longest first, each of which leads
to the directory for the one before. -/
def createChain (route : Route) : List Route → Updating Unit
  | [] => ensureDirectory route
  | above :: rest => do
    try ensureDirectory route
    catch fault =>
      if fault = .notFound then
        createChain above rest
        ensureDirectory route
      else throw fault

end Updating

/-- The routes that lead to the directories above a route, the longest first; there are no more of
them than a route has pieces. -/
def Route.ancestors (route : Route) : Nat → List Route
  | 0 => []
  | count + 1 => if route.steps.isEmpty then [] else route.parent :: route.parent.ancestors count

/-- Creates a directory and those on the way to it. -/
def Updating.createDirectories (route : Route) : Updating Unit :=
  createChain route (route.ancestors route.pieces.length)

/-- A tree with a file, and with the directories on the way to it. -/
def FileTree.withFile (tree : FileTree) (route : Route) (content : FileContent) : FileTree :=
  let act : Updating Unit := do
    Updating.createDirectories route.parent
    Updating.write route content
  (act.run tree).2

/-- A tree with a directory, and with those on the way to it. -/
def FileTree.withDirectory (tree : FileTree) (route : Route) : FileTree :=
  ((Updating.createDirectories route).run tree).2

end ClassInstrument
