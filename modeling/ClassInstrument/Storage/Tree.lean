import ClassInstrument.Bytes
import ClassInstrument.Storage.Route

/-!
# Trees of files

A `FileTree` is a snapshot of directories and files.  A file holds bytes, or an archive that is known
by its entries.  What is there is listed in ascending order of the paths, name by name, so everything
under a directory is listed together and in the order in which a walk visits the names of each
directory in ascending order.

A route is followed one piece at a time, and every step starts in a directory.  So a route fails if
it leads through a file or through something that is missing, even if two dots would lead back.
-/

namespace ClassInstrument

/-- Why a file operation is refused. -/
inductive FileFault where
  /-- There is nothing at the path. -/
  | notFound
  /-- Something is there already. -/
  | alreadyExists
  /-- The path leads through a file, or has to end at a directory and does not. -/
  | notADirectory
  /-- There is a directory where a file is expected. -/
  | isADirectory
  /-- The file does not hold text. -/
  | notText
  /-- The directory cannot be replaced, since the route to it does not name it. -/
  | busy
deriving DecidableEq, Repr

/-- The text shown for a refused file operation, by the number that the system gives it. -/
def FileFault.message : FileFault → String
  | .notFound => "os error 2"
  | .alreadyExists => "os error 17"
  | .notADirectory => "os error 20"
  | .isADirectory => "os error 21"
  | .notText => "stream did not contain valid UTF-8"
  | .busy => "os error 16"

/-- A named string of bytes in an archive. -/
structure ArchiveEntry where
  /-- The name, which ends in a slash or a backslash for a directory. -/
  name : String
  /-- The contents, empty for a directory. -/
  bytes : Bytes
deriving DecidableEq, Repr

/-- Does an entry of an archive stand for a directory? -/
def ArchiveEntry.isDirectory (entry : ArchiveEntry) : Bool :=
  match entry.name.toList.getLast? with
  | some c => c == '/' || c == '\\'
  | none => false

/-- What a file holds. -/
inductive FileContent where
  /-- A string of bytes, which may be those of an archive. -/
  | bytes (bytes : Bytes)
  /-- An archive of named strings of bytes. -/
  | archive (entries : List ArchiveEntry)
deriving DecidableEq, Repr

/-- The first four bytes of a file, or all of them if there are fewer. -/
def FileContent.front : FileContent → Bytes
  | .bytes content => content.take 4
  | .archive [] => [0x50, 0x4B, 0x05, 0x06]
  | .archive (_ :: _) => [0x50, 0x4B, 0x03, 0x04]

/-- Does a file start like an archive? -/
def FileContent.looksLikeArchive (content : FileContent) : Bool :=
  content.front == [0x50, 0x4B, 0x03, 0x04] || content.front == [0x50, 0x4B, 0x05, 0x06]

/-- What is at a path. -/
inductive FileNode where
  /-- A directory. -/
  | directory
  /-- A file. -/
  | file (content : FileContent)
deriving DecidableEq, Repr

/-- The number of bytes in the entries of an archive. -/
def ArchiveEntry.totalBytes (entries : List ArchiveEntry) : Nat :=
  entries.foldr (fun entry total => entry.bytes.length + total) 0

/-- No byte of a compressed entry stands for more bytes than this: it has eight bits, and a bit
copies 258 bytes at most. -/
def FileContent.maximalExpansion : Nat := 8 * 258

/-- A bound on the number of bytes in a file, and in the entries if it is an archive. -/
def FileContent.bound : FileContent → Nat
  | bytes content => content.length * FileContent.maximalExpansion
  | archive entries => ArchiveEntry.totalBytes entries

/-- A bound on the number of bytes in a file and its entries, and none for a directory. -/
def FileNode.bound : FileNode → Nat
  | directory => 0
  | file content => content.bound

/-- A snapshot of directories and files.  The root is a directory without an entry of its own. -/
structure FileTree where
  /-- What is at each path, in ascending order of the paths. -/
  nodes : List (Path × FileNode)
  /-- The text of the path that leads to the root, empty for the root of all files. -/
  location : String
  /-- The directory from which routes start that do not begin with a slash. -/
  start : Path := []
deriving DecidableEq, Repr

namespace FileTree

/-- A tree without files. -/
def empty : FileTree := { nodes := [], location := "" }

/-- The text of a path, from the outside. -/
def locate (tree : FileTree) (path : Path) : String :=
  "/".intercalate (tree.location :: path)

/-- What is at a path. -/
def node? (tree : FileTree) (path : Path) : Option FileNode :=
  if path = [] then some .directory else tree.nodes.lookup path

/-- Is there a directory at a path? -/
def isDirectory (tree : FileTree) (path : Path) : Bool := tree.node? path == some .directory

/-- The contents of the file at a path, if there is one. -/
def file? (tree : FileTree) (path : Path) : Option FileContent :=
  match tree.node? path with
  | some (.file content) => some content
  | _ => none

/-- Is there a file at a path? -/
def isFile (tree : FileTree) (path : Path) : Bool := (tree.file? path).isSome

/-- The paths of all files under a directory, in ascending order. -/
def filesUnder (tree : FileTree) (directory : Path) : List Path :=
  tree.nodes.filterMap fun (path, node) =>
    match node with
    | .file _ => if path.isUnder directory then some path else none
    | .directory => none

/-- A bound on the number of bytes in all files and their entries. -/
def bound (tree : FileTree) : Nat :=
  tree.nodes.foldr (fun entry total => entry.2.bound + total) 0

/-! ## Putting and taking away -/

/-- The list of entries with something put at a path. -/
def insertNode (path : Path) (node : FileNode) : List (Path × FileNode) → List (Path × FileNode)
  | [] => [(path, node)]
  | (other, old) :: rest =>
    if path = other then (path, node) :: rest
    else if path < other then (path, node) :: (other, old) :: rest
    else (other, old) :: insertNode path node rest

/-- Puts something at a path, in place of what is there. -/
def set (tree : FileTree) (path : Path) (node : FileNode) : FileTree :=
  { tree with nodes := insertNode path node tree.nodes }

/-- Takes away what is at a path. -/
def erase (tree : FileTree) (path : Path) : FileTree :=
  { tree with nodes := tree.nodes.filter fun entry => entry.1 ≠ path }

/-! ## Following routes -/

/-- Checks that there is a directory at a path. -/
def enter (tree : FileTree) (path : Path) : Except FileFault Unit :=
  match tree.node? path with
  | some .directory => .ok ()
  | some (.file _) => .error .notADirectory
  | none => .error .notFound

/-- The directory above another one.  Above the root of all files is the root itself; what is above
any other root is not known. -/
def above (tree : FileTree) (path : Path) : Except FileFault Path :=
  if path = [] ∧ tree.location ≠ "" then .error .notFound else .ok path.parent

/-- Where one step leads. -/
def step (tree : FileTree) (path : Path) (piece : String) : Except FileFault Path := do
  tree.enter path
  if Route.stays piece then return path
  else if piece = ".." then tree.above path
  else return path ++ [piece]

/-- Where a list of steps leads. -/
def walk (tree : FileTree) : Path → List String → Except FileFault Path
  | path, [] => .ok path
  | path, piece :: rest => do tree.walk (← tree.step path piece) rest

/-- The directory from which a route starts. -/
def origin (tree : FileTree) (route : Route) : Except FileFault Path :=
  if !route.isAbsolute then .ok tree.start
  else if tree.location = "" then .ok []
  else .error .notFound

/-- Where a route leads.  There need not be anything, but the directories on the way are there. -/
def follow (tree : FileTree) (route : Route) : Except FileFault Path := do
  tree.walk (← tree.origin route) route.pieces

/-- Where the thing is that a route leads to, if there is one. -/
def place? (tree : FileTree) (route : Route) : Option Path :=
  match tree.follow route with
  | .ok path => if (tree.node? path).isSome then some path else none
  | .error _ => none

/-- Does a route lead to a directory? -/
def leadsToDirectory (tree : FileTree) (route : Route) : Bool :=
  (tree.place? route).any tree.isDirectory

/-- The contents of the file that a route leads to, if it leads to one. -/
def fileAt? (tree : FileTree) (route : Route) : Option FileContent :=
  (tree.place? route).bind tree.file?

/-- The contents of the file that a route leads to. -/
def read (tree : FileTree) (route : Route) : Except FileFault FileContent := do
  match tree.node? (← tree.follow route) with
  | some (.file content) => .ok content
  | some .directory => .error .isADirectory
  | none => .error .notFound

/-- The text of a route, from the outside. -/
def locateRoute (tree : FileTree) (route : Route) : String :=
  if tree.location = "" then route.toText else "/".intercalate [tree.location, route.toText]

/-- The name that messages use for what a route leads to: the text of its path, or the route itself
if nothing is there. -/
def describe (tree : FileTree) (route : Route) : String :=
  match tree.place? route with
  | some path => tree.locate path
  | none => tree.locateRoute route

/-! ## The last step of a route -/

/-- Where the last step of a route leads from a directory that is there. -/
structure LastStep where
  /-- The directory. -/
  directory : Path
  /-- The piece that leads on, empty for a root that the text of its path names. -/
  piece : String
  /-- Does the route end in a slash, which only a directory can stand before? -/
  slash : Bool

/-- The last step of a route, after following the others. -/
def lastStep (tree : FileTree) (route : Route) : Except FileFault LastStep := do
  let pieces := (route.pieces.reverse.dropWhile (· == "")).reverse
  let directory ← tree.walk (← tree.origin route) pieces.dropLast
  tree.enter directory
  let root := if tree.location = "" then "." else ""
  return { directory, piece := pieces.getLast?.getD root, slash := route.endsInSlash }

/-- Does a step lead to a directory that it does not name? -/
def LastStep.isUnnamed (last : LastStep) : Bool := last.piece == "." || last.piece == ".."

/-- Where a step leads that names what it leads to. -/
def LastStep.path (last : LastStep) : Path :=
  if last.piece = "" then last.directory else last.directory ++ [last.piece]

end FileTree

end ClassInstrument
