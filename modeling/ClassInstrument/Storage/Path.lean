/-!
# Paths

A path is the list of the names on the way from the root of a tree of files.  It tells where
something is; how one gets there is told by a `Route`.
-/

namespace ClassInstrument

/-- The names on the way to a file or directory. -/
abbrev Path := List String

namespace Path

/-- The text of a path. -/
def toText (path : Path) : String := "/".intercalate path

/-- The directory that holds what is at a path. -/
def parent (path : Path) : Path := path.dropLast

/-- The last name of a path, empty for the root. -/
def fileName (path : Path) : String := path.getLast?.getD ""

/-- Does one path lead through another? -/
def isUnder (path directory : Path) : Bool := directory.isPrefixOf path

end Path

end ClassInstrument
