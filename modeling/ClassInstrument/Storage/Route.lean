import ClassInstrument.Storage.Path

/-!
# Routes

A route is a path as somebody writes it down: pieces between slashes, some of which may be empty, a
single dot, or two dots.  An empty piece and a single dot stay where they are, and two dots lead to
the directory above; where a route leads can thus depend on the files that are there.  A route that
begins with a slash starts from the root of all files, any other one from a directory that is known.

The operations of this file only look at the text.  They treat two dots like a name, and pass over
the pieces that stay where they are at the ends of what they return.
-/

namespace ClassInstrument

/-- A path as it is written down. -/
structure Route where
  /-- Does the route begin with a slash? -/
  isAbsolute : Bool := false
  /-- The pieces between slashes, after the one at the beginning. -/
  pieces : List String
deriving DecidableEq, Repr

namespace Route

/-- The pieces of a text between slashes. -/
def split : List Char → List (List Char)
  | [] => [[]]
  | c :: rest =>
    if c = '/' then [] :: split rest
    else
      match split rest with
      | [] => [[c]]
      | piece :: others => (c :: piece) :: others

/-- The route that a text stands for. -/
def ofText (text : String) : Route :=
  match text.toList with
  | '/' :: rest => ⟨true, (split rest).map String.ofList⟩
  | chars => ⟨false, (split chars).map String.ofList⟩

/-- The text of a route. -/
def toText (route : Route) : String :=
  (if route.isAbsolute then "/" else "") ++ "/".intercalate route.pieces

/-- Does a piece stay where it is? -/
def stays (piece : String) : Bool := piece == "" || piece == "."

/-- The pieces without those at the end that stay where they are. -/
def trimmed (pieces : List String) : List String :=
  (pieces.reverse.dropWhile stays).reverse

/-- The pieces of a route that lead somewhere else. -/
def steps (route : Route) : List String := route.pieces.filter fun piece => !stays piece

/-- The text of a route without what stays where it is at the ends. -/
def inner (route : Route) : String :=
  "/".intercalate (trimmed (route.pieces.dropWhile stays))

/-- The route without its last step. -/
def parent (route : Route) : Route :=
  { route with pieces := trimmed (trimmed route.pieces).dropLast }

/-- The name that a route ends with, unless it ends with two dots or has no steps. -/
def fileName? (route : Route) : Option String :=
  match route.steps.getLast? with
  | some piece => if piece == ".." then none else some piece
  | none => none

/-- The route that goes on with a text; a text that begins with a slash is a route of its own. -/
def join (route : Route) (text : String) : Route :=
  let next := ofText text
  if next.isAbsolute then next
  else if route.pieces.getLast?.getD "" = "" then
    { route with pieces := route.pieces.dropLast ++ next.pieces }
  else { route with pieces := route.pieces ++ next.pieces }

/-- The route that goes on with names. -/
def joinAll (route : Route) (names : List String) : Route := names.foldl join route

/-- The route next to another one whose name has something added at the end. -/
def beside (route : Route) (added : String) : Route :=
  match route.fileName? with
  | some name => route.parent.join (name ++ added)
  | none => route.join added

/-- Does a route end with a slash? -/
def endsInSlash (route : Route) : Bool := route.pieces.getLast? == some ""

end Route

end ClassInstrument
