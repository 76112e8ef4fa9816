import ClassInstrument.Storage.Tree

/-!
# Inputs and outputs

An input comes with the path that its transformed form is written to.  A directory stands for all
files under it, each of which goes to the same place under the output.
-/

namespace ClassInstrument

/-- An input and its output. -/
structure FilePair where
  /-- Where the input is read. -/
  input : Route
  /-- Where the output is written. -/
  output : Route
deriving DecidableEq, Repr

namespace FilePair

/-- A file or directory that is transformed in place. -/
def inPlace (route : Route) : FilePair := ⟨route, route⟩

/-- The pair of what names lead to from the input and from the output. -/
def below (pair : FilePair) (names : List String) : FilePair :=
  ⟨pair.input.joinAll names, pair.output.joinAll names⟩

/-- The pairs of single files; an input that does not exist stands for nothing. -/
def expand (pair : FilePair) (tree : FileTree) : List FilePair :=
  match tree.place? pair.input with
  | none => []
  | some path =>
    if tree.isDirectory path then
      (tree.filesUnder path).map fun file => pair.below (file.drop path.length)
    else [pair]

/-- Is the input transformed in place?  Both routes take the same steps then, or lead to the same
thing. -/
def isInPlace (pair : FilePair) (tree : FileTree) : Bool :=
  pair.input.isAbsolute == pair.output.isAbsolute && pair.input.steps == pair.output.steps ||
    match tree.place? pair.input, tree.place? pair.output with
    | some input, some output => input == output
    | _, _ => false

end FilePair

end ClassInstrument
