import ClassInstrument.Code.Body

/-!
# Relabeling

Only the places of labels matter, not their numbers.  This file gives other numbers to the labels of
a body: to all of them, in the order in which they appear, so that bodies can be compared, or to
those of a snippet, so that it can be put into a body whose own labels it must not meet.
-/

namespace ClassInstrument

namespace Instruction

/-- The labels of an entry: the one that it places, or those it may transfer control to. -/
def labels : Instruction → List Label
  | label placed => [placed]
  | instruction => instruction.targets

/-- The label that an entry places. -/
def placed? : Instruction → Option Label
  | label placed => some placed
  | _ => none

/-- The entry with other labels. -/
def mapLabels (rename : Label → Label) : Instruction → Instruction
  | label placed => label (rename placed)
  | jump opcode target => jump opcode (rename target)
  | tableSwitch low default targets => tableSwitch low (rename default) (targets.map rename)
  | lookupSwitch default pairs =>
    lookupSwitch (rename default) (pairs.map fun (key, target) => (key, rename target))
  | instruction => instruction

@[simp] theorem labels_mapLabels (rename : Label → Label) (instruction : Instruction) :
    (instruction.mapLabels rename).labels = instruction.labels.map rename := by
  cases instruction <;> simp [mapLabels, labels, targets]

end Instruction

namespace Label

/-- The number behind the highest one of a list of labels. -/
def behind (labels : List Label) : Nat :=
  labels.foldl (fun next label => max next (label.number + 1)) 0

/-- Numbers for labels, in the order of their first appearance. -/
def numbering (labels : List Label) : Std.HashMap Label Nat :=
  labels.foldl (fun numbers label => numbers.insertIfNew label numbers.size) ∅

end Label

namespace Body

/-- The labels that handlers and scopes of variables refer to. -/
def tableLabels (body : Body) : List Label :=
  body.handlers.flatMap (fun entry => [entry.start, entry.stop, entry.handler]) ++
    (body.scopes ++ body.typeScopes).flatMap fun entry => [entry.start, entry.stop]

/-- The labels of a body, the placed ones first. -/
def labels (body : Body) : List Label :=
  body.instructions.filterMap Instruction.placed? ++
    body.instructions.flatMap Instruction.targets ++ body.tableLabels

/-- The body with other labels. -/
def mapLabels (rename : Label → Label) (body : Body) : Body :=
  let renameScope := fun (entry : VariableRange) =>
    { entry with start := rename entry.start, stop := rename entry.stop }
  { body with
    instructions := body.instructions.map (Instruction.mapLabels rename)
    handlers := body.handlers.map fun entry =>
      { entry with
        start := rename entry.start
        stop := rename entry.stop
        handler := rename entry.handler }
    scopes := body.scopes.map renameScope
    typeScopes := body.typeScopes.map renameScope }

/-- The body with labels that are numbered from zero, in the order of `labels`. -/
def renumbered (body : Body) : Body :=
  let numbers := Label.numbering body.labels
  { body.mapLabels fun label => ⟨numbers.getD label label.number⟩ with nextLabel := numbers.size }

/-- The body, whose fresh labels come behind all labels that it has. -/
def sealed (body : Body) : Body := { body with nextLabel := Label.behind body.labels }

/-- Puts a snippet in front of the entry at a position, or behind all entries.  The labels of the
snippet become fresh labels of the body. -/
def splice (body : Body) (position : Nat) (snippet : List Instruction) : Body :=
  let moved := snippet.map (Instruction.mapLabels fun label => ⟨body.nextLabel + label.number⟩)
  { body.insertAt (min position body.instructions.length) moved with
    nextLabel := body.nextLabel + Label.behind (snippet.flatMap Instruction.labels) }

end Body

end ClassInstrument
