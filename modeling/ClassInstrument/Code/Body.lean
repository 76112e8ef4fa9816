import ClassInstrument.Code.Instruction
import Std.Data.HashMap

/-!
# Method bodies

An editable method body: a list of instructions, exception handlers and ranges of local variables
that refer to it by labels, and the number of the next fresh label.
-/

namespace ClassInstrument

/-- A range of a body that an exception handler protects. -/
structure Handler where
  /-- The first protected place. -/
  start : Label
  /-- The place behind the last protected one. -/
  stop : Label
  /-- Where the handler starts. -/
  handler : Label
  /-- The internal name of the caught class, `none` for everything. -/
  caught : Option String
deriving DecidableEq, Repr

/-- The scope of a local variable. -/
structure VariableRange where
  /-- Where the variable comes into scope. -/
  start : Label
  /-- The place behind its scope. -/
  stop : Label
  /-- The index of its name. -/
  name : PoolIndex
  /-- The index of its descriptor or generic signature. -/
  descriptor : PoolIndex
  /-- Its slot. -/
  slot : UInt16
deriving DecidableEq, Repr

/-- An editable method body. -/
structure Body where
  /-- The instructions with the labels and line numbers among them. -/
  instructions : List Instruction := []
  /-- The exception handlers, first match first. -/
  handlers : List Handler := []
  /-- The scopes of variables with descriptors. -/
  scopes : List VariableRange := []
  /-- The scopes of variables with generic signatures. -/
  typeScopes : List VariableRange := []
  /-- The number of the next fresh label. -/
  nextLabel : Nat := 0
deriving DecidableEq, Repr

namespace Body

/-- A label that the body does not use yet, and the body that has handed it out. -/
def freshLabel (body : Body) : Label × Body :=
  (⟨body.nextLabel⟩, { body with nextLabel := body.nextLabel + 1 })

/-- The first position at which a label is placed. -/
def labelPosition? (body : Body) (label : Label) : Option Nat :=
  body.instructions.findIdx? (· == .label label)

/-- Puts instructions in front of the one at a position. -/
def insertAt (body : Body) (position : Nat) (instructions : List Instruction) : Body :=
  let (front, rest) := body.instructions.splitAt position
  { body with instructions := front ++ instructions ++ rest }

/-- Puts instructions behind all others. -/
def append (body : Body) (instructions : List Instruction) : Body :=
  { body with instructions := body.instructions ++ instructions }

/-- The position of the first real instruction. -/
def firstReal? (body : Body) : Option Nat := body.instructions.findIdx? Instruction.isReal

/-- The positions of the real instructions. -/
def realPositions (body : Body) : List Nat :=
  body.instructions.zipIdx.filterMap fun (instruction, position) =>
    if instruction.isReal then some position else none

end Body

/-- Where each label is placed, the last place counting. -/
abbrev Placements := Std.HashMap Label Nat

/-- Adds the place of a label to those already known. -/
def Placements.note (placements : Placements) : Instruction × Nat → Placements
  | (.label label, place) => placements.insert label place
  | _ => placements

/-- The places of the labels in a list of instructions, each of which comes with its place. -/
def Placements.ofList (placed : List (Instruction × Nat)) : Placements :=
  placed.foldl Placements.note ∅

/-- The place of a label. -/
def Placements.find (placements : Placements) (label : Label) : Except Fault Nat :=
  match placements[label]? with
  | some place => .ok place
  | none => .error (.unknownLabel label)

end ClassInstrument
