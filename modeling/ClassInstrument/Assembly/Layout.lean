import ClassInstrument.Code.Body

/-!
# The layout of bytecode

Where an instruction stands in bytecode depends on the sizes of those before it.  The size of a
switch depends on its own offset, because its table starts at a multiple of four, and the size of a
push depends on the index of its constant; so laying out a body asks for the constants it pushes.
Labels and line numbers take no bytes and have the offset of what follows them.
-/

namespace ClassInstrument

/-- The index of a constant that an instruction pushes. -/
def Loadable.intern : Loadable → Interning PoolIndex
  | int value => Pool.intern (.integer value)
  | float bits => Pool.intern (.float bits)
  | long value => Pool.intern (.long value)
  | double bits => Pool.intern (.double bits)
  | string text => Pool.internString text
  | cls name => Pool.internClass name
  | methodType descriptor => Pool.internMethodType descriptor
  | pooled index _ => return index

namespace Layout

/-- The number of bytes between the opcode of a switch at an offset and its table. -/
def switchPadding (offset : Nat) : Nat := (4 - (offset + 1) % 4) % 4

/-- Does the slot of a load or store fit into the opcode? -/
def hasImpliedSlot (opcode : Opcode) (slot : UInt16) : Bool :=
  (opcode.isLoad || opcode.isStore) && slot ≤ 3

/-- Do the operands of an increment take one byte each? -/
def isShortIncrement (slot : UInt16) (delta : Int16) : Bool :=
  slot ≤ 255 && (-128 ≤ delta && delta ≤ 127)

/-- The number of bytes of an instruction at an offset. -/
def size (offset : Nat) : Instruction → Interning Nat
  | .label _ | .line _ => return 0
  | .plain _ => return 1
  | .int opcode _ => return if opcode = Opcode.sipush then 3 else 2
  | .var opcode slot => return if hasImpliedSlot opcode slot then 1 else if slot ≤ 255 then 2 else 4
  | .increment slot delta => return if isShortIncrement slot delta then 3 else 6
  | .type _ _ | .field _ _ => return 3
  | .method opcode _ => return if opcode = Opcode.invokeinterface then 5 else 3
  | .invokeDynamic _ _ => return 5
  | .jump opcode _ => return if opcode.isWideJump then 5 else 3
  | .load constant => do
    if constant.isWide then return 3
    else return if (← constant.intern) ≤ 255 then 2 else 3
  | .tableSwitch _ _ targets => return 1 + switchPadding offset + 12 + 4 * targets.length
  | .lookupSwitch _ pairs => return 1 + switchPadding offset + 8 + 8 * pairs.length
  | .multiArray _ _ => return 4

/-- The offsets of a list of instructions, and the offset behind the last one. -/
structure Offsets where
  /-- The offset of each entry of the instruction list. -/
  starts : Array Nat
  /-- The offset behind all of them. -/
  length : Nat
deriving Repr

/-- Adds an instruction to those laid out. -/
def place (offsets : Offsets) (instruction : Instruction) : Interning Offsets := do
  let bytes ← size offsets.length instruction
  return ⟨offsets.starts.push offsets.length, offsets.length + bytes⟩

/-- The offsets of a list of instructions. -/
def offsets (instructions : List Instruction) : Interning Offsets :=
  instructions.foldlM place ⟨#[], 0⟩

namespace Offsets

/-- The instructions with their offsets. -/
def locate (offsets : Offsets) (instructions : List Instruction) : List (Instruction × Nat) :=
  instructions.zip offsets.starts.toList

/-- The offsets of the labels. -/
def labels (offsets : Offsets) (instructions : List Instruction) : Placements :=
  Placements.ofList (offsets.locate instructions)

end Offsets

end Layout

end ClassInstrument
