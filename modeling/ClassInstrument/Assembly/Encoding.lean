import ClassInstrument.Assembly.Layout

/-!
# Writing instructions

`Encoding.write` gives the bytes of an instruction at an offset, once the offsets of all labels are
known.  It takes the short form of an instruction in the same cases as `Layout.size` does, so it
writes as many bytes as were laid out for it.
-/

namespace ClassInstrument

namespace Encoding

/-- The distance from an offset to a label. -/
def distance (labels : Placements) (offset : Nat) (label : Label) : Except Fault Int := do
  return ((← labels.find label : Nat) : Int) - (offset : Int)

/-- A distance in two bytes. -/
def shortDistance (labels : Placements) (offset : Nat) (label : Label) : Except Fault Bytes := do
  let n ← distance labels offset label
  if -32768 ≤ n ∧ n ≤ 32767 then return Bytes.u2 (Int16.ofInt n).toUInt16
  else throw (.malformedCode offset .jumpOutOfRange)

/-- A distance in four bytes. -/
def wideDistance (labels : Placements) (offset : Nat) (label : Label) : Except Fault Bytes := do
  let n ← distance labels offset label
  if -2147483648 ≤ n ∧ n ≤ 2147483647 then return Bytes.u4 (Int32.ofInt n).toUInt32
  else throw (.malformedCode offset .jumpOutOfRange)

/-- The bytes of a small number: two for `sipush`, one otherwise. -/
def number (opcode : Opcode) (value : Int32) : Bytes :=
  if opcode = Opcode.sipush then Bytes.u2 value.toInt16.toUInt16 else [value.toInt8.toUInt8]

/-- A load or store of a local variable. -/
def variableAccess (opcode : Opcode) (slot : UInt16) : Bytes :=
  if Layout.hasImpliedSlot opcode slot then
    if opcode.isLoad then [Opcode.iload0 + (opcode - Opcode.iload) * 4 + slot.toUInt8]
    else [Opcode.istore0 + (opcode - Opcode.istore) * 4 + slot.toUInt8]
  else if slot ≤ 255 then [opcode, slot.toUInt8]
  else Opcode.wide :: opcode :: Bytes.u2 slot

/-- An addition to a local variable. -/
def increment (slot : UInt16) (delta : Int16) : Bytes :=
  if Layout.isShortIncrement slot delta then
    [Opcode.iinc, slot.toUInt8, delta.toInt8.toUInt8]
  else Opcode.wide :: Opcode.iinc :: Bytes.u2 slot ++ Bytes.u2 delta.toUInt16

/-- The operands of a call that come after the index of the method. -/
def callOperands (opcode : Opcode) (callee : Member) : Except Fault Bytes := do
  if opcode = Opcode.invokeinterface then
    match MethodDescriptor.parse callee.descriptor with
    | .ok descriptor => return [UInt8.ofNat (descriptor.parameterSlots true), 0]
    | .error _ => throw (.badDescriptor callee.descriptor)
  else return []

/-- A push of a constant with an index. -/
def push (constant : Loadable) (index : PoolIndex) : Bytes :=
  if constant.isWide then Opcode.ldc2Wide :: Bytes.u2 index
  else if index ≤ 255 then [Opcode.ldc, index.toUInt8]
  else Opcode.ldcWide :: Bytes.u2 index

/-- The bytes between the opcode of a switch and its table. -/
def padding (offset : Nat) : Bytes := List.replicate (Layout.switchPadding offset) 0

/-- The last key of a dense table. -/
def lastKey (low : Int32) (targets : List Label) : Int32 := low + Int32.ofNat targets.length - 1

/-- A jump by a dense table. -/
def denseTable (labels : Placements) (offset : Nat) (low : Int32) (default : Label)
    (targets : List Label) : Except Fault Bytes := do
  let first ← wideDistance labels offset default
  let table ← targets.mapM (wideDistance labels offset)
  return Opcode.tableswitch :: padding offset ++ first ++ Bytes.u4 low.toUInt32 ++
    Bytes.u4 (lastKey low targets).toUInt32 ++ table.flatten

/-- The pairs of a sparse table in ascending order of keys; equal keys keep their order. -/
def sortedPairs (pairs : List (Int32 × Label)) : List (Int32 × Label) :=
  pairs.mergeSort fun left right => left.1 ≤ right.1

/-- A jump by a sparse table. -/
def sparseTable (labels : Placements) (offset : Nat) (default : Label)
    (pairs : List (Int32 × Label)) : Except Fault Bytes := do
  let first ← wideDistance labels offset default
  let table ← (sortedPairs pairs).mapM fun (key, target) => do
    return Bytes.u4 key.toUInt32 ++ (← wideDistance labels offset target)
  return Opcode.lookupswitch :: padding offset ++ first ++ Bytes.length4 pairs.length ++
    table.flatten

/-- The bytes of an instruction at an offset. -/
def write (labels : Placements) (offset : Nat) : Instruction → Interning Bytes
  | .label _ | .line _ => return []
  | .plain opcode => return [opcode]
  | .int opcode value => return opcode :: number opcode value
  | .var opcode slot => return variableAccess opcode slot
  | .increment slot delta => return increment slot delta
  | .type opcode name => return opcode :: Bytes.u2 (← Pool.internClass name)
  | .field opcode field => return opcode :: Bytes.u2 (← Pool.internField field)
  | .method opcode callee => do
    let index ← Pool.internMethod callee
    let operands ← callOperands opcode callee
    return opcode :: Bytes.u2 index ++ operands
  | .invokeDynamic site _ => return Opcode.invokedynamic :: Bytes.u2 site ++ [0, 0]
  | .jump opcode target => do
    let operand ←
      if opcode.isWideJump then wideDistance labels offset target
      else shortDistance labels offset target
    return opcode :: operand
  | .load constant => return push constant (← constant.intern)
  | .tableSwitch low default targets => denseTable labels offset low default targets
  | .lookupSwitch default pairs => sparseTable labels offset default pairs
  | .multiArray name dimensions =>
    return Opcode.multianewarray :: Bytes.u2 (← Pool.internClass name) ++ [dimensions]

/-- The bytes of a list of instructions, each with its offset. -/
def writeAll (labels : Placements) (located : List (Instruction × Nat)) : Interning Bytes := do
  let written ← located.mapM fun (instruction, offset) => write labels offset instruction
  return written.flatten

end Encoding

end ClassInstrument
