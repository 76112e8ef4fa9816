import ClassInstrument.ClassFile.Attribute
import ClassInstrument.Code.Body

/-!
# Reading method bodies

`Body.decode` turns bytecode into an editable body.  Every offset that something refers to gets one
label, numbered in the order of the first reference, which is placed in front of the instruction at
that offset.  An offset inside an instruction is refused.  Line numbers and the scopes of local
variables are kept; stack map frames are left out, since they are computed again when the body is
written.
-/

namespace ClassInstrument

/-- The labels given to offsets. -/
structure OffsetLabels where
  /-- The label of each offset. -/
  labels : Std.HashMap Nat Label := ∅
  /-- The offset of each label, in the order of their numbers. -/
  offsets : Array Nat := #[]

namespace OffsetLabels

/-- The label of an offset, which gets one if it has none. -/
def give (labels : OffsetLabels) (offset : Nat) : Label × OffsetLabels :=
  match labels.labels[offset]? with
  | some label => (label, labels)
  | none =>
    let label : Label := ⟨labels.offsets.size⟩
    (label, ⟨labels.labels.insert offset label, labels.offsets.push offset⟩)

end OffsetLabels

/-- How far the bytecode of a body has been read. -/
structure DecodeState where
  /-- The offset of the instruction being read. -/
  start : Nat := 0
  /-- The offset of the next byte. -/
  offset : Nat := 0
  /-- The bytes from there on. -/
  rest : Bytes
  /-- The labels given so far. -/
  labels : OffsetLabels := {}

/-- Reads bytecode. -/
abbrev CodeReader := StateT DecodeState (Except Fault)

namespace CodeReader

/-- Fails because the instruction being read has a defect. -/
def fail {α : Type} (defect : CodeDefect) : CodeReader α := do
  throw (.malformedCode (← get).start defect)

/-- Reads part of an instruction that takes `size` bytes. -/
def operand {α : Type} (size : Nat) (reader : Reader α) : CodeReader α := do
  let state ← get
  match reader state.rest with
  | .ok (value, rest) =>
    set { state with offset := state.offset + size, rest }
    return value
  | .error _ => fail .truncated

/-- One byte. -/
def u1 : CodeReader UInt8 := operand 1 Reader.u1

/-- Two bytes. -/
def u2 : CodeReader UInt16 := operand 2 Reader.u2

/-- Four bytes. -/
def u4 : CodeReader UInt32 := operand 4 Reader.u4

/-- The label of an offset. -/
def label (offset : Nat) : CodeReader Label :=
  modifyGet fun state =>
    let (label, labels) := state.labels.give offset
    (label, { state with labels })

/-- The label at a distance from the instruction being read. -/
def relative (distance : Int) : CodeReader Label := do
  let target := (← get).start + distance
  if target < 0 then fail .jumpBeforeStart else label target.toNat

/-- The label at a distance given in four bytes. -/
def wideRelative : CodeReader Label := do relative (← u4).toInt32.toInt

/-- Skips to the next offset that is a multiple of four. -/
def skipPadding : CodeReader Unit := do
  let padding := (4 - (← get).offset % 4) % 4
  let _ ← operand padding (Reader.take padding)

/-- The constant that an instruction pushes. -/
def loadable (pool : Pool) (index : PoolIndex) : CodeReader Loadable := do
  match ← pool.get index with
  | .integer value => return .int value
  | .float bits => return .float bits
  | .long value => return .long value
  | .double bits => return .double bits
  | .string text => return .string (← pool.utf8 text)
  | .classRef name => return .cls (← pool.utf8 name)
  | .methodType descriptor => return .methodType (← pool.utf8 descriptor)
  | .methodHandle .. => return .pooled index "Ljava/lang/invoke/MethodHandle;"
  | .dynamic _ member => return .pooled index (← pool.nameAndType member).2
  | _ => throw (.unexpectedConstant index .loadable)

/-- The descriptor of the call site at an index. -/
def callSite (pool : Pool) (index : PoolIndex) : CodeReader String := do
  match ← pool.get index with
  | .invokeDynamic _ member => return (← pool.nameAndType member).2
  | _ => throw (.unexpectedConstant index .invokeDynamic)

/-- A key and a jump. -/
def pair : CodeReader (Int32 × Label) := do
  let key := (← u4).toInt32
  return (key, ← wideRelative)

/-- A jump by a dense table, after its opcode. -/
def denseTable : CodeReader Instruction := do
  skipPadding
  let distance := (← u4).toInt32.toInt
  let low := (← u4).toInt32
  let high := (← u4).toInt32
  if high < low then fail .switchBounds
  let default ← relative distance
  let targets ← Reader.many wideRelative (high.toInt - low.toInt + 1).toNat
  return .tableSwitch low default targets

/-- A jump by a sparse table, after its opcode. -/
def sparseTable : CodeReader Instruction := do
  skipPadding
  let default ← wideRelative
  let count := (← u4).toInt32.toInt.toNat
  return .lookupSwitch default (← Reader.many pair count)

/-- An instruction with wide operands, after its first opcode. -/
def widened : CodeReader Instruction := do
  let opcode : Opcode ← u1
  let slot ← u2
  if opcode = Opcode.iinc then return .increment slot (← u2).toInt16
  else if opcode.isLoad || opcode.isStore || opcode == Opcode.ret then return .var opcode slot
  else fail (.notWidenable opcode)

/-- What follows an opcode. -/
def operands (pool : Pool) (opcode : Opcode) : CodeReader Instruction := do
  match opcode.form with
  | .plain => return .plain opcode
  | .signedByte => return .int opcode (← u1).toInt8.toInt32
  | .signedShort => return .int opcode (← u2).toInt16.toInt32
  | .shortConstant => return .load (← loadable pool (← u1).toUInt16)
  | .longConstant => return .load (← loadable pool (← u2))
  | .slot => return .var opcode (← u1).toUInt16
  | .impliedSlot opcode slot => return .var opcode slot
  | .increment =>
    let slot ← u1
    return .increment slot.toUInt16 (← u1).toInt8.toInt16
  | .jump => return .jump opcode (← relative (← u2).toInt16.toInt)
  | .wideJump => return .jump opcode (← wideRelative)
  | .denseTable => denseTable
  | .sparseTable => sparseTable
  | .field => return .field opcode (← pool.member (← u2))
  | .method => return .method opcode (← pool.member (← u2))
  | .interfaceMethod =>
    let index ← u2
    let _ ← u1
    let _ ← u1
    return .method opcode (← pool.member index)
  | .callSite =>
    let index ← u2
    let _ ← u2
    return .invokeDynamic index (← callSite pool index)
  | .type => return .type opcode (← pool.className (← u2))
  | .unsignedByte => return .int opcode (← u1).toUInt32.toInt32
  | .wide => widened
  | .dimensions =>
    let index ← u2
    let dimensions ← u1
    return .multiArray (← pool.className index) dimensions
  | .unknown => fail (.unknownOpcode opcode)

/-- One instruction, with its offset. -/
def instruction (pool : Pool) : CodeReader (Nat × Instruction) := do
  modify fun state => { state with start := state.offset }
  let opcode ← u1
  let instruction ← operands pool opcode
  return ((← get).start, instruction)

/-- Instructions up to the end of the bytecode, behind those already read (last first).  Each
instruction takes at least one byte, so as many rounds as there are bytes suffice. -/
def instructionsAfter (pool : Pool) :
    Nat → List (Nat × Instruction) → CodeReader (List (Nat × Instruction))
  | 0, done => return done.reverse
  | rounds + 1, done => do
    if (← get).rest.isEmpty then return done.reverse
    else
      let next ← instruction pool
      instructionsAfter pool rounds (next :: done)

/-- An exception handler; the class it catches is looked up before its labels are given. -/
def handler (pool : Pool) (entry : HandlerEntry) : CodeReader Handler := do
  let caught ← entry.caught.mapM fun index => (pool.className index : CodeReader String)
  return {
    start := ← label entry.start.toNat
    stop := ← label entry.stop.toNat
    handler := ← label entry.handler.toNat
    caught }

/-- The scope of a local variable. -/
def variableRange (entry : VariableEntry) : CodeReader VariableRange := do
  return {
    start := ← label entry.start.toNat
    stop := ← label (entry.start.toNat + entry.length.toNat)
    name := entry.name
    descriptor := entry.descriptor
    slot := entry.slot }

end CodeReader

/-- What the attributes of a body say about its instructions. -/
structure BodyTables where
  /-- The lines of each offset, first entry first. -/
  lines : Std.HashMap Nat (Array UInt16) := ∅
  /-- The scopes of variables with descriptors. -/
  scopes : List VariableRange := []
  /-- The scopes of variables with generic signatures. -/
  typeScopes : List VariableRange := []

namespace BodyTables

/-- Adds a line to those of its offset. -/
def noteLine (lines : Std.HashMap Nat (Array UInt16)) (entry : LineEntry) :
    Std.HashMap Nat (Array UInt16) :=
  lines.insert entry.start.toNat ((lines.getD entry.start.toNat #[]).push entry.line)

/-- Takes in one attribute of a body.  Tables of lines add up, and a table of variables replaces an
earlier one of the same kind. -/
def note (pool : Pool) (tables : BodyTables) (attr : Attribute) : CodeReader BodyTables := do
  let name ← pool.utf8 attr.name
  if name = LineEntry.attributeName then
    let entries ← attr.decode LineEntry.attributeName LineEntry.readTable
    return { tables with lines := entries.foldl noteLine tables.lines }
  else if name = VariableEntry.attributeName then
    let entries ← attr.decode VariableEntry.attributeName VariableEntry.readTable
    return { tables with scopes := ← entries.mapM CodeReader.variableRange }
  else if name = VariableEntry.typeAttributeName then
    let entries ← attr.decode VariableEntry.attributeName VariableEntry.readTable
    return { tables with typeScopes := ← entries.mapM CodeReader.variableRange }
  else return tables

end BodyTables

namespace Body

/-- The least offset with a label at which no instruction starts and the code does not end. -/
def strayOffset? (labels : OffsetLabels) (instructions : List (Nat × Instruction)) (length : Nat) :
    Option Nat :=
  let starts : Std.HashMap Nat Unit :=
    instructions.foldl (fun starts (offset, _) => starts.insert offset ()) {(length, ())}
  labels.offsets.foldl
    (fun least offset =>
      if starts.contains offset then least
      else some (match least with
        | none => offset
        | some least => min least offset))
    none

/-- The label of an offset as an entry of the instruction list. -/
def placedLabel (labels : OffsetLabels) (offset : Nat) : List Instruction :=
  match labels.labels[offset]? with
  | some label => [.label label]
  | none => []

/-- An instruction with the label and the lines of its offset in front. -/
def placed (labels : OffsetLabels) (tables : BodyTables) :
    Nat × Instruction → List Instruction
  | (offset, instruction) =>
    placedLabel labels offset ++ (tables.lines.getD offset #[]).toList.map Instruction.line ++
      [instruction]

/-- The parts of a body, with offsets in front of the instructions. -/
def decodeParts (code : CodeAttribute) (pool : Pool) :
    CodeReader (List (Nat × Instruction) × List Handler × BodyTables) := do
  let instructions ← CodeReader.instructionsAfter pool code.code.length []
  let handlers ← code.handlers.mapM (CodeReader.handler pool)
  let tables ← code.attributes.foldlM (BodyTables.note pool) {}
  return (instructions, handlers, tables)

/-- The editable form of a method body. -/
def decode (code : CodeAttribute) (pool : Pool) : Except Fault Body := do
  let ((instructions, handlers, tables), state) ←
    (decodeParts code pool).run { rest := code.code }
  let labels := state.labels
  match strayOffset? labels instructions code.code.length with
  | some offset => throw (.malformedCode offset .insideInstruction)
  | none =>
    return {
      instructions :=
        instructions.flatMap (placed labels tables) ++ placedLabel labels code.code.length
      handlers
      scopes := tables.scopes
      typeScopes := tables.typeScopes
      nextLabel := labels.offsets.size }

end Body

end ClassInstrument
