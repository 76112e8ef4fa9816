import ClassInstrument.Assembly.DeadCode
import ClassInstrument.Assembly.Encoding
import ClassInstrument.Assembly.Frames
import ClassInstrument.Assembly.Widening
import ClassInstrument.ClassFile.Basic

/-!
# Writing method bodies

`Body.assemble` turns an editable body into the form of a class file: dead code is replaced, long
jumps are widened, the instructions are laid out and written, and handlers, frames, lines and
scopes follow with labels turned into offsets.  Constants are asked for in exactly this order, so
that a body always gets the same indices.
-/

namespace ClassInstrument

namespace Assembly

/-- The longest bytecode a method may have. -/
def longestCode : Nat := 65535

/-- The frame at the replacement of dead code: a throwable object alone on the stack. -/
def deadCodeFrame : FlowFrame := Frame.empty.push (.object Name.throwable)

/-- The position behind each label, entered with the frame of replaced dead code. -/
def deadCodeRoots (body : Body) (labels : List Label) : Except Fault (List Root) :=
  let positions := Placements.firstPositions body.instructions
  labels.mapM fun label => do return ((← positions.find label) + 1, deadCodeFrame)

/-- A body ready to be laid out, with its frames. -/
def prepare (body : Body) (method : MethodContext) (hierarchy : Hierarchy) :
    Interning (Body × Analysis) := do
  let analysis ← analyze body method hierarchy []
  let (body, dead) ← body.replaceDeadCode analysis
  let (body, widened) ← body.widenJumps
  if dead.isEmpty && !widened then return (body, analysis)
  else
    let roots ← deadCodeRoots body dead
    return (body, ← analyze body method hierarchy roots)

/-- An exception handler by offsets, `none` if it protects nothing. -/
def handlerEntry (labels : Placements) (handler : Handler) : Interning (Option HandlerEntry) := do
  let start ← labels.find handler.start
  let stop ← labels.find handler.stop
  if stop ≤ start then return none
  else
    let caught ← handler.caught.mapM Pool.internClass
    let entry ← labels.find handler.handler
    return some {
      start := UInt16.ofNat start
      stop := UInt16.ofNat stop
      handler := UInt16.ofNat entry
      caught }

/-- The attribute that lists frames, for versions that have one. -/
def frameAttributes (version : Version) (body : Body) (method : MethodContext)
    (analysis : Analysis) (offsets : Array Nat) : Interning (List Attribute) := do
  if version.usesFrames then
    let frames ← BlockFrames.list body method analysis offsets
    if frames.isEmpty then return []
    else return [← Attribute.make StackMapFrame.attributeName (StackMapFrame.writeTable frames)]
  else return []

/-- The lines of a body; one behind the last instruction is left out. -/
def lineEntries (body : Body) (offsets : Layout.Offsets) : List LineEntry :=
  (offsets.locate body.instructions).filterMap fun (instruction, offset) =>
    match instruction with
    | .line line =>
      if offset < offsets.length then some { start := UInt16.ofNat offset, line } else none
    | _ => none

/-- The attribute that lists lines. -/
def lineAttributes (body : Body) (offsets : Layout.Offsets) : Interning (List Attribute) := do
  let entries := lineEntries body offsets
  if entries.isEmpty then return []
  else return [← Attribute.make LineEntry.attributeName (LineEntry.writeTable entries)]

/-- The scope of a local variable by offsets. -/
def variableEntry (labels : Placements) (range : VariableRange) : Except Fault VariableEntry := do
  let start ← labels.find range.start
  let stop ← labels.find range.stop
  return {
    start := UInt16.ofNat start
    length := UInt16.ofNat (stop - start)
    name := range.name
    descriptor := range.descriptor
    slot := range.slot }

/-- The scopes of local variables by offsets. -/
def variableEntries (labels : Placements) (ranges : List VariableRange) :
    Except Fault (List VariableEntry) :=
  ranges.mapM (variableEntry labels)

/-- The attribute of a name that lists scopes of variables. -/
def variableAttributes (name : String) (labels : Placements) (ranges : List VariableRange) :
    Interning (List Attribute) := do
  if ranges.isEmpty then return []
  else
    let entries ← variableEntries labels ranges
    return [← Attribute.make name (VariableEntry.writeTable entries)]

/-- The attributes of a body that is laid out at some offsets. -/
def attributes (version : Version) (body : Body) (method : MethodContext) (analysis : Analysis)
    (offsets : Layout.Offsets) : Interning (List Attribute) := do
  let labels := offsets.labels body.instructions
  let frames ← frameAttributes version body method analysis offsets.starts
  let lines ← lineAttributes body offsets
  let scopes ← variableAttributes VariableEntry.attributeName labels body.scopes
  let typeScopes ← variableAttributes VariableEntry.typeAttributeName labels body.typeScopes
  return frames ++ lines ++ scopes ++ typeScopes

/-- A number of slots in two bytes. -/
def slotCount (fault : Nat → Fault) (count : Nat) : Except Fault UInt16 :=
  if count < 65536 then .ok (UInt16.ofNat count) else .error (fault count)

/-- The written form of a prepared body that is laid out at some offsets. -/
def write (version : Version) (body : Body) (method : MethodContext) (analysis : Analysis)
    (offsets : Layout.Offsets) : Interning CodeAttribute := do
  let labels := offsets.labels body.instructions
  let code ← Encoding.writeAll labels (offsets.locate body.instructions)
  let handlers ← body.handlers.mapM (handlerEntry labels)
  let attributes ← attributes version body method analysis offsets
  return {
    maxStack := ← slotCount .stackTooHigh analysis.maxStack
    maxLocals := ← slotCount .tooManyLocals analysis.maxLocals
    code
    handlers := handlers.filterMap id
    attributes }

end Assembly

/-- The written form of a body, with frames computed anew. -/
def Body.assemble (body : Body) (method : MethodContext) (version : Version)
    (hierarchy : Hierarchy) : Interning CodeAttribute := do
  let (body, analysis) ← Assembly.prepare body method hierarchy
  let offsets ← Layout.offsets body.instructions
  if offsets.length > Assembly.longestCode then throw (.codeTooLong offsets.length)
  else Assembly.write version body method analysis offsets

end ClassInstrument
