import ClassInstrument.Analysis.Shuffle
import ClassInstrument.Code.Body

/-!
# The effect of instructions on frames

`Transfer.execute` gives the frame after an instruction from the frame before it.  Instructions are
taken to be well typed: only what is needed to know the types of variables and stack values is
looked at.  The instructions without operands are described by a table of effects; all of them pop
values and push at most one, look up the element type of an array, or rearrange the stack.
-/

namespace ClassInstrument

/-- The method whose body is analyzed. -/
structure MethodContext where
  /-- The internal name of the declaring class. -/
  owner : String
  /-- The name of the method. -/
  name : String
  /-- The descriptor of the method. -/
  descriptor : String
  /-- Does the method run without a receiver? -/
  isStatic : Bool
deriving DecidableEq, Repr

/-- What an instruction without operands does to a frame. -/
inductive Effect where
  /-- Nothing. -/
  | keep
  /-- Pops a number of values. -/
  | pops (count : Nat)
  /-- Pops a number of values and pushes one. -/
  | gives (count : Nat) (type : FlowType)
  /-- Pops an index and an array of references, and pushes an element. -/
  | loadsElement
  /-- Rearranges the stack. -/
  | shuffles (shuffle : Shuffle)
deriving DecidableEq, Repr

namespace Effect

/-- The types of arithmetic in the order in which the opcodes go through them. -/
def numeric (n : Nat) : FlowType :=
  match n % 4 with
  | 0 => .int
  | 1 => .long
  | 2 => .float
  | _ => .double

/-- The types of shifts and bitwise operations in the order of the opcodes. -/
def integral (n : Nat) : FlowType := if n % 2 = 0 then .int else .long

/-- The effect of a conversion between numbers, by its opcode. -/
def conversion (n : Nat) : FlowType :=
  match n with
  | 133 | 140 | 143 => .long
  | 134 | 137 | 144 => .float
  | 135 | 138 | 141 => .double
  | _ => .int

/-- The effect of an opcode, if its instruction has no operands. -/
def ofOpcode? (opcode : Opcode) : Option Effect :=
  let n := opcode.toNat
  if n = 0 then some keep
  else if n = 1 then some (gives 0 .null)
  else if n ≤ 8 then some (gives 0 .int)
  else if n ≤ 10 then some (gives 0 .long)
  else if n ≤ 13 then some (gives 0 .float)
  else if n ≤ 15 then some (gives 0 .double)
  else if n < 46 then none
  else if n = 50 then some loadsElement
  else if n ≤ 49 then some (gives 2 (numeric (n - 46)))
  else if n ≤ 53 then some (gives 2 .int)
  else if n < 79 then none
  else if n ≤ 86 then some (pops 3)
  else if n ≤ 95 then (Shuffle.ofOpcode? opcode).map shuffles
  else if n ≤ 115 then some (gives 2 (numeric (n - 96)))
  else if n ≤ 119 then some (gives 1 (numeric (n - 116)))
  else if n ≤ 131 then some (gives 2 (integral (n - 120)))
  else if n = 132 then none
  else if n ≤ 147 then some (gives 1 (conversion n))
  else if n ≤ 152 then some (gives 2 .int)
  else if n < 172 then none
  else if n ≤ 176 then some (pops 1)
  else if n = 177 then some keep
  else if n = 190 then some (gives 1 .int)
  else if n = 191 ∨ n = 194 ∨ n = 195 then some (pops 1)
  else none

/-- The type of the elements of an array of references.  An object of a class gives the root of the
hierarchy, and a value that is no object gives the null reference. -/
def elementType : FlowType → FlowType
  | .object name =>
    match FieldType.ofClassConstantName name with
    | .ok (.array element) => ValueType.ofFieldType element
    | _ => .object Name.object
  | _ => .null

/-- The frame after an effect. -/
def apply (effect : Effect) (frame : FlowFrame) : Except FrameDefect FlowFrame := do
  match effect with
  | keep => return frame
  | pops count => frame.drop count
  | gives count type => return (← frame.drop count).push type
  | loadsElement =>
    let (_, frame) ← frame.pop
    let (array, frame) ← frame.pop
    return frame.push (elementType array)
  | shuffles shuffle => frame.shuffle shuffle

end Effect

namespace MethodDescriptor

/-- Reads a method descriptor that an instruction or a method refers to. -/
def demand (descriptor : String) : Except Fault MethodDescriptor :=
  match parse descriptor with
  | .ok parsed => .ok parsed
  | .error _ => .error (.badDescriptor descriptor)

end MethodDescriptor

namespace FieldType

/-- Reads a field descriptor that an instruction refers to. -/
def demand (descriptor : String) : Except Fault FieldType :=
  match parse descriptor with
  | .ok parsed => .ok parsed
  | .error _ => .error (.badDescriptor descriptor)

/-- Reads the name of a class constant that an instruction refers to. -/
def demandClass (name : String) : Except Fault FieldType :=
  match ofClassConstantName name with
  | .ok parsed => .ok parsed
  | .error _ => .error (.badDescriptor name)

end FieldType

namespace MethodContext

/-- The type of the receiver when the method is entered. -/
def receiverType (method : MethodContext) : FlowType :=
  if Name.isConstructor method.name ∧ method.owner ≠ Name.object then .uninitThis
  else .object method.owner

/-- The frame on entry to the method: the receiver, then the parameters. -/
def initialFrame (method : MethodContext) : Except Fault FlowFrame := do
  let descriptor ← MethodDescriptor.demand method.descriptor
  let receiver := if method.isStatic then [] else [method.receiverType]
  return Frame.ofTypes (receiver ++ descriptor.parameters.map ValueType.ofFieldType) []

end MethodContext

namespace Transfer

/-- The array type that a primitive array creation names by number. -/
def primitiveArray? : Int → Option String
  | 4 => some "[Z"
  | 5 => some "[C"
  | 6 => some "[F"
  | 7 => some "[D"
  | 8 => some "[B"
  | 9 => some "[S"
  | 10 => some "[I"
  | 11 => some "[J"
  | _ => none

/-- The type of a constant once it is on the stack. -/
def loadedType : Loadable → Except Fault FlowType
  | .int _ => .ok .int
  | .float _ => .ok .float
  | .long _ => .ok .long
  | .double _ => .ok .double
  | .string _ => .ok (.object Name.string)
  | .cls _ => .ok (.object Name.classObject)
  | .methodType _ => .ok (.object Name.methodType)
  | .pooled _ descriptor => return ValueType.ofFieldType (← FieldType.demand descriptor)

/-- Blames a defect on the instruction at a position. -/
def blame {α : Type} (position : Nat) : Except FrameDefect α → Except Fault α
  | .ok value => .ok value
  | .error defect => .error (.invalidFrame position defect)

/-- The frame after a result is pushed, if there is one. -/
def pushResult (frame : FlowFrame) : Option FieldType → FlowFrame
  | none => frame
  | some type => frame.push (ValueType.ofFieldType type)

/-- The frame after a load, store or return from a subroutine. -/
def accessVariable (position : Nat) (opcode : Opcode) (slot : Nat) (frame : FlowFrame) :
    Except Fault FlowFrame := do
  match opcode with
  | .iload => return frame.push .int
  | .lload => return frame.push .long
  | .fload => return frame.push .float
  | .dload => return frame.push .double
  | .aload =>
    match frame.locals[slot]? with
    | some type =>
      if type.isReference then return frame.push type
      else throw (.invalidFrame position (.notReference slot))
    | none => throw (.invalidFrame position (.notReference slot))
  | opcode =>
    if opcode.isStore then
      let (type, frame) ← blame position frame.pop
      return frame.setLocal slot type
    else throw (.unsupported "ret")

/-- The frame after an instruction that names a class. -/
def useType (position : Nat) (opcode : Opcode) (name : String) (frame : FlowFrame) :
    Except Fault FlowFrame := do
  match opcode with
  | .create => return frame.push (.uninit position)
  | .anewarray =>
    let frame ← blame position (frame.drop 1)
    let element ← FieldType.demandClass name
    return frame.push (.object (FieldType.array element).render)
  | .checkcast => return (← blame position (frame.drop 1)).push (.object name)
  | _ => return (← blame position (frame.drop 1)).push .int

/-- The frame after an access to a field. -/
def accessField (position : Nat) (opcode : Opcode) (field : Member) (frame : FlowFrame) :
    Except Fault FlowFrame := do
  let type ← FieldType.demand field.descriptor
  match opcode with
  | .getstatic => return frame.push (ValueType.ofFieldType type)
  | .putstatic => blame position (frame.drop 1)
  | .getfield => return (← blame position (frame.drop 1)).push (ValueType.ofFieldType type)
  | _ => blame position (frame.drop 2)

/-- The type of an object once a constructor has run on it. -/
def initialized (method : MethodContext) (code : Array Instruction) (position : Nat) :
    FlowType → Except Fault FlowType
  | .uninitThis => .ok (.object method.owner)
  | .uninit site =>
    match code[site]? with
    | some (.type .create name) => .ok (.object name)
    | _ => .error (.invalidFrame position .noCreation)
  | _ => .error (.invalidFrame position .alreadyInitialized)

/-- The frame after a call.  A constructor call gives every copy of the object it runs on the type
of an initialized object. -/
def call (method : MethodContext) (code : Array Instruction) (position : Nat) (opcode : Opcode)
    (callee : Member) (frame : FlowFrame) : Except Fault FlowFrame := do
  let descriptor ← MethodDescriptor.demand callee.descriptor
  let frame ← blame position (frame.drop descriptor.parameters.length)
  if opcode = Opcode.invokestatic then return pushResult frame descriptor.result
  else
    let (receiver, frame) ← blame position frame.pop
    if opcode = Opcode.invokespecial ∧ Name.isConstructor callee.name then
      let type ← initialized method code position receiver
      return pushResult (frame.replaceAll receiver type) descriptor.result
    else return pushResult frame descriptor.result

/-- The frame after a jump. -/
def jump (position : Nat) (opcode : Opcode) (frame : FlowFrame) : Except Fault FlowFrame :=
  let n := opcode.toNat
  if 153 ≤ n ∧ n ≤ 158 ∨ n = 198 ∨ n = 199 then blame position (frame.drop 1)
  else if 159 ≤ n ∧ n ≤ 166 then blame position (frame.drop 2)
  else if opcode = Opcode.goto ∨ opcode = Opcode.gotoWide then .ok frame
  else .error (.unsupported "jsr")

/-- The frame after the instruction at a position of a body, from the frame before it. -/
def execute (method : MethodContext) (code : Array Instruction) (position : Nat)
    (instruction : Instruction) (frame : FlowFrame) : Except Fault FlowFrame := do
  match instruction with
  | .label _ | .line _ => return frame
  | .plain opcode =>
    match Effect.ofOpcode? opcode with
    | some effect => blame position (effect.apply frame)
    | none => throw (.invalidFrame position (.takesOperands opcode))
  | .int .newarray number =>
    let frame ← blame position (frame.drop 1)
    match primitiveArray? number.toInt with
    | some type => return frame.push (.object type)
    | none => throw (.invalidFrame position .badArrayType)
  | .int _ _ => return frame.push .int
  | .var opcode slot => accessVariable position opcode slot.toNat frame
  | .increment _ _ => return frame
  | .type opcode name => useType position opcode name frame
  | .field opcode field => accessField position opcode field frame
  | .method opcode callee => call method code position opcode callee frame
  | .invokeDynamic _ descriptor =>
    let descriptor ← MethodDescriptor.demand descriptor
    let frame ← blame position (frame.drop descriptor.parameters.length)
    return pushResult frame descriptor.result
  | .jump opcode _ => jump position opcode frame
  | .load constant => return frame.push (← loadedType constant)
  | .tableSwitch .. | .lookupSwitch .. => blame position (frame.drop 1)
  | .multiArray name dimensions =>
    return (← blame position (frame.drop dimensions.toNat)).push (.object name)

end Transfer

end ClassInstrument
