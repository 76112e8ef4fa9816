import ClassInstrument.Code.Label
import ClassInstrument.Frame.ValueType
import ClassInstrument.Pool.Constant
import ClassInstrument.Storage.Archive.Fault

/-!
# What can go wrong with a class

A `Fault` says why a class file cannot be read, edited or written.  Each way to fail is a
constructor that carries what the message names; the wording of every message is in
`Fault.message` and the functions it calls.
-/

namespace ClassInstrument

/-- What a constant was expected to be. -/
inductive ConstantRole where
  | utf8 | classRef | nameAndType | member | invokeDynamic | loadable
deriving DecidableEq, Repr

/-- A role as it is shown in messages. -/
def ConstantRole.describe : ConstantRole → String
  | .utf8 => "Utf8"
  | .classRef => "Class"
  | .nameAndType => "NameAndType"
  | .member => "Fieldref or Methodref"
  | .invokeDynamic => "InvokeDynamic"
  | .loadable => "loadable constant"

/-- Why bytecode cannot be decoded or laid out. -/
inductive CodeDefect where
  /-- The bytes end inside an instruction. -/
  | truncated
  /-- A jump leads to a negative offset. -/
  | jumpBeforeStart
  /-- Something refers to an offset at which no instruction starts. -/
  | insideInstruction
  /-- No instruction has this opcode. -/
  | unknownOpcode (opcode : UInt8)
  /-- The opcode has no wide form. -/
  | notWidenable (opcode : UInt8)
  /-- The keys of a table switch run backwards. -/
  | switchBounds
  /-- A jump is too long for its operand. -/
  | jumpOutOfRange
deriving DecidableEq, Repr

/-- A defect as it is shown in messages. -/
def CodeDefect.describe : CodeDefect → String
  | .truncated => "truncated instruction"
  | .jumpBeforeStart => "jump before the start of the method"
  | .insideInstruction => "reference to the middle of an instruction"
  | .unknownOpcode opcode => s!"unknown opcode {opcode.toNat}"
  | .notWidenable opcode => s!"opcode {opcode.toNat} cannot be widened"
  | .switchBounds => "tableswitch high is below low"
  | .jumpOutOfRange => "jump out of range"

/-- Why no frame can be computed at an instruction. -/
inductive FrameDefect where
  /-- The body has no instructions. -/
  | emptyBody
  /-- Control continues behind the last instruction. -/
  | fallsOffEnd
  /-- A block starts at an instruction that is never reached. -/
  | missingFrame
  /-- The instruction pops more values than there are. -/
  | popFromEmpty
  /-- The instruction looks at a value where there is none. -/
  | emptyStack
  /-- The opcode does not stand for an instruction without operands. -/
  | takesOperands (opcode : UInt8)
  /-- A reference is loaded from a local variable that holds none. -/
  | notReference (slot : Nat)
  /-- No primitive array type has this number. -/
  | badArrayType
  /-- An uninitialized object does not stem from a `new` instruction. -/
  | noCreation
  /-- A constructor is called on something already initialized. -/
  | alreadyInitialized
  /-- Two paths meet with different numbers of stack values. -/
  | heightsDiffer (left right : Nat)
  /-- Two paths meet with stack values that have no type in common. -/
  | incompatible (left right : ValueType String Nat)
deriving DecidableEq, Repr

/-- A defect as it is shown in messages. -/
def FrameDefect.describe : FrameDefect → String
  | .emptyBody => "method body is empty"
  | .fallsOffEnd => "execution falls off the end of the code"
  | .missingFrame => "no frame for instruction starting a block"
  | .popFromEmpty => "pop from an empty stack"
  | .emptyStack => "empty stack"
  | .takesOperands opcode => s!"opcode {opcode.toNat} takes operands"
  | .notReference slot => s!"local {slot} is not a reference"
  | .badArrayType => "bad newarray type"
  | .noCreation => "uninitialized value without a matching 'new'"
  | .alreadyInitialized => "constructor called on an initialized value"
  | .heightsDiffer left right => s!"stack heights differ ({left} and {right})"
  | .incompatible left right => s!"incompatible stack values {left.describe} and {right.describe}"

/-- Why a class cannot be read, edited or written. -/
inductive Fault where
  /-- The bytes are not those of a class. -/
  | unreadable (cause : ReadFault)
  /-- The first four bytes are not those of every class file. -/
  | badMagic (magic : Bytes)
  /-- Bytes follow the end of the class. -/
  | trailingBytes (count : Nat)
  /-- The table of constants has no room for another one. -/
  | poolOverflow (constant : Constant) (offset : Nat)
  /-- No constant stands at an index. -/
  | badIndex (index : PoolIndex)
  /-- The constant at an index is not of the expected kind. -/
  | unexpectedConstant (index : PoolIndex) (role : ConstantRole)
  /-- The contents of an attribute do not have its form. -/
  | malformedAttribute (name : String)
  /-- A text is not a descriptor. -/
  | badDescriptor (text : String)
  /-- The bytecode at an offset is malformed. -/
  | malformedCode (offset : Nat) (defect : CodeDefect)
  /-- An instruction can be decoded but not analyzed or written. -/
  | unsupported (mnemonic : String)
  /-- The bytecode of a method is too long. -/
  | codeTooLong (length : Nat)
  /-- A method needs too many stack slots. -/
  | stackTooHigh (height : Nat)
  /-- A method needs too many local variables. -/
  | tooManyLocals (count : Nat)
  /-- A label is referred to but placed nowhere. -/
  | unknownLabel (label : Label)
  /-- No frame can be computed at a position of the instruction list. -/
  | invalidFrame (position : Nat) (defect : FrameDefect)
  /-- A class that decides how two types merge is nowhere to be found. -/
  | typeNotFound (name : String)
  /-- The superclasses of a class form a cycle. -/
  | endlessSuperclasses (name : String)
  /-- The frames of a method do not settle. -/
  | unsettledFrames
  /-- An archive that may hold classes cannot be read. -/
  | badArchive (cause : ArchiveFault)
deriving DecidableEq, Repr

/-- The text shown for a fault. -/
def Fault.message : Fault → String
  | .unreadable cause => cause.message
  | .badMagic magic =>
    "Bad class file magic [" ++
      ", ".intercalate (magic.map fun byte =>
        String.ofList ((Nat.toDigits 16 (256 + byte.toNat)).tail.map Char.toUpper)) ++ "]"
  | .trailingBytes count => s!"{count} unexpected bytes after end of class file"
  | .poolOverflow constant offset =>
    s!"Constant pool overflow adding {constant.describe} at offset {offset}"
  | .badIndex index => s!"Invalid constant pool index {index.toNat}"
  | .unexpectedConstant index role => s!"Constant at index {index.toNat} is not {role.describe}"
  | .malformedAttribute name => s!"Malformed {name} attribute"
  | .badDescriptor text => s!"Invalid descriptor '{text}'"
  | .malformedCode offset defect => s!"Malformed bytecode at offset {offset}: {defect.describe}"
  | .unsupported mnemonic => s!"Instruction '{mnemonic}' is not supported"
  | .codeTooLong length => s!"Method code is {length} bytes, more than the 65535 allowed"
  | .stackTooHigh height => s!"Method needs {height} stack slots, more than 65535"
  | .tooManyLocals count => s!"Method needs {count} local slots, more than 65535"
  | .unknownLabel label => s!"Label {label.describe} is never placed"
  | .invalidFrame position defect => s!"Instruction #{position}: {defect.describe}"
  | .typeNotFound name => s!"Type not found: {name}"
  | .endlessSuperclasses name => s!"Endless chain of superclasses above {name}"
  | .unsettledFrames => "Frames do not settle"
  | .badArchive cause => cause.message

end ClassInstrument
