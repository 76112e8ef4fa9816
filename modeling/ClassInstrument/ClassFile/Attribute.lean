import ClassInstrument.Pool.Basic

/-!
# Attributes

Classes, fields, methods and method bodies carry attributes: a name and a string of bytes.  An
attribute that nobody looks into is copied byte for byte.  `Attribute.decode` reads the contents of
one that somebody does look into, and refuses contents with bytes left over.
-/

namespace ClassInstrument

/-- A named string of bytes. -/
structure Attribute where
  /-- The index of the name. -/
  name : PoolIndex
  /-- The contents. -/
  info : Bytes
deriving DecidableEq, Repr

namespace Attribute

/-- The written form of an attribute; the length of the contents takes four bytes. -/
def write (attr : Attribute) : Bytes :=
  Bytes.u2 attr.name ++ Bytes.length4 attr.info.length ++ attr.info

/-- Reads an attribute off the front of a byte string. -/
def read : Reader Attribute := do
  let name ← Reader.u2
  let length ← Reader.u4
  return { name, info := ← Reader.take length.toNat }

/-- Reads the whole contents of an attribute, which is called `name` in messages. -/
def decode {α : Type} (name : String) (reader : Reader α) (attr : Attribute) :
    Except Fault α :=
  match reader attr.info with
  | .error cause => .error (.unreadable cause)
  | .ok (value, []) => .ok value
  | .ok (_, _ :: _) => .error (.malformedAttribute name)

/-- The attribute with a name and contents. -/
def make (name : String) (info : Bytes) : Interning Attribute := do
  return { name := ← Pool.internUtf8 name, info }

end Attribute

/-- The exception handlers of a method body as they are written: the range they protect, where they
start, and the class they catch. -/
structure HandlerEntry where
  /-- The offset at which protection starts. -/
  start : UInt16
  /-- The offset at which protection has ended. -/
  stop : UInt16
  /-- The offset of the handler. -/
  handler : UInt16
  /-- The index of the caught class, `none` for everything. -/
  caught : Option PoolIndex
deriving DecidableEq, Repr

/-- An index that is written as `0` when there is none. -/
def writeOptionalIndex : Option PoolIndex → Bytes
  | none => Bytes.u2 0
  | some index => Bytes.u2 index

/-- Reads an index that is written as `0` when there is none. -/
def readOptionalIndex : Reader (Option PoolIndex) := do
  let index ← Reader.u2
  return if index = 0 then none else some index

namespace HandlerEntry

/-- The written form of a handler. -/
def write (entry : HandlerEntry) : Bytes :=
  Bytes.u2 entry.start ++ Bytes.u2 entry.stop ++ Bytes.u2 entry.handler ++
    writeOptionalIndex entry.caught

/-- Reads a handler off the front of a byte string. -/
def read : Reader HandlerEntry := do
  return {
    start := ← Reader.u2
    stop := ← Reader.u2
    handler := ← Reader.u2
    caught := ← readOptionalIndex }

end HandlerEntry

/-- A method body as it is written. -/
structure CodeAttribute where
  /-- The most stack slots in use at once. -/
  maxStack : UInt16
  /-- The number of local variable slots. -/
  maxLocals : UInt16
  /-- The bytecode. -/
  code : Bytes
  /-- The exception handlers, first match first. -/
  handlers : List HandlerEntry
  /-- The attributes of the body. -/
  attributes : List Attribute
deriving DecidableEq, Repr

namespace CodeAttribute

/-- The name of the attribute that holds a method body. -/
def name : String := "Code"

/-- The written form of a method body. -/
def write (code : CodeAttribute) : Bytes :=
  Bytes.u2 code.maxStack ++ Bytes.u2 code.maxLocals ++ Bytes.length4 code.code.length ++
    code.code ++ Bytes.list HandlerEntry.write code.handlers ++
    Bytes.list Attribute.write code.attributes

/-- Reads a method body off the front of a byte string. -/
def read : Reader CodeAttribute := do
  let maxStack ← Reader.u2
  let maxLocals ← Reader.u2
  let length ← Reader.u4
  return {
    maxStack, maxLocals
    code := ← Reader.take length.toNat
    handlers := ← Reader.list HandlerEntry.read
    attributes := ← Reader.list Attribute.read }

end CodeAttribute

/-- The source line that the bytecode from an offset on comes from. -/
structure LineEntry where
  /-- The offset. -/
  start : UInt16
  /-- The line. -/
  line : UInt16
deriving DecidableEq, Repr

namespace LineEntry

/-- The name of the attribute that lists source lines. -/
def attributeName : String := "LineNumberTable"

/-- The written form of a line. -/
def write (entry : LineEntry) : Bytes := Bytes.u2 entry.start ++ Bytes.u2 entry.line

/-- Reads a line off the front of a byte string. -/
def read : Reader LineEntry := return { start := ← Reader.u2, line := ← Reader.u2 }

/-- Reads a list of lines. -/
def readTable : Reader (List LineEntry) := Reader.list read

/-- The written form of a list of lines. -/
def writeTable (entries : List LineEntry) : Bytes := Bytes.list write entries

end LineEntry

/-- A local variable over a range of the bytecode.  Its descriptor index names a descriptor or a
generic signature, depending on the table. -/
structure VariableEntry where
  /-- The offset at which the variable comes into scope. -/
  start : UInt16
  /-- The length of the scope. -/
  length : UInt16
  /-- The index of the name. -/
  name : PoolIndex
  /-- The index of the descriptor or signature. -/
  descriptor : PoolIndex
  /-- The slot of the variable. -/
  slot : UInt16
deriving DecidableEq, Repr

namespace VariableEntry

/-- The name of the attribute that lists variables with descriptors. -/
def attributeName : String := "LocalVariableTable"

/-- The name of the attribute that lists variables with generic signatures. -/
def typeAttributeName : String := "LocalVariableTypeTable"

/-- The written form of a variable. -/
def write (entry : VariableEntry) : Bytes :=
  Bytes.u2 entry.start ++ Bytes.u2 entry.length ++ Bytes.u2 entry.name ++
    Bytes.u2 entry.descriptor ++ Bytes.u2 entry.slot

/-- Reads a variable off the front of a byte string. -/
def read : Reader VariableEntry := do
  return {
    start := ← Reader.u2
    length := ← Reader.u2
    name := ← Reader.u2
    descriptor := ← Reader.u2
    slot := ← Reader.u2 }

/-- Reads a list of variables. -/
def readTable : Reader (List VariableEntry) := Reader.list read

/-- The written form of a list of variables. -/
def writeTable (entries : List VariableEntry) : Bytes := Bytes.list write entries

end VariableEntry

end ClassInstrument
