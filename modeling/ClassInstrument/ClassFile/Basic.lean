import ClassInstrument.Access
import ClassInstrument.ClassFile.Attribute

/-!
# Class files

The flat form of a class, in which everything is named by its index in the table of constants.
`ClassFile.parse` reads a byte string from its first byte to its last, and `ClassFile.write` writes
it again.  Unknown bits of the access flags of classes and methods are dropped on the way; the flags
of fields are kept as they are.
-/

namespace ClassInstrument

/-- The version of the class file format. -/
structure Version where
  /-- The major version. -/
  major : UInt16
  /-- The minor version. -/
  minor : UInt16
deriving DecidableEq, Repr

/-- Do method bodies of this version carry stack map frames? -/
def Version.usesFrames (version : Version) : Bool := 50 ≤ version.major

/-- A field of a class. -/
structure Field where
  /-- The access flags. -/
  access : UInt16
  /-- The index of the name. -/
  name : PoolIndex
  /-- The index of the descriptor. -/
  descriptor : PoolIndex
  /-- The attributes. -/
  attributes : List Attribute
deriving DecidableEq, Repr

namespace Field

/-- The written form of a field. -/
def write (field : Field) : Bytes :=
  Bytes.u2 field.access ++ Bytes.u2 field.name ++ Bytes.u2 field.descriptor ++
    Bytes.list Attribute.write field.attributes

/-- Reads a field off the front of a byte string. -/
def read : Reader Field := do
  return {
    access := ← Reader.u2
    name := ← Reader.u2
    descriptor := ← Reader.u2
    attributes := ← Reader.list Attribute.read }

end Field

/-- A method of a class in its flat form. -/
structure MethodEntry where
  /-- The access flags. -/
  access : MethodAccess
  /-- The index of the name. -/
  name : PoolIndex
  /-- The index of the descriptor. -/
  descriptor : PoolIndex
  /-- The attributes, the body among them. -/
  attributes : List Attribute
deriving DecidableEq, Repr

namespace MethodEntry

/-- The written form of a method. -/
def write (method : MethodEntry) : Bytes :=
  Bytes.u2 method.access.bits ++ Bytes.u2 method.name ++ Bytes.u2 method.descriptor ++
    Bytes.list Attribute.write method.attributes

/-- Reads a method off the front of a byte string. -/
def read : Reader MethodEntry := do
  return {
    access := MethodAccess.ofBits (← Reader.u2)
    name := ← Reader.u2
    descriptor := ← Reader.u2
    attributes := ← Reader.list Attribute.read }

end MethodEntry

/-- A class in its flat form. -/
structure ClassFile where
  /-- The version of the format. -/
  version : Version
  /-- The table of constants. -/
  pool : Pool
  /-- The access flags. -/
  access : ClassAccess
  /-- The index of the class itself. -/
  thisClass : PoolIndex
  /-- The index of the superclass; the root of the hierarchy and modules have none. -/
  superClass : Option PoolIndex
  /-- The indices of the interfaces. -/
  interfaces : List PoolIndex
  /-- The fields. -/
  fields : List Field
  /-- The methods. -/
  methods : List MethodEntry
  /-- The attributes of the class. -/
  attributes : List Attribute

namespace ClassFile

/-- The bytes at the front of every class file. -/
def magic : Bytes := [0xCA, 0xFE, 0xBA, 0xBE]

/-- The written form of a class. -/
def write (file : ClassFile) : Bytes :=
  magic ++ Bytes.u2 file.version.minor ++ Bytes.u2 file.version.major ++ file.pool.write ++
    Bytes.u2 file.access.bits ++ Bytes.u2 file.thisClass ++ writeOptionalIndex file.superClass ++
    Bytes.list Bytes.u2 file.interfaces ++ Bytes.list Field.write file.fields ++
    Bytes.list MethodEntry.write file.methods ++ Bytes.list Attribute.write file.attributes

/-- Reads what follows the first four bytes. -/
def readBody : Reader ClassFile := do
  let minor ← Reader.u2
  let major ← Reader.u2
  return {
    version := { major, minor }
    pool := ← Pool.read
    access := ClassAccess.ofBits (← Reader.u2)
    thisClass := ← Reader.u2
    superClass := ← readOptionalIndex
    interfaces := ← Reader.list Reader.u2
    fields := ← Reader.list Field.read
    methods := ← Reader.list MethodEntry.read
    attributes := ← Reader.list Attribute.read }

/-- Reads a whole byte string as a class file. -/
def parse (bytes : Bytes) : Except Fault ClassFile :=
  let (front, rest) := bytes.splitAt 4
  if front.length < 4 then .error (.unreadable .endOfInput)
  else if front ≠ magic then .error (.badMagic front)
  else
    match readBody rest with
    | .error cause => .error (.unreadable cause)
    | .ok (file, []) => .ok file
    | .ok (_, leftover) => .error (.trailingBytes leftover.length)

end ClassFile

end ClassInstrument
