import ClassInstrument.Bytes

/-!
# Constants

A class file keeps its names, numbers and references in a table of constants, which refer to one
another by index.  A constant is written as a tag followed by its operands; `Constant.read` reads
back what `Constant.write` writes.  Text is kept as the bytes that encode it, and floating point
numbers as their bits, so that equal constants are exactly those written alike.
-/

namespace ClassInstrument

/-- A position in the table of constants. -/
abbrev PoolIndex := UInt16

/-- One entry of the table of constants. -/
inductive Constant where
  /-- Encoded text. -/
  | utf8 (bytes : Bytes)
  /-- A number of type `int`. -/
  | integer (value : Int32)
  /-- A number of type `float`, as its bits. -/
  | float (bits : UInt32)
  /-- A number of type `long`. -/
  | long (value : Int64)
  /-- A number of type `double`, as its bits. -/
  | double (bits : UInt64)
  /-- A class, interface or array type, by the text of its name. -/
  | classRef (name : PoolIndex)
  /-- A text object, by its text. -/
  | string (text : PoolIndex)
  /-- A field of a class. -/
  | fieldRef (owner member : PoolIndex)
  /-- A method of a class or of an interface. -/
  | methodRef (owner member : PoolIndex) (ofInterface : Bool)
  /-- The name and descriptor of a member. -/
  | nameAndType (name descriptor : PoolIndex)
  /-- A method handle of some kind. -/
  | methodHandle (kind : UInt8) (member : PoolIndex)
  /-- A method descriptor as a value. -/
  | methodType (descriptor : PoolIndex)
  /-- A value computed by a bootstrap method. -/
  | dynamic (bootstrap : UInt16) (member : PoolIndex)
  /-- A call site computed by a bootstrap method. -/
  | invokeDynamic (bootstrap : UInt16) (member : PoolIndex)
  /-- A module, by name. -/
  | moduleRef (name : PoolIndex)
  /-- A package, by name. -/
  | packageRef (name : PoolIndex)
deriving DecidableEq, Repr, Hashable

namespace Constant

/-- Does the constant take two places in the table?  Eight-byte numbers do. -/
def isWide : Constant → Bool
  | long _ | double _ => true
  | _ => false

/-- The number of places the constant takes in the table. -/
def places (constant : Constant) : Nat := if constant.isWide then 2 else 1

theorem one_le_places (constant : Constant) : 1 ≤ constant.places := by
  unfold places
  split <;> omega

/-- The written form of a constant. -/
def write : Constant → Bytes
  | utf8 bytes => 1 :: Bytes.length2 bytes.length ++ bytes
  | integer value => 3 :: Bytes.u4 value.toUInt32
  | float bits => 4 :: Bytes.u4 bits
  | long value => 5 :: Bytes.u8 value.toUInt64
  | double bits => 6 :: Bytes.u8 bits
  | classRef name => 7 :: Bytes.u2 name
  | string text => 8 :: Bytes.u2 text
  | fieldRef owner member => 9 :: Bytes.u2 owner ++ Bytes.u2 member
  | methodRef owner member ofInterface =>
    (if ofInterface then 11 else 10) :: Bytes.u2 owner ++ Bytes.u2 member
  | nameAndType name descriptor => 12 :: Bytes.u2 name ++ Bytes.u2 descriptor
  | methodHandle kind member => 15 :: kind :: Bytes.u2 member
  | methodType descriptor => 16 :: Bytes.u2 descriptor
  | dynamic bootstrap member => 17 :: Bytes.u2 bootstrap ++ Bytes.u2 member
  | invokeDynamic bootstrap member => 18 :: Bytes.u2 bootstrap ++ Bytes.u2 member
  | moduleRef name => 19 :: Bytes.u2 name
  | packageRef name => 20 :: Bytes.u2 name

/-- Reads the operands of a constant with a tag. -/
def readTagged (tag : UInt8) : Reader Constant := do
  match tag with
  | 1 =>
    let length ← Reader.u2
    return utf8 (← Reader.take length.toNat)
  | 3 => return integer (← Reader.u4).toInt32
  | 4 => return float (← Reader.u4)
  | 5 => return long (← Reader.u8).toInt64
  | 6 => return double (← Reader.u8)
  | 7 => return classRef (← Reader.u2)
  | 8 => return string (← Reader.u2)
  | 9 => return fieldRef (← Reader.u2) (← Reader.u2)
  | 10 => return methodRef (← Reader.u2) (← Reader.u2) false
  | 11 => return methodRef (← Reader.u2) (← Reader.u2) true
  | 12 => return nameAndType (← Reader.u2) (← Reader.u2)
  | 15 => return methodHandle (← Reader.u1) (← Reader.u2)
  | 16 => return methodType (← Reader.u2)
  | 17 => return dynamic (← Reader.u2) (← Reader.u2)
  | 18 => return invokeDynamic (← Reader.u2) (← Reader.u2)
  | 19 => return moduleRef (← Reader.u2)
  | 20 => return packageRef (← Reader.u2)
  | tag => throw (.unknownConstantTag tag)

/-- Reads a constant off the front of a byte string. -/
def read : Reader Constant := do readTagged (← Reader.u1)

/-- The text of an index to encoded text inside a described constant. -/
def describeUtf8 (index : PoolIndex) : String :=
  s!"Utf8ConstantIndex(ConstantIndex({index.toNat}))"

/-- The text of a class index inside a described constant. -/
def describeClass (index : PoolIndex) : String :=
  s!"ClassConstantIndex(ConstantIndex({index.toNat}))"

/-- The text of a name and type index inside a described constant. -/
def describeNameAndType (index : PoolIndex) : String :=
  s!"NameAndTypeConstantIndex(ConstantIndex({index.toNat}))"

/-- A record with named fields, as shown in messages. -/
def describeFields (name : String) (fields : List (String × String)) : String :=
  name ++ " \x7b " ++ ", ".intercalate (fields.map fun (key, value) => key ++ ": " ++ value) ++
    " \x7d"

/-- A constant as it is shown in messages. -/
def describe : Constant → String
  | utf8 bytes => "Utf8([" ++ ", ".intercalate (bytes.map fun b => toString b.toNat) ++ "])"
  | integer value => s!"Integer({value.toInt})"
  | float bits => s!"Float({bits.toNat})"
  | long value => s!"Long({value.toInt})"
  | double bits => s!"Double({bits.toNat})"
  | classRef name => s!"Class({describeUtf8 name})"
  | string text => s!"String({describeUtf8 text})"
  | fieldRef owner member => s!"FieldRef({describeClass owner}, {describeNameAndType member})"
  | methodRef owner member ofInterface =>
    describeFields "MethodRef"
      [("class", describeClass owner), ("name_and_type", describeNameAndType member),
        ("is_interface", toString ofInterface)]
  | nameAndType name descriptor =>
    describeFields "NameAndType"
      [("name", describeUtf8 name), ("descriptor", describeUtf8 descriptor)]
  | methodHandle kind member =>
    describeFields "MethodHandle"
      [("handle_kind", toString kind.toNat), ("member", s!"ConstantIndex({member.toNat})")]
  | methodType descriptor =>
    describeFields "MethodType" [("descriptor", describeUtf8 descriptor)]
  | dynamic bootstrap member =>
    describeFields "Dynamic"
      [("bootstrap_method", toString bootstrap.toNat),
        ("name_and_type", describeNameAndType member)]
  | invokeDynamic bootstrap member =>
    describeFields "InvokeDynamic"
      [("bootstrap_method", toString bootstrap.toNat),
        ("name_and_type", describeNameAndType member)]
  | moduleRef name => s!"Module({describeUtf8 name})"
  | packageRef name => s!"Package({describeUtf8 name})"

end Constant

end ClassInstrument
