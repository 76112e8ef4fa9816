import ClassInstrument.Bytes
import ClassInstrument.Descriptor
import ClassInstrument.Slots
import ClassInstrument.Text.Quoted

/-!
# Verification types

Frames describe local variables and stack values by verification types.  The type of an object
names its class, and the type of an object that no constructor has run on names the place of its
`new` instruction.  While a body is analyzed, classes are named by text and places are positions in
the instruction list; in a class file both are two-byte numbers.
-/

namespace ClassInstrument

/-- The type of a local variable or of a stack value. -/
inductive ValueType (Cls Site : Type) where
  /-- An unusable slot: never written, of conflicting types, or the second half of a wide local. -/
  | top
  /-- A value of type `int` or narrower. -/
  | int
  /-- A value of type `float`. -/
  | float
  /-- A value of type `double`. -/
  | double
  /-- A value of type `long`. -/
  | long
  /-- The null reference. -/
  | null
  /-- The receiver of a constructor that has not called another constructor yet. -/
  | uninitThis
  /-- An object of a class. -/
  | object (cls : Cls)
  /-- An object created at a site, before its constructor runs. -/
  | uninit (site : Site)
deriving DecidableEq, Repr

namespace ValueType

variable {Cls Site : Type}

/-- Do values of the type take two slots? -/
def isWide : ValueType Cls Site → Bool
  | double | long => true
  | _ => false

instance : HasWidth (ValueType Cls Site) where
  width type := if type.isWide then 2 else 1

/-- Are the values of the type references? -/
def isReference : ValueType Cls Site → Bool
  | null | uninitThis | object _ | uninit _ => true
  | _ => false

/-- The type of a value of a field type, once it is on the stack or in a local variable. -/
def ofFieldType : FieldType → ValueType String Site
  | .base .float => float
  | .base .long => long
  | .base .double => double
  | .base _ => int
  | .object name => object name
  | .array element => object (FieldType.array element).render

/-- The written form of a type: a tag, and for objects a class or a site. -/
def write : ValueType UInt16 UInt16 → Bytes
  | top => [0]
  | int => [1]
  | float => [2]
  | double => [3]
  | long => [4]
  | null => [5]
  | uninitThis => [6]
  | object cls => 7 :: Bytes.u2 cls
  | uninit site => 8 :: Bytes.u2 site

/-- A type as it is shown in messages. -/
def describe : ValueType String Nat → String
  | top => "Top"
  | int => "Integer"
  | float => "Float"
  | double => "Double"
  | long => "Long"
  | null => "Null"
  | uninitThis => "UninitializedThis"
  | object cls => s!"Object({Quoted.render cls})"
  | uninit site => s!"Uninitialized({site})"

end ValueType

end ClassInstrument
