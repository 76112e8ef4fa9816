import ClassInstrument.ClassFile.Attribute

/-!
# Annotations

An annotation names its interface by descriptor and gives values to some of its properties.  Values
nest: a property may hold an annotation or an array of values.  In a class file the names and
numbers are constants; here they are read out of the table of constants, and written annotations
ask for them again.

`Annotation.writeList` writes an attribute that `Annotation.readList` reads back.  Reading ends on
every byte string, because a value nested in another starts after the tag of the outer one.
-/

namespace ClassInstrument

/-- The types whose values are stored as constants of type `int`. -/
inductive IntKind where
  | byte | char | int | short | boolean
deriving DecidableEq, Repr

namespace IntKind

/-- The tag of a value of the type. -/
def tag : IntKind → UInt8
  | byte => 66
  | char => 67
  | int => 73
  | short => 83
  | boolean => 90

/-- The type with a tag. -/
def ofTag? : UInt8 → Option IntKind
  | 66 => some byte
  | 67 => some char
  | 73 => some int
  | 83 => some short
  | 90 => some boolean
  | _ => none

@[simp] theorem ofTag?_tag (kind : IntKind) : ofTag? kind.tag = some kind := by
  cases kind <;> rfl

end IntKind

/-- The value of a property of an annotation. -/
inductive ElementValue where
  /-- A number of type `int` or narrower, or a truth value. -/
  | int (kind : IntKind) (value : Int32)
  /-- A number of type `long`. -/
  | long (value : Int64)
  /-- A number of type `float`, as its bits. -/
  | float (bits : UInt32)
  /-- A number of type `double`, as its bits. -/
  | double (bits : UInt64)
  /-- A text. -/
  | string (text : String)
  /-- A constant of an enumeration. -/
  | enum (type constant : String)
  /-- A class, by the descriptor of a method that returns it. -/
  | cls (descriptor : String)
  /-- An annotation with its properties. -/
  | nested (descriptor : String) (values : List (String × ElementValue))
  /-- A list of values. -/
  | array (elements : List ElementValue)
deriving Repr, Inhabited

/-- An annotation on a class or a method. -/
structure Annotation where
  /-- The descriptor of the annotation interface. -/
  descriptor : String
  /-- The properties given explicitly, in the order of the class file. -/
  values : List (String × ElementValue)
deriving Repr

namespace ElementValue

/-- The number, if the value is of type `int` or narrower. -/
def int? : ElementValue → Option Int32
  | int _ value => some value
  | _ => none

/-- The text, if the value is one. -/
def text? : ElementValue → Option String
  | string text => some text
  | _ => none

mutual

/-- A value as it is shown in messages. -/
def describe : ElementValue → String
  | int kind value => s!"Int({kind.tag.toNat}, {value.toInt})"
  | long value => s!"Long({value.toInt})"
  | float bits => s!"Float({bits.toNat})"
  | double bits => s!"Double({bits.toNat})"
  | string text => s!"String({Quoted.render text})"
  | enum type constant =>
    Constant.describeFields "Enum"
      [("type_descriptor", Quoted.render type), ("constant", Quoted.render constant)]
  | cls descriptor => s!"Class({Quoted.render descriptor})"
  | nested descriptor values =>
    "Annotation(" ++ Constant.describeFields "AnnotationNode"
      [("descriptor", Quoted.render descriptor),
        ("values", "[" ++ ", ".intercalate (describeValues values) ++ "]")] ++ ")"
  | array elements => "Array([" ++ ", ".intercalate (describeElements elements) ++ "])"

/-- The elements of an array as they are shown in messages. -/
def describeElements : List ElementValue → List String
  | [] => []
  | element :: rest => element.describe :: describeElements rest

/-- The properties of an annotation as they are shown in messages. -/
def describeValues : List (String × ElementValue) → List String
  | [] => []
  | (name, value) :: rest =>
    ("(" ++ Quoted.render name ++ ", " ++ value.describe ++ ")") :: describeValues rest

end

mutual

/-- The written form of a value. -/
def write : ElementValue → Interning Bytes
  | int kind value => return kind.tag :: Bytes.u2 (← Pool.intern (.integer value))
  | long value => return 74 :: Bytes.u2 (← Pool.intern (.long value))
  | float bits => return 70 :: Bytes.u2 (← Pool.intern (.float bits))
  | double bits => return 68 :: Bytes.u2 (← Pool.intern (.double bits))
  | string text => return 115 :: Bytes.u2 (← Pool.internUtf8 text)
  | enum type constant =>
    return 101 :: Bytes.u2 (← Pool.internUtf8 type) ++ Bytes.u2 (← Pool.internUtf8 constant)
  | cls descriptor => return 99 :: Bytes.u2 (← Pool.internUtf8 descriptor)
  | nested descriptor values => do
    let type ← Pool.internUtf8 descriptor
    return 64 :: Bytes.u2 type ++ Bytes.length2 values.length ++ (← writeValues values)
  | array elements => return 91 :: Bytes.length2 elements.length ++ (← writeElements elements)

/-- The written forms of the elements of an array. -/
def writeElements : List ElementValue → Interning Bytes
  | [] => return []
  | element :: rest => return (← element.write) ++ (← writeElements rest)

/-- The written forms of the properties of an annotation. -/
def writeValues : List (String × ElementValue) → Interning Bytes
  | [] => return []
  | (name, value) :: rest => do
    let index ← Pool.internUtf8 name
    return Bytes.u2 index ++ (← value.write) ++ (← writeValues rest)

end

end ElementValue

/-- A reader of something that refers to constants. -/
abbrev PoolReader := StateT Bytes (Except Fault)

namespace PoolReader

/-- A reader that looks up no constants. -/
def ofReader {α : Type} (reader : Reader α) : PoolReader α := fun bytes =>
  match reader bytes with
  | .ok result => .ok result
  | .error cause => .error (.unreadable cause)

/-- The constant at an index that stands next. -/
def constant (pool : Pool) : PoolReader Constant := do pool.get (← ofReader Reader.u2)

/-- The text at an index that stands next. -/
def utf8 (pool : Pool) : PoolReader String := do pool.utf8 (← ofReader Reader.u2)

/-- Reads the whole contents of an attribute, which is called `name` in messages. -/
def whole {α : Type} (name : String) (reader : PoolReader α) (info : Bytes) :
    Except Fault α := do
  match ← reader info with
  | (value, []) => return value
  | _ => throw (.malformedAttribute name)

end PoolReader

namespace ElementValue

/-- Reads a property name and the value after it. -/
def readProperty (pool : Pool) (readValue : PoolReader ElementValue) :
    PoolReader (String × ElementValue) := do
  let name ← PoolReader.utf8 pool
  return (name, ← readValue)

/-- Reads the properties of an annotation. -/
def readProperties (pool : Pool) (readValue : PoolReader ElementValue) :
    PoolReader (List (String × ElementValue)) := do
  let count ← PoolReader.ofReader Reader.u2
  Reader.many (readProperty pool readValue) count.toNat

/-- Reads a value that does not nest, or one whose tag is of no value. -/
def readFlat (pool : Pool) (tag : UInt8) : PoolReader ElementValue := do
  match IntKind.ofTag? tag with
  | some kind =>
    match ← PoolReader.constant pool with
    | .integer value => return int kind value
    | _ => throw (.malformedAttribute "annotation int value")
  | none =>
    match tag with
    | 74 =>
      match ← PoolReader.constant pool with
      | .long value => return long value
      | _ => throw (.malformedAttribute "annotation long value")
    | 70 =>
      match ← PoolReader.constant pool with
      | .float bits => return float bits
      | _ => throw (.malformedAttribute "annotation float value")
    | 68 =>
      match ← PoolReader.constant pool with
      | .double bits => return double bits
      | _ => throw (.malformedAttribute "annotation double value")
    | 115 => return string (← PoolReader.utf8 pool)
    | 101 =>
      let type ← PoolReader.utf8 pool
      return enum type (← PoolReader.utf8 pool)
    | 99 => return cls (← PoolReader.utf8 pool)
    | _ => throw (.malformedAttribute "annotation element value")

/-- Reads a value in which values nest at most `depth` deep. -/
def read (pool : Pool) : Nat → PoolReader ElementValue
  | 0 => throw (.unreadable .endOfInput)
  | depth + 1 => do
    let tag ← PoolReader.ofReader Reader.u1
    match tag with
    | 64 =>
      let descriptor ← PoolReader.utf8 pool
      return nested descriptor (← readProperties pool (read pool depth))
    | 91 =>
      let count ← PoolReader.ofReader Reader.u2
      return array (← Reader.many (read pool depth) count.toNat)
    | tag => readFlat pool tag

end ElementValue

namespace Annotation

/-- The name of the attribute that lists annotations visible at run time. -/
def visibleAttribute : String := "RuntimeVisibleAnnotations"

/-- The name of the attribute that lists annotations invisible at run time. -/
def invisibleAttribute : String := "RuntimeInvisibleAnnotations"

/-- The name of the attribute that holds the default of a property. -/
def defaultAttribute : String := "AnnotationDefault"

/-- The value given to a property. -/
def value? (mark : Annotation) (property : String) : Option ElementValue :=
  mark.values.lookup property

/-- The written form of an annotation. -/
def write (mark : Annotation) : Interning Bytes := do
  let type ← Pool.internUtf8 mark.descriptor
  let count := Bytes.length2 mark.values.length
  return Bytes.u2 type ++ count ++ (← ElementValue.writeValues mark.values)

/-- Reads an annotation in which values nest at most `depth` deep. -/
def read (pool : Pool) (depth : Nat) : PoolReader Annotation := do
  let descriptor ← PoolReader.utf8 pool
  return { descriptor, values := ← ElementValue.readProperties pool (ElementValue.read pool depth) }

/-- The annotations that an attribute lists. -/
def readList (pool : Pool) (info : Bytes) : Except Fault (List Annotation) :=
  PoolReader.whole visibleAttribute
    (do
      let count ← PoolReader.ofReader Reader.u2
      Reader.many (read pool info.length) count.toNat)
    info

/-- The attribute that lists annotations, if there are any to list. -/
def writeList (name : String) (annotations : List Annotation) :
    Interning (Option Attribute) := do
  if annotations.isEmpty then return none
  let written ← annotations.mapM write
  let info := Bytes.length2 annotations.length ++ written.flatten
  return some (← Attribute.make name info)

/-- The default value that an attribute holds. -/
def readDefault (pool : Pool) (info : Bytes) : Except Fault ElementValue :=
  PoolReader.whole defaultAttribute (ElementValue.read pool info.length) info

/-- The attribute that holds a default value. -/
def writeDefault (value : ElementValue) : Interning Attribute := do
  Attribute.make defaultAttribute (← value.write)

/-- Takes the first annotation with a descriptor out of a list. -/
def removeFirst (descriptor : String) : List Annotation → Option Annotation × List Annotation
  | [] => (none, [])
  | mark :: rest =>
    if mark.descriptor = descriptor then (some mark, rest)
    else
      let (removed, rest) := removeFirst descriptor rest
      (removed, mark :: rest)

end Annotation

end ClassInstrument
