import ClassInstrument.Name

/-!
# Descriptors

A field descriptor spells a type: a letter for a primitive type, `L…;` around the internal name of
a class, and one `[` for each dimension of an array.  A method descriptor lists the types of the
parameters between parentheses, followed by the type of the result or `V`.

`FieldType.parse` and `MethodDescriptor.parse` read exactly these grammars, and `render` writes
them.  Types have a width in slots: `long` and `double` take two, all others one.
-/

namespace ClassInstrument

/-- Why a text is not a descriptor. -/
inductive DescriptorFault where
  /-- A descriptor ends before the text does. -/
  | leftover (c : Char) (source : String)
  /-- No primitive type has this letter. -/
  | invalidBaseType (c : Char)
  /-- The text ends where a primitive type should stand. -/
  | missingBaseType
  /-- The text ends where a type should stand. -/
  | missingFieldType
  /-- A class type names no class. -/
  | emptyClassName
  /-- A class name is not closed by a semicolon. -/
  | unterminatedClassName (name : String)
  /-- No type starts with this character. -/
  | invalidFieldType (c : Char)
  /-- A method descriptor does not start with a parenthesis. -/
  | missingParenthesis
deriving DecidableEq, Repr

namespace DescriptorFault

/-- The text shown for a descriptor that cannot be read. -/
def message : DescriptorFault → String
  | leftover c source => s!"Unexpected leftover input '{c}' in '{source}'"
  | invalidBaseType c => s!"Invalid base type character '{c}'"
  | missingBaseType => "Missing base type character"
  | missingFieldType => "Missing field type"
  | emptyClassName => "Empty class name in descriptor"
  | unterminatedClassName name => s!"Missing terminator for 'L{name}'"
  | invalidFieldType c => s!"Invalid field type character '{c}'"
  | missingParenthesis => "Expected '(' for method"

/-- Is the text too short rather than wrong? -/
def isTruncation : DescriptorFault → Bool
  | missingBaseType | missingFieldType | unterminatedClassName _ => true
  | _ => false

end DescriptorFault

/-- The primitive types. -/
inductive BaseType where
  | byte | char | double | float | int | long | short | boolean
deriving DecidableEq, Repr

namespace BaseType

/-- The letter of a primitive type. -/
def letter : BaseType → Char
  | byte => 'B'
  | char => 'C'
  | double => 'D'
  | float => 'F'
  | int => 'I'
  | long => 'J'
  | short => 'S'
  | boolean => 'Z'

/-- The primitive type with a letter. -/
def ofLetter? : Char → Option BaseType
  | 'B' => some byte
  | 'C' => some char
  | 'D' => some double
  | 'F' => some float
  | 'I' => some int
  | 'J' => some long
  | 'S' => some short
  | 'Z' => some boolean
  | _ => none

@[simp] theorem ofLetter?_letter (base : BaseType) : ofLetter? base.letter = some base := by
  cases base <;> rfl

/-- The number of slots a value takes. -/
def width : BaseType → Nat
  | double | long => 2
  | _ => 1

/-- The type as it is written in a program. -/
def javaName : BaseType → String
  | byte => "byte"
  | char => "char"
  | double => "double"
  | float => "float"
  | int => "int"
  | long => "long"
  | short => "short"
  | boolean => "boolean"

/-- Reads a whole text as a primitive type. -/
def parse (source : String) : Except DescriptorFault BaseType :=
  match source.toList with
  | [] => .error .missingBaseType
  | c :: rest =>
    match ofLetter? c with
    | none => .error (.invalidBaseType c)
    | some base =>
      match rest with
      | [] => .ok base
      | next :: _ => .error (.leftover next source)

end BaseType

/-- The type of a field, a parameter or a result. -/
inductive FieldType where
  /-- A primitive type. -/
  | base (type : BaseType)
  /-- A class or an interface, by internal name. -/
  | object (name : String)
  /-- An array with elements of a type. -/
  | array (element : FieldType)
deriving DecidableEq, Repr

namespace FieldType

/-- The number of slots a value takes. -/
def width : FieldType → Nat
  | base type => type.width
  | _ => 1

/-- Are the values of the type references? -/
def isReference : FieldType → Bool
  | base _ => false
  | _ => true

/-- The descriptor of a type. -/
def render : FieldType → String
  | base type => String.singleton type.letter
  | object name => "L" ++ name ++ ";"
  | array element => "[" ++ element.render

/-- The type as it is written in a program. -/
def javaName : FieldType → String
  | base type => type.javaName
  | object name => Name.toJava name
  | array element => element.javaName ++ "[]"

/-- Reads the rest of a class type after its `L`. -/
def readClassName (chars : List Char) : Except DescriptorFault (FieldType × List Char) :=
  let name := chars.takeWhile (· != ';')
  match chars.dropWhile (· != ';') with
  | [] => .error (.unterminatedClassName (String.ofList name))
  | _ :: rest =>
    if name.isEmpty then .error .emptyClassName
    else .ok (object (String.ofList name), rest)

/-- Reads a type off the front of a text. -/
def read : List Char → Except DescriptorFault (FieldType × List Char)
  | [] => .error .missingFieldType
  | '[' :: rest => do
    let (element, rest) ← read rest
    return (array element, rest)
  | 'L' :: rest => readClassName rest
  | c :: rest =>
    match BaseType.ofLetter? c with
    | some type => .ok (base type, rest)
    | none => .error (.invalidFieldType c)

/-- Reads a whole text as a type. -/
def parse (source : String) : Except DescriptorFault FieldType := do
  let (type, rest) ← read source.toList
  match rest with
  | [] => return type
  | c :: _ => throw (.leftover c source)

/-- The name that a class constant uses for a type: the internal name of a class, the descriptor of
an array, and none for a primitive type. -/
def classConstantName? : FieldType → Option String
  | base _ => none
  | object name => some name
  | array element => some (array element).render

/-- The type that the name in a class constant stands for. -/
def ofClassConstantName (name : String) : Except DescriptorFault FieldType :=
  match name.toList with
  | '[' :: _ => parse name
  | _ => .ok (object name)

end FieldType

/-- The types of a method's parameters and result. -/
structure MethodDescriptor where
  /-- The types of the parameters in order. -/
  parameters : List FieldType
  /-- The type of the result, `none` for a method without one. -/
  result : Option FieldType
deriving DecidableEq, Repr

namespace MethodDescriptor

/-- The number of local slots the parameters take, with one more for a receiver. -/
def parameterSlots (descriptor : MethodDescriptor) (hasReceiver : Bool) : Nat :=
  descriptor.parameters.foldr (fun type count => type.width + count) (if hasReceiver then 1 else 0)

/-- The written form of a result type, `V` for none. -/
def renderResult : Option FieldType → String
  | none => "V"
  | some type => type.render

/-- The written form of a method descriptor. -/
def render (descriptor : MethodDescriptor) : String :=
  "(" ++ String.join (descriptor.parameters.map FieldType.render) ++ ")" ++
    renderResult descriptor.result

/-- Reads parameter types up to the closing parenthesis.  Each type takes at least one character,
so as many rounds as there are characters suffice. -/
def readParameters : Nat → List Char → Except DescriptorFault (List FieldType × List Char)
  | _, ')' :: rest => .ok ([], rest)
  | 0, _ => .error .missingFieldType
  | rounds + 1, chars => do
    let (type, rest) ← FieldType.read chars
    let (types, rest) ← readParameters rounds rest
    return (type :: types, rest)

/-- Reads a result type off the front of a text. -/
def readResult : List Char → Except DescriptorFault (Option FieldType × List Char)
  | 'V' :: rest => .ok (none, rest)
  | chars => do
    let (type, rest) ← FieldType.read chars
    return (some type, rest)

/-- Reads a whole text as a method descriptor. -/
def parse (source : String) : Except DescriptorFault MethodDescriptor := do
  match source.toList with
  | '(' :: chars =>
    let (parameters, rest) ← readParameters chars.length chars
    let (result, rest) ← readResult rest
    match rest with
    | [] => return { parameters, result }
    | c :: _ => throw (.leftover c source)
  | _ => throw .missingParenthesis

end MethodDescriptor

/-- What stands after the last closing parenthesis: the result part of a method descriptor. -/
def resultDescriptor (descriptor : String) : String :=
  String.ofList (Name.afterLast ')' descriptor.toList)

end ClassInstrument
