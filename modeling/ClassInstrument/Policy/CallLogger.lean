import ClassInstrument.Policy.Editing
import ClassInstrument.Policy.Fault

/-!
# Logging calls

A method with the marker annotation starts by telling a logger its name, the description that the
annotation gives, and a hash that identifies the method.
-/

namespace ClassInstrument

/-- Logging of calls. -/
structure CallLogger where
  /-- The descriptor of the marker annotation. -/
  marker : String
  /-- The internal name of the logger; without one, markers come off and nothing is logged. -/
  logger : Option String := none
  /-- The packages whose classes are left alone, as java names. -/
  ignoredPackages : List String := []
deriving Repr

namespace CallLogger

/-- Is told about every call. -/
def logCall : Callback :=
  ⟨"logCall", "(Ljava/lang/String;Ljava/lang/String;Ljava/lang/String;)V"⟩

/-- The property of the annotation that is passed on. -/
def description : String := "description"

/-- One step of the 32-bit FNV-1a hash. -/
def hashStep (hash : UInt32) (byte : UInt8) : UInt32 := (hash ^^^ byte.toUInt32) * 0x01000193

/-- The 32-bit FNV-1a hash of a byte string. -/
def hashBytes (bytes : Bytes) : UInt32 := bytes.foldl hashStep 0x811C9DC5

/-- The hash that identifies a method, in hexadecimal digits without leading zeros. -/
def methodHash (owner name descriptor : String) : String :=
  Quoted.hex (hashBytes (owner ++ name ++ descriptor).toUTF8.data.toList).toNat

/-- Is a name the one of the description, whatever the case of its ASCII letters? -/
def isDescription (name : String) : Bool :=
  name.toList.map Char.toLower == description.toList

/-- The description that an annotation gives. -/
def description? (mark : Annotation) : Option String :=
  (mark.values.find? fun entry => isDescription entry.1).bind fun entry => entry.2.text?

/-- The instructions that tell a logger about a call. -/
def logEntry (logger owner : String) (method : Method) (mark : Annotation) :
    List Instruction :=
  [.pushString method.name,
    match description? mark with
    | some text => .pushString text
    | none => .plain Opcode.aconstNull,
    .pushString (methodHash owner method.name method.descriptor),
    logCall.call logger]

/-- Treats a method. -/
def applyToMethod (policy : CallLogger) (decl : ClassDecl) (method : Method) :
    Except Fault Method := do
  let (found, marks) := method.marks.stripFirst policy.marker
  let method := method.withMarks marks
  match found, policy.logger with
  | some mark, some logger =>
    match ← decl.decodeBody method with
    | some body => return method.withBody (body.insertAt 0 (logEntry logger decl.name method mark))
    | none => return method
  | _, _ => return method

/-- Treats a class. -/
def apply (policy : CallLogger) (decl : ClassDecl) : Except PolicyFault ClassDecl := do
  let methods ← decl.methods.mapM fun method =>
    (policy.applyToMethod decl method : Except PolicyFault Method)
  return { decl with methods }

end CallLogger

end ClassInstrument
