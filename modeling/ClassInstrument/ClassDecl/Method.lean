import ClassInstrument.Annotation
import ClassInstrument.Assembly.Basic
import ClassInstrument.Code.Decoding

/-!
# Methods under edit

A method with its names spelled out and its annotations decoded.  Its body stays as it was read
until somebody asks to edit it, so a body that is only looked at is written back byte for byte,
while one that was opened for editing is assembled anew.
-/

namespace ClassInstrument

/-- The body of a method. -/
inductive MethodBody where
  /-- Abstract and native methods have none. -/
  | absent
  /-- The body is still as it was read. -/
  | raw (attr : Attribute)
  /-- The body has been opened for editing. -/
  | edited (body : Body)
deriving DecidableEq, Repr

namespace MethodBody

/-- The body in its editable form. -/
def decode (pool : Pool) : MethodBody → Except Fault (Option Body)
  | absent => return none
  | raw attr => do
    let code ← attr.decode CodeAttribute.name CodeAttribute.read
    return some (← Body.decode code pool)
  | edited body => return some body

/-- The body opened for editing. -/
def openIn (pool : Pool) (body : MethodBody) : Except Fault MethodBody := do
  match ← body.decode pool with
  | none => return absent
  | some body => return edited body

end MethodBody

/-- A method of a class under edit. -/
structure Method where
  /-- The access flags. -/
  access : MethodAccess
  /-- The name. -/
  name : String
  /-- The descriptor. -/
  descriptor : String
  /-- The annotations visible at run time. -/
  visible : List Annotation := []
  /-- The annotations invisible at run time. -/
  invisible : List Annotation := []
  /-- The default, if the method is a property of an annotation interface. -/
  default : Option ElementValue := none
  /-- The body. -/
  body : MethodBody := .absent
  /-- The attributes that are copied as they are. -/
  attributes : List Attribute := []

namespace Method

/-- Does the method have a body? -/
def hasCode (method : Method) : Bool :=
  match method.body with
  | .absent => false
  | _ => true

/-- Has the body been opened for editing? -/
def isEdited (method : Method) : Bool :=
  match method.body with
  | .edited _ => true
  | _ => false

/-- All annotations, visible ones first. -/
def annotations (method : Method) : List Annotation := method.visible ++ method.invisible

/-- What the analysis of the body has to know about the method. -/
def context (method : Method) (owner : String) : MethodContext :=
  { owner, name := method.name, descriptor := method.descriptor, isStatic := method.access.isStatic }

/-- The method with another body. -/
def withBody (method : Method) (body : Body) : Method := { method with body := .edited body }

/-- Takes in one attribute.  Bodies and defaults replace earlier ones, annotations add up. -/
def note (pool : Pool) (method : Method) (attr : Attribute) : Except Fault Method := do
  let name ← pool.utf8 attr.name
  if name = CodeAttribute.name then return { method with body := .raw attr }
  else if name = Annotation.visibleAttribute then
    return { method with visible := method.visible ++ (← Annotation.readList pool attr.info) }
  else if name = Annotation.invisibleAttribute then
    return { method with invisible := method.invisible ++ (← Annotation.readList pool attr.info) }
  else if name = Annotation.defaultAttribute then
    return { method with default := some (← Annotation.readDefault pool attr.info) }
  else return { method with attributes := method.attributes ++ [attr] }

/-- A method read out of a class file. -/
def ofEntry (pool : Pool) (entry : MethodEntry) : Except Fault Method := do
  let name ← pool.utf8 entry.name
  let descriptor ← pool.utf8 entry.descriptor
  entry.attributes.foldlM (note pool) { access := entry.access, name, descriptor }

/-- The attribute that holds the body, if there is one. -/
def bodyAttribute (method : Method) (owner : String) (version : Version) (hierarchy : Hierarchy) :
    Interning (List Attribute) := do
  match method.body with
  | .absent => return []
  | .raw attr => return [attr]
  | .edited body =>
    let code ← body.assemble (method.context owner) version hierarchy
    return [← Attribute.make CodeAttribute.name code.write]

/-- The attribute that holds the default, if there is one. -/
def defaultAttribute (method : Method) : Interning (List Attribute) := do
  match method.default with
  | none => return []
  | some value => return [← Annotation.writeDefault value]

/-- A method as it is written into a class file. -/
def toEntry (method : Method) (owner : String) (version : Version) (hierarchy : Hierarchy) :
    Interning MethodEntry := do
  let body ← method.bodyAttribute owner version hierarchy
  let visible ← Annotation.writeList Annotation.visibleAttribute method.visible
  let invisible ← Annotation.writeList Annotation.invisibleAttribute method.invisible
  let default ← method.defaultAttribute
  return {
    access := method.access
    name := ← Pool.internUtf8 method.name
    descriptor := ← Pool.internUtf8 method.descriptor
    attributes := body ++ method.attributes ++ visible.toList ++ invisible.toList ++ default }

end Method

end ClassInstrument
