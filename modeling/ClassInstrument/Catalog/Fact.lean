import ClassInstrument.ClassDecl.Basic
import ClassInstrument.NameTable

/-!
# Facts about classes

What a catalog keeps of a class: its supertypes, its annotations, and the signatures, annotations
and defaults of its methods.  Of several annotations with one descriptor only the first counts, and
of several values given to one property only the last.
-/

namespace ClassInstrument

/-- The name, descriptor and access of a method: enough to find it again in other classes. -/
structure Signature where
  /-- The name. -/
  name : String
  /-- The descriptor. -/
  descriptor : String
  /-- The access flags. -/
  access : MethodAccess
deriving DecidableEq, Repr

namespace Signature

/-- The signature of a method. -/
def ofMethod (method : Method) : Signature :=
  { name := method.name, descriptor := method.descriptor, access := method.access }

/-- Do two methods occupy the same override slot?  They need the same name and descriptor, and must
agree on being private and on being static. -/
def sameSlot (left right : Signature) : Bool :=
  left.name == right.name && left.descriptor == right.descriptor &&
    left.access.overrideBits == right.access.overrideBits

/-- A signature as it is shown. -/
def describe (signature : Signature) : String := signature.name ++ signature.descriptor

end Signature

namespace Annotation

/-- The annotation with its properties by name, each with its last value. -/
def tabled (mark : Annotation) : Annotation :=
  { mark with values := NameTable.ofList mark.values }

/-- The first annotation with a descriptor. -/
def find? (descriptor : String) (annotations : List Annotation) : Option Annotation :=
  List.find? (fun mark => mark.descriptor == descriptor) annotations

/-- The annotations of a list without those whose descriptor has come before. -/
def firstOfEach (annotations : List Annotation) : List Annotation :=
  annotations.foldl
    (fun kept mark =>
      match find? mark.descriptor kept with
      | some _ => kept
      | none => kept ++ [mark.tabled])
    []

end Annotation

/-- What is known about a method. -/
structure MethodFact where
  /-- The name, descriptor and access. -/
  signature : Signature
  /-- The annotations. -/
  annotations : List Annotation
  /-- The default, if the method is a property of an annotation interface. -/
  default : Option ElementValue
deriving Repr

namespace MethodFact

/-- The facts about a method. -/
def ofMethod (method : Method) : MethodFact :=
  { signature := Signature.ofMethod method
    annotations := Annotation.firstOfEach method.annotations
    default := method.default }

/-- The annotation with a descriptor. -/
def annotation? (fact : MethodFact) (descriptor : String) : Option Annotation :=
  Annotation.find? descriptor fact.annotations

/-- The descriptor of the result, `V` for none. -/
def resultDescriptor (fact : MethodFact) : String :=
  ClassInstrument.resultDescriptor fact.signature.descriptor

end MethodFact

/-- What is known about a class. -/
structure ClassFact where
  /-- The access flags. -/
  access : ClassAccess
  /-- The internal name. -/
  name : String
  /-- The internal name of the superclass. -/
  superName : Option String
  /-- The internal names of the interfaces. -/
  interfaces : List String
  /-- The annotations. -/
  annotations : List Annotation
  /-- The methods. -/
  methods : List MethodFact
deriving Repr

namespace ClassFact

/-- The facts about a class. -/
def ofClass (decl : ClassDecl) : ClassFact :=
  { access := decl.access
    name := decl.name
    superName := decl.superName
    interfaces := decl.interfaces
    annotations := Annotation.firstOfEach decl.annotations
    methods := decl.methods.map MethodFact.ofMethod }

/-- The supertypes of the class and what kind of class it is. -/
def shape (fact : ClassFact) : ClassShape :=
  { superName := fact.superName
    interfaces := fact.interfaces
    isInterface := fact.access.isInterface }

/-- The first method in the override slot of a signature. -/
def method? (fact : ClassFact) (signature : Signature) : Option MethodFact :=
  fact.methods.find? fun method => signature.sameSlot method.signature

/-- The annotation with a descriptor. -/
def annotation? (fact : ClassFact) (descriptor : String) : Option Annotation :=
  Annotation.find? descriptor fact.annotations

end ClassFact

end ClassInstrument
