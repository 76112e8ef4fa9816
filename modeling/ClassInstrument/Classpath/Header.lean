import ClassInstrument.Catalog.Basic

/-!
# Headers of classes

What is read of a class that is found on a classpath, and the headers of a few classes of the language
that are known without anything that holds them.
-/

namespace ClassInstrument

/-- What is read of a class on the classpath. -/
structure ClassHeader where
  /-- The access flags. -/
  access : ClassAccess
  /-- The internal name. -/
  name : String
  /-- The internal name of the superclass. -/
  superName : Option String := some Name.object
  /-- The internal names of the interfaces. -/
  interfaces : List String := []
  /-- The signatures of the methods. -/
  methods : List Signature := []
  /-- The annotations, visible ones first. -/
  annotations : List Annotation := []
deriving Repr

namespace ClassHeader

/-- The header of a class. -/
def ofClass (decl : ClassDecl) : ClassHeader :=
  { access := decl.access
    name := decl.name
    superName := decl.superName
    interfaces := decl.interfaces
    methods := decl.methods.map Signature.ofMethod
    annotations := decl.annotations }

/-- The supertypes of the class and what kind of class it is. -/
def shape (header : ClassHeader) : ClassShape :=
  { superName := header.superName
    interfaces := header.interfaces
    isInterface := header.access.isInterface }

/-- The first annotation with a descriptor. -/
def annotation? (header : ClassHeader) (descriptor : String) : Option Annotation :=
  Annotation.find? descriptor header.annotations

/-- The flags of public classes. -/
def publicClass : ClassAccess := ⟨0x0021⟩

/-- The flags of public interfaces. -/
def publicInterface : ClassAccess := ⟨0x0601⟩

/-- The classes that are known without an element that holds them. -/
def builtin : List ClassHeader :=
  [{ access := publicClass, name := Name.object, superName := none },
    { access := publicClass, name := Name.throwable },
    { access := publicClass, name := Name.string },
    { access := publicClass, name := Name.classObject },
    { access := publicClass, name := "java/lang/Number" },
    { access := publicClass, name := "java/lang/Enum" },
    { access := publicClass, name := "java/lang/Exception", superName := some Name.throwable },
    { access := publicClass, name := "java/lang/Error", superName := some Name.throwable },
    { access := publicClass, name := "java/lang/RuntimeException",
      superName := some "java/lang/Exception" },
    { access := publicInterface, name := Name.annotationType },
    { access := publicInterface, name := "java/lang/Runnable" }]

/-- The header of a class that is known without an element that holds it. -/
def builtin? (name : String) : Option ClassHeader :=
  builtin.find? fun header => header.name == name

end ClassHeader

end ClassInstrument
