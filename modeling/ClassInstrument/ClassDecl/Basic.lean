import ClassInstrument.ClassDecl.Method

/-!
# Classes under edit

A class with its names spelled out, its annotations decoded, and its methods ready to be edited.
Everything else stays as it was read.  The table of constants keeps its layout and only grows, so
whatever stays as it was read keeps its meaning, and a class that nobody edits is usually written
back byte for byte.
-/

namespace ClassInstrument

/-- A class under edit. -/
structure ClassDecl where
  /-- The version of the class file format. -/
  version : Version
  /-- The table of constants. -/
  pool : Pool := Pool.empty
  /-- The access flags. -/
  access : ClassAccess
  /-- The internal name. -/
  name : String
  /-- The internal name of the superclass. -/
  superName : Option String
  /-- The internal names of the interfaces. -/
  interfaces : List String := []
  /-- The fields. -/
  fields : List Field := []
  /-- The methods. -/
  methods : List Method := []
  /-- The annotations visible at run time. -/
  visible : List Annotation := []
  /-- The annotations invisible at run time. -/
  invisible : List Annotation := []
  /-- The attributes that are copied as they are. -/
  attributes : List Attribute := []

namespace ClassDecl

/-- All annotations of the class, visible ones first. -/
def annotations (decl : ClassDecl) : List Annotation := decl.visible ++ decl.invisible

/-- The supertypes of the class and what kind of class it is. -/
def shape (decl : ClassDecl) : ClassShape :=
  { superName := decl.superName
    interfaces := decl.interfaces
    isInterface := decl.access.isInterface }

/-- Takes in one attribute; lists of annotations add up. -/
def note (pool : Pool) (decl : ClassDecl) (attr : Attribute) : Except Fault ClassDecl := do
  let name ← pool.utf8 attr.name
  if name = Annotation.visibleAttribute then
    return { decl with visible := decl.visible ++ (← Annotation.readList pool attr.info) }
  else if name = Annotation.invisibleAttribute then
    return { decl with invisible := decl.invisible ++ (← Annotation.readList pool attr.info) }
  else return { decl with attributes := decl.attributes ++ [attr] }

/-- The editable form of a class. -/
def ofClassFile (file : ClassFile) : Except Fault ClassDecl := do
  let name ← file.pool.className file.thisClass
  let superName ← file.superClass.mapM file.pool.className
  let interfaces ← file.interfaces.mapM file.pool.className
  let decl ← file.attributes.foldlM (note file.pool)
    { version := file.version, pool := file.pool, access := file.access, name, superName, interfaces,
      fields := file.fields }
  return { decl with methods := ← file.methods.mapM (Method.ofEntry file.pool) }

/-- Reads a class file. -/
def parse (bytes : Bytes) : Except Fault ClassDecl := do ofClassFile (← ClassFile.parse bytes)

/-- The constants that a class needs, with everything that refers to them.  The table of the
result is the one of the class before any request. -/
def intern (decl : ClassDecl) (hierarchy : Hierarchy) : Interning ClassFile := do
  let thisClass ← Pool.internClass decl.name
  let superClass ← decl.superName.mapM Pool.internClass
  let interfaces ← decl.interfaces.mapM Pool.internClass
  let methods ← decl.methods.mapM fun method => method.toEntry decl.name decl.version hierarchy
  let visible ← Annotation.writeList Annotation.visibleAttribute decl.visible
  let invisible ← Annotation.writeList Annotation.invisibleAttribute decl.invisible
  return {
    version := decl.version
    pool := decl.pool
    access := decl.access
    thisClass, superClass, interfaces
    fields := decl.fields
    methods
    attributes := decl.attributes ++ visible.toList ++ invisible.toList }

/-- The flat form of a class, with the edited bodies assembled. -/
def toClassFile (decl : ClassDecl) (hierarchy : Hierarchy) : Except Fault ClassFile := do
  let (file, pool) ← (decl.intern hierarchy).finish decl.pool
  return { file with pool }

/-- The written form of a class. -/
def toBytes (decl : ClassDecl) (hierarchy : Hierarchy) : Except Fault Bytes := do
  return (← decl.toClassFile hierarchy).write

/-! ## Single methods -/

/-- The method at a position. -/
def method? (decl : ClassDecl) (position : Nat) : Option Method := decl.methods[position]?

/-- Puts another method at a position. -/
def setMethod (decl : ClassDecl) (position : Nat) (method : Method) : ClassDecl :=
  { decl with methods := decl.methods.set position method }

/-- Adds a method behind the others. -/
def addMethod (decl : ClassDecl) (method : Method) : ClassDecl :=
  { decl with methods := decl.methods ++ [method] }

/-- A copy of the body of a method in its editable form; the method stays as it is. -/
def decodeBody (decl : ClassDecl) (method : Method) : Except Fault (Option Body) :=
  method.body.decode decl.pool

/-- Opens the body of a method for editing. -/
def openBody (decl : ClassDecl) (method : Method) : Except Fault Method := do
  return { method with body := ← method.body.openIn decl.pool }

end ClassDecl

end ClassInstrument
