import ClassInstrument.Classpath.Header
import ClassInstrument.Storage.Archive.Basic

/-!
# Classpaths

A classpath is an ordered list of directories and archives in which classes are found by name.  The
first element that holds a class counts, and a few classes of the language are known without any
element that holds them.

A classpath remembers what it has been asked for: a class that was found once is not looked for
again, and an archive that was opened once stays open.  So `load` gives the answer to a question, and
`afterAsking` the classpath that has been asked; the two differ from a fresh classpath only if files
have changed in between.
-/

namespace ClassInstrument

/-- What a classpath remembers. -/
structure ClassMemory where
  /-- The headers of the classes that were found, by name. -/
  headers : List (String × ClassHeader) := []
  /-- The archives that were opened, by the place of the element. -/
  archives : List (Nat × Archive) := []

namespace ClassMemory

/-- Remembers the header of a class. -/
def addHeader (memory : ClassMemory) (name : String) (header : ClassHeader) : ClassMemory :=
  { memory with headers := (name, header) :: memory.headers }

/-- Remembers an archive. -/
def addArchive (memory : ClassMemory) (place : Nat) (archive : Archive) : ClassMemory :=
  { memory with archives := (place, archive) :: memory.archives }

/-- The header that is remembered of a class. -/
def header? (memory : ClassMemory) (name : String) : Option ClassHeader :=
  memory.headers.lookup name

/-- A bound on how often what is remembered mentions some class as a supertype. -/
def mentions (memory : ClassMemory) : Nat :=
  memory.headers.foldr (fun entry total => entry.2.interfaces.length + 1 + total) 0 +
    memory.archives.foldr (fun entry total => entry.2.content.bound + total) 0

end ClassMemory

/-- The places where classes are looked for. -/
structure Classpath where
  /-- The files. -/
  tree : FileTree
  /-- The directories and archives, the first one first. -/
  elements : List Route
  /-- What was found before. -/
  memory : ClassMemory := {}

namespace Classpath

/-- A classpath without elements. -/
def empty : Classpath := { tree := FileTree.empty, elements := [] }

/-- Looks for classes; what has been found stays even if something fails later. -/
abbrev Loading := ExceptT Fault (StateM ClassMemory)

/-- The archive in a file, which is the element at a place. -/
def archiveAt (place : Nat) (content : FileContent) : Loading Archive := do
  match (← get).archives.lookup place with
  | some archive => return archive
  | none =>
    match Archive.ofContent content with
    | .error cause => throw (.badArchive cause)
    | .ok archive =>
      modify fun memory => memory.addArchive place archive
      return archive

/-- The bytes of the member of a name of the archive in a file, which is the element at a place. -/
def findInArchive (place : Nat) (content : FileContent) (name : String) : Loading (Option Bytes) := do
  let archive ← archiveAt place content
  match archive.members.find? fun member => member.name == name with
  | none => return none
  | some member =>
    match archive.unpackNow content member with
    | .error cause => throw (.badArchive cause)
    | .ok bytes => return some bytes

/-- The bytes of the file of a name that the element at a place holds.  In a directory, the name may
lead through other directories. -/
def findIn (tree : FileTree) (name : String) (place : Nat) (element : Route) :
    Loading (Option Bytes) :=
  match (tree.place? element).bind tree.node? with
  | none => return none
  | some .directory => return (tree.fileAt? (element.join name)).map FileContent.toBytes
  | some (.file content) => findInArchive place content name

/-- The bytes of the first file of a name that is held by an element, where the first element has a
given place. -/
def find? (tree : FileTree) (name : String) : Nat → List Route → Loading (Option Bytes)
  | _, [] => return none
  | place, element :: rest => do
    match ← findIn tree name place element with
    | some bytes => return some bytes
    | none => find? tree name (place + 1) rest

/-- The header of the class of a name, which is not remembered. -/
def search (classpath : Classpath) (name : String) : Loading ClassHeader := do
  match ← find? classpath.tree (name ++ ".class") 0 classpath.elements with
  | some bytes =>
    let decl ← (ClassDecl.parse bytes : Except Fault ClassDecl)
    return .ofClass decl
  | none =>
    match ClassHeader.builtin? name with
    | some header => return header
    | none => throw (.typeNotFound name)

/-- The header of the class of a name. -/
def ask (classpath : Classpath) (name : String) : Loading ClassHeader := do
  match (← get).header? name with
  | some header => return header
  | none =>
    let header ← classpath.search name
    modify fun memory => memory.addHeader name header
    return header

/-- The header of the class of a name. -/
def load (classpath : Classpath) (name : String) : Except Fault ClassHeader :=
  ((classpath.ask name).run classpath.memory).1

/-- The classpath after it has been asked for the class of a name. -/
def afterAsking (classpath : Classpath) (name : String) : Classpath :=
  { classpath with memory := ((classpath.ask name).run classpath.memory).2 }

/-- The classpath after it has been asked for the classes of some names. -/
def afterAll (classpath : Classpath) (names : List String) : Classpath :=
  names.foldl afterAsking classpath

/-- A bound on how often some class is mentioned as a supertype: each mention takes a byte of some
file or entry, or is remembered, or belongs to a class that is known anyway. -/
def mentions (classpath : Classpath) : Nat :=
  classpath.tree.bound + classpath.memory.mentions + ClassHeader.builtin.length

end Classpath

end ClassInstrument
