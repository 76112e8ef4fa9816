import ClassInstrument.Batch.Fault
import ClassInstrument.Batch.FilePair
import ClassInstrument.Classpath.Hierarchy
import ClassInstrument.Config.Policies
import ClassInstrument.Storage.Update

/-!
# Transforming a batch of files

A batch runs in two passes.  The first one registers every class on the classpath and among the
inputs in a catalog.  The second one transforms the inputs one by one: the policies are applied to a
class, an archive is taken entry by entry, and any other file is copied.  A file that fails does
not stop the others.

The archives and files of a batch are those of a `FileTree`; the actions of the second pass change
it step by step, and a change stays even if a later step of the same file fails.
-/

namespace ClassInstrument

/-- Is a file a class, judging by its name and its first bytes? -/
def isClassFile (name : String) (bytes : Bytes) : Bool :=
  name.endsWith ".class" && ClassFile.magic.isPrefixOf bytes

/-- A batch that is ready to run. -/
structure Batch where
  /-- The files to transform. -/
  pairs : List FilePair
  /-- The elements of the classpath. -/
  elements : List Route
  /-- What is remembered of the classpath. -/
  memory : ClassMemory
  /-- The policies, in the order in which they are applied. -/
  policies : List Policy

namespace Batch

/-- Makes a batch ready: directories are expanded, and the classes that the configuration names are
checked. -/
def build (config : Configuration) (pairs : List FilePair) (elements : List Route)
    (tree : FileTree) : Except ConfigFault Batch := do
  let classpath : Classpath := { tree, elements }
  let policies ← config.policies classpath
  return {
    pairs := pairs.flatMap fun pair => pair.expand tree
    elements
    memory := (classpath.afterAll config.lookups).memory
    policies }

/-! ## Registering classes -/

/-- Actions that fill a catalog; what has been registered stays if a later step fails. -/
abbrev Registering := ExceptT ItemFault (StateM Catalog)

/-- Registers a file that is a class.  One that cannot be read as a class is passed over, since it
fails again when it is transformed. -/
def registerBytes (name : String) (bytes : Bytes) : Registering Unit := do
  if isClassFile name bytes then
    match ClassDecl.parse bytes with
    | .ok decl => modify fun catalog => catalog.register decl
    | .error _ => return ()

/-- Registers the classes in an archive, up to the first entry that cannot be unpacked. -/
def registerArchive (archive : Archive) : Registering Unit := do
  let (entries, fault) := archive.entries
  for entry in entries do
    if !entry.isDirectory then registerBytes entry.name entry.bytes
  match fault with
  | none => return ()
  | some cause => throw (.badArchive cause)

/-- Registers the classes in a file. -/
def registerContent (name : String) (content : FileContent) : Registering Unit := do
  if content.looksLikeArchive then
    match Archive.ofContent content with
    | .error cause => throw (.badArchive cause)
    | .ok archive => registerArchive archive
  else registerBytes name content.toBytes

/-- Registers the classes in the file that a route leads to, or in all files under a directory. -/
def registerRoute (tree : FileTree) (route : Route) : Registering Unit := do
  ((FilePair.inPlace route).expand tree).forM fun pair => do
    match tree.fileAt? pair.input with
    | some content => registerContent pair.input.toText content
    | none => return ()

/-- Registers every class on the classpath and among the inputs. -/
def registerAll (batch : Batch) (tree : FileTree) : Registering Unit := do
  batch.elements.forM (registerRoute tree)
  batch.pairs.forM fun pair => registerRoute tree pair.input

/-! ## Transforming classes -/

/-- What is known when files are transformed. -/
structure Workshop where
  /-- The policies. -/
  policies : List Policy
  /-- The classes of the batch. -/
  catalog : Catalog

namespace Workshop

/-- A class after the policies. -/
def instrument (shop : Workshop) (bytes : Bytes) : Except PolicyFault ClassDecl := do
  let decl ← (ClassDecl.parse bytes : Except Fault ClassDecl)
  Policy.applyAll shop.policies shop.catalog decl

/-- The bytes of a class after the batch. -/
def transformClass (shop : Workshop) (classpath : Classpath) (bytes : Bytes) :
    Except PolicyFault Bytes := do
  let decl ← shop.instrument bytes
  decl.toBytes (shop.catalog.hierarchy classpath)

/-- The classpath after the bytes of a class have been transformed.  The class asks for no more
classes than it has bytes, apart from supertypes. -/
def afterClass (shop : Workshop) (classpath : Classpath) (bytes : Bytes) : Classpath :=
  match shop.instrument bytes with
  | .error _ => classpath
  | .ok decl =>
    classpath.afterUse shop.catalog decl.toBytes (bytes.length + classpath.mentions)

/-- The contents of a file or entry after the batch: a class is transformed, anything else kept. -/
def transformBytes (shop : Workshop) (classpath : Classpath) (name : String) (bytes : Bytes) :
    Except ItemFault Bytes :=
  if isClassFile name bytes then
    (shop.transformClass classpath bytes).mapError fun cause =>
      .within s!"Failed to transform file '{name}'" (.rejected cause)
  else .ok bytes

/-- The classpath after the contents of a file or entry have been transformed. -/
def afterBytes (shop : Workshop) (classpath : Classpath) (name : String) (bytes : Bytes) :
    Classpath :=
  if isClassFile name bytes then shop.afterClass classpath bytes else classpath

/-- An entry of an archive after the batch. -/
def transformEntry (shop : Workshop) (classpath : Classpath) (entry : ArchiveEntry) :
    Except ItemFault ArchiveEntry :=
  if entry.isDirectory then .ok { entry with bytes := [] }
  else
    match shop.transformBytes classpath entry.name entry.bytes with
    | .ok bytes => .ok { entry with bytes }
    | .error cause => .error (.within s!"Failed to process zip entry '{entry.name}'" cause)

/-- An archive after the batch; `location` is what messages call it. -/
def transformArchive (shop : Workshop) (classpath : Classpath) (location : String)
    (archive : Archive) : Except ItemFault (List ArchiveEntry) :=
  let (entries, fault) := archive.entries
  match entries.mapM (shop.transformEntry classpath), fault with
  | .error cause, _ => .error (.within s!"Failed to process zip '{location}'" cause)
  | .ok _, some cause => .error (.badArchive cause)
  | .ok transformed, none => .ok transformed

/-- The classpath after entries of an archive have been transformed, up to the first one that
fails. -/
def afterEntries (shop : Workshop) (classpath : Classpath) : List ArchiveEntry → Classpath
  | [] => classpath
  | entry :: rest =>
    if entry.isDirectory then shop.afterEntries classpath rest
    else
      let after := shop.afterBytes classpath entry.name entry.bytes
      if (shop.transformEntry classpath entry).isOk then shop.afterEntries after rest else after

/-- The classpath after an archive has been transformed, if it could be opened. -/
def afterArchive (shop : Workshop) (classpath : Classpath) (archive : Except ItemFault Archive) :
    Classpath :=
  match archive with
  | .error _ => classpath
  | .ok archive => shop.afterEntries classpath archive.entries.1

end Workshop

/-! ## Transforming files -/

/-- The files of a batch while they are transformed. -/
structure Progress where
  /-- The files. -/
  tree : FileTree
  /-- What is remembered of the classpath. -/
  memory : ClassMemory

/-- Actions on files; what has been changed stays if a later step fails. -/
abbrev Filing := ExceptT ItemFault (StateM Progress)

namespace Filing

/-- A change of the files. -/
def update (act : Updating Unit) (fault : FileFault → ItemFault) : Filing Unit := do
  let progress ← get
  let (result, tree) := act.run progress.tree
  set { progress with tree }
  match result with
  | .ok () => return ()
  | .error cause => throw (fault cause)

/-- Creates the directory for an output, unless it is there. -/
def prepare (directory : Route) : Filing Unit := do
  let tree := (← get).tree
  if !tree.leadsToDirectory directory then
    update (Updating.createDirectories directory) (.noDirectory (tree.locateRoute directory))

/-- The classpath as it is now. -/
def classpath (batch : Batch) : Filing Classpath := do
  let progress ← get
  return { tree := progress.tree, elements := batch.elements, memory := progress.memory }

/-- Remembers what a classpath remembers. -/
def remember (classpath : Classpath) : Filing Unit :=
  modify fun progress => { progress with memory := classpath.memory }

end Filing

/-- The archive in the file that a route leads to. -/
def openArchive (tree : FileTree) (route : Route) : Except ItemFault Archive := do
  let content ← (tree.read route).mapError .refused
  (Archive.ofContent content).mapError .badArchive

/-- Where the archive for an output is put together: next to the output.  What is next to the root of
a tree is outside of the tree. -/
def draft? (tree : FileTree) (output : Route) : Option Route :=
  if output.steps.isEmpty && tree.location != "" then none else some (output.beside ".tmp")

/-- Transforms an archive.  It is put together next to its output and then moved there, so a failed
archive leaves the output as it was. -/
def transformArchive (batch : Batch) (shop : Workshop) (pair : FilePair) : Filing Unit := do
  let draft := draft? (← get).tree pair.output
  draft.forM fun draft => Filing.update (Updating.write draft (.bytes [])) .refused
  let classpath ← Filing.classpath batch
  let archive := openArchive classpath.tree pair.input
  match archive.bind (shop.transformArchive classpath (classpath.tree.describe pair.input)) with
  | .error cause =>
    Filing.remember (shop.afterArchive classpath archive)
    draft.forM fun draft => Filing.update (Updating.remove draft) .refused
    throw cause
  | .ok entries =>
    Filing.remember (shop.afterArchive classpath archive)
    match draft with
    | none => Filing.update (Updating.receive (.archive entries) pair.output) .refused
    | some draft =>
      Filing.update (Updating.write draft (.archive entries)) .refused
      Filing.update (Updating.move draft pair.output) .refused

/-- Transforms a class, or copies any other file that is not transformed in place. -/
def transformPlain (batch : Batch) (shop : Workshop) (pair : FilePair) (content : FileContent) :
    Filing Unit := do
  let classpath ← Filing.classpath batch
  let location := classpath.tree.describe pair.input
  let bytes := content.toBytes
  if isClassFile location bytes then
    Filing.remember (shop.afterClass classpath bytes)
    match shop.transformBytes classpath location bytes with
    | .ok transformed =>
      Filing.update (Updating.write pair.output (.bytes transformed)) .refused
    | .error cause => throw cause
  else if !pair.isInPlace classpath.tree then
    Filing.update (Updating.write pair.output content) .refused

/-- Transforms a file. -/
def transformFile (batch : Batch) (shop : Workshop) (pair : FilePair) : Filing Unit := do
  Filing.prepare pair.output.parent
  match (← get).tree.fileAt? pair.input with
  | none => return ()
  | some content =>
    if content.looksLikeArchive then transformArchive batch shop pair
    else transformPlain batch shop pair content

/-- Transforms files one after the other, and collects what fails behind earlier failures (last
one first). -/
def transformAll (batch : Batch) (shop : Workshop) :
    List FilePair → Progress → List ItemFault → FileTree × List ItemFault
  | [], progress, failures => (progress.tree, failures.reverse)
  | pair :: rest, progress, failures =>
    match (transformFile batch shop pair).run progress with
    | (.ok (), progress) => transformAll batch shop rest progress failures
    | (.error cause, progress) => transformAll batch shop rest progress (cause :: failures)

/-- What a batch leaves behind. -/
structure Outcome where
  /-- The files. -/
  tree : FileTree
  /-- The classes that were registered. -/
  catalog : Catalog
  /-- Why the batch did not succeed, if it did not. -/
  fault : Option BatchFault

/-- Runs a batch. -/
def run (batch : Batch) (tree : FileTree) : Outcome :=
  match (batch.registerAll tree).run Catalog.empty with
  | (.error cause, catalog) => { tree, catalog, fault := some (.early cause) }
  | (.ok (), catalog) =>
    let shop : Workshop := { policies := batch.policies, catalog }
    let (tree, failures) := transformAll batch shop batch.pairs ⟨tree, batch.memory⟩ []
    { tree, catalog, fault := if failures.isEmpty then none else some (.failures failures) }

end Batch

end ClassInstrument
