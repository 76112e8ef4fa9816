import ClassInstrument.Batch.Basic
import ClassInstrument.Proofs.Actions

/-!
# The classes that a batch knows

Before anything is transformed, the files of a batch are searched for classes: those on the classpath, and
then the inputs.  Each file gives the classes in it that can be read, in order; a class that cannot be read
is passed over.  Only an archive that cannot be read, or not to its end, stops the search.
-/

namespace ClassInstrument

open Acting

namespace Batch

/-! ## What is found in a file -/

/-- The class in a file or entry, if it is one that can be read. -/
def classOf? (name : String) (bytes : Bytes) : Option ClassDecl :=
  if isClassFile name bytes then (ClassDecl.parse bytes).toOption else none

/-- The class in an entry of an archive, if it is one that can be read. -/
def classIn? (entry : ArchiveEntry) : Option ClassDecl :=
  if entry.isDirectory then none else classOf? entry.name entry.bytes

/-- The classes in a file, up to the first entry that cannot be unpacked. -/
def classesOf (name : String) (content : FileContent) : List ClassDecl :=
  if content.looksLikeArchive then
    match Archive.ofContent content with
    | .error _ => []
    | .ok archive => archive.entries.1.filterMap classIn?
  else (classOf? name content.toBytes).toList

/-- Why an archive cannot be read to its end, if it cannot. -/
def damage? (content : FileContent) : Option ArchiveFault :=
  if content.looksLikeArchive then
    match Archive.ofContent content with
    | .error cause => some cause
    | .ok archive => archive.entries.2
  else none

/-- The files that a route leads to, or that are under a directory, with the texts of the routes to them. -/
def filesAt (tree : FileTree) (route : Route) : List (String × FileContent) :=
  ((FilePair.inPlace route).expand tree).filterMap fun pair =>
    (tree.fileAt? pair.input).map fun content => (pair.input.toText, content)

/-- The files that are searched for classes. -/
def sources (batch : Batch) (tree : FileTree) : List (String × FileContent) :=
  (batch.elements ++ batch.pairs.map (·.input)).flatMap (filesAt tree)

/-- The classes of a batch that can be read. -/
def classes (batch : Batch) (tree : FileTree) : List ClassDecl :=
  (batch.sources tree).flatMap fun source => classesOf source.1 source.2

/-- What the search of some files comes to: it stops at a damaged archive. -/
def search : List (String × FileContent) → Catalog → Except ItemFault Unit × Catalog
  | [], catalog => (.ok (), catalog)
  | source :: rest, catalog =>
    match damage? source.2 with
    | none => search rest ((classesOf source.1 source.2).foldl Catalog.register catalog)
    | some cause => (.error (.badArchive cause), (classesOf source.1 source.2).foldl Catalog.register catalog)

/-! ## The search -/

/-- A search of more files goes on where the search of the first ones ends. -/
theorem search_append (sources more : List (String × FileContent)) (catalog : Catalog) :
    search (sources ++ more) catalog =
      match search sources catalog with
      | (.ok (), left) => search more left
      | (.error fault, left) => (.error fault, left) := by
  induction sources generalizing catalog with
  | nil => rfl
  | cons source rest ih =>
    rw [List.cons_append, search, search]
    cases damage? source.2 with
    | none => exact ih _
    | some cause => rfl

/-- A class is registered if it can be read. -/
theorem run_registerBytes (name : String) (bytes : Bytes) (catalog : Catalog) :
    (registerBytes name bytes).run catalog =
      (.ok (), (classOf? name bytes).toList.foldl Catalog.register catalog) := by
  rw [registerBytes, classOf?]
  split
  · cases ClassDecl.parse bytes <;> rfl
  · rfl

/-- The classes in an archive are registered entry by entry. -/
theorem run_registerArchive (archive : Archive) (catalog : Catalog) :
    (registerArchive archive).run catalog =
      (match archive.entries.2 with
        | none => .ok ()
        | some cause => .error (.badArchive cause),
        (archive.entries.1.filterMap classIn?).foldl Catalog.register catalog) := by
  have hentries (entries : List ArchiveEntry) (catalog : Catalog) :
      (forIn entries PUnit.unit fun entry _ => do
        if !entry.isDirectory then registerBytes entry.name entry.bytes
        return ForInStep.yield PUnit.unit : Registering PUnit).run catalog =
      (.ok (), (entries.filterMap classIn?).foldl Catalog.register catalog) := by
    induction entries generalizing catalog with
    | nil => rfl
    | cons entry rest ih =>
      rw [List.forIn_cons, List.filterMap_cons, run_bind, classIn?]
      cases entry.isDirectory with
      | true => exact ih catalog
      | false =>
        simp only [Bool.not_false, if_true, Bool.false_eq_true, if_false]
        rw [run_bind, run_registerBytes]
        dsimp only
        rw [run_pure]
        dsimp only
        rw [ih]
        cases classOf? entry.name entry.bytes <;> rfl
  rw [registerArchive]
  dsimp only
  rw [run_bind, hentries]
  cases archive.entries.2 <;> rfl

/-- A file is searched on its own. -/
theorem run_registerContent (name : String) (content : FileContent) (catalog : Catalog) :
    (registerContent name content).run catalog = search [(name, content)] catalog := by
  rw [registerContent, search, damage?, classesOf]
  split
  · cases Archive.ofContent content with
    | error cause => rfl
    | ok archive =>
      dsimp only
      rw [run_registerArchive]
      cases archive.entries.2 <;> rfl
  · exact run_registerBytes name _ catalog

/-- Searches one after the other are one search. -/
theorem run_forM_search {α : Type} {act : α → Registering Unit} {found : α → List (String × FileContent)}
    (h : ∀ item catalog, (act item).run catalog = search (found item) catalog) (items : List α)
    (catalog : Catalog) : (items.forM act).run catalog = search (items.flatMap found) catalog := by
  induction items generalizing catalog with
  | nil => rfl
  | cons item rest ih =>
    rw [List.flatMap_cons, search_append, ← h]
    change (act item >>= fun _ => rest.forM act).run catalog = _
    rw [run_bind]
    rcases (act item).run catalog with ⟨_ | ⟨⟩, left⟩
    · rfl
    · exact ih left

/-- What a route leads to is searched file by file. -/
theorem run_registerRoute (tree : FileTree) (route : Route) (catalog : Catalog) :
    (registerRoute tree route).run catalog = search (filesAt tree route) catalog := by
  rw [filesAt, List.filterMap_eq_flatMap_toList, registerRoute]
  refine run_forM_search (fun pair catalog => ?_) _ catalog
  cases tree.fileAt? pair.input with
  | none => rfl
  | some content => exact run_registerContent _ content catalog

/-- The classpath is searched before the inputs. -/
theorem run_registerAll (batch : Batch) (tree : FileTree) :
    (batch.registerAll tree).run Catalog.empty = search (batch.sources tree) Catalog.empty := by
  rw [registerAll, run_bind, run_forM_search (run_registerRoute tree), sources, List.flatMap_append,
    search_append, List.flatMap_map]
  rcases search (batch.elements.flatMap (filesAt tree)) Catalog.empty with ⟨_ | ⟨⟩, left⟩
  · rfl
  · exact run_forM_search (fun pair => run_registerRoute tree pair.input) batch.pairs left

/-- A search fails exactly if some archive is damaged. -/
theorem search_fst_eq_error (sources : List (String × FileContent)) (catalog : Catalog) :
    (∃ fault, (search sources catalog).1 = .error fault) ↔ ∃ source ∈ sources, (damage? source.2).isSome := by
  induction sources generalizing catalog with
  | nil => simp [search]
  | cons source rest ih =>
    rw [search, List.exists_mem_cons_iff]
    cases damage? source.2 with
    | none => simpa using ih _
    | some cause => simp

/-- Without damaged archives, all classes that can be read are registered. -/
theorem search_eq (sources : List (String × FileContent)) (catalog : Catalog)
    (h : ∀ source ∈ sources, damage? source.2 = none) :
    search sources catalog =
      (.ok (), (sources.flatMap fun source => classesOf source.1 source.2).foldl Catalog.register catalog) := by
  induction sources generalizing catalog with
  | nil => rfl
  | cons source rest ih =>
    obtain ⟨hsource, hrest⟩ := List.forall_mem_cons.mp h
    rw [search, hsource, List.flatMap_cons, List.foldl_append]
    exact ih _ hrest

end Batch

end ClassInstrument
