import ClassInstrument.Classpath.Hierarchy
import ClassInstrument.Proofs.Actions
import ClassInstrument.Proofs.Hierarchy.Supertypes
import ClassInstrument.Proofs.Outcome

/-!
# What a classpath can answer

A question about a class is answered out of the memory of the classpath, out of one of its files, or with
one of the classes that are always known.  So only finitely many headers can ever be an answer, although
infinitely many names may lead to a class through the directories of a path; and whatever can go wrong
on the way, every question comes to an end.

The hierarchy of a catalog over a classpath therefore mentions finitely many supertypes.
-/

namespace ClassInstrument

open Acting Outcome

/-! ## Reading classes ends -/

section

variable {pool : Pool}

/-- A reader never goes on for ever. -/
def PoolReader.Ends {α : Type} (reader : PoolReader α) : Prop :=
  ∀ bytes, Avoids Fault.IsEndless (reader bytes)

namespace PoolReader

theorem Ends.pure {α : Type} (value : α) : Ends (Pure.pure value) := fun _ => avoids_pure _

theorem Ends.bind {α β : Type} {reader : PoolReader α} {next : α → PoolReader β} (h : reader.Ends)
    (hnext : ∀ value, (next value).Ends) : (reader >>= next).Ends :=
  fun bytes => (h bytes).bind fun read => hnext read.1 read.2

theorem Ends.lift {α : Type} {action : Except Fault α} (h : Avoids Fault.IsEndless action) :
    Ends (liftM action) :=
  fun _ => Avoids.bind h fun _ => avoids_pure _

theorem Ends.ofReader {α : Type} (reader : Reader α) : (PoolReader.ofReader reader).Ends := by
  intro bytes
  unfold PoolReader.ofReader
  cases reader bytes <;> simp [Fault.isEndless]

theorem Ends.many {α : Type} {reader : PoolReader α} (h : reader.Ends) (count : Nat) :
    Ends (Reader.many reader count) := by
  unfold Reader.many
  generalize ([] : List α) = done
  induction count generalizing done with
  | zero => exact .pure _
  | succ count ih => exact h.bind fun value => ih (value :: done)

end PoolReader

namespace Pool

theorem avoids_get (index : PoolIndex) : Avoids Fault.IsEndless (pool.get index) := by
  unfold get
  split <;> simp [Fault.isEndless]

theorem avoids_utf8 (index : PoolIndex) : Avoids Fault.IsEndless (pool.utf8 index) := by
  refine (avoids_get index).bind fun constant => ?_
  split <;> simp [Fault.isEndless]

theorem avoids_className (index : PoolIndex) : Avoids Fault.IsEndless (pool.className index) := by
  refine (avoids_get index).bind fun constant => ?_
  split
  · exact avoids_utf8 _
  · simp [Fault.isEndless]

end Pool

theorem PoolReader.ends_utf8 : (PoolReader.utf8 pool).Ends :=
  (Ends.ofReader _).bind fun index => .lift (Pool.avoids_utf8 index)

theorem PoolReader.ends_constant : (PoolReader.constant pool).Ends :=
  (Ends.ofReader _).bind fun index => .lift (Pool.avoids_get index)

theorem PoolReader.avoids_whole {α : Type} {reader : PoolReader α} (h : reader.Ends) (name : String)
    (info : Bytes) : Avoids Fault.IsEndless (PoolReader.whole name reader info) := by
  refine (h info).bind fun read => ?_
  split <;> simp [Fault.isEndless]

/-- A property is read to its end if its value is. -/
theorem ElementValue.ends_readProperties {readValue : PoolReader ElementValue} (h : readValue.Ends) :
    (readProperties pool readValue).Ends :=
  (PoolReader.Ends.ofReader _).bind fun _ =>
    (PoolReader.ends_utf8.bind fun _ => h.bind fun _ => .pure _).many _

/-- A value that does not nest is read to its end. -/
theorem ElementValue.ends_readFlat (tag : UInt8) : (readFlat pool tag).Ends := by
  have hthrow : ∀ name, PoolReader.Ends (throw (.malformedAttribute name) : PoolReader ElementValue) :=
    fun _ _ => by simp [throw, throwThe, MonadExceptOf.throw, StateT.lift, Fault.isEndless]
  unfold readFlat
  split
  · refine PoolReader.ends_constant.bind fun constant => ?_
    split
    exacts [.pure _, hthrow _]
  · split
    case h_4 | h_6 => exact PoolReader.ends_utf8.bind fun _ => .pure _
    case h_5 => exact PoolReader.ends_utf8.bind fun _ => PoolReader.ends_utf8.bind fun _ => .pure _
    case h_7 => exact hthrow _
    all_goals
      refine PoolReader.ends_constant.bind fun constant => ?_
      split
      exacts [.pure _, hthrow _]

/-- A value is read to its end. -/
theorem ElementValue.ends_read (depth : Nat) : (ElementValue.read pool depth).Ends := by
  induction depth with
  | zero => exact fun _ => by simp [ElementValue.read, throw, throwThe, MonadExceptOf.throw, StateT.lift, Fault.isEndless]
  | succ depth ih =>
    refine (PoolReader.Ends.ofReader _).bind fun tag => ?_
    split
    · exact PoolReader.ends_utf8.bind fun _ => (ends_readProperties ih).bind fun _ => .pure _
    · exact (PoolReader.Ends.ofReader _).bind fun _ => (ih.many _).bind fun _ => .pure _
    · exact ends_readFlat _

/-- A list of annotations is read to its end. -/
theorem Annotation.avoids_readList (info : Bytes) : Avoids Fault.IsEndless (readList pool info) :=
  PoolReader.avoids_whole ((PoolReader.Ends.ofReader _).bind fun _ => (PoolReader.ends_utf8.bind fun _ =>
    (ElementValue.ends_readProperties (ElementValue.ends_read _)).bind fun _ => .pure _).many _) _ info

/-- A default value is read to its end. -/
theorem Annotation.avoids_readDefault (info : Bytes) : Avoids Fault.IsEndless (readDefault pool info) :=
  PoolReader.avoids_whole (ElementValue.ends_read _) _ info

/-- A method is read to its end. -/
theorem Method.avoids_ofEntry (entry : MethodEntry) : Avoids Fault.IsEndless (ofEntry pool entry) := by
  refine (Pool.avoids_utf8 _).bind fun name => (Pool.avoids_utf8 _).bind fun descriptor => ?_
  refine Avoids.foldlM (fun method attr _ => (Pool.avoids_utf8 _).bind fun attrName => ?_) _
  split
  · exact avoids_pure _
  split
  · exact ( Annotation.avoids_readList _).bind fun _ => avoids_pure _
  split
  · exact ( Annotation.avoids_readList _).bind fun _ => avoids_pure _
  split
  · exact ( Annotation.avoids_readDefault _).bind fun _ => avoids_pure _
  · exact avoids_pure _

/-- A class is read to its end. -/
theorem ClassDecl.avoids_parse (bytes : Bytes) : Avoids Fault.IsEndless (parse bytes) := by
  have hfile : Avoids Fault.IsEndless (ClassFile.parse bytes) := by
    unfold ClassFile.parse
    dsimp only
    split
    · simp [Fault.isEndless]
    split
    · simp [Fault.isEndless]
    split <;> simp [Fault.isEndless]
  refine hfile.bind fun file => (Pool.avoids_className _).bind fun name => ?_
  refine Avoids.bind ?_ fun superName => ?_
  · cases file.superClass with
    | none => exact avoids_pure _
    | some index => exact (Pool.avoids_className _).bind fun _ => avoids_pure _
  refine (Avoids.mapM fun index _ => Pool.avoids_className index).bind fun interfaces => ?_
  refine Avoids.bind (Avoids.foldlM (fun decl attr _ => (Pool.avoids_utf8 _).bind fun attrName => ?_) _)
    fun decl => (Avoids.mapM fun entry _ => Method.avoids_ofEntry entry).bind fun _ => avoids_pure _
  split
  · exact ( Annotation.avoids_readList _).bind fun _ => avoids_pure _
  split
  · exact ( Annotation.avoids_readList _).bind fun _ => avoids_pure _
  · exact avoids_pure _

end

/-! ## Where headers come from -/

namespace FileTree

/-- What the files of a tree hold. -/
def contents (tree : FileTree) : List FileContent :=
  tree.nodes.filterMap fun entry =>
    match entry.2 with
    | .file content => some content
    | .directory => none

/-- What a file holds is held by some file of the tree. -/
theorem mem_contents {tree : FileTree} {path : Path} {content : FileContent}
    (h : tree.node? path = some (.file content)) : content ∈ tree.contents := by
  unfold node? at h
  split at h
  · simp at h
  · exact List.mem_filterMap.mpr ⟨(path, .file content), Outcome.mem_of_lookup h, rfl⟩

end FileTree

namespace Classpath

/-- The archives that a classpath may look into. -/
def archives (classpath : Classpath) : List Archive :=
  classpath.memory.archives.map Prod.snd ++
    classpath.tree.contents.filterMap fun content => (Archive.ofContent content).toOption

/-- The byte strings that a classpath may find. -/
def findings (classpath : Classpath) : List Bytes :=
  classpath.tree.contents.map FileContent.toBytes ++
    classpath.archives.flatMap fun archive => classpath.tree.contents.flatMap fun now =>
      archive.members.filterMap fun member => (archive.unpackNow now member).toOption

/-- The headers that a classpath may answer with. -/
def headers (classpath : Classpath) : List ClassHeader :=
  classpath.memory.headers.map Prod.snd ++
    (classpath.findings.filterMap fun bytes => (ClassDecl.parse bytes).toOption.map ClassHeader.ofClass) ++
    ClassHeader.builtin

/-- Whatever a classpath remembers while it answers a question can be an answer as well. -/
structure Remembers (classpath : Classpath) (memory : ClassMemory) : Prop where
  headers : ∀ entry ∈ memory.headers, entry.2 ∈ classpath.headers
  archives : ∀ entry ∈ memory.archives, entry.2 ∈ classpath.archives

variable {classpath : Classpath} {content : FileContent}

/-- An archive that is opened is one of those that may be. -/
theorem ensures_archiveAt (place : Nat) (hcontent : content ∈ classpath.tree.contents) :
    Ensures classpath.Remembers (· ∈ classpath.archives) (fun fault => ¬ fault.IsEndless)
      (archiveAt place content) := by
  refine Ensures.get.bind fun memory hmemory => ?_
  split
  · next archive hlookup => exact .pure (hmemory.archives _ (Outcome.mem_of_lookup hlookup))
  · split
    · exact .throw (by simp [Fault.isEndless])
    · next archive hopened =>
      have hmem : archive ∈ classpath.archives :=
        List.mem_append_right _ (List.mem_filterMap.mpr ⟨content, hcontent, by rw [hopened]; rfl⟩)
      refine Ensures.bind (.changes fun state hstate => ⟨hstate.headers, ?_⟩) fun _ _ => .pure hmem
      rintro entry (_ | ⟨_, hentry⟩)
      exacts [hmem, hstate.archives entry hentry]

/-- What is found in an archive is one of the possible findings. -/
theorem ensures_findInArchive (place : Nat) (hcontent : content ∈ classpath.tree.contents) (name : String) :
    Ensures classpath.Remembers (fun found => ∀ bytes ∈ found, bytes ∈ classpath.findings)
      (fun fault => ¬ fault.IsEndless) (findInArchive place content name) := by
  refine (ensures_archiveAt place hcontent).bind fun archive harchive => ?_
  split
  · exact .pure (by simp)
  · next member hmember =>
    split
    · exact .throw (by simp [Fault.isEndless])
    · next bytes hunpacked =>
      refine .pure fun found hfound => ?_
      obtain rfl := Option.some.inj hfound
      refine List.mem_append_right _ (List.mem_flatMap.mpr ⟨archive, harchive, List.mem_flatMap.mpr
        ⟨content, hcontent, List.mem_filterMap.mpr ⟨member, List.mem_of_find?_eq_some hmember, ?_⟩⟩⟩)
      rw [hunpacked]
      rfl

/-- What is found in an element is one of the possible findings. -/
theorem ensures_findIn (name : String) (place : Nat) (element : Route) :
    Ensures classpath.Remembers (fun found => ∀ bytes ∈ found, bytes ∈ classpath.findings)
      (fun fault => ¬ fault.IsEndless) (findIn classpath.tree name place element) := by
  unfold findIn
  split
  · exact .pure (by simp)
  · refine .pure fun bytes hbytes => ?_
    obtain ⟨content, hcontent, rfl⟩ := Option.map_eq_some_iff.mp hbytes
    refine List.mem_append_left _ (List.mem_map_of_mem ?_)
    obtain ⟨path, -, hfile⟩ := Option.bind_eq_some_iff.mp hcontent
    unfold FileTree.file? at hfile
    split at hfile
    · next hnode =>
      obtain rfl := Option.some.inj hfile
      exact FileTree.mem_contents hnode
    · simp at hfile
  · next content hnode =>
    obtain ⟨path, -, hpath⟩ := Option.bind_eq_some_iff.mp hnode
    exact ensures_findInArchive place (FileTree.mem_contents hpath) name

/-- What is found in a list of elements is one of the possible findings. -/
theorem ensures_find? (name : String) (place : Nat) (elements : List Route) :
    Ensures classpath.Remembers (fun found => ∀ bytes ∈ found, bytes ∈ classpath.findings)
      (fun fault => ¬ fault.IsEndless) (find? classpath.tree name place elements) := by
  induction elements generalizing place with
  | nil => exact .pure (by simp)
  | cons element rest ih =>
    refine (ensures_findIn name place element).bind fun found hfound => ?_
    split
    · exact .pure hfound
    · exact ih (place + 1)

/-- A header that is searched for is one of the possible ones. -/
theorem ensures_search (name : String) :
    Ensures classpath.Remembers (· ∈ classpath.headers) (fun fault => ¬ fault.IsEndless)
      (classpath.search name) := by
  refine (ensures_find? _ 0 _).bind fun found hfound => ?_
  split
  · next bytes =>
    refine Ensures.bind (@Ensures.lift _ _ _ _ (fun decl => ClassDecl.parse bytes = .ok decl) _ _ (fun _ h => h)
      (ClassDecl.avoids_parse bytes)) fun decl hdecl => .pure ?_
    refine List.mem_append_left _ (List.mem_append_right _ (List.mem_filterMap.mpr
      ⟨bytes, hfound bytes rfl, ?_⟩))
    rw [hdecl]
    rfl
  · split
    · next header hbuiltin =>
      exact .pure (List.mem_append_right _ (List.mem_of_find?_eq_some hbuiltin))
    · exact .throw (by simp [Fault.isEndless])

/-- The answer to a question about a class is one of the possible headers. -/
theorem ensures_ask (name : String) :
    Ensures classpath.Remembers (· ∈ classpath.headers) (fun fault => ¬ fault.IsEndless)
      (classpath.ask name) := by
  refine Ensures.get.bind fun memory hmemory => ?_
  split
  · next header hremembered => exact .pure (hmemory.headers _ (Outcome.mem_of_lookup hremembered))
  · refine (ensures_search name).bind fun header hheader =>
      Ensures.bind (.changes fun state hstate => ⟨?_, hstate.archives⟩) fun _ _ => .pure hheader
    rintro entry (_ | ⟨_, hentry⟩)
    exacts [hheader, hstate.headers entry hentry]

/-- What a classpath remembers can be an answer. -/
theorem remembers_self : classpath.Remembers classpath.memory :=
  ⟨fun _ hentry => List.mem_append_left _ (List.mem_append_left _ (List.mem_map_of_mem hentry)),
    fun _ hentry => List.mem_append_left _ (List.mem_map_of_mem hentry)⟩

/-- What a classpath answers is one of the headers that it may answer with. -/
theorem load_mem {name : String} {header : ClassHeader} (h : classpath.load name = .ok header) :
    header ∈ classpath.headers := by
  have hask := (ensures_ask name classpath.memory remembers_self).2
  unfold load at h
  rwa [h] at hask

/-- A question to a classpath ends. -/
theorem avoids_load (name : String) : Avoids Fault.IsEndless (classpath.load name) := by
  intro fault h
  have hask := (ensures_ask name classpath.memory remembers_self).2
  unfold load at h
  rwa [h] at hask

end Classpath

/-! ## The hierarchy of a catalog -/

namespace Catalog

variable {catalog : Catalog} {classpath : Classpath} {name super : String}

/-- The shapes that a catalog in front of a classpath may answer with. -/
def shapes (catalog : Catalog) (classpath : Classpath) : List ClassShape :=
  catalog.facts.map ClassFact.shape ++ classpath.headers.map ClassHeader.shape

/-- What the hierarchy of a catalog answers is one of the shapes that it may answer with. -/
theorem shape_mem {shape : ClassShape} (h : (catalog.hierarchy classpath).shape name = .ok shape) :
    shape ∈ catalog.shapes classpath := by
  unfold hierarchy at h
  dsimp only at h
  split at h
  · next fact hfact =>
    obtain rfl := Except.ok.inj h
    exact List.mem_append_left _ (List.mem_map_of_mem (List.mem_of_find?_eq_some hfact))
  · obtain ⟨header, hheader, h⟩ := bind_eq_ok.mp h
    obtain rfl := Except.ok.inj h
    exact List.mem_append_right _ (List.mem_map_of_mem (Classpath.load_mem hheader))

/-- A question about a class ends, with an answer or without one. -/
theorem avoids_shape (name : String) :
    Avoids Fault.IsEndless ((catalog.hierarchy classpath).shape name) := by
  unfold hierarchy
  dsimp only
  split
  · exact avoids_pure _
  · exact (Classpath.avoids_load name).bind fun _ => avoids_pure _

/-- The supertypes that the classes of a catalog and a classpath mention are finitely many. -/
theorem finite_mentioned :
    {super | ∃ name, (catalog.hierarchy classpath).Mentions name super}.Finite := by
  refine (List.finite_toSet ((catalog.shapes classpath).flatMap ClassShape.supertypes)).subset ?_
  rintro super ⟨name, shape, hshape, hsuper⟩
  exact List.mem_flatMap.mpr ⟨shape, shape_mem hshape, hsuper⟩

/-- Finitely many classes are above a class. -/
theorem finite_reaches (name : String) :
    {other | (catalog.hierarchy classpath).Reaches name other}.Finite := by
  have hmentioned : {super | ∃ name, (catalog.hierarchy classpath).Mentions name super}.Finite := finite_mentioned
  refine (hmentioned.insert name).subset ?_
  intro other hreach
  rcases Relation.ReflTransGen.cases_tail hreach with rfl | ⟨sub, -, hmentions⟩
  exacts [Set.mem_insert _ _, Set.mem_insert_of_mem _ ⟨sub, hmentions⟩]

end Catalog

end ClassInstrument
