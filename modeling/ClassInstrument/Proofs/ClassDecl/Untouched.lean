import ClassInstrument.Classpath.Hierarchy
import ClassInstrument.Proofs.ClassDecl.FlatMarks
import ClassInstrument.Proofs.ClassDecl.Writing

/-!
# Classes that nobody edits

A table of constants is canonical if each constant stands at one index only and texts are encoded as they
are written.  Whatever is read at an index of such a table is found there again when it is asked for.  So
values and annotations that were read are written to the bytes they were read from, by induction over
values, and nothing is added to the table.

If moreover the attributes stand in the order in which they are written, the class that is written is the
class file that was read.
-/

namespace ClassInstrument

open Interning Outcome

/-! ## Canonical tables -/

namespace Pool

/-- A table in which each constant stands at one index only, and texts are encoded as they are written. -/
structure IsCanonical (pool : Pool) : Prop where
  distinct : ∀ {index index' constant}, pool.get index = .ok constant → pool.get index' = .ok constant →
    index = index'
  encoded : ∀ {index bytes}, pool.get index = .ok (.utf8 bytes) →
    ModifiedUtf8.encode (ModifiedUtf8.decode bytes) = bytes

/-- A constant at an index stands in its slot. -/
theorem getElem?_of_get {pool : Pool} {index : PoolIndex} {constant : Constant}
    (h : pool.get index = .ok constant) : pool.slots[index.toNat]? = some (some constant) := by
  unfold get at h
  split at h
  · next found hfound =>
    obtain rfl := Except.ok.inj h
    exact hfound
  · cases h

/-- The encoded texts of a table. -/
def texts (pool : Pool) : List Bytes :=
  pool.slots.toList.filterMap fun slot =>
    match slot with
    | some (.utf8 bytes) => some bytes
    | _ => none

/-- A table is canonical if no two of its slots hold the same constant, and texts are encoded as they are
written. -/
theorem isCanonical_of_slots {pool : Pool}
    (hdistinct : ∀ i < pool.slots.size, ∀ j < i, pool.slots[i]? = pool.slots[j]? →
      pool.slots[i]? = some none)
    (hencoded : ∀ bytes ∈ pool.texts, ModifiedUtf8.encode (ModifiedUtf8.decode bytes) = bytes) :
    pool.IsCanonical where
  distinct {index index' constant} hget hget' := by
    have hslot := getElem?_of_get hget
    have hslot' := getElem?_of_get hget'
    have hlt := (Array.getElem?_eq_some_iff.mp hslot).1
    have hlt' := (Array.getElem?_eq_some_iff.mp hslot').1
    by_contra hne
    rcases Nat.lt_or_gt_of_ne (fun heq => hne (UInt16.toNat_inj.mp heq)) with hless | hless
    · simp [hdistinct _ hlt' _ hless (hslot'.trans hslot.symm)] at hslot'
    · simp [hdistinct _ hlt _ hless (hslot.trans hslot'.symm)] at hslot
  encoded {index bytes} hget :=
    hencoded bytes (List.mem_filterMap.mpr
      ⟨_, Array.mem_toList_iff.mpr (Array.mem_of_getElem? (getElem?_of_get hget)), rfl⟩)

namespace IsCanonical

variable {pool : Pool} (h : pool.IsCanonical) {index : PoolIndex}

include h

/-- A constant at an index is found there when it is asked for. -/
theorem settled_intern {constant : Constant} (hget : pool.get index = .ok constant) :
    (intern constant).Settled pool index := by
  obtain ⟨position, hposition⟩ := pool.valid.exists_position (getElem?_of_get hget)
  obtain rfl := h.distinct hget (get_of_position hposition)
  exact finish_intern.mpr (request_of_position hposition)

/-- A text at an index is found there when it is asked for. -/
theorem settled_internUtf8 {text : String} (htext : pool.Holds text index) :
    (internUtf8 text).Settled pool index := by
  obtain ⟨constant, hget, htext⟩ := bind_eq_ok.mp htext
  split at htext
  · next bytes =>
    obtain rfl := pure_eq_ok.mp htext
    refine h.settled_intern ?_
    rw [h.encoded hget]
    exact hget
  · cases htext

/-- A class at an index is found there when it is asked for by name. -/
theorem settled_internClass {name : String} (hname : pool.className index = .ok name) :
    (internClass name).Settled pool index := by
  obtain ⟨constant, hget, hname⟩ := bind_eq_ok.mp hname
  split at hname
  · exact (h.settled_internUtf8 hname).bind (h.settled_intern hget)
  · cases hname

/-- An attribute is made again as it stands. -/
theorem settled_make {name : String} {attr : Attribute} (hname : pool.Holds name attr.name) :
    (Attribute.make name attr.info).Settled pool attr :=
  (h.settled_internUtf8 hname).bind (settled_pure.mpr rfl)

end IsCanonical

end Pool

/-! ## Annotations -/

variable {pool : Pool}

namespace ElementValue

/-- Elements are written one after the other. -/
theorem settled_writeElements {elements : List ElementValue} {pieces : List Bytes}
    (h : List.Forall₂ (fun element piece => element.write.Settled pool piece) elements pieces) :
    (writeElements elements).Settled pool pieces.flatten := by
  induction h with
  | nil => exact settled_pure.mpr rfl
  | cons hfirst _ ih => exact hfirst.bind (ih.bind (settled_pure.mpr rfl))

/-- Properties are written one after the other. -/
theorem settled_writeValues (hpool : pool.IsCanonical) {values : List (String × ElementValue)}
    {pieces : List Bytes}
    (h : List.Forall₂ (FormsProperty pool.Holds fun value bytes => value.write.Settled pool bytes) values
      pieces) : (writeValues values).Settled pool pieces.flatten := by
  induction h with
  | nil => exact settled_pure.mpr rfl
  | cons hfirst _ ih =>
    obtain ⟨index, more, hname, hvalue, rfl⟩ := hfirst
    exact (hpool.settled_internUtf8 hname).bind (hvalue.bind (ih.bind (settled_pure.mpr rfl)))

/-- What values are written to over a canonical table is put together as they are read. -/
theorem composes_settled (hpool : pool.IsCanonical) :
    Composes pool fun value bytes => value.write.Settled pool bytes where
  int h := (hpool.settled_intern h).bind (settled_pure.mpr rfl)
  long h := (hpool.settled_intern h).bind (settled_pure.mpr rfl)
  float h := (hpool.settled_intern h).bind (settled_pure.mpr rfl)
  double h := (hpool.settled_intern h).bind (settled_pure.mpr rfl)
  string h := (hpool.settled_internUtf8 h).bind (settled_pure.mpr rfl)
  enum h h' := (hpool.settled_internUtf8 h).bind ((hpool.settled_internUtf8 h').bind (settled_pure.mpr rfl))
  cls h := (hpool.settled_internUtf8 h).bind (settled_pure.mpr rfl)
  nested h hvalues :=
    (hpool.settled_internUtf8 h).bind ((settled_writeValues hpool hvalues).bind (settled_pure.mpr rfl))
  array h := (settled_writeElements h).bind (settled_pure.mpr rfl)

end ElementValue

namespace Annotation

variable {name : String} {attr : Attribute}

/-- An attribute that lists annotations is what they are written to. -/
theorem settled_writeList (hpool : pool.IsCanonical) {marks : List Annotation}
    (hname : pool.Holds name attr.name) (hread : readList pool attr.info = .ok marks) (hfull : marks ≠ []) :
    (writeList name marks).Settled pool (some attr) := by
  obtain ⟨pieces, hpieces, hinfo⟩ := formsList_of_readList (ElementValue.composes_settled hpool) hread
  have hwritten : List.Forall₂ (fun mark piece => (write mark).Settled pool piece) marks pieces := by
    refine hpieces.imp ?_
    rintro mark _ ⟨index, values, hindex, hvalues, rfl⟩
    exact (hpool.settled_internUtf8 hindex).bind
      ((ElementValue.settled_writeValues hpool hvalues).bind (settled_pure.mpr rfl))
  unfold writeList
  rw [if_neg (by simpa using hfull)]
  refine ((Repeats.settled_mapM repeats_write).mpr hwritten).bind ?_
  dsimp only
  rw [← hinfo]
  exact (hpool.settled_make hname).bind (settled_pure.mpr rfl)

/-- An attribute that holds a default is what the default is written to. -/
theorem settled_writeDefault (hpool : pool.IsCanonical) {value : ElementValue}
    (hname : pool.Holds defaultAttribute attr.name) (hread : readDefault pool attr.info = .ok value) :
    (writeDefault value).Settled pool attr :=
  (PoolReader.Takes.of_whole (ElementValue.takes_read (ElementValue.composes_settled hpool) _) hread).bind
    (hpool.settled_make hname)

/-- Annotations that are listed in one attribute at most, and not in one without annotations, are written as
they were read. -/
theorem exists_settled_of_readAll (hpool : pool.IsCanonical) {attributes : List Attribute}
    {marks : List Annotation} (hread : readAll pool name attributes = .ok marks)
    (honce : (Attribute.withName pool name attributes).length ≤ 1)
    (hname : ∀ attr ∈ Attribute.withName pool name attributes, pool.Holds name attr.name)
    (hfull : ∀ attr ∈ Attribute.withName pool name attributes, readList pool attr.info ≠ .ok []) :
    ∃ attr?, (writeList name marks).Settled pool attr? ∧
      attr?.toList = Attribute.withName pool name attributes := by
  obtain ⟨lists, hlists, h⟩ := bind_eq_ok.mp hread
  obtain rfl := pure_eq_ok.mp h
  match hnamed : Attribute.withName pool name attributes with
  | [] =>
    rw [hnamed] at hlists
    obtain rfl := pure_eq_ok.mp hlists
    exact ⟨none, settled_pure.mpr rfl, rfl⟩
  | [attr] =>
    rw [hnamed] at hlists hname hfull
    obtain _ | ⟨hlist, _ | _⟩ := mapM_eq_ok.mp hlists
    next list =>
    have hmem := List.mem_singleton_self attr
    have hmarks : list ≠ [] := fun heq => hfull attr hmem (heq ▸ hlist)
    refine ⟨some attr, ?_, rfl⟩
    rw [List.flatten_cons, List.flatten_nil, List.append_nil]
    exact settled_writeList hpool (hname attr hmem) hlist hmarks
  | _ :: _ :: _ => simp [hnamed] at honce

end Annotation

/-! ## Methods -/

/-- A method whose attributes stand in the order in which they are written, each of those that are decoded
once at most, and with annotations where annotations are listed. -/
def MethodEntry.IsCanonical (pool : Pool) (entry : MethodEntry) : Prop :=
  ∃ body others visible invisible default,
    Method.Arranged pool entry.attributes body others visible invisible default ∧
      body.length ≤ 1 ∧ visible.length ≤ 1 ∧ invisible.length ≤ 1 ∧ default.length ≤ 1 ∧
      ∀ attr ∈ visible ++ invisible, Annotation.readList pool attr.info ≠ .ok []

namespace Method

variable {entry : MethodEntry} {method : Method} {owner : String} {version : Version}
  {hierarchy : Hierarchy}

/-- A body that was read from one attribute at most is written to it. -/
theorem settled_bodyAttribute (hread : ReadFrom pool entry method)
    (honce : (Attribute.withName pool CodeAttribute.name entry.attributes).length ≤ 1) :
    (method.bodyAttribute owner version hierarchy).Settled pool
      (Attribute.withName pool CodeAttribute.name entry.attributes) := by
  have hbody := hread.notes.body_eq
  unfold bodyAttribute
  rw [hbody]
  match hcode : Attribute.withName pool CodeAttribute.name entry.attributes with
  | [] => exact settled_pure.mpr rfl
  | [attr] => exact settled_pure.mpr rfl
  | _ :: _ :: _ => simp [hcode] at honce

/-- A default that was read from one attribute at most is written to it. -/
theorem settled_defaultAttribute (hpool : pool.IsCanonical) (hread : ReadFrom pool entry method)
    (honce : (Attribute.withName pool Annotation.defaultAttribute entry.attributes).length ≤ 1)
    (hname : ∀ attr ∈ Attribute.withName pool Annotation.defaultAttribute entry.attributes,
      pool.Holds Annotation.defaultAttribute attr.name) :
    method.defaultAttribute.Settled pool
      (Attribute.withName pool Annotation.defaultAttribute entry.attributes) := by
  have hdefault := hread.notes.default
  unfold defaultAttribute
  match hlist : Attribute.withName pool Annotation.defaultAttribute entry.attributes with
  | [] =>
    rw [hlist] at hdefault
    rw [hdefault]
    exact settled_pure.mpr rfl
  | [attr] =>
    rw [hlist] at hdefault hname
    obtain ⟨value, hvalue, hdefault⟩ := hdefault
    rw [hdefault]
    exact ( Annotation.settled_writeDefault hpool (hname attr (List.mem_singleton_self attr)) hvalue).bind
      (settled_pure.mpr rfl)
  | _ :: _ :: _ => simp [hlist] at honce

/-- A canonical method is written as it was read. -/
theorem writtenTo_of_readFrom (hpool : pool.IsCanonical) (hentry : entry.IsCanonical pool)
    (hread : ReadFrom pool entry method) : method.WrittenTo owner version hierarchy pool entry := by
  obtain ⟨body, others, visible, invisible, default, harranged, hbody, hvisible, hinvisible, hdefault,
    hfull⟩ := hentry
  have hnotes := hread.notes
  obtain ⟨seen, hseen, hmarks⟩ := hnotes.visible
  obtain ⟨hidden, hhidden, hmarks'⟩ := hnotes.invisible
  obtain rfl := harranged.withName_code
  obtain rfl := harranged.withName_visible
  obtain rfl := harranged.withName_invisible
  obtain rfl := harranged.withName_default
  obtain ⟨visible?, hwritten, hlist⟩ := Annotation.exists_settled_of_readAll hpool hseen hvisible
    harranged.visible fun attr hmem => hfull attr (List.mem_append_left _ hmem)
  obtain ⟨invisible?, hwritten', hlist'⟩ := Annotation.exists_settled_of_readAll hpool hhidden hinvisible
    harranged.invisible fun attr hmem => hfull attr (List.mem_append_right _ hmem)
  refine ⟨hnotes.access_eq.symm, hpool.settled_internUtf8 hread.name,
    hpool.settled_internUtf8 hread.descriptor, _, visible?, invisible?, _,
    settled_bodyAttribute hread hbody, ?_, ?_,
    settled_defaultAttribute hpool hread hdefault harranged.default, ?_⟩
  · rwa [hmarks]
  · rwa [hmarks']
  · rw [hlist, hlist', hnotes.attributes_eq, harranged.without_eq]
    exact harranged.eq_append

end Method

/-! ## Classes -/

/-- A class file over a canonical table, whose attributes stand in the order in which they are written, as do
those of its methods, each of those that are decoded once at most, and with annotations where annotations are
listed. -/
structure ClassFile.IsCanonical (file : ClassFile) : Prop where
  pool : file.pool.IsCanonical
  attributes : ∃ others visible invisible,
    ClassDecl.Arranged file.pool file.attributes others visible invisible ∧
      visible.length ≤ 1 ∧ invisible.length ≤ 1 ∧
      ∀ attr ∈ visible ++ invisible, Annotation.readList file.pool attr.info ≠ .ok []
  methods : ∀ entry ∈ file.methods, entry.IsCanonical file.pool

namespace ClassDecl

variable {file : ClassFile} {decl : ClassDecl} {hierarchy : Hierarchy}

/-- A class read from a canonical file is written to that file. -/
theorem writtenTo_of_readFrom (hcanonical : file.IsCanonical) (hread : ReadFrom file decl) :
    decl.WrittenTo hierarchy file := by
  have hpool := hcanonical.pool
  obtain ⟨others, visible, invisible, harranged, hvisible, hinvisible, hfull⟩ := hcanonical.attributes
  obtain rfl := harranged.withName_visible
  obtain rfl := harranged.withName_invisible
  obtain ⟨visible?, hwritten, hlist⟩ := Annotation.exists_settled_of_readAll hpool hread.visible hvisible
    harranged.visible fun attr hmem => hfull attr (List.mem_append_left _ hmem)
  obtain ⟨invisible?, hwritten', hlist'⟩ := Annotation.exists_settled_of_readAll hpool hread.invisible
    hinvisible harranged.invisible fun attr hmem => hfull attr (List.mem_append_right _ hmem)
  have hsuper : (decl.superName.mapM Pool.internClass).Settled file.pool file.superClass := by
    have hname := hread.superName
    rw [Repeats.settled_optionMapM Pool.repeats_internClass]
    cases hindex : file.superClass with
    | none =>
      rw [hindex] at hname
      rw [← pure_eq_ok.mp hname]
      exact .none
    | some index =>
      rw [hindex] at hname
      obtain ⟨name, hname, hsome⟩ := bind_eq_ok.mp hname
      rw [← pure_eq_ok.mp hsome]
      exact .some (hpool.settled_internClass hname)
  exact {
    extends_pool := hread.pool_eq ▸ .refl _
    version_eq := hread.version_eq.symm
    access_eq := hread.access_eq.symm
    fields_eq := hread.fields_eq.symm
    name := hpool.settled_internClass hread.name
    superName := hsuper
    interfaces := ((mapM_eq_ok.mp hread.interfaces).imp fun _ _ => hpool.settled_internClass).flip
    methods := (forall₂_imp_mem hread.methods fun entry hentry _ hmethod =>
      Method.writtenTo_of_readFrom hpool (hcanonical.methods entry hentry) hmethod).flip
    attributes := ⟨visible?, invisible?, hwritten, hwritten', by
      rw [hlist, hlist', hread.attributes_eq, harranged.without_eq]
      exact harranged.eq_append⟩ }

/-- A class that was read from a canonical file and is written without edits is the same, byte for byte. -/
theorem toBytes_of_parse {bytes : Bytes} (hfile : ClassFile.parse bytes = .ok file)
    (hbytes : file.write = bytes) (hcanonical : file.IsCanonical) (hdecl : parse bytes = .ok decl)
    (hierarchy : Hierarchy) : decl.toBytes hierarchy = .ok bytes := by
  obtain ⟨read, hsame, hread⟩ := bind_eq_ok.mp hdecl
  obtain rfl : read = file := Except.ok.inj (hsame.symm.trans hfile)
  have hread := readFrom_of_ofClassFile hread
  exact bind_eq_ok.mpr ⟨read, toClassFile_of_writtenTo (writtenTo_of_readFrom hcanonical hread)
    hread.pool_eq.symm, congrArg Except.ok hbytes⟩

end ClassDecl

/-- An annotation interface that carries itself as a mark, with an array of a number and a nested mark, and has
a property with a default. -/
def nestedSample : Bytes :=
  ClassFile.magic ++ [0, 0, 0, 52] ++
    -- "A" and the class "A"
    [0, 10, 1, 0, 1, 65, 7, 0, 1] ++
    -- the name of the attribute that lists marks
    [1, 0, 25, 82, 117, 110, 116, 105, 109, 101, 86, 105, 115, 105, 98, 108, 101, 65, 110, 110, 111, 116,
      97, 116, 105, 111, 110, 115] ++
    -- the descriptor of the mark, "v", the number 7, "f" and "()I"
    [1, 0, 3, 76, 65, 59, 1, 0, 1, 118, 3, 0, 0, 0, 7, 1, 0, 1, 102, 1, 0, 3, 40, 41, 73] ++
    -- the name of the attribute that holds a default
    [1, 0, 17, 65, 110, 110, 111, 116, 97, 116, 105, 111, 110, 68, 101, 102, 97, 117, 108, 116] ++
    [38, 1, 0, 2, 0, 0, 0, 0, 0, 0, 0, 1, 4, 1, 0, 7, 0, 8, 0, 1, 0, 9, 0, 0, 0, 3, 73, 0, 6] ++
    [0, 1, 0, 3, 0, 0, 0, 19, 0, 1, 0, 4, 0, 1, 0, 5, 91, 0, 2, 73, 0, 6, 64, 0, 4, 0, 0]

/-- The interface is canonical, and it is written back byte for byte. -/
theorem ClassDecl.toBytes_nestedSample : ∃ file decl, ClassFile.parse nestedSample = .ok file ∧
    file.write = nestedSample ∧ file.IsCanonical ∧ ClassDecl.parse nestedSample = .ok decl ∧
    decl.toBytes Classpath.empty.hierarchy = .ok nestedSample := by
  have hfile : ClassFile.parse nestedSample =
      .ok ((ClassFile.parse nestedSample).toOption.get rfl) := rfl
  have hbytes : ((ClassFile.parse nestedSample).toOption.get rfl).write = nestedSample := by
    decide +kernel
  have hpool : ((ClassFile.parse nestedSample).toOption.get rfl).pool.IsCanonical :=
    Pool.isCanonical_of_slots (by decide +kernel) (by decide +kernel)
  have hmethod : MethodEntry.IsCanonical ((ClassFile.parse nestedSample).toOption.get rfl).pool
      ⟨⟨1025⟩, 7, 8, [⟨9, [73, 0, 6]⟩]⟩ := by
    refine ⟨[], [], [], [], _, ⟨rfl, by simp, by simp, by simp, by simp, ?_⟩, by simp, by simp, by simp,
      by simp, by simp⟩
    exact List.forall_mem_singleton.mpr rfl
  have hcanonical : ((ClassFile.parse nestedSample).toOption.get rfl).IsCanonical := by
    refine ⟨hpool, ⟨[], [⟨3, _⟩], [], ⟨rfl, by simp, ?_, by simp⟩, by simp, by simp, ?_⟩, ?_⟩
    · exact List.forall_mem_singleton.mpr rfl
    · refine List.forall_mem_singleton.mpr fun h => ?_
      exact List.cons_ne_nil ( Annotation.mk "LA;" [("v", .array [.int .int 7, .nested "LA;" []])]) []
        (Except.ok.inj h)
    · intro entry hentry
      obtain rfl : entry = _ := List.mem_singleton.mp hentry
      exact hmethod
  exact ⟨_, _, hfile, hbytes, hcanonical, rfl, toBytes_of_parse hfile hbytes hcanonical rfl _⟩

end ClassInstrument
