import ClassInstrument.Classpath.Hierarchy
import ClassInstrument.Proofs.ClassDecl.Reading
import ClassInstrument.Proofs.ClassDecl.Writing
import ClassInstrument.Proofs.Policy.Keeping

/-!
# What is copied

A class that is read, treated by policies and written back differs from the one that was read in what
was decoded.  Everything else is copied: the fields, the attributes of unknown names, and the bodies that
no policy opened.  What they refer to by index is still there, since the table of constants keeps what
it had.
-/

namespace ClassInstrument

open Interning Outcome

/-! ## Methods -/

/-- How much of a method is the same in two classes, one written from the other. -/
structure MethodEntry.Copied (pool later : Pool) (entry : MethodEntry) (isEdited : Bool)
    (written : MethodEntry) : Prop where
  /-- The attributes that nobody decodes are the same. -/
  attributes_eq : Attribute.without later Method.decodedNames written.attributes =
    Attribute.without pool Method.decodedNames entry.attributes
  /-- The body is the same unless it was opened. -/
  body_eq : isEdited = false → Attribute.withName later CodeAttribute.name written.attributes =
    Attribute.withName pool CodeAttribute.name entry.attributes

namespace Method

variable {pool later : Pool} {added : Member → Prop} {entry written : MethodEntry}
  {method after : Method} {owner : String} {version : Version} {hierarchy : Hierarchy}

/-- A body that was not opened is written as it was read, if there was only one to read. -/
theorem bodyAttribute_of_keeps (hread : ReadFrom pool entry method)
    (honce : (Attribute.withName pool CodeAttribute.name entry.attributes).length ≤ 1)
    (hkeeps : method.Keeps pool added after) (hraw : after.isEdited = false) {body : List Attribute}
    (hbody : (after.bodyAttribute owner version hierarchy).Settled later body) :
    body = Attribute.withName pool CodeAttribute.name entry.attributes := by
  have hsame := (hkeeps.body_eq hraw).trans hread.notes.body_eq
  unfold bodyAttribute at hbody
  rw [hsame] at hbody
  match hlist : Attribute.withName pool CodeAttribute.name entry.attributes with
  | [] =>
    rw [hlist] at hbody
    exact (settled_pure.mp hbody).symm
  | [attr] =>
    rw [hlist] at hbody
    exact (settled_pure.mp hbody).symm
  | _ :: _ :: _ => simp [hlist] at honce

/-- The attributes of a method that nobody decodes are copied, and so is a body that was not opened. -/
theorem copied_of_writtenTo (hread : ReadFrom pool entry method)
    (honce : (Attribute.withName pool CodeAttribute.name entry.attributes).length ≤ 1)
    (hkeeps : method.Keeps pool added after) (hextends : pool.Extends later)
    (hwritten : after.WrittenTo owner version hierarchy later written) :
    MethodEntry.Copied pool later entry after.isEdited written := by
  have hraw : ∀ attr, after.body = .raw attr → later.utf8 attr.name = .ok CodeAttribute.name := by
    intro attr hbody
    have hsame := hkeeps.body_eq (by simp [isEdited, hbody])
    have hmem := hread.mem_of_raw (hsame.symm.trans hbody)
    exact hextends.utf8 (Attribute.utf8_of_mem_withName hread.notes.named hmem)
  have hothers : ∀ attr ∈ after.attributes, ∃ name ∉ decodedNames, later.utf8 attr.name = .ok name := by
    intro attr hmem
    rw [hkeeps.attributes_eq] at hmem
    obtain ⟨name, hnot, hname⟩ := hread.attributes_named attr hmem
    exact ⟨name, hnot, hextends.utf8 hname⟩
  have hsorted := hwritten.sorted hraw hothers
  constructor
  · rw [hsorted.others, hkeeps.attributes_eq, hread.notes.attributes_eq]
    rfl
  · exact fun hclosed => bodyAttribute_of_keeps hread honce hkeeps hclosed hsorted.body

end Method

/-! ## Classes -/

/-- How much of a class is the same in two class files, one written from the other. -/
structure ClassFile.Copied (file : ClassFile) (after : ClassDecl) (written : ClassFile) : Prop where
  /-- Every index holds what it held. -/
  constants : ∀ index < file.pool.size, written.pool.slots[index]? = file.pool.slots[index]?
  /-- New constants come behind those that were there. -/
  extends_pool : file.pool.Extends written.pool
  /-- The fields are the same. -/
  fields_eq : written.fields = file.fields
  /-- The attributes that nobody decodes are the same. -/
  attributes_eq : Attribute.without written.pool ClassDecl.decodedNames written.attributes =
    Attribute.without file.pool ClassDecl.decodedNames file.attributes
  /-- Every method is still at its position. -/
  methods : ∀ {position : ℕ} {entry : MethodEntry}, file.methods[position]? = some entry →
    ∃ method entry', after.methods[position]? = some method ∧
      written.methods[position]? = some entry' ∧
      MethodEntry.Copied file.pool written.pool entry method.isEdited entry'

/-- Whatever is not decoded is copied, however a class was treated. -/
theorem ClassDecl.copied_of_writtenTo {file written : ClassFile} {decl after : ClassDecl}
    {added : Member → Prop} {hierarchy : Hierarchy} (hread : ReadFrom file decl)
    (honce : ∀ entry ∈ file.methods,
      (Attribute.withName file.pool CodeAttribute.name entry.attributes).length ≤ 1)
    (hkeeps : decl.Keeps added after) (hwritten : after.WrittenTo hierarchy written) :
    file.Copied after written := by
  have hextends : file.pool.Extends written.pool := by
    rw [← hread.pool_eq, ← hkeeps.pool_eq]
    exact hwritten.extends_pool
  refine ⟨fun index hlt => hextends.getElem? hlt, hextends, ?_, ?_, ?_⟩
  · rw [hwritten.fields_eq, hkeeps.fields_eq, hread.fields_eq]
  · have hothers : ∀ attr ∈ after.attributes,
        ∃ name ∉ decodedNames, written.pool.utf8 attr.name = .ok name := by
      intro attr hmem
      rw [hkeeps.attributes_eq] at hmem
      obtain ⟨name, hnot, hname⟩ := hread.attributes_named attr hmem
      exact ⟨name, hnot, hextends.utf8 hname⟩
    rw [(hwritten.sorted hothers).others, hkeeps.attributes_eq, hread.attributes_eq]
  · intro position entry hentry
    obtain ⟨method, hmethod, hentryRead⟩ := getElem?_of_forall₂ hread.methods hentry
    obtain ⟨treated, htreated, hmethodKeeps⟩ := hkeeps.methods hmethod
    rw [hread.pool_eq] at hmethodKeeps
    obtain ⟨entry', hentry', hentryWritten⟩ := getElem?_of_forall₂ hwritten.methods htreated
    exact ⟨treated, entry', htreated, hentry', Method.copied_of_writtenTo hentryRead
      (honce entry (List.mem_of_getElem? hentry)) hmethodKeeps hextends hentryWritten⟩

/-- A class that policies have treated is written with every constant at its index, with its fields, and
with all the attributes that nobody decodes; and a method that no policy opened has the body it had. -/
theorem Policy.copied_of_applyAll {bytes : Bytes} {file written : ClassFile} {decl after : ClassDecl}
    {policies : List Policy} {catalog : Catalog} {hierarchy : Hierarchy}
    (hfile : ClassFile.parse bytes = .ok file) (hdecl : ClassDecl.parse bytes = .ok decl)
    (honce : ∀ entry ∈ file.methods,
      (Attribute.withName file.pool CodeAttribute.name entry.attributes).length ≤ 1)
    (happly : applyAll policies catalog decl = .ok after)
    (hwrite : after.toClassFile hierarchy = .ok written) : file.Copied after written := by
  obtain ⟨read, hsame, hread⟩ := bind_eq_ok.mp hdecl
  obtain rfl : read = file := Except.ok.inj (hsame.symm.trans hfile)
  exact ClassDecl.copied_of_writtenTo (ClassDecl.readFrom_of_ofClassFile hread) honce
    (keeps_of_applyAll happly) (ClassDecl.writtenTo_of_toClassFile hwrite)

/-- A class with an unknown attribute, whose field and whose method have one as well.  The method has a
body and a mark. -/
def markedSample : Bytes :=
  ClassFile.magic ++ [0, 0, 0, 52] ++
    -- "A", the class "A", "f", "()V", "Code"
    [0, 9, 1, 0, 1, 65, 7, 0, 1, 1, 0, 1, 102, 1, 0, 3, 40, 41, 86, 1, 0, 4, 67, 111, 100, 101] ++
    -- the name of the attribute that lists marks
    [1, 0, 27, 82, 117, 110, 116, 105, 109, 101, 73, 110, 118, 105, 115, 105, 98, 108, 101, 65, 110,
      110, 111, 116, 97, 116, 105, 111, 110, 115] ++
    -- the descriptor of the mark, and "X", which is the name of the unknown attributes
    [1, 0, 3, 76, 77, 59, 1, 0, 1, 88] ++
    [0, 33, 0, 2, 0, 0, 0, 0, 0, 1, 0, 0, 0, 8, 0, 1, 0, 1, 0, 8, 0, 0, 0, 2, 0, 2] ++
    [0, 1, 0, 9, 0, 3, 0, 4, 0, 3, 0, 5, 0, 0, 0, 13, 0, 0, 0, 0, 0, 0, 0, 1, 177, 0, 0, 0, 0] ++
    [0, 8, 0, 0, 0, 1, 7, 0, 6, 0, 0, 0, 6, 0, 1, 0, 7, 0, 0, 0, 1, 0, 8, 0, 0, 0, 0]

/-- The constants of the class. -/
def markedPool : Pool := ((ClassFile.parse markedSample).toOption.get rfl).pool

/-- The body of its method. -/
def markedBody : Attribute := ⟨5, [0, 0, 0, 0, 0, 0, 0, 1, 177, 0, 0, 0, 0]⟩

/-- The class with some marks on its method. -/
def marked (marks : List Annotation) : ClassDecl where
  version := ⟨52, 0⟩
  pool := markedPool
  access := ⟨33⟩
  name := "A"
  superName := none
  fields := [⟨0, 8, 1, [⟨8, [0, 2]⟩]⟩]
  methods :=
    [{ access := ⟨9⟩, name := "f", descriptor := "()V", invisible := marks
       body := .raw markedBody, attributes := [⟨8, [7]⟩] }]
  attributes := [⟨8, []⟩]

/-- All constants of the class without the mark are there. -/
theorem toClassFile_unmarked (hierarchy : Hierarchy) :
    ∃ written, (marked []).toClassFile hierarchy = .ok written := by
  have hutf8 : ∀ text index,
      markedPool.slots[index.toNat]? = some (some (.utf8 (ModifiedUtf8.encode text))) →
      (∀ earlier < index.toNat,
        markedPool.slots[earlier]? ≠ some (some (.utf8 (ModifiedUtf8.encode text)))) →
      (Pool.internUtf8 text).Settled markedPool index := fun text index hheld hfirst =>
    Pool.settled_intern_iff.mpr ⟨hheld, hfirst⟩
  have hnone : ∀ name, ( Annotation.writeList name []).Settled markedPool none := fun _ =>
    settled_pure.mpr rfl
  have hname : (Pool.internClass "A").Settled markedPool 2 :=
    (hutf8 "A" 1 (by decide +kernel) (by decide +kernel)).bind
      (Pool.settled_intern_iff.mpr ⟨by decide +kernel, by decide +kernel⟩)
  have hmethod : ∀ method ∈ (marked []).methods, method.WrittenTo "A" ⟨52, 0⟩ hierarchy markedPool
      ⟨⟨9⟩, 3, 4, [markedBody, ⟨8, [7]⟩]⟩ := by
    intro method hmem
    obtain rfl := List.mem_singleton.mp hmem
    exact ⟨rfl, hutf8 "f" 3 (by decide +kernel) (by decide +kernel),
      hutf8 "()V" 4 (by decide +kernel) (by decide +kernel),
      [markedBody], none, none, [], settled_pure.mpr rfl, hnone _, hnone _, settled_pure.mpr rfl, rfl⟩
  exact ⟨{
    version := ⟨52, 0⟩, pool := markedPool, access := ⟨33⟩, thisClass := 2, superClass := none
    interfaces := [], fields := (marked []).fields, methods := [⟨⟨9⟩, 3, 4, [markedBody, ⟨8, [7]⟩]⟩]
    attributes := (marked []).attributes },
    ClassDecl.toClassFile_of_writtenTo ⟨.refl _, rfl, rfl, rfl, hname, settled_pure.mpr rfl, .nil,
      .cons (hmethod _ (List.mem_singleton_self _)) .nil, none, none, hnone _, hnone _, rfl⟩ rfl⟩

/-- A policy takes the mark off, and everything else is copied. -/
theorem Policy.copied_markedSample : ∃ file decl after written,
    ClassFile.parse markedSample = .ok file ∧ ClassDecl.parse markedSample = .ok decl ∧
      (∀ entry ∈ file.methods,
        (Attribute.withName file.pool CodeAttribute.name entry.attributes).length ≤ 1) ∧
      applyAll [.callLogger { marker := "LM;" }] .empty decl = .ok after ∧
      after.toClassFile Classpath.empty.hierarchy = .ok written ∧ file.Copied after written := by
  obtain ⟨written, hwritten⟩ := toClassFile_unmarked Classpath.empty.hierarchy
  have hdecl : ClassDecl.parse markedSample = .ok (marked [⟨"LM;", []⟩]) := rfl
  have happly : applyAll [.callLogger { marker := "LM;" }] .empty (marked [⟨"LM;", []⟩]) =
      .ok (marked []) := by
    have hskip : skips (.callLogger { marker := "LM;" }) "A" = false := by decide +kernel
    rw [applyAll, List.foldlM_cons, Policy.apply]
    simp only [marked, hskip]
    rfl
  exact ⟨_, _, _, written, rfl, hdecl, by decide, happly, hwritten,
    copied_of_applyAll rfl hdecl (by decide) happly hwritten⟩

end ClassInstrument
