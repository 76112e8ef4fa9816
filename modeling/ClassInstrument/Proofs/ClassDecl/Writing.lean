import ClassInstrument.Proofs.Assembly.Requests
import ClassInstrument.Proofs.ClassDecl.Reading

/-!
# What is written into a class file

Writing a class asks for constants all the way: for names, for annotations, and for every body that is
assembled.  All these requests are settled in the table that the written class has.  So whatever was
written can be told from that table, and whatever an index held before it still holds.
-/

namespace ClassInstrument

open Interning Outcome

/-! ## Annotations -/

namespace ElementValue

mutual

theorem repeats_write (value : ElementValue) : value.write.Repeats := by
  cases value with
  | int _ _ | long _ | float _ | double _ => exact (Repeats.intern _).bind fun _ => .pure _
  | string text => exact (Pool.repeats_internUtf8 text).bind fun _ => .pure _
  | enum type constant =>
    exact (Pool.repeats_internUtf8 type).bind fun _ =>
      (Pool.repeats_internUtf8 constant).bind fun _ => .pure _
  | cls descriptor => exact (Pool.repeats_internUtf8 descriptor).bind fun _ => .pure _
  | nested descriptor values =>
    exact (Pool.repeats_internUtf8 descriptor).bind fun _ => (repeats_writeValues values).bind fun _ =>
      .pure _
  | array elements => exact (repeats_writeElements elements).bind fun _ => .pure _

theorem repeats_writeElements (elements : List ElementValue) : (writeElements elements).Repeats := by
  cases elements with
  | nil => exact .pure _
  | cons element rest =>
    exact (repeats_write element).bind fun _ => (repeats_writeElements rest).bind fun _ => .pure _

theorem repeats_writeValues (values : List (String × ElementValue)) : (writeValues values).Repeats := by
  cases values with
  | nil => exact .pure _
  | cons property rest =>
    exact (Pool.repeats_internUtf8 property.1).bind fun _ => (repeats_write property.2).bind fun _ =>
      (repeats_writeValues rest).bind fun _ => .pure _

end

end ElementValue

namespace Annotation

theorem repeats_write (mark : Annotation) : mark.write.Repeats :=
  (Pool.repeats_internUtf8 mark.descriptor).bind fun _ =>
    (ElementValue.repeats_writeValues mark.values).bind fun _ => .pure _

theorem repeats_writeList (name : String) (marks : List Annotation) : (writeList name marks).Repeats := by
  unfold writeList
  split
  · exact .pure _
  · exact (Repeats.mapM repeats_write marks).bind fun _ =>
      (Attribute.repeats_make _ _).bind fun _ => .pure _

theorem repeats_writeDefault (value : ElementValue) : (writeDefault value).Repeats :=
  value.repeats_write.bind fun _ => Attribute.repeats_make _ _

end Annotation

/-- A list of annotations is written to an attribute of the name asked for. -/
theorem Annotation.utf8_of_settled_writeList {pool : Pool} {name : String} {marks : List Annotation}
    {written : Option Attribute} (h : (writeList name marks).Settled pool written) {attr : Attribute}
    (hmem : attr ∈ written.toList) : pool.utf8 attr.name = .ok name := by
  unfold writeList at h
  split at h
  · obtain rfl := settled_pure.mp h
    cases hmem
  · obtain ⟨pieces, -, h⟩ := ((Repeats.mapM repeats_write marks).settled_bind fun _ =>
      (Attribute.repeats_make _ _).bind fun _ => .pure _).mp h
    obtain ⟨made, hmade, h⟩ := ((Attribute.repeats_make _ _).settled_bind fun _ => .pure _).mp h
    obtain rfl := settled_pure.mp h
    obtain rfl : attr = made := by simpa using hmem
    exact (Attribute.of_settled_make hmade).1

/-! ## Methods -/

namespace Method

variable {owner : String} {version : Version} {hierarchy : Hierarchy} {method : Method} {pool : Pool}
  {entry : MethodEntry}

theorem repeats_bodyAttribute (method : Method) (owner : String) (version : Version)
    (hierarchy : Hierarchy) : (method.bodyAttribute owner version hierarchy).Repeats := by
  unfold bodyAttribute
  cases method.body with
  | absent => exact .pure _
  | raw attr => exact .pure _
  | edited body =>
    exact (body.repeats_assemble _ version hierarchy).bind fun _ =>
      (Attribute.repeats_make _ _).bind fun _ => .pure _

theorem repeats_defaultAttribute (method : Method) : method.defaultAttribute.Repeats := by
  unfold defaultAttribute
  cases method.default with
  | none => exact .pure _
  | some value =>
    have hdefault := Annotation.repeats_writeDefault value
    exact hdefault.bind fun _ => .pure _

/-- A default is written to an attribute of its own name. -/
theorem utf8_of_settled_defaultAttribute {written : List Attribute} (h : method.defaultAttribute.Settled pool written) {attr : Attribute}
    (hmem : attr ∈ written) : pool.utf8 attr.name = .ok Annotation.defaultAttribute := by
  unfold defaultAttribute at h
  cases hdefault : method.default with
  | none =>
    rw [hdefault] at h
    obtain rfl := settled_pure.mp h
    cases hmem
  | some value =>
    rw [hdefault] at h
    have hrepeats := Annotation.repeats_writeDefault value
    obtain ⟨made, hmade, h⟩ := (hrepeats.settled_bind fun _ => .pure _).mp h
    obtain rfl := settled_pure.mp h
    obtain rfl : attr = made := by simpa using hmem
    obtain ⟨info, -, hmade⟩ := (value.repeats_write.settled_bind fun _ =>
      Attribute.repeats_make _ _).mp hmade
    exact (Attribute.of_settled_make hmade).1

/-- A body that was assembled is written to an attribute of its own name. -/
theorem utf8_of_settled_bodyAttribute {body : Body} (hbody : method.body = .edited body)
    {written : List Attribute}
    (h : (method.bodyAttribute owner version hierarchy).Settled pool written) {attr : Attribute}
    (hmem : attr ∈ written) : pool.utf8 attr.name = .ok CodeAttribute.name := by
  unfold bodyAttribute at h
  rw [hbody] at h
  obtain ⟨code, -, h⟩ := ((body.repeats_assemble _ version hierarchy).settled_bind fun _ =>
    (Attribute.repeats_make _ _).bind fun _ => .pure _).mp h
  obtain ⟨made, hmade, h⟩ := ((Attribute.repeats_make _ _).settled_bind fun _ => .pure _).mp h
  obtain rfl := settled_pure.mp h
  obtain rfl : attr = made := by simpa using hmem
  exact (Attribute.of_settled_make hmade).1

/-- What a method was written to, over the table that is left. -/
structure WrittenTo (method : Method) (owner : String) (version : Version) (hierarchy : Hierarchy)
    (pool : Pool) (entry : MethodEntry) : Prop where
  access_eq : entry.access = method.access
  name : (Pool.internUtf8 method.name).Settled pool entry.name
  descriptor : (Pool.internUtf8 method.descriptor).Settled pool entry.descriptor
  /-- Attributes that are copied stand behind the body and in front of what is written anew. -/
  attributes : ∃ body visible invisible default,
    (method.bodyAttribute owner version hierarchy).Settled pool body ∧
    ( Annotation.writeList Annotation.visibleAttribute method.visible).Settled pool visible ∧
    ( Annotation.writeList Annotation.invisibleAttribute method.invisible).Settled pool invisible ∧
    method.defaultAttribute.Settled pool default ∧
    entry.attributes = body ++ method.attributes ++ visible.toList ++ invisible.toList ++ default

theorem repeats_toEntry (method : Method) (owner : String) (version : Version)
    (hierarchy : Hierarchy) : (method.toEntry owner version hierarchy).Repeats :=
  have hlist := Annotation.repeats_writeList
  (method.repeats_bodyAttribute owner version hierarchy).bind fun _ =>
    (hlist _ _).bind fun _ => (hlist _ _).bind fun _ =>
      method.repeats_defaultAttribute.bind fun _ => (Pool.repeats_internUtf8 _).bind fun _ =>
        (Pool.repeats_internUtf8 _).bind fun _ => .pure _

/-- A method whose requests are settled was written piece by piece. -/
theorem writtenTo_of_settled (h : (method.toEntry owner version hierarchy).Settled pool entry) :
    method.WrittenTo owner version hierarchy pool entry := by
  have hutf8 := Pool.repeats_internUtf8
  have hlist := Annotation.repeats_writeList
  have hdefault := method.repeats_defaultAttribute
  obtain ⟨body, hbody, h⟩ := ((method.repeats_bodyAttribute owner version hierarchy).settled_bind
    fun _ => (hlist _ _).bind fun _ => (hlist _ _).bind fun _ => hdefault.bind fun _ =>
      (hutf8 _).bind fun _ => (hutf8 _).bind fun _ => .pure _).mp h
  obtain ⟨visible, hvisible, h⟩ := ((hlist _ _).settled_bind fun _ => (hlist _ _).bind fun _ =>
    hdefault.bind fun _ => (hutf8 _).bind fun _ => (hutf8 _).bind fun _ => .pure _).mp h
  obtain ⟨invisible, hinvisible, h⟩ := ((hlist _ _).settled_bind fun _ =>
    hdefault.bind fun _ => (hutf8 _).bind fun _ => (hutf8 _).bind fun _ => .pure _).mp h
  obtain ⟨default, hdefault, h⟩ := (hdefault.settled_bind fun _ => (hutf8 _).bind fun _ =>
    (hutf8 _).bind fun _ => .pure _).mp h
  obtain ⟨name, hname, h⟩ := ((hutf8 _).settled_bind fun _ => (hutf8 _).bind fun _ => .pure _).mp h
  obtain ⟨descriptor, hdescriptor, h⟩ := ((hutf8 _).settled_bind fun _ => .pure _).mp h
  obtain rfl := settled_pure.mp h
  exact ⟨rfl, hname, hdescriptor, body, visible, invisible, default, hbody, hvisible, hinvisible,
    hdefault, rfl⟩

/-- The attributes of a method in a class file, by what they hold. -/
structure SortedInto (method : Method) (owner : String) (version : Version) (hierarchy : Hierarchy)
    (pool : Pool) (attributes : List Attribute) : Prop where
  /-- The names of all attributes are known. -/
  named : ∀ attr ∈ attributes, ∃ name, pool.utf8 attr.name = .ok name
  /-- The body. -/
  body : (method.bodyAttribute owner version hierarchy).Settled pool
    (Attribute.withName pool CodeAttribute.name attributes)
  /-- The annotations visible at run time, if there are any. -/
  visible : ∃ attr?, ( Annotation.writeList Annotation.visibleAttribute method.visible).Settled pool attr? ∧
    Attribute.withName pool Annotation.visibleAttribute attributes = attr?.toList
  /-- The annotations invisible at run time, if there are any. -/
  invisible : ∃ attr?,
    ( Annotation.writeList Annotation.invisibleAttribute method.invisible).Settled pool attr? ∧
    Attribute.withName pool Annotation.invisibleAttribute attributes = attr?.toList
  /-- The default. -/
  default : method.defaultAttribute.Settled pool
    (Attribute.withName pool Annotation.defaultAttribute attributes)
  /-- The attributes that are copied. -/
  others : Attribute.without pool decodedNames attributes = method.attributes

/-- What was written for a method can be told from the names of the attributes, if no attribute that is
copied has the name of one that is decoded. -/
theorem WrittenTo.sorted (h : method.WrittenTo owner version hierarchy pool entry)
    (hraw : ∀ attr, method.body = .raw attr → pool.utf8 attr.name = .ok CodeAttribute.name)
    (hothers : ∀ attr ∈ method.attributes, ∃ name ∉ decodedNames, pool.utf8 attr.name = .ok name) :
    method.SortedInto owner version hierarchy pool entry.attributes := by
  obtain ⟨body, visible, invisible, default, hbody, hvisible, hinvisible, hdefault, heq⟩ := h.attributes
  have hcode : ∀ attr ∈ body, pool.utf8 attr.name = .ok CodeAttribute.name := by
    intro attr hmem
    cases hkind : method.body with
    | absent =>
      rw [bodyAttribute, hkind] at hbody
      obtain rfl := settled_pure.mp hbody
      cases hmem
    | raw attr' =>
      rw [bodyAttribute, hkind] at hbody
      obtain rfl := settled_pure.mp hbody
      obtain rfl := List.mem_singleton.mp hmem
      exact hraw attr hkind
    | edited _ => exact utf8_of_settled_bodyAttribute hkind hbody hmem
  have harranged : Arranged pool entry.attributes body method.attributes visible.toList
      invisible.toList default :=
    { eq_append := heq
      body := hcode
      others := hothers
      visible := fun _ => Annotation.utf8_of_settled_writeList hvisible
      invisible := fun _ => Annotation.utf8_of_settled_writeList hinvisible
      default := fun _ => utf8_of_settled_defaultAttribute hdefault }
  exact ⟨harranged.named, harranged.withName_code.symm ▸ hbody,
    ⟨visible, hvisible, harranged.withName_visible⟩,
    ⟨invisible, hinvisible, harranged.withName_invisible⟩,
    harranged.withName_default.symm ▸ hdefault, harranged.without_eq⟩

/-- A method is written as it was before if all that it asks for is there. -/
theorem WrittenTo.settled (h : method.WrittenTo owner version hierarchy pool entry) :
    (method.toEntry owner version hierarchy).Settled pool entry := by
  obtain ⟨body, visible, invisible, default, hbody, hvisible, hinvisible, hdefault, hattributes⟩ :=
    h.attributes
  refine hbody.bind (hvisible.bind (hinvisible.bind (hdefault.bind (h.name.bind
    (h.descriptor.bind (settled_pure.mpr ?_))))))
  obtain ⟨access, name, descriptor, attributes⟩ := entry
  obtain rfl := h.access_eq
  obtain rfl := hattributes
  rfl

end Method

/-! ## Classes -/

namespace ClassDecl

variable {decl : ClassDecl} {hierarchy : Hierarchy} {file : ClassFile}

/-- What a class was written to. -/
structure WrittenTo (decl : ClassDecl) (hierarchy : Hierarchy) (file : ClassFile) : Prop where
  /-- The table of constants has only grown. -/
  extends_pool : decl.pool.Extends file.pool
  version_eq : file.version = decl.version
  access_eq : file.access = decl.access
  fields_eq : file.fields = decl.fields
  name : (Pool.internClass decl.name).Settled file.pool file.thisClass
  superName : (decl.superName.mapM Pool.internClass).Settled file.pool file.superClass
  interfaces : List.Forall₂ (fun name index => (Pool.internClass name).Settled file.pool index)
    decl.interfaces file.interfaces
  methods : List.Forall₂ (fun method entry =>
    method.WrittenTo decl.name decl.version hierarchy file.pool entry) decl.methods file.methods
  /-- Attributes that are copied stand in front of what is written anew. -/
  attributes : ∃ visible invisible,
    ( Annotation.writeList Annotation.visibleAttribute decl.visible).Settled file.pool visible ∧
    ( Annotation.writeList Annotation.invisibleAttribute decl.invisible).Settled file.pool invisible ∧
    file.attributes = decl.attributes ++ visible.toList ++ invisible.toList

theorem repeats_intern (decl : ClassDecl) (hierarchy : Hierarchy) : (decl.intern hierarchy).Repeats :=
  have hclass := Pool.repeats_internClass
  have hlist := Annotation.repeats_writeList
  (hclass _).bind fun _ => (Repeats.optionMapM hclass _).bind fun _ => (Repeats.mapM hclass _).bind
    fun _ => (Repeats.mapM (fun method => method.repeats_toEntry _ _ hierarchy) _).bind fun _ =>
      (hlist _ _).bind fun _ => (hlist _ _).bind fun _ => .pure _

/-- When a class is written, constants are only added to its table. -/
theorem growsInto_of_toClassFile (h : decl.toClassFile hierarchy = .ok file) :
    decl.pool.GrowsInto file.pool := by
  obtain ⟨⟨flat, pool⟩, hfinish, h⟩ := bind_eq_ok.mp h
  obtain rfl := pure_eq_ok.mp h
  exact (decl.repeats_intern hierarchy).growsInto_of_finish hfinish

/-- A class is written piece by piece, and all its requests are settled in the table that is left. -/
theorem writtenTo_of_toClassFile (h : decl.toClassFile hierarchy = .ok file) :
    decl.WrittenTo hierarchy file := by
  obtain ⟨⟨flat, pool⟩, hfinish, h⟩ := bind_eq_ok.mp h
  obtain rfl := pure_eq_ok.mp h
  have hclass := Pool.repeats_internClass
  have hlist := Annotation.repeats_writeList
  have hsuper := Repeats.optionMapM hclass decl.superName
  have hinterfaces := Repeats.mapM hclass decl.interfaces
  have hmethods := Repeats.mapM
    (fun method => Method.repeats_toEntry method decl.name decl.version hierarchy) decl.methods
  have hrepeats := decl.repeats_intern hierarchy
  have hextends := hrepeats.extends_of_finish hfinish
  have h := hrepeats.settled hfinish
  obtain ⟨thisClass, hname, h⟩ := ((hclass _).settled_bind fun _ => hsuper.bind fun _ =>
    hinterfaces.bind fun _ => hmethods.bind fun _ => (hlist _ _).bind fun _ =>
      (hlist _ _).bind fun _ => .pure _).mp h
  obtain ⟨superClass, hsuperName, h⟩ := (hsuper.settled_bind fun _ => hinterfaces.bind fun _ =>
    hmethods.bind fun _ => (hlist _ _).bind fun _ => (hlist _ _).bind fun _ => .pure _).mp h
  obtain ⟨interfaces, hinterfaceNames, h⟩ := (hinterfaces.settled_bind fun _ =>
    hmethods.bind fun _ => (hlist _ _).bind fun _ => (hlist _ _).bind fun _ => .pure _).mp h
  obtain ⟨entries, hentries, h⟩ := (hmethods.settled_bind fun _ => (hlist _ _).bind fun _ =>
    (hlist _ _).bind fun _ => .pure _).mp h
  obtain ⟨visible, hvisible, h⟩ := ((hlist _ _).settled_bind fun _ => (hlist _ _).bind fun _ =>
    .pure _).mp h
  obtain ⟨invisible, hinvisible, h⟩ := ((hlist _ _).settled_bind fun _ => .pure _).mp h
  obtain rfl := settled_pure.mp h
  exact {
    extends_pool := hextends
    version_eq := rfl
    access_eq := rfl
    fields_eq := rfl
    name := hname
    superName := hsuperName
    interfaces := (Repeats.settled_mapM hclass).mp hinterfaceNames
    methods := ((Repeats.settled_mapM fun method =>
      Method.repeats_toEntry method decl.name decl.version hierarchy).mp hentries).imp
        fun _ _ => Method.writtenTo_of_settled
    attributes := ⟨visible, invisible, hvisible, hinvisible, rfl⟩ }

/-- What was written is written in the same way to a later table. -/
theorem WrittenTo.mono (h : decl.WrittenTo hierarchy file) {later : Pool}
    (hextends : file.pool.Extends later) : decl.WrittenTo hierarchy { file with pool := later } := by
  have hclass := Pool.repeats_internClass
  have hlist := Annotation.repeats_writeList
  obtain ⟨visible, invisible, hvisible, hinvisible, heq⟩ := h.attributes
  exact {
    extends_pool := h.extends_pool.trans hextends
    version_eq := h.version_eq
    access_eq := h.access_eq
    fields_eq := h.fields_eq
    name := (hclass _).settled_mono h.name hextends
    superName := (Repeats.optionMapM hclass _).settled_mono h.superName hextends
    interfaces := h.interfaces.imp fun name _ hname => (hclass name).settled_mono hname hextends
    methods := h.methods.imp fun method _ hmethod => Method.writtenTo_of_settled
      ((method.repeats_toEntry _ _ hierarchy).settled_mono hmethod.settled hextends)
    attributes := ⟨visible, invisible, (hlist _ _).settled_mono hvisible hextends,
      (hlist _ _).settled_mono hinvisible hextends, heq⟩ }

/-- The attributes of a class in a class file, by what they hold. -/
structure SortedInto (decl : ClassDecl) (pool : Pool) (attributes : List Attribute) : Prop where
  /-- The names of all attributes are known. -/
  named : ∀ attr ∈ attributes, ∃ name, pool.utf8 attr.name = .ok name
  /-- The annotations visible at run time, if there are any. -/
  visible : ∃ attr?, ( Annotation.writeList Annotation.visibleAttribute decl.visible).Settled pool attr? ∧
    Attribute.withName pool Annotation.visibleAttribute attributes = attr?.toList
  /-- The annotations invisible at run time, if there are any. -/
  invisible : ∃ attr?,
    ( Annotation.writeList Annotation.invisibleAttribute decl.invisible).Settled pool attr? ∧
    Attribute.withName pool Annotation.invisibleAttribute attributes = attr?.toList
  /-- The attributes that are copied. -/
  others : Attribute.without pool decodedNames attributes = decl.attributes

/-- What was written for a class can be told from the names of its attributes, if no attribute that is
copied has the name of one that is decoded. -/
theorem WrittenTo.sorted (h : decl.WrittenTo hierarchy file)
    (hothers : ∀ attr ∈ decl.attributes, ∃ name ∉ decodedNames, file.pool.utf8 attr.name = .ok name) :
    decl.SortedInto file.pool file.attributes := by
  obtain ⟨visible, invisible, hvisible, hinvisible, heq⟩ := h.attributes
  have harranged : Arranged file.pool file.attributes decl.attributes visible.toList invisible.toList :=
    { eq_append := heq
      others := hothers
      visible := fun _ => Annotation.utf8_of_settled_writeList hvisible
      invisible := fun _ => Annotation.utf8_of_settled_writeList hinvisible }
  exact ⟨harranged.named, ⟨visible, hvisible, harranged.withName_visible⟩,
    ⟨invisible, hinvisible, harranged.withName_invisible⟩, harranged.without_eq⟩

/-- A class is written without new constants if all that it asks for is there. -/
theorem toClassFile_of_writtenTo (h : decl.WrittenTo hierarchy file) (hpool : file.pool = decl.pool) :
    decl.toClassFile hierarchy = .ok file := by
  obtain ⟨visible, invisible, hvisible, hinvisible, hattributes⟩ := h.attributes
  have hinterfaces := (Repeats.settled_mapM Pool.repeats_internClass).mpr h.interfaces
  have hmethods := (Repeats.settled_mapM fun method =>
    Method.repeats_toEntry method decl.name decl.version hierarchy).mpr
      (h.methods.imp fun _ _ => Method.WrittenTo.settled)
  have hsettled : (decl.intern hierarchy).Settled file.pool file := by
    refine h.name.bind (h.superName.bind (hinterfaces.bind (hmethods.bind (hvisible.bind
      (hinvisible.bind (settled_pure.mpr ?_))))))
    obtain ⟨version, pool, access, thisClass, superClass, interfaces, fields, methods, attributes⟩ := file
    obtain rfl := h.version_eq
    obtain rfl := h.access_eq
    obtain rfl := h.fields_eq
    obtain rfl := hpool
    obtain rfl := hattributes
    rfl
  rw [hpool] at hsettled
  refine bind_eq_ok.mpr ⟨_, hsettled, ?_⟩
  rw [← hpool]
  rfl

end ClassDecl

end ClassInstrument
