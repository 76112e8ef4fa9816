import ClassInstrument.Classpath.Hierarchy
import ClassInstrument.Proofs.ClassDecl.FlatMarks
import ClassInstrument.Proofs.ClassFile.ReadBack

/-!
# Classes are read back

A class that is written is read back with its header, its annotations, and its methods in their order, if
all numbers of items and all lengths fit in their fields.
-/

namespace ClassInstrument

open Interning Outcome Reader

/-! ## Constants behind indices -/

namespace PoolReader

variable {pool : Pool} {index : PoolIndex}

/-- What needs no constants is read back as before. -/
theorem readsBack_ofReader {α : Type} {reader : Reader α} {value : α} {piece : Bytes}
    (h : ReadsBack reader value piece) : ReadsBack (ofReader reader) value piece := by
  intro rest
  unfold ofReader
  rw [h rest]

/-- What stands behind an index is found again. -/
theorem readsBack_lookup {α : Type} {lookup : PoolIndex → Except Fault α} {value : α}
    (h : lookup index = .ok value) : ReadsBack (do lookup (← ofReader Reader.u2) : PoolReader α) value
      (Bytes.u2 index) := by
  have hlookup : ReadsBack (liftM (lookup index) : PoolReader α) value [] := by
    rw [h]
    exact .pure value
  have hread : ReadsBack (do lookup (← ofReader Reader.u2) : PoolReader α) value
      (Bytes.u2 index ++ []) := (readsBack_ofReader (u2_append index)).bind hlookup
  rwa [List.append_nil] at hread

/-- The constant at an index is found again. -/
theorem readsBack_constant {constant : Constant} (h : pool.get index = .ok constant) :
    ReadsBack (PoolReader.constant pool) constant (Bytes.u2 index) := readsBack_lookup h

/-- The text at an index is found again. -/
theorem readsBack_utf8 {text : String} (h : pool.utf8 index = .ok text) :
    ReadsBack (PoolReader.utf8 pool) text (Bytes.u2 index) := readsBack_lookup h

/-- Items that are read back one by one are read back behind their number. -/
theorem readsBack_counted {α : Type} {read : PoolReader α} {items : List α} {pieces : List Bytes}
    (h : List.Forall₂ (ReadsBack read) items pieces) (hlength : items.length < 65536) :
    ReadsBack (do Reader.many read (← ofReader Reader.u2).toNat) items
      (Bytes.length2 items.length ++ pieces.flatten) := by
  have hcount : (UInt16.ofNat items.length).toNat = items.length :=
    UInt16.toNat_ofNat_of_lt' hlength
  have hmany := ReadsBack.many h
  rw [← hcount] at hmany
  rw [length2_eq hlength]
  exact (readsBack_ofReader (u2_append _)).bind hmany

/-- A piece that is read back is the whole contents of an attribute. -/
theorem whole_of_readsBack {α : Type} {reader : PoolReader α} {value : α} {info : Bytes}
    (h : ReadsBack reader value info) (name : String) : whole name reader info = .ok value := by
  have hread := h []
  rw [List.append_nil] at hread
  exact Outcome.bind_eq_ok.mpr ⟨_, hread, rfl⟩

end PoolReader

/-! ## Values -/

namespace ElementValue

mutual

/-- The numbers of properties and of elements fit in two bytes, however deep they nest. -/
def Fits : ElementValue → Prop
  | nested _ values => values.length < 65536 ∧ FitsValues values
  | array elements => elements.length < 65536 ∧ FitsElements elements
  | _ => True

/-- The elements of an array fit. -/
def FitsElements : List ElementValue → Prop
  | [] => True
  | element :: rest => element.Fits ∧ FitsElements rest

/-- The properties of an annotation fit. -/
def FitsValues : List (String × ElementValue) → Prop
  | [] => True
  | (_, value) :: rest => value.Fits ∧ FitsValues rest

end

variable {pool : Pool}

open PoolReader

/-- A value behind its tag is read back by what the tag stands for. -/
theorem readsBack_flat {depth : ℕ} {tag : UInt8} {value : ElementValue} {operands : Bytes}
    (hnested : tag ≠ 64) (harray : tag ≠ 91) (h : ReadsBack (readFlat pool tag) value operands) :
    ReadsBack (ElementValue.read pool (depth + 1)) value (tag :: operands) := by
  have hread : ReadsBack (ElementValue.read pool (depth + 1)) value ([tag] ++ operands) := by
    refine (readsBack_ofReader (.u1 tag)).bind ?_
    split
    · exact absurd rfl hnested
    · exact absurd rfl harray
    · exact h
  exact hread

/-- The written form of a value starts with a tag. -/
theorem ne_nil_of_settled {value : ElementValue} {bytes : Bytes} (h : value.write.Settled pool bytes) :
    bytes ≠ [] := by
  obtain ⟨flat, rfl, -⟩ := spells_of_settled value h
  cases flat <;> simp [FlatValue.write]

mutual

/-- A value that fits is read back, nested at most as deep as it has bytes. -/
theorem readsBack_of_settled (value : ElementValue) (hfits : value.Fits) {bytes : Bytes}
    (h : value.write.Settled pool bytes) {depth : ℕ} (hdepth : bytes.length ≤ depth) :
    ReadsBack (ElementValue.read pool depth) value bytes := by
  have hutf8 := Pool.repeats_internUtf8
  obtain _ | depth := depth
  · exact absurd (List.eq_nil_of_length_eq_zero (Nat.le_zero.mp hdepth)) (ne_nil_of_settled h)
  cases value with
  | int kind value =>
    obtain ⟨index, hindex, h⟩ := ((Repeats.intern _).settled_bind fun _ => .pure _).mp h
    obtain rfl := settled_pure.mp h
    refine readsBack_flat (by cases kind <;> decide) (by cases kind <;> decide) ?_
    unfold readFlat
    rw [IntKind.ofTag?_tag]
    exact (readsBack_constant (Pool.get_of_settled hindex)).bind (.pure _)
  | long value =>
    obtain ⟨index, hindex, h⟩ := ((Repeats.intern _).settled_bind fun _ => .pure _).mp h
    obtain rfl := settled_pure.mp h
    have hconstant := readsBack_constant (Pool.get_of_settled hindex)
    exact readsBack_flat (by decide) (by decide) (hconstant.bind (.pure _))
  | float bits =>
    obtain ⟨index, hindex, h⟩ := ((Repeats.intern _).settled_bind fun _ => .pure _).mp h
    obtain rfl := settled_pure.mp h
    have hconstant := readsBack_constant (Pool.get_of_settled hindex)
    exact readsBack_flat (by decide) (by decide) (hconstant.bind (.pure _))
  | double bits =>
    obtain ⟨index, hindex, h⟩ := ((Repeats.intern _).settled_bind fun _ => .pure _).mp h
    obtain rfl := settled_pure.mp h
    have hconstant := readsBack_constant (Pool.get_of_settled hindex)
    exact readsBack_flat (by decide) (by decide) (hconstant.bind (.pure _))
  | string text =>
    obtain ⟨index, hindex, h⟩ := ((hutf8 text).settled_bind fun _ => .pure _).mp h
    obtain rfl := settled_pure.mp h
    have htext := readsBack_utf8 (Pool.utf8_of_settled hindex)
    exact readsBack_flat (by decide) (by decide) htext.map
  | enum type constant =>
    obtain ⟨index, hindex, h⟩ := ((hutf8 type).settled_bind fun _ =>
      (hutf8 constant).bind fun _ => .pure _).mp h
    obtain ⟨index', hindex', h⟩ := ((hutf8 constant).settled_bind fun _ => .pure _).mp h
    obtain rfl := settled_pure.mp h
    have htype := readsBack_utf8 (Pool.utf8_of_settled hindex)
    have hconstant := readsBack_utf8 (Pool.utf8_of_settled hindex')
    exact readsBack_flat (by decide) (by decide) (htype.bind hconstant.map)
  | cls descriptor =>
    obtain ⟨index, hindex, h⟩ := ((hutf8 descriptor).settled_bind fun _ => .pure _).mp h
    obtain rfl := settled_pure.mp h
    have hdescriptor := readsBack_utf8 (Pool.utf8_of_settled hindex)
    exact readsBack_flat (by decide) (by decide) hdescriptor.map
  | nested descriptor values =>
    obtain ⟨index, hindex, h⟩ := ((hutf8 descriptor).settled_bind fun _ =>
      (repeats_writeValues values).bind fun _ => .pure _).mp h
    obtain ⟨written, hwritten, h⟩ := ((repeats_writeValues values).settled_bind fun _ => .pure _).mp h
    obtain rfl := settled_pure.mp h
    have hshorter : written.length ≤ depth := by
      simp [Bytes.length2] at hdepth
      omega
    obtain ⟨pieces, rfl, hpieces⟩ := readsBackValues_of_settled values hfits.2 hwritten hshorter
    have hdescriptor := readsBack_utf8 (Pool.utf8_of_settled hindex)
    have hread : ReadsBack (ElementValue.read pool (depth + 1)) (.nested descriptor values)
        ([64] ++ (Bytes.u2 index ++ (Bytes.length2 values.length ++ pieces.flatten))) :=
      (readsBack_ofReader (.u1 64)).bind (hdescriptor.bind
        (readsBack_counted hpieces hfits.1).map)
    simpa using hread
  | array elements =>
    obtain ⟨written, hwritten, h⟩ :=
      ((repeats_writeElements elements).settled_bind fun _ => .pure _).mp h
    obtain rfl := settled_pure.mp h
    have hshorter : written.length ≤ depth := by
      simp [Bytes.length2] at hdepth
      omega
    obtain ⟨pieces, rfl, hpieces⟩ := readsBackElements_of_settled elements hfits.2 hwritten hshorter
    have hcount : (UInt16.ofNat elements.length).toNat = elements.length :=
      UInt16.toNat_ofNat_of_lt' hfits.1
    have hmany := ReadsBack.many hpieces
    rw [← hcount] at hmany
    have hread : ReadsBack (ElementValue.read pool (depth + 1)) (.array elements)
        ([91] ++ (Bytes.u2 (UInt16.ofNat elements.length) ++ pieces.flatten)) :=
      (readsBack_ofReader (.u1 91)).bind ((readsBack_ofReader (u2_append _)).bind hmany.map)
    simpa [length2_eq hfits.1] using hread

theorem readsBackElements_of_settled (elements : List ElementValue) (hfits : FitsElements elements)
    {bytes : Bytes} (h : (writeElements elements).Settled pool bytes) {depth : ℕ}
    (hdepth : bytes.length ≤ depth) : ∃ pieces, bytes = pieces.flatten ∧
      List.Forall₂ (ReadsBack (ElementValue.read pool depth)) elements pieces := by
  cases elements with
  | nil =>
    obtain rfl := settled_pure.mp h
    exact ⟨[], rfl, .nil⟩
  | cons element rest =>
    obtain ⟨first, hfirst, h⟩ := ((repeats_write element).settled_bind fun _ =>
      (repeats_writeElements rest).bind fun _ => .pure _).mp h
    obtain ⟨others, hothers, h⟩ := ((repeats_writeElements rest).settled_bind fun _ => .pure _).mp h
    obtain rfl := settled_pure.mp h
    rw [List.length_append] at hdepth
    obtain ⟨pieces, rfl, hpieces⟩ := readsBackElements_of_settled rest hfits.2 hothers
      (Nat.le_of_add_left_le hdepth)
    exact ⟨first :: pieces, rfl, .cons (readsBack_of_settled element hfits.1 hfirst
      (Nat.le_of_add_right_le hdepth)) hpieces⟩

theorem readsBackValues_of_settled (values : List (String × ElementValue)) (hfits : FitsValues values)
    {bytes : Bytes} (h : (writeValues values).Settled pool bytes) {depth : ℕ}
    (hdepth : bytes.length ≤ depth) : ∃ pieces, bytes = pieces.flatten ∧
      List.Forall₂ (ReadsBack (readProperty pool (ElementValue.read pool depth))) values pieces := by
  cases values with
  | nil =>
    obtain rfl := settled_pure.mp h
    exact ⟨[], rfl, .nil⟩
  | cons property rest =>
    obtain ⟨index, hindex, h⟩ := ((Pool.repeats_internUtf8 property.1).settled_bind fun _ =>
      (repeats_write property.2).bind fun _ => (repeats_writeValues rest).bind fun _ => .pure _).mp h
    obtain ⟨first, hfirst, h⟩ := ((repeats_write property.2).settled_bind fun _ =>
      (repeats_writeValues rest).bind fun _ => .pure _).mp h
    obtain ⟨others, hothers, h⟩ := ((repeats_writeValues rest).settled_bind fun _ => .pure _).mp h
    obtain rfl := settled_pure.mp h
    simp only [List.length_append, Bytes.length_u2] at hdepth
    obtain ⟨pieces, rfl, hpieces⟩ := readsBackValues_of_settled rest hfits.2 hothers
      (show others.length ≤ depth by omega)
    have hvalue := readsBack_of_settled property.2 hfits.1 hfirst (show first.length ≤ depth by omega)
    refine ⟨(Bytes.u2 index ++ first) :: pieces, rfl, .cons ?_ hpieces⟩
    exact ReadsBack.bind (readsBack_utf8 (Pool.utf8_of_settled hindex)) (ReadsBack.map hvalue)

end

end ElementValue

/-! ## Annotations -/

namespace Annotation

variable {pool : Pool} {name : String} {marks : List Annotation} {attributes : List Attribute}

/-- The numbers of properties and of elements of an annotation fit in two bytes. -/
def Fits (mark : Annotation) : Prop :=
  mark.values.length < 65536 ∧ ElementValue.FitsValues mark.values

/-- The number of some annotations fits in two bytes, and each of them fits. -/
def FitsList (marks : List Annotation) : Prop :=
  marks.length < 65536 ∧ ∀ mark ∈ marks, mark.Fits

open PoolReader

/-- An annotation that fits is read back. -/
theorem readsBack_of_settled {mark : Annotation} (hfits : mark.Fits) {bytes : Bytes}
    (h : mark.write.Settled pool bytes) {depth : ℕ} (hdepth : bytes.length ≤ depth) :
    ReadsBack ( Annotation.read pool depth) mark bytes := by
  have hvalues := ElementValue.repeats_writeValues mark.values
  obtain ⟨index, hindex, h⟩ := ((Pool.repeats_internUtf8 mark.descriptor).settled_bind fun _ =>
    hvalues.bind fun _ => .pure _).mp h
  obtain ⟨written, hwritten, h⟩ := (hvalues.settled_bind fun _ => .pure _).mp h
  obtain rfl := settled_pure.mp h
  have hshorter : written.length ≤ depth := by
    rw [List.length_append] at hdepth
    omega
  obtain ⟨pieces, rfl, hpieces⟩ :=
    ElementValue.readsBackValues_of_settled mark.values hfits.2 hwritten hshorter
  rw [List.append_assoc]
  exact (readsBack_utf8 (Pool.utf8_of_settled hindex)).bind (readsBack_counted hpieces hfits.1).map

/-- Annotations that fit are read back from their attribute. -/
theorem readList_of_settled {attr : Attribute} (hfits : FitsList marks)
    (h : (writeList name marks).Settled pool (some attr)) : readList pool attr.info = .ok marks := by
  unfold writeList at h
  split at h
  · cases settled_pure.mp h
  · obtain ⟨pieces, hpieces, h⟩ := ((Repeats.mapM repeats_write marks).settled_bind fun _ =>
      (Attribute.repeats_make _ _).bind fun _ => .pure _).mp h
    obtain ⟨made, hmade, h⟩ := ((Attribute.repeats_make _ _).settled_bind fun _ => .pure _).mp h
    obtain rfl := Option.some.inj (settled_pure.mp h)
    obtain ⟨-, hinfo⟩ := Attribute.of_settled_make hmade
    have hmarks := (List.forall₂_and_left _ _).mpr
      ⟨hfits.2, (Repeats.settled_mapM repeats_write).mp hpieces⟩
    have hboth := (List.forall₂_and_left _ _).mpr ⟨fun piece (hmem : piece ∈ pieces) => hmem, hmarks.flip⟩
    have hread : List.Forall₂ (ReadsBack ( Annotation.read pool
        (Bytes.length2 marks.length ++ pieces.flatten).length)) marks pieces := by
      refine (hboth.imp fun piece mark h => ?_).flip
      obtain ⟨hmem, hmark, hwrite⟩ := h
      have hlength := (List.sublist_flatten_of_mem hmem).length_le
      refine readsBack_of_settled hmark hwrite ?_
      rw [List.length_append]
      omega
    rw [hinfo]
    exact whole_of_readsBack (readsBack_counted hread hfits.1) _

/-- Annotations that fit are read back from the attributes of their name. -/
theorem readAll_of_settled {attr? : Option Attribute} (hfits : FitsList marks)
    (h : (writeList name marks).Settled pool attr?)
    (hfound : Attribute.withName pool name attributes = attr?.toList) :
    readAll pool name attributes = .ok marks := by
  unfold readAll
  rw [hfound]
  cases attr? with
  | none =>
    rcases spellsList_of_settled h with ⟨rfl, -⟩ | ⟨_, hnone, -⟩
    · rfl
    · cases hnone
  | some attr =>
    have hread := mapM_eq_ok.mpr (.cons (readList_of_settled hfits h) .nil)
    exact bind_eq_ok.mpr ⟨_, hread, by simp [pure, Except.pure]⟩

/-- A default that fits is read back from its attribute. -/
theorem readDefault_of_settled {value : ElementValue} {attr : Attribute} (hfits : value.Fits)
    (h : (writeDefault value).Settled pool attr) : readDefault pool attr.info = .ok value := by
  obtain ⟨info, hinfo, hmade⟩ := (value.repeats_write.settled_bind fun _ =>
    Attribute.repeats_make _ _).mp h
  obtain ⟨-, rfl⟩ := Attribute.of_settled_make hmade
  exact whole_of_readsBack (value.readsBack_of_settled hfits hinfo le_rfl) _

end Annotation

/-! ## Methods -/

namespace Method

/-- The annotations and the default of a method fit. -/
structure MarksFit (method : Method) : Prop where
  visible : Annotation.FitsList method.visible
  invisible : Annotation.FitsList method.invisible
  default : ∀ value ∈ method.default, value.Fits

/-- Two methods are the same up to their bodies and to the attributes that are not decoded. -/
structure SameHeader (method other : Method) : Prop where
  access_eq : other.access = method.access
  name_eq : other.name = method.name
  descriptor_eq : other.descriptor = method.descriptor
  visible_eq : other.visible = method.visible
  invisible_eq : other.invisible = method.invisible
  default_eq : other.default = method.default

variable {pool : Pool} {entry : MethodEntry} {method : Method} {owner : String} {version : Version}
  {hierarchy : Hierarchy}

/-- A default that fits is read back from the only attribute of its name. -/
theorem readDefault_of_sorted
    (hsorted : method.SortedInto owner version hierarchy pool entry.attributes)
    (hfits : method.MarksFit) :
    Attribute.withName pool Annotation.defaultAttribute entry.attributes = [] ∧ method.default = none ∨
      ∃ attr value, Attribute.withName pool Annotation.defaultAttribute entry.attributes = [attr] ∧
        method.default = some value ∧ Annotation.readDefault pool attr.info = .ok value := by
  have hwrite := hsorted.default
  unfold defaultAttribute at hwrite
  cases hdefault : method.default with
  | none =>
    rw [hdefault] at hwrite
    exact .inl ⟨(settled_pure.mp hwrite).symm, rfl⟩
  | some value =>
    rw [hdefault] at hwrite
    have hrepeats := Annotation.repeats_writeDefault value
    obtain ⟨attr, hattr, hwrite⟩ := (hrepeats.settled_bind fun _ => .pure _).mp hwrite
    exact .inr ⟨attr, value, (settled_pure.mp hwrite).symm, rfl,
      Annotation.readDefault_of_settled (hfits.default value hdefault) hattr⟩

/-- A method that fits is read back. -/
theorem exists_ofEntry (hwritten : method.WrittenTo owner version hierarchy pool entry)
    (hsorted : method.SortedInto owner version hierarchy pool entry.attributes)
    (hfits : method.MarksFit) : ∃ other, ofEntry pool entry = .ok other ∧ method.SameHeader other := by
  have hname := Pool.utf8_of_settled hwritten.name
  have hdescriptor := Pool.utf8_of_settled hwritten.descriptor
  obtain ⟨attr?, hvisible, hfound⟩ := hsorted.visible
  obtain ⟨other?, hinvisible, hfound'⟩ := hsorted.invisible
  have hvisible := Annotation.readAll_of_settled hfits.visible hvisible hfound
  have hinvisible := Annotation.readAll_of_settled hfits.invisible hinvisible hfound'
  have hdefault := readDefault_of_sorted hsorted hfits
  have hnote : ∀ attr ∈ entry.attributes, ∀ state, ∃ next, note pool state attr = .ok next := by
    intro attr hmem state
    obtain ⟨name, hattr⟩ := hsorted.named attr hmem
    have hsame := Attribute.mem_withName hattr hmem
    refine exists_note hattr ?_ ?_
    · rintro (rfl | rfl)
      · exact Annotation.exists_readList_of_readAll hvisible hsame
      · exact Annotation.exists_readList_of_readAll hinvisible hsame
    · rintro rfl
      rcases hdefault with ⟨hnone, -⟩ | ⟨only, value, honly, -, hvalue⟩
      · exact absurd (hnone ▸ hsame) List.not_mem_nil
      · obtain rfl := List.mem_singleton.mp (honly ▸ hsame)
        exact ⟨value, hvalue⟩
  obtain ⟨other, hother⟩ := exists_foldlM_eq_ok hnote
    { access := entry.access, name := method.name, descriptor := method.descriptor }
  have hnotes := notes_of_foldlM hother
  refine ⟨other, bind_eq_ok.mpr ⟨_, hname, bind_eq_ok.mpr ⟨_, hdescriptor, hother⟩⟩, ?_⟩
  obtain ⟨marks, hmarks, hmarksEq⟩ := hnotes.visible
  obtain ⟨others, hothers, hothersEq⟩ := hnotes.invisible
  refine ⟨hnotes.access_eq.trans hwritten.access_eq, hnotes.name_eq, hnotes.descriptor_eq, ?_, ?_, ?_⟩
  · rw [hmarksEq, List.nil_append]
    exact Except.ok.inj (hmarks.symm.trans hvisible)
  · rw [hothersEq, List.nil_append]
    exact Except.ok.inj (hothers.symm.trans hinvisible)
  · have hlast := hnotes.default
    rcases hdefault with ⟨hnone, hwas⟩ | ⟨only, value, honly, hwas, hvalue⟩
    · rw [hnone] at hlast
      exact hlast.trans hwas.symm
    · rw [honly] at hlast
      obtain ⟨value', hvalue', heq⟩ := hlast
      rw [heq, hwas, Except.ok.inj (hvalue'.symm.trans hvalue)]

end Method

/-! ## Classes -/

namespace ClassDecl

/-- What holds of a class that was read, and stays so while its parts are edited: its table of constants is
built of constants, its flags are known, and no attribute that is copied is named like one that is decoded. -/
structure WellFormed (decl : ClassDecl) : Prop where
  pool : Pool.empty.GrowsInto decl.pool
  access : ClassAccess.ofBits decl.access.bits = decl.access
  methodAccess : ∀ method ∈ decl.methods, MethodAccess.ofBits method.access.bits = method.access
  attributes : ∀ attr ∈ decl.attributes, ∃ name ∉ decodedNames, decl.pool.utf8 attr.name = .ok name
  methodAttributes : ∀ method ∈ decl.methods, ∀ attr ∈ method.attributes,
    ∃ name ∉ Method.decodedNames, decl.pool.utf8 attr.name = .ok name
  /-- A body that was not opened has the name of bodies. -/
  bodies : ∀ method ∈ decl.methods, ∀ attr, method.body = .raw attr →
    decl.pool.utf8 attr.name = .ok CodeAttribute.name

/-- A class that was read is well-formed. -/
theorem wellFormed_of_parse {bytes : Bytes} {decl : ClassDecl} (h : ClassDecl.parse bytes = .ok decl) :
    decl.WellFormed := by
  obtain ⟨file, hfile, h⟩ := bind_eq_ok.mp h
  have hread := readFrom_of_ofClassFile h
  obtain ⟨haccess, hmethods⟩ := ClassFile.known_of_parse hfile
  have hmethod : ∀ method ∈ decl.methods, ∃ entry ∈ file.methods,
      Method.ReadFrom file.pool entry method := fun _ => exists_left_of_forall₂ hread.methods
  refine ⟨hread.pool_eq ▸ ClassFile.growsInto_of_parse hfile, hread.access_eq ▸ haccess, ?_,
    hread.pool_eq ▸ hread.attributes_named, ?_, ?_⟩
  · intro method hmem
    obtain ⟨entry, hentry, hfrom⟩ := hmethod method hmem
    rw [hfrom.notes.access_eq]
    exact hmethods entry hentry
  · intro method hmem
    obtain ⟨entry, -, hfrom⟩ := hmethod method hmem
    exact hread.pool_eq ▸ hfrom.attributes_named
  · intro method hmem attr hraw
    obtain ⟨entry, -, hfrom⟩ := hmethod method hmem
    rw [hread.pool_eq]
    exact Attribute.utf8_of_mem_withName hfrom.notes.named (hfrom.mem_of_raw hraw)

/-- The annotations of a class and of its methods fit. -/
structure MarksFit (decl : ClassDecl) : Prop where
  visible : Annotation.FitsList decl.visible
  invisible : Annotation.FitsList decl.invisible
  methods : ∀ method ∈ decl.methods, method.MarksFit

/-- Two classes are the same up to the bodies of their methods, their fields, and the attributes that are
not decoded. -/
structure SameHeader (decl other : ClassDecl) : Prop where
  version_eq : other.version = decl.version
  access_eq : other.access = decl.access
  name_eq : other.name = decl.name
  superName_eq : other.superName = decl.superName
  interfaces_eq : other.interfaces = decl.interfaces
  visible_eq : other.visible = decl.visible
  invisible_eq : other.invisible = decl.invisible
  methods : List.Forall₂ Method.SameHeader decl.methods other.methods

variable {decl : ClassDecl} {hierarchy : Hierarchy} {file : ClassFile}

/-- A class that was written is read from its flat form, if its annotations fit. -/
theorem exists_ofClassFile (hwritten : decl.WrittenTo hierarchy file) (hwell : decl.WellFormed)
    (hfits : decl.MarksFit) : ∃ other, ofClassFile file = .ok other ∧ decl.SameHeader other := by
  have hextends := hwritten.extends_pool
  have hsorted := hwritten.sorted fun attr hmem => by
    obtain ⟨name, hnot, hname⟩ := hwell.attributes attr hmem
    exact ⟨name, hnot, hextends.utf8 hname⟩
  -- the header
  have hname := Pool.className_of_settled hwritten.name
  have hsuper : file.superClass.mapM file.pool.className = .ok decl.superName := by
    have hrel := (Repeats.settled_optionMapM Pool.repeats_internClass).mp hwritten.superName
    generalize decl.superName = name?, file.superClass = index? at hrel
    cases hrel with
    | none => rfl
    | some hindex => exact bind_eq_ok.mpr ⟨_, Pool.className_of_settled hindex, rfl⟩
  have hinterfaces : file.interfaces.mapM file.pool.className = .ok decl.interfaces :=
    mapM_eq_ok.mpr (hwritten.interfaces.imp fun _ _ => Pool.className_of_settled).flip
  -- the annotations
  obtain ⟨attr?, hvisible, hfound⟩ := hsorted.visible
  obtain ⟨other?, hinvisible, hfound'⟩ := hsorted.invisible
  have hvisible := Annotation.readAll_of_settled hfits.visible hvisible hfound
  have hinvisible := Annotation.readAll_of_settled hfits.invisible hinvisible hfound'
  have hnote : ∀ attr ∈ file.attributes, ∀ state, ∃ next, note file.pool state attr = .ok next := by
    intro attr hmem state
    obtain ⟨name, hattr⟩ := hsorted.named attr hmem
    have hsame := Attribute.mem_withName hattr hmem
    refine exists_note hattr ?_
    rintro (rfl | rfl)
    · exact Annotation.exists_readList_of_readAll hvisible hsame
    · exact Annotation.exists_readList_of_readAll hinvisible hsame
  -- the methods
  have hmethod : ∀ method ∈ decl.methods, ∀ entry,
      method.WrittenTo decl.name decl.version hierarchy file.pool entry →
      ∃ other, Method.ofEntry file.pool entry = .ok other ∧ method.SameHeader other := by
    intro method hmem entry hentry
    refine Method.exists_ofEntry hentry (hentry.sorted ?_ ?_) (hfits.methods method hmem)
    · exact fun attr hraw => hextends.utf8 (hwell.bodies method hmem attr hraw)
    · intro attr hattr
      obtain ⟨name, hnot, hname⟩ := hwell.methodAttributes method hmem attr hattr
      exact ⟨name, hnot, hextends.utf8 hname⟩
  obtain ⟨noted, hnoted⟩ := exists_foldlM_eq_ok hnote
    { version := file.version, pool := file.pool, access := file.access, name := decl.name
      superName := decl.superName, interfaces := decl.interfaces, fields := file.fields }
  obtain ⟨others, hothers, hsame⟩ := exists_mapM_eq_ok (((List.forall₂_and_left _ _).mpr
    ⟨fun method hmem => hmem, hwritten.methods⟩).imp fun method entry h => hmethod method h.1 entry h.2)
  have hread : ofClassFile file = .ok { noted with methods := others } :=
    bind_eq_ok.mpr ⟨_, hname, bind_eq_ok.mpr ⟨_, hsuper, bind_eq_ok.mpr ⟨_, hinterfaces,
      bind_eq_ok.mpr ⟨_, hnoted, bind_eq_ok.mpr ⟨_, hothers, rfl⟩⟩⟩⟩⟩
  have hfrom := readFrom_of_ofClassFile hread
  exact ⟨_, hread, {
    version_eq := hfrom.version_eq.trans hwritten.version_eq
    access_eq := hfrom.access_eq.trans hwritten.access_eq
    name_eq := Except.ok.inj (hfrom.name.symm.trans hname)
    superName_eq := Except.ok.inj (hfrom.superName.symm.trans hsuper)
    interfaces_eq := Except.ok.inj (hfrom.interfaces.symm.trans hinterfaces)
    visible_eq := Except.ok.inj (hfrom.visible.symm.trans hvisible)
    invisible_eq := Except.ok.inj (hfrom.invisible.symm.trans hinvisible)
    methods := hsame }⟩

/-- No class stands at the index that stands for none. -/
theorem WrittenTo.superClass_ne (h : decl.WrittenTo hierarchy file) : file.superClass ≠ some 0 := by
  have hrel := (Repeats.settled_optionMapM Pool.repeats_internClass).mp h.superName
  intro hzero
  generalize decl.superName = name? at hrel
  rw [hzero] at hrel
  obtain ⟨hindex⟩ := hrel
  obtain ⟨constant, hget, -⟩ := bind_eq_ok.mp (Pool.className_of_settled hindex)
  rw [Pool.get, show file.pool.slots[(0 : PoolIndex).toNat]? = some none from file.pool.valid.zero_eq] at hget
  cases hget

/-- A class is read back as it was written, but for bodies, if all numbers of items and all lengths fit: in the
class file, and in the annotations. -/
theorem parse_of_toClassFile (hwell : decl.WellFormed) (hwrite : decl.toClassFile hierarchy = .ok file)
    (hfits : file.Fits) (hmarks : decl.MarksFit) :
    decl.toBytes hierarchy = .ok file.write ∧
      ∃ other, ClassDecl.parse file.write = .ok other ∧ decl.SameHeader other := by
  have hwritten := writtenTo_of_toClassFile hwrite
  have hgrown := hwell.pool.trans (growsInto_of_toClassFile hwrite)
  have hmethods : ∀ entry ∈ file.methods, MethodAccess.ofBits entry.access.bits = entry.access := by
    intro entry hmem
    obtain ⟨method, hmethod, hentry⟩ := exists_left_of_forall₂ hwritten.methods hmem
    rw [hentry.access_eq]
    exact hwell.methodAccess method hmethod
  obtain ⟨later, hslots, hparse⟩ := ClassFile.parse_write hfits hgrown
    (hwritten.access_eq ▸ hwell.access) hmethods hwritten.superClass_ne
  have hextends : file.pool.Extends later := by
    rw [Pool.Extends, hslots]
  obtain ⟨other, hother, hsame⟩ := exists_ofClassFile (hwritten.mono hextends) hwell hmarks
  exact ⟨bind_eq_ok.mpr ⟨file, hwrite, rfl⟩, other, bind_eq_ok.mpr ⟨_, hparse, hother⟩, hsame⟩

end ClassDecl

/-- An annotation interface that carries an annotation with another one in it, and has a property with a list
as its default. -/
def defaultSample : Bytes :=
  ClassFile.magic ++ [0, 0, 0, 52] ++
    -- "A", the class "A", "v", "()[I"
    [0, 10, 1, 0, 1, 65, 7, 0, 1, 1, 0, 1, 118, 1, 0, 4, 40, 41, 91, 73] ++
    -- the name of the attribute that holds the default, and the number in it
    [1, 0, 17, 65, 110, 110, 111, 116, 97, 116, 105, 111, 110, 68, 101, 102, 97, 117, 108, 116] ++
    [3, 0, 0, 0, 7] ++
    -- the name of the attribute that lists annotations, "LM;" and "w"
    [1, 0, 25, 82, 117, 110, 116, 105, 109, 101, 86, 105, 115, 105, 98, 108, 101, 65, 110, 110, 111, 116,
      97, 116, 105, 111, 110, 115, 1, 0, 3, 76, 77, 59, 1, 0, 1, 119] ++
    [0x26, 0x01, 0, 2, 0, 0, 0, 0, 0, 0] ++
    [0, 1, 4, 1, 0, 3, 0, 4, 0, 1, 0, 5, 0, 0, 0, 6, 91, 0, 1, 73, 0, 6] ++
    [0, 1, 0, 7, 0, 0, 0, 13, 0, 1, 0, 8, 0, 1, 0, 9, 64, 0, 8, 0, 0]

/-- The constants of the interface. -/
def defaultPool : Pool := ((ClassFile.parse defaultSample).toOption.get rfl).pool

/-- The property of the interface. -/
def defaultMethod : Method where
  access := ⟨0x0401⟩
  name := "v"
  descriptor := "()[I"
  default := some (.array [.int .int 7])

/-- The interface in its editable form. -/
def defaultInterface : ClassDecl where
  version := ⟨52, 0⟩
  pool := defaultPool
  access := ⟨0x2601⟩
  name := "A"
  superName := none
  methods := [defaultMethod]
  visible := [⟨"LM;", [("w", .nested "LM;" [])]⟩]

/-- The interface in its flat form. -/
def defaultFile : ClassFile where
  version := ⟨52, 0⟩
  pool := defaultPool
  access := ⟨0x2601⟩
  thisClass := 2
  superClass := none
  interfaces := []
  fields := []
  methods := [⟨⟨0x0401⟩, 3, 4, [⟨5, [91, 0, 1, 73, 0, 6]⟩]⟩]
  attributes := [⟨7, [0, 1, 0, 8, 0, 1, 0, 9, 64, 0, 8, 0, 0]⟩]

/-- A text that a slot of the interface holds, and no earlier one, is asked for there. -/
theorem settled_defaultPool (text : String) (index : PoolIndex)
    (hheld : defaultPool.slots[index.toNat]? = some (some (.utf8 (ModifiedUtf8.encode text))))
    (hfirst : ∀ earlier < index.toNat,
      defaultPool.slots[earlier]? ≠ some (some (.utf8 (ModifiedUtf8.encode text)))) :
    (Pool.internUtf8 text).Settled defaultPool index :=
  Pool.settled_intern_iff.mpr ⟨hheld, hfirst⟩

/-- The constants of the default are there. -/
theorem settled_writeDefault_defaultPool :
    ( Annotation.writeDefault (.array [.int .int 7])).Settled defaultPool ⟨5, [91, 0, 1, 73, 0, 6]⟩ := by
  have hnumber : (Pool.intern (.integer 7)).Settled defaultPool 6 :=
    Pool.settled_intern_iff.mpr ⟨by decide +kernel, by decide +kernel⟩
  have helement : (ElementValue.int .int 7).write.Settled defaultPool [73, 0, 6] :=
    hnumber.bind (settled_pure.mpr rfl)
  have hend : (ElementValue.writeElements []).Settled defaultPool [] := settled_pure.mpr rfl
  have helements : (ElementValue.writeElements [.int .int 7]).Settled defaultPool [73, 0, 6] :=
    helement.bind (hend.bind (settled_pure.mpr rfl))
  have hvalue : (ElementValue.array [.int .int 7]).write.Settled defaultPool [91, 0, 1, 73, 0, 6] :=
    helements.bind (settled_pure.mpr rfl)
  have hmake : ( Attribute.make Annotation.defaultAttribute [91, 0, 1, 73, 0, 6]).Settled defaultPool
      ⟨5, [91, 0, 1, 73, 0, 6]⟩ :=
    (settled_defaultPool _ 5 (by decide +kernel) (by decide +kernel)).bind (settled_pure.mpr rfl)
  exact hvalue.bind hmake

/-- The constants of the annotation are there. -/
theorem settled_writeList_defaultPool :
    ( Annotation.writeList Annotation.visibleAttribute [⟨"LM;", [("w", .nested "LM;" [])]⟩]).Settled
      defaultPool (some ⟨7, [0, 1, 0, 8, 0, 1, 0, 9, 64, 0, 8, 0, 0]⟩) := by
  have hmark : (Pool.internUtf8 "LM;").Settled defaultPool 8 :=
    settled_defaultPool "LM;" 8 (by decide +kernel) (by decide +kernel)
  have hvalues : (ElementValue.writeValues []).Settled defaultPool [] := settled_pure.mpr rfl
  have hnested : (ElementValue.nested "LM;" []).write.Settled defaultPool [64, 0, 8, 0, 0] :=
    hmark.bind (hvalues.bind (settled_pure.mpr rfl))
  have hproperty : (ElementValue.writeValues [("w", .nested "LM;" [])]).Settled defaultPool
      [0, 9, 64, 0, 8, 0, 0] :=
    (settled_defaultPool "w" 9 (by decide +kernel) (by decide +kernel)).bind
      (hnested.bind (hvalues.bind (settled_pure.mpr rfl)))
  have hwritten : ( Annotation.write ⟨"LM;", [("w", .nested "LM;" [])]⟩).Settled defaultPool
      [0, 8, 0, 1, 0, 9, 64, 0, 8, 0, 0] := hmark.bind (hproperty.bind (settled_pure.mpr rfl))
  have hpieces : (defaultInterface.visible.mapM Annotation.write).Settled defaultPool
      [[0, 8, 0, 1, 0, 9, 64, 0, 8, 0, 0]] :=
    (Repeats.settled_mapM Annotation.repeats_write).mpr (.cons hwritten .nil)
  have hlist : ( Attribute.make Annotation.visibleAttribute [0, 1, 0, 8, 0, 1, 0, 9, 64, 0, 8, 0, 0]).Settled
      defaultPool ⟨7, [0, 1, 0, 8, 0, 1, 0, 9, 64, 0, 8, 0, 0]⟩ :=
    (settled_defaultPool _ 7 (by decide +kernel) (by decide +kernel)).bind (settled_pure.mpr rfl)
  exact hpieces.bind (hlist.bind (settled_pure.mpr rfl))

/-- All constants of the interface are there. -/
theorem toClassFile_defaultInterface (hierarchy : Hierarchy) :
    defaultInterface.toClassFile hierarchy = .ok defaultFile := by
  have hnone : ∀ name, ( Annotation.writeList name []).Settled defaultPool none := fun _ =>
    settled_pure.mpr rfl
  have hclass : (Pool.internClass "A").Settled defaultPool 2 :=
    (settled_defaultPool "A" 1 (by decide +kernel) (by decide +kernel)).bind
      (Pool.settled_intern_iff.mpr ⟨by decide +kernel, by decide +kernel⟩)
  have hdefault : defaultMethod.defaultAttribute.Settled defaultPool [⟨5, [91, 0, 1, 73, 0, 6]⟩] :=
    settled_writeDefault_defaultPool.bind (settled_pure.mpr rfl)
  have hmethod : defaultMethod.WrittenTo "A" ⟨52, 0⟩ hierarchy defaultPool
      ⟨⟨0x0401⟩, 3, 4, [⟨5, [91, 0, 1, 73, 0, 6]⟩]⟩ :=
    ⟨rfl, settled_defaultPool "v" 3 (by decide +kernel) (by decide +kernel),
      settled_defaultPool "()[I" 4 (by decide +kernel) (by decide +kernel), [], none, none,
      [⟨5, [91, 0, 1, 73, 0, 6]⟩], settled_pure.mpr rfl, hnone _, hnone _, hdefault, rfl⟩
  exact ClassDecl.toClassFile_of_writtenTo ⟨.refl _, rfl, rfl, rfl, hclass, settled_pure.mpr rfl, .nil,
    .cons hmethod .nil, _, none, settled_writeList_defaultPool, hnone _, rfl⟩ rfl

/-- An annotation interface is read back. -/
theorem ClassDecl.parse_defaultInterface : defaultInterface.WellFormed ∧
    defaultInterface.toClassFile Classpath.empty.hierarchy = .ok defaultFile ∧ defaultFile.Fits ∧
    defaultInterface.MarksFit ∧
    defaultInterface.toBytes Classpath.empty.hierarchy = .ok defaultFile.write ∧
    ∃ other, ClassDecl.parse defaultFile.write = .ok other ∧ defaultInterface.SameHeader other := by
  have hparse : ClassDecl.parse defaultSample = .ok defaultInterface := rfl
  have hwell := wellFormed_of_parse hparse
  have hwrite := toClassFile_defaultInterface Classpath.empty.hierarchy
  have hfits : defaultFile.Fits := {
    pool := by decide +kernel
    constants := by decide +kernel
    interfaces := by decide
    fields := by simp [defaultFile]
    methods := ⟨by decide, by simp only [defaultFile, List.forall_mem_singleton]; exact ⟨by decide, by decide⟩⟩
    attributes := ⟨by decide, by decide⟩ }
  have hvalue : ElementValue.Fits (.array [.int .int 7]) := ⟨by decide, trivial, trivial⟩
  have hmark : Annotation.Fits ⟨"LM;", [("w", .nested "LM;" [])]⟩ :=
    ⟨by decide, ⟨by decide, trivial⟩, trivial⟩
  have hnone : Annotation.FitsList [] := ⟨by decide, by simp⟩
  have hmarks : defaultInterface.MarksFit := {
    visible := ⟨by decide, by simpa [defaultInterface] using hmark⟩
    invisible := hnone
    methods := by
      simp only [defaultInterface, List.forall_mem_singleton]
      exact ⟨hnone, hnone, by simpa [defaultMethod] using hvalue⟩ }
  exact ⟨hwell, hwrite, hfits, hmarks, parse_of_toClassFile hwell hwrite hfits hmarks⟩

end ClassInstrument
