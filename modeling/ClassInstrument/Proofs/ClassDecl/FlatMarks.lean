import ClassInstrument.Proofs.ClassDecl.Reading
import ClassInstrument.Proofs.ClassDecl.Writing
import ClassInstrument.Proofs.ClassFile.Taking

/-!
# Annotations by index

In a class file an annotation holds the indices of its texts and numbers.  `FlatValue` and `FlatMark` are
the values and the annotations in this form.  Both the bytes that are read and the bytes that are written
are flat forms, and their texts are those of the value, one by one and in the same order: `Spells` says so
with any relation between texts and indices, so that there is one lemma for each kind of value.
-/

namespace ClassInstrument

open Interning Outcome

/-! ## Flat forms -/

/-- The value of a property, with indices in the place of its texts and numbers. -/
inductive FlatValue where
  /-- The index of a number of type `int` or narrower, or of a truth value. -/
  | int (kind : IntKind) (index : PoolIndex)
  /-- The index of a number of type `long`. -/
  | long (index : PoolIndex)
  /-- The index of a number of type `float`. -/
  | float (index : PoolIndex)
  /-- The index of a number of type `double`. -/
  | double (index : PoolIndex)
  /-- The index of a text. -/
  | string (text : PoolIndex)
  /-- The indices of the type and of the name of a constant of an enumeration. -/
  | enum (type constant : PoolIndex)
  /-- The index of the descriptor of a class. -/
  | cls (descriptor : PoolIndex)
  /-- An annotation with its properties. -/
  | nested (descriptor : PoolIndex) (values : List (PoolIndex × FlatValue))
  /-- A list of values. -/
  | array (elements : List FlatValue)

namespace FlatValue

mutual

/-- The written form of a flat value. -/
def write : FlatValue → Bytes
  | int kind index => kind.tag :: Bytes.u2 index
  | long index => 74 :: Bytes.u2 index
  | float index => 70 :: Bytes.u2 index
  | double index => 68 :: Bytes.u2 index
  | string text => 115 :: Bytes.u2 text
  | enum type constant => 101 :: Bytes.u2 type ++ Bytes.u2 constant
  | cls descriptor => 99 :: Bytes.u2 descriptor
  | nested descriptor values =>
    64 :: Bytes.u2 descriptor ++ Bytes.length2 values.length ++ writeValues values
  | array elements => 91 :: Bytes.length2 elements.length ++ writeElements elements

/-- The written forms of the elements of an array. -/
def writeElements : List FlatValue → Bytes
  | [] => []
  | element :: rest => element.write ++ writeElements rest

/-- The written forms of the properties of an annotation. -/
def writeValues : List (PoolIndex × FlatValue) → Bytes
  | [] => []
  | (name, value) :: rest => Bytes.u2 name ++ value.write ++ writeValues rest

end

mutual

/-- The indices of the texts of a value, in the order in which they are written. -/
def texts : FlatValue → List PoolIndex
  | int .. | long _ | float _ | double _ => []
  | string text => [text]
  | enum type constant => [type, constant]
  | cls descriptor => [descriptor]
  | nested descriptor values => descriptor :: valueTexts values
  | array elements => elementTexts elements

/-- The indices of the texts of the elements of an array. -/
def elementTexts : List FlatValue → List PoolIndex
  | [] => []
  | element :: rest => element.texts ++ elementTexts rest

/-- The indices of the texts of the properties of an annotation, their names among them. -/
def valueTexts : List (PoolIndex × FlatValue) → List PoolIndex
  | [] => []
  | (name, value) :: rest => name :: value.texts ++ valueTexts rest

end

end FlatValue

/-- An annotation with indices in the place of its texts and numbers. -/
structure FlatMark where
  /-- The index of the descriptor of the annotation interface. -/
  descriptor : PoolIndex
  /-- The properties, each with the index of its name. -/
  values : List (PoolIndex × FlatValue)

namespace FlatMark

/-- The written form of a flat annotation. -/
def write (mark : FlatMark) : Bytes :=
  Bytes.u2 mark.descriptor ++ Bytes.length2 mark.values.length ++ FlatValue.writeValues mark.values

/-- The indices of the texts of an annotation. -/
def texts (mark : FlatMark) : List PoolIndex := mark.descriptor :: FlatValue.valueTexts mark.values

end FlatMark

/-! ## Texts of values -/

namespace ElementValue

mutual

/-- The texts of a value, in the order in which they are written. -/
def texts : ElementValue → List String
  | int .. | long _ | float _ | double _ => []
  | string text => [text]
  | enum type constant => [type, constant]
  | cls descriptor => [descriptor]
  | nested descriptor values => descriptor :: valueTexts values
  | array elements => elementTexts elements

/-- The texts of the elements of an array. -/
def elementTexts : List ElementValue → List String
  | [] => []
  | element :: rest => element.texts ++ elementTexts rest

/-- The texts of the properties of an annotation, their names among them. -/
def valueTexts : List (String × ElementValue) → List String
  | [] => []
  | (name, value) :: rest => name :: value.texts ++ valueTexts rest

end

end ElementValue

/-- The texts of an annotation. -/
def Annotation.texts (mark : Annotation) : List String :=
  mark.descriptor :: ElementValue.valueTexts mark.values

/-! ## Spelling -/

variable {named : String → PoolIndex → Prop} {pool : Pool} {bytes : Bytes}

namespace ElementValue

/-- Bytes are a flat form of a value, whose texts have the names of the indices. -/
def Spells (named : String → PoolIndex → Prop) (value : ElementValue) (bytes : Bytes) : Prop :=
  ∃ flat : FlatValue, bytes = flat.write ∧ List.Forall₂ named value.texts flat.texts

/-- Bytes are flat forms of the elements of an array. -/
def SpellsElements (named : String → PoolIndex → Prop) (elements : List ElementValue)
    (bytes : Bytes) : Prop :=
  ∃ flats : List FlatValue, flats.length = elements.length ∧ bytes = FlatValue.writeElements flats ∧
    List.Forall₂ named (elementTexts elements) (FlatValue.elementTexts flats)

/-- Bytes are the index of the name of a property and some form of its value. -/
def FormsProperty (named : String → PoolIndex → Prop) (form : ElementValue → Bytes → Prop)
    (property : String × ElementValue) (bytes : Bytes) : Prop :=
  ∃ index more, named property.1 index ∧ form property.2 more ∧ bytes = Bytes.u2 index ++ more

/-- Bytes are the index of the name of a property and a flat form of its value. -/
def SpellsProperty (named : String → PoolIndex → Prop) : String × ElementValue → Bytes → Prop :=
  FormsProperty named (Spells named)

/-- Bytes are flat forms of the properties of an annotation. -/
def SpellsValues (named : String → PoolIndex → Prop) (values : List (String × ElementValue))
    (bytes : Bytes) : Prop :=
  ∃ flats : List (PoolIndex × FlatValue), flats.length = values.length ∧
    bytes = FlatValue.writeValues flats ∧
    List.Forall₂ named (valueTexts values) (FlatValue.valueTexts flats)

theorem Spells.string {text : String} {index : PoolIndex} (h : named text index) :
    Spells named (.string text) (115 :: Bytes.u2 index) :=
  ⟨.string index, rfl, .cons h .nil⟩

theorem Spells.enum {type constant : String} {index index' : PoolIndex} (h : named type index)
    (h' : named constant index') :
    Spells named (.enum type constant) (101 :: Bytes.u2 index ++ Bytes.u2 index') :=
  ⟨.enum index index', rfl, .cons h (.cons h' .nil)⟩

theorem Spells.cls {descriptor : String} {index : PoolIndex} (h : named descriptor index) :
    Spells named (.cls descriptor) (99 :: Bytes.u2 index) :=
  ⟨.cls index, rfl, .cons h .nil⟩

theorem Spells.nested {descriptor : String} {values : List (String × ElementValue)}
    {index : PoolIndex} (h : named descriptor index) (hvalues : SpellsValues named values bytes) :
    Spells named (.nested descriptor values)
      (64 :: Bytes.u2 index ++ Bytes.length2 values.length ++ bytes) := by
  obtain ⟨flats, hlength, rfl, htexts⟩ := hvalues
  exact ⟨.nested index flats, by rw [FlatValue.write, hlength], .cons h htexts⟩

theorem Spells.array {elements : List ElementValue} (h : SpellsElements named elements bytes) :
    Spells named (.array elements) (91 :: Bytes.length2 elements.length ++ bytes) := by
  obtain ⟨flats, hlength, rfl, htexts⟩ := h
  exact ⟨.array flats, by rw [FlatValue.write, hlength], htexts⟩

theorem SpellsElements.nil : SpellsElements named [] [] := ⟨[], rfl, rfl, .nil⟩

theorem SpellsElements.cons {element : ElementValue} {elements : List ElementValue} {more : Bytes}
    (h : Spells named element bytes) (hothers : SpellsElements named elements more) :
    SpellsElements named (element :: elements) (bytes ++ more) := by
  obtain ⟨flat, rfl, htexts⟩ := h
  obtain ⟨flats, hlength, rfl, hmore⟩ := hothers
  exact ⟨flat :: flats, congrArg Nat.succ hlength, rfl, List.rel_append htexts hmore⟩

/-- Flat forms one after the other make up a flat form of the elements of an array. -/
theorem SpellsElements.of_forall₂ {elements : List ElementValue} {pieces : List Bytes}
    (h : List.Forall₂ (Spells named) elements pieces) :
    SpellsElements named elements pieces.flatten := by
  induction h with
  | nil => exact .nil
  | cons hfirst _ ih => exact .cons hfirst ih

theorem SpellsValues.nil : SpellsValues named [] [] := ⟨[], rfl, rfl, .nil⟩

theorem SpellsValues.cons {property : String × ElementValue} {values : List (String × ElementValue)}
    {more : Bytes} (h : SpellsProperty named property bytes)
    (hothers : SpellsValues named values more) :
    SpellsValues named (property :: values) (bytes ++ more) := by
  obtain ⟨index, _, hname, ⟨flat, rfl, htexts⟩, rfl⟩ := h
  obtain ⟨flats, hlength, rfl, hmore⟩ := hothers
  exact ⟨(index, flat) :: flats, congrArg Nat.succ hlength, rfl,
    List.rel_append (.cons hname htexts) hmore⟩

/-- Properties one after the other make up a flat form of the properties of an annotation. -/
theorem SpellsValues.of_forall₂ {values : List (String × ElementValue)} {pieces : List Bytes}
    (h : List.Forall₂ (SpellsProperty named) values pieces) :
    SpellsValues named values pieces.flatten := by
  induction h with
  | nil => exact .nil
  | cons hfirst _ ih => exact .cons hfirst ih

end ElementValue

/-- Bytes are a flat form of an annotation. -/
def Annotation.Spells (named : String → PoolIndex → Prop) (mark : Annotation) (bytes : Bytes) : Prop :=
  ∃ flat : FlatMark, bytes = flat.write ∧ List.Forall₂ named mark.texts flat.texts

/-- Bytes are a flat form of a list of annotations, with their number in front. -/
def Annotation.SpellsList (named : String → PoolIndex → Prop) (marks : List Annotation)
    (bytes : Bytes) : Prop :=
  ∃ flats : List FlatMark, bytes = Bytes.list FlatMark.write flats ∧
    List.Forall₂ named (marks.flatMap texts) (flats.flatMap FlatMark.texts)

theorem Annotation.Spells.of_values {mark : Annotation} {index : PoolIndex}
    (h : named mark.descriptor index) (hvalues : ElementValue.SpellsValues named mark.values bytes) :
    mark.Spells named (Bytes.u2 index ++ Bytes.length2 mark.values.length ++ bytes) := by
  obtain ⟨flats, hlength, rfl, htexts⟩ := hvalues
  exact ⟨⟨index, flats⟩, by rw [FlatMark.write, hlength], .cons h htexts⟩

/-- Flat forms of annotations one after the other make up a flat form of their list. -/
theorem Annotation.SpellsList.of_forall₂ {marks : List Annotation} {pieces : List Bytes}
    (h : List.Forall₂ (Spells named) marks pieces) :
    SpellsList named marks (Bytes.length2 marks.length ++ pieces.flatten) := by
  have hflats : ∃ flats : List FlatMark, flats.length = marks.length ∧
      pieces.flatten = flats.flatMap FlatMark.write ∧
      List.Forall₂ named (marks.flatMap texts) (flats.flatMap FlatMark.texts) := by
    induction h with
    | nil => exact ⟨[], rfl, rfl, .nil⟩
    | cons hfirst _ ih =>
      obtain ⟨flat, rfl, htexts⟩ := hfirst
      obtain ⟨flats, hlength, hbytes, hmore⟩ := ih
      exact ⟨flat :: flats, congrArg Nat.succ hlength, by rw [List.flatten_cons, hbytes, List.flatMap_cons],
        List.rel_append htexts hmore⟩
  obtain ⟨flats, hlength, hbytes, htexts⟩ := hflats
  exact ⟨flats, by rw [Bytes.list, hlength, hbytes], htexts⟩

/-! ## What is written -/

/-- A text was asked for at an index. -/
def Pool.Asked (pool : Pool) (text : String) (index : PoolIndex) : Prop :=
  (internUtf8 text).Settled pool index

namespace ElementValue

mutual

theorem spells_of_settled (value : ElementValue) {bytes : Bytes} (h : value.write.Settled pool bytes) :
    value.Spells pool.Asked bytes := by
  have hutf8 := Pool.repeats_internUtf8
  cases value with
  | int kind value =>
    obtain ⟨index, -, h⟩ := ((Repeats.intern _).settled_bind fun _ => .pure _).mp h
    exact ⟨.int kind index, (settled_pure.mp h).symm, .nil⟩
  | long value =>
    obtain ⟨index, -, h⟩ := ((Repeats.intern _).settled_bind fun _ => .pure _).mp h
    exact ⟨.long index, (settled_pure.mp h).symm, .nil⟩
  | float bits =>
    obtain ⟨index, -, h⟩ := ((Repeats.intern _).settled_bind fun _ => .pure _).mp h
    exact ⟨.float index, (settled_pure.mp h).symm, .nil⟩
  | double bits =>
    obtain ⟨index, -, h⟩ := ((Repeats.intern _).settled_bind fun _ => .pure _).mp h
    exact ⟨.double index, (settled_pure.mp h).symm, .nil⟩
  | string text =>
    obtain ⟨index, hindex, h⟩ := ((hutf8 text).settled_bind fun _ => .pure _).mp h
    obtain rfl := settled_pure.mp h
    exact .string hindex
  | enum type constant =>
    obtain ⟨index, hindex, h⟩ := ((hutf8 type).settled_bind fun _ =>
      (hutf8 constant).bind fun _ => .pure _).mp h
    obtain ⟨index', hindex', h⟩ := ((hutf8 constant).settled_bind fun _ => .pure _).mp h
    obtain rfl := settled_pure.mp h
    exact .enum hindex hindex'
  | cls descriptor =>
    obtain ⟨index, hindex, h⟩ := ((hutf8 descriptor).settled_bind fun _ => .pure _).mp h
    obtain rfl := settled_pure.mp h
    exact .cls hindex
  | nested descriptor values =>
    obtain ⟨index, hindex, h⟩ := ((hutf8 descriptor).settled_bind fun _ =>
      (repeats_writeValues values).bind fun _ => .pure _).mp h
    obtain ⟨written, hwritten, h⟩ := ((repeats_writeValues values).settled_bind fun _ => .pure _).mp h
    obtain rfl := settled_pure.mp h
    exact .nested hindex (spellsValues_of_settled values hwritten)
  | array elements =>
    obtain ⟨written, hwritten, h⟩ :=
      ((repeats_writeElements elements).settled_bind fun _ => .pure _).mp h
    obtain rfl := settled_pure.mp h
    exact .array (spellsElements_of_settled elements hwritten)

theorem spellsElements_of_settled (elements : List ElementValue) {bytes : Bytes}
    (h : (writeElements elements).Settled pool bytes) : SpellsElements pool.Asked elements bytes := by
  cases elements with
  | nil =>
    obtain rfl := settled_pure.mp h
    exact .nil
  | cons element rest =>
    obtain ⟨first, hfirst, h⟩ := ((repeats_write element).settled_bind fun _ =>
      (repeats_writeElements rest).bind fun _ => .pure _).mp h
    obtain ⟨others, hothers, h⟩ := ((repeats_writeElements rest).settled_bind fun _ => .pure _).mp h
    obtain rfl := settled_pure.mp h
    exact .cons (spells_of_settled element hfirst) (spellsElements_of_settled rest hothers)

theorem spellsValues_of_settled (values : List (String × ElementValue)) {bytes : Bytes}
    (h : (writeValues values).Settled pool bytes) : SpellsValues pool.Asked values bytes := by
  cases values with
  | nil =>
    obtain rfl := settled_pure.mp h
    exact .nil
  | cons property rest =>
    obtain ⟨name, hname, h⟩ := ((Pool.repeats_internUtf8 property.1).settled_bind fun _ =>
      (repeats_write property.2).bind fun _ => (repeats_writeValues rest).bind fun _ => .pure _).mp h
    obtain ⟨first, hfirst, h⟩ := ((repeats_write property.2).settled_bind fun _ =>
      (repeats_writeValues rest).bind fun _ => .pure _).mp h
    obtain ⟨others, hothers, h⟩ := ((repeats_writeValues rest).settled_bind fun _ => .pure _).mp h
    obtain rfl := settled_pure.mp h
    exact .cons ⟨name, first, hname, spells_of_settled property.2 hfirst, rfl⟩
      (spellsValues_of_settled rest hothers)

end

end ElementValue

namespace Annotation

theorem spells_of_settled {mark : Annotation} (h : mark.write.Settled pool bytes) :
    mark.Spells pool.Asked bytes := by
  have hvalues := ElementValue.repeats_writeValues mark.values
  obtain ⟨index, hindex, h⟩ := ((Pool.repeats_internUtf8 mark.descriptor).settled_bind fun _ =>
    hvalues.bind fun _ => .pure _).mp h
  obtain ⟨written, hwritten, h⟩ := (hvalues.settled_bind fun _ => .pure _).mp h
  obtain rfl := settled_pure.mp h
  exact .of_values hindex (ElementValue.spellsValues_of_settled mark.values hwritten)

/-- The attribute of a list of annotations holds a flat form of it; without annotations there is none. -/
theorem spellsList_of_settled {name : String} {marks : List Annotation} {written : Option Attribute}
    (h : (writeList name marks).Settled pool written) :
    marks = [] ∧ written = none ∨ ∃ attr, written = some attr ∧ pool.utf8 attr.name = .ok name ∧
      SpellsList pool.Asked marks attr.info := by
  unfold writeList at h
  split at h
  · next hnone => exact .inl ⟨List.isEmpty_iff.mp hnone, (settled_pure.mp h).symm⟩
  · obtain ⟨pieces, hpieces, h⟩ := ((Repeats.mapM repeats_write marks).settled_bind fun _ =>
      (Attribute.repeats_make _ _).bind fun _ => .pure _).mp h
    obtain ⟨made, hmade, h⟩ := ((Attribute.repeats_make _ _).settled_bind fun _ => .pure _).mp h
    obtain rfl := settled_pure.mp h
    obtain ⟨hname, hinfo⟩ := Attribute.of_settled_make hmade
    have hspells := ((Repeats.settled_mapM repeats_write).mp hpieces).imp fun _ _ => spells_of_settled
    exact .inr ⟨made, rfl, hname, hinfo ▸ .of_forall₂ hspells⟩

/-- The attribute of a default holds a flat form of it. -/
theorem spells_of_settled_writeDefault {value : ElementValue} {attr : Attribute}
    (h : (writeDefault value).Settled pool attr) :
    pool.utf8 attr.name = .ok defaultAttribute ∧ value.Spells pool.Asked attr.info := by
  obtain ⟨info, hinfo, hmade⟩ := (value.repeats_write.settled_bind fun _ =>
    Attribute.repeats_make _ _).mp h
  obtain ⟨hname, rfl⟩ := Attribute.of_settled_make hmade
  exact ⟨hname, value.spells_of_settled hinfo⟩

end Annotation

/-! ## What is read -/

namespace PoolReader

variable {α β : Type}

/-- A sequence of two actions succeeds if both do, the second one on what the first one leaves. -/
theorem bind_eq_ok {first : PoolReader α} {next : α → PoolReader β} {bytes rest : Bytes} {result : β} :
    (first >>= next) bytes = .ok (result, rest) ↔
      ∃ value middle, first bytes = .ok (value, middle) ∧ next value middle = .ok (result, rest) := by
  change (first bytes >>= fun (value, middle) => next value middle) = _ ↔ _
  rcases first bytes with fault | ⟨value, middle⟩ <;> simp [bind, Except.bind]

/-- A plain value leaves the bytes as they are. -/
theorem pure_eq_ok {value result : α} {bytes rest : Bytes} :
    (pure value : PoolReader α) bytes = .ok (result, rest) ↔ value = result ∧ bytes = rest := by
  change Except.ok (value, bytes) = _ ↔ _
  simp

/-- A reader that fails gives nothing. -/
theorem throw_ne_ok {fault : Fault} {result : α} {bytes rest : Bytes} :
    (throw fault : PoolReader α) bytes ≠ .ok (result, rest) := by
  change (Except.error fault : Except Fault (α × Bytes)) ≠ _
  simp

/-- A lookup leaves the bytes as they are. -/
theorem lift_eq_ok {action : Except Fault α} {result : α} {bytes rest : Bytes} :
    (liftM action : PoolReader α) bytes = .ok (result, rest) ↔ action = .ok result ∧ bytes = rest := by
  cases action with
  | ok value =>
    change Except.ok (value, bytes) = _ ↔ _
    simp
  | error fault =>
    change Except.error fault = _ ↔ _
    simp

/-- What a reader takes off the front is a written form of the value that it gives. -/
def Takes (read : PoolReader α) (written : α → Bytes → Prop) : Prop :=
  ∀ (bytes rest : Bytes) (value : α), read bytes = .ok (value, rest) →
    ∃ front, bytes = front ++ rest ∧ written value front

theorem takes_ofReader {read : Reader α} {written : α → Bytes → Prop} (h : Reader.Takes read written) :
    Takes (ofReader read) written := by
  intro bytes rest value hread
  unfold ofReader at hread
  split at hread
  · next result hresult =>
    obtain rfl := Except.ok.inj hread
    exact h _ _ _ hresult
  · cases hread

/-- A constant is taken as its index. -/
theorem takes_constant (pool : Pool) : Takes (constant pool) fun constant front =>
    ∃ index, front = Bytes.u2 index ∧ pool.get index = .ok constant := by
  intro bytes rest constant h
  obtain ⟨index, middle, hindex, h⟩ := bind_eq_ok.mp h
  obtain ⟨hget, rfl⟩ := lift_eq_ok.mp h
  obtain ⟨front, rfl, rfl⟩ := takes_ofReader Reader.takes_u2 _ _ _ hindex
  exact ⟨_, rfl, index, rfl, hget⟩

/-- A text is taken as its index. -/
theorem takes_utf8 (pool : Pool) : Takes (utf8 pool) fun text front =>
    ∃ index, front = Bytes.u2 index ∧ pool.utf8 index = .ok text := by
  intro bytes rest text h
  obtain ⟨index, middle, hindex, h⟩ := bind_eq_ok.mp h
  obtain ⟨htext, rfl⟩ := lift_eq_ok.mp h
  obtain ⟨front, rfl, rfl⟩ := takes_ofReader Reader.takes_u2 _ _ _ hindex
  exact ⟨_, rfl, index, rfl, htext⟩

/-- Values are taken one after the other. -/
theorem takes_many {read : PoolReader α} {written : α → Bytes → Prop} (h : Takes read written)
    (count : ℕ) : Takes (Reader.many read count) fun items front => items.length = count ∧
      ∃ fronts, List.Forall₂ written items fronts ∧ front = fronts.flatten := by
  have hafter : ∀ (count : ℕ) (done : List α) (bytes rest : Bytes) (items : List α),
      Reader.repeatAfter read count done bytes = .ok (items, rest) →
        ∃ more fronts, items = done.reverse ++ more ∧ more.length = count ∧
          bytes = List.flatten fronts ++ rest ∧ List.Forall₂ written more fronts := by
    intro count
    induction count with
    | zero =>
      intro done bytes rest items hread
      obtain ⟨rfl, rfl⟩ := pure_eq_ok.mp hread
      exact ⟨[], [], by simp, rfl, rfl, .nil⟩
    | succ count ih =>
      intro done bytes rest items hread
      obtain ⟨item, middle, hitem, hothers⟩ := bind_eq_ok.mp hread
      obtain ⟨front, rfl, hfront⟩ := h _ _ _ hitem
      obtain ⟨more, fronts, rfl, hcount, rfl, hmore⟩ := ih _ _ _ _ hothers
      exact ⟨item :: more, front :: fronts, by simp, by simp [hcount], by simp, .cons hfront hmore⟩
  intro bytes rest items hread
  obtain ⟨more, fronts, rfl, hcount, rfl, hmore⟩ := hafter count [] bytes rest items hread
  exact ⟨fronts.flatten, rfl, by simpa using hcount, fronts, by simpa using hmore, rfl⟩

/-- The contents of an attribute are taken as a whole. -/
theorem Takes.of_whole {read : PoolReader α} {written : α → Bytes → Prop} (h : Takes read written)
    {name : String} {info : Bytes} {value : α} (hread : whole name read info = .ok value) :
    written value info := by
  obtain ⟨⟨result, rest⟩, hresult, hread⟩ := Outcome.bind_eq_ok.mp hread
  cases rest with
  | nil =>
    obtain rfl := Outcome.pure_eq_ok.mp hread
    obtain ⟨front, rfl, hwritten⟩ := h _ _ _ hresult
    rwa [List.append_nil]
  | cons => cases hread

end PoolReader

open PoolReader

/-- A text stands at an index. -/
def Pool.Holds (pool : Pool) (text : String) (index : PoolIndex) : Prop :=
  pool.utf8 index = .ok text

namespace ElementValue

/-- Forms of values that are put together as values are read: a tag, and behind it the indices of what the
value is made of, or the forms of what is nested in it. -/
structure Composes (pool : Pool) (form : ElementValue → Bytes → Prop) : Prop where
  int : ∀ {kind value index}, pool.get index = .ok (.integer value) →
    form (.int kind value) (kind.tag :: Bytes.u2 index)
  long : ∀ {value index}, pool.get index = .ok (.long value) → form (.long value) (74 :: Bytes.u2 index)
  float : ∀ {bits index}, pool.get index = .ok (.float bits) → form (.float bits) (70 :: Bytes.u2 index)
  double : ∀ {bits index}, pool.get index = .ok (.double bits) →
    form (.double bits) (68 :: Bytes.u2 index)
  string : ∀ {text index}, pool.Holds text index → form (.string text) (115 :: Bytes.u2 index)
  enum : ∀ {type constant index index'}, pool.Holds type index → pool.Holds constant index' →
    form (.enum type constant) (101 :: Bytes.u2 index ++ Bytes.u2 index')
  cls : ∀ {descriptor index}, pool.Holds descriptor index →
    form (.cls descriptor) (99 :: Bytes.u2 index)
  nested : ∀ {descriptor values index pieces}, pool.Holds descriptor index →
    List.Forall₂ (FormsProperty pool.Holds form) values pieces →
    form (.nested descriptor values)
      (64 :: Bytes.u2 index ++ Bytes.length2 values.length ++ pieces.flatten)
  array : ∀ {elements pieces}, List.Forall₂ form elements pieces →
    form (.array elements) (91 :: Bytes.length2 elements.length ++ pieces.flatten)

/-- Flat forms are put together as values are read. -/
theorem composes_spells (pool : Pool) : Composes pool (Spells pool.Holds) where
  int {kind _ index} _ := ⟨.int kind index, rfl, .nil⟩
  long {_ index} _ := ⟨.long index, rfl, .nil⟩
  float {_ index} _ := ⟨.float index, rfl, .nil⟩
  double {_ index} _ := ⟨.double index, rfl, .nil⟩
  string h := .string h
  enum h h' := .enum h h'
  cls h := .cls h
  nested h hvalues := .nested h (.of_forall₂ hvalues)
  array h := .array (.of_forall₂ h)

variable {read : PoolReader ElementValue} {form : ElementValue → Bytes → Prop}

/-- A property is taken as the index of its name and a form of its value. -/
theorem takes_readProperty (h : Takes read form) :
    Takes (readProperty pool read) (FormsProperty pool.Holds form) := by
  intro bytes rest property hread
  obtain ⟨name, middle, hname, hread⟩ := PoolReader.bind_eq_ok.mp hread
  obtain ⟨value, middle, hvalue, hread⟩ := PoolReader.bind_eq_ok.mp hread
  obtain ⟨rfl, rfl⟩ := PoolReader.pure_eq_ok.mp hread
  obtain ⟨front, rfl, index, rfl, hindex⟩ := takes_utf8 pool _ _ _ hname
  obtain ⟨more, rfl, hmore⟩ := h _ _ _ hvalue
  exact ⟨Bytes.u2 index ++ more, by simp, index, more, hindex, hmore, rfl⟩

/-- The properties of an annotation are taken with their number in front. -/
theorem takes_readProperties (h : Takes read form) :
    Takes (readProperties pool read) fun values front => ∃ pieces,
      List.Forall₂ (FormsProperty pool.Holds form) values pieces ∧
        front = Bytes.length2 values.length ++ pieces.flatten := by
  intro bytes rest values hread
  obtain ⟨count, middle, hcount, hread⟩ := PoolReader.bind_eq_ok.mp hread
  obtain ⟨more, rfl, hlength, pieces, hpieces, rfl⟩ :=
    takes_many (takes_readProperty h) _ _ _ _ hread
  obtain ⟨front, rfl, rfl⟩ := takes_ofReader Reader.takes_u2 _ _ _ hcount
  refine ⟨Bytes.u2 count ++ pieces.flatten, by simp, pieces, hpieces, ?_⟩
  rw [hlength]
  rfl

/-- A number is taken as its tag and its index. -/
theorem takes_number {tag : UInt8} {next : Constant → PoolReader ElementValue}
    (hnext : ∀ {constant bytes rest value index}, pool.get index = .ok constant →
      next constant bytes = .ok (value, rest) → bytes = rest ∧ form value (tag :: Bytes.u2 index)) :
    Takes (constant pool >>= next) fun value front => form value (tag :: front) := by
  intro bytes rest value h
  obtain ⟨constant, middle, hconstant, h⟩ := PoolReader.bind_eq_ok.mp h
  obtain ⟨front, hbytes, index, rfl, hget⟩ := takes_constant pool _ _ _ hconstant
  obtain ⟨rfl, hform⟩ := hnext hget h
  exact ⟨Bytes.u2 index, hbytes, hform⟩

/-- A value that does not nest is taken as its tag and its indices. -/
theorem takes_readFlat (hform : Composes pool form) (tag : UInt8) :
    Takes (readFlat pool tag) fun value front => form value (tag :: front) := by
  have htag : ∀ {kind}, IntKind.ofTag? tag = some kind → tag = kind.tag := by
    intro kind h
    unfold IntKind.ofTag? at h
    split at h <;> cases h <;> rfl
  unfold readFlat
  cases hkind : IntKind.ofTag? tag with
  | some kind =>
    refine takes_number fun {constant _ _ _ _} hget h => ?_
    cases constant with
    | integer _ =>
      obtain ⟨rfl, rfl⟩ := PoolReader.pure_eq_ok.mp h
      exact ⟨rfl, htag hkind ▸ hform.int hget⟩
    | _ => exact absurd h throw_ne_ok
  | none =>
    dsimp only
    split
    · refine takes_number fun {constant _ _ _ _} hget h => ?_
      cases constant with
      | long _ =>
        obtain ⟨rfl, rfl⟩ := PoolReader.pure_eq_ok.mp h
        exact ⟨rfl, hform.long hget⟩
      | _ => exact absurd h throw_ne_ok
    · refine takes_number fun {constant _ _ _ _} hget h => ?_
      cases constant with
      | float _ =>
        obtain ⟨rfl, rfl⟩ := PoolReader.pure_eq_ok.mp h
        exact ⟨rfl, hform.float hget⟩
      | _ => exact absurd h throw_ne_ok
    · refine takes_number fun {constant _ _ _ _} hget h => ?_
      cases constant with
      | double _ =>
        obtain ⟨rfl, rfl⟩ := PoolReader.pure_eq_ok.mp h
        exact ⟨rfl, hform.double hget⟩
      | _ => exact absurd h throw_ne_ok
    · intro bytes rest value h
      obtain ⟨text, middle, htext, h⟩ := PoolReader.bind_eq_ok.mp h
      obtain ⟨rfl, rfl⟩ := PoolReader.pure_eq_ok.mp h
      obtain ⟨front, rfl, index, rfl, hindex⟩ := takes_utf8 pool _ _ _ htext
      exact ⟨_, rfl, hform.string hindex⟩
    · intro bytes rest value h
      obtain ⟨type, middle, htype, h⟩ := PoolReader.bind_eq_ok.mp h
      obtain ⟨constant, middle, hconstant, h⟩ := PoolReader.bind_eq_ok.mp h
      obtain ⟨rfl, rfl⟩ := PoolReader.pure_eq_ok.mp h
      obtain ⟨front, rfl, index, rfl, hindex⟩ := takes_utf8 pool _ _ _ htype
      obtain ⟨front, rfl, index', rfl, hindex'⟩ := takes_utf8 pool _ _ _ hconstant
      exact ⟨Bytes.u2 index ++ Bytes.u2 index', by simp, hform.enum hindex hindex'⟩
    · intro bytes rest value h
      obtain ⟨descriptor, middle, hdescriptor, h⟩ := PoolReader.bind_eq_ok.mp h
      obtain ⟨rfl, rfl⟩ := PoolReader.pure_eq_ok.mp h
      obtain ⟨front, rfl, index, rfl, hindex⟩ := takes_utf8 pool _ _ _ hdescriptor
      exact ⟨_, rfl, hform.cls hindex⟩
    · exact fun _ _ _ h => absurd h throw_ne_ok

/-- A value is taken as any form that is put together as values are read. -/
theorem takes_read (hform : Composes pool form) (depth : ℕ) :
    Takes (ElementValue.read pool depth) form := by
  induction depth with
  | zero => exact fun _ _ _ h => absurd h throw_ne_ok
  | succ depth ih =>
    intro bytes rest value h
    obtain ⟨tag, behind, htag, h⟩ := PoolReader.bind_eq_ok.mp h
    have hfront : ∃ front, behind = front ++ rest ∧ form value (tag :: front) := by
      split at h
      · obtain ⟨descriptor, middle, hdescriptor, h⟩ := PoolReader.bind_eq_ok.mp h
        obtain ⟨values, middle, hvalues, h⟩ := PoolReader.bind_eq_ok.mp h
        obtain ⟨rfl, rfl⟩ := PoolReader.pure_eq_ok.mp h
        obtain ⟨front, rfl, index, rfl, hindex⟩ := takes_utf8 pool _ _ _ hdescriptor
        obtain ⟨front, rfl, pieces, hpieces, rfl⟩ := takes_readProperties ih _ _ _ hvalues
        exact ⟨Bytes.u2 index ++ (Bytes.length2 values.length ++ pieces.flatten), by simp, by
          simpa using hform.nested hindex hpieces⟩
      · obtain ⟨count, middle, hcount, h⟩ := PoolReader.bind_eq_ok.mp h
        obtain ⟨elements, middle, helements, h⟩ := PoolReader.bind_eq_ok.mp h
        obtain ⟨rfl, rfl⟩ := PoolReader.pure_eq_ok.mp h
        obtain ⟨front, rfl, rfl⟩ := takes_ofReader Reader.takes_u2 _ _ _ hcount
        obtain ⟨front, rfl, hlength, pieces, hpieces, rfl⟩ := takes_many ih _ _ _ _ helements
        have hcounted : Bytes.length2 elements.length = Bytes.u2 count := by rw [hlength]; rfl
        exact ⟨Bytes.u2 count ++ pieces.flatten, by simp, by
          simpa [hcounted] using hform.array hpieces⟩
      · exact takes_readFlat hform tag _ _ _ h
    obtain ⟨front, rfl, hfront⟩ := hfront
    obtain ⟨first, rfl, rfl⟩ := takes_ofReader Reader.takes_u1 _ _ _ htag
    exact ⟨tag :: front, rfl, hfront⟩

end ElementValue

namespace Annotation

/-- Bytes are the index of the descriptor of an annotation, and the indices of the names of its properties
with forms of their values, their number in front. -/
def Forms (pool : Pool) (form : ElementValue → Bytes → Prop) (mark : Annotation) (bytes : Bytes) : Prop :=
  ∃ index pieces, pool.Holds mark.descriptor index ∧
    List.Forall₂ (ElementValue.FormsProperty pool.Holds form) mark.values pieces ∧
    bytes = Bytes.u2 index ++ Bytes.length2 mark.values.length ++ pieces.flatten

/-- Bytes are forms of annotations, one after the other, with their number in front. -/
def FormsList (pool : Pool) (form : ElementValue → Bytes → Prop) (marks : List Annotation)
    (bytes : Bytes) : Prop :=
  ∃ pieces, List.Forall₂ (Forms pool form) marks pieces ∧
    bytes = Bytes.length2 marks.length ++ pieces.flatten

/-- An annotation is taken as any form of it. -/
theorem takes_mark {form : ElementValue → Bytes → Prop} (hform : ElementValue.Composes pool form) (depth : ℕ) :
    Takes ( Annotation.read pool depth) (Forms pool form) := by
  intro bytes rest mark hread
  obtain ⟨descriptor, middle, hdescriptor, hread⟩ := PoolReader.bind_eq_ok.mp hread
  obtain ⟨values, middle, hvalues, hread⟩ := PoolReader.bind_eq_ok.mp hread
  obtain ⟨rfl, rfl⟩ := PoolReader.pure_eq_ok.mp hread
  obtain ⟨front, rfl, index, rfl, hindex⟩ := takes_utf8 pool _ _ _ hdescriptor
  obtain ⟨front, rfl, pieces, hpieces, rfl⟩ :=
    ElementValue.takes_readProperties (ElementValue.takes_read hform depth) _ _ _ hvalues
  exact ⟨Bytes.u2 index ++ Bytes.length2 values.length ++ pieces.flatten, by simp, index, pieces,
    hindex, hpieces, rfl⟩

/-- The contents of an attribute that lists annotations are forms of them. -/
theorem formsList_of_readList {form : ElementValue → Bytes → Prop}
    (hform : ElementValue.Composes pool form) {marks : List Annotation} {info : Bytes}
    (h : readList pool info = .ok marks) : FormsList pool form marks info := by
  refine Takes.of_whole ?_ h
  intro bytes rest marks hread
  obtain ⟨count, middle, hcount, hread⟩ := PoolReader.bind_eq_ok.mp hread
  obtain ⟨front, rfl, hlength, pieces, hpieces, rfl⟩ := takes_many (takes_mark hform _) _ _ _ _ hread
  obtain ⟨front, rfl, rfl⟩ := takes_ofReader Reader.takes_u2 _ _ _ hcount
  refine ⟨Bytes.length2 marks.length ++ pieces.flatten, ?_, pieces, hpieces, rfl⟩
  rw [hlength]
  simp [Bytes.u2, Bytes.length2]

/-- The contents of an attribute that lists annotations are a flat form of them. -/
theorem spellsList_of_readList {marks : List Annotation} {info : Bytes}
    (h : readList pool info = .ok marks) : SpellsList pool.Holds marks info := by
  obtain ⟨pieces, hpieces, rfl⟩ := formsList_of_readList (ElementValue.composes_spells pool) h
  refine .of_forall₂ (hpieces.imp ?_)
  rintro mark _ ⟨index, pieces, hindex, hvalues, rfl⟩
  exact .of_values hindex (.of_forall₂ hvalues)

/-- The contents of an attribute that holds a default are a flat form of it. -/
theorem spells_of_readDefault {value : ElementValue} {info : Bytes}
    (h : readDefault pool info = .ok value) : value.Spells pool.Holds info :=
  Takes.of_whole (ElementValue.takes_read (ElementValue.composes_spells pool) _) h

end Annotation

end ClassInstrument
