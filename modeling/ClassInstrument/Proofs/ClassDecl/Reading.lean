import ClassInstrument.ClassDecl.Basic
import ClassInstrument.Proofs.Outcome

/-!
# What is read from a class file

Reading a class goes through the attributes of the class and of each method from the first to the last.
Attributes of certain names are decoded: annotations add up, while of several bodies or defaults the last
one stays.  All other attributes are kept in their order.  So what is read can be told from the attributes
of each name alone, wherever the others stand among them.
-/

namespace ClassInstrument

open Outcome

/-! ## Attributes by name -/

namespace Attribute

/-- Does an attribute have one of some names? -/
def isNamed (pool : Pool) (names : List String) (attr : Attribute) : Bool :=
  match pool.utf8 attr.name with
  | .ok name => names.contains name
  | .error _ => false

/-- The attributes that have a name. -/
def withName (pool : Pool) (name : String) (attributes : List Attribute) : List Attribute :=
  attributes.filter (isNamed pool [name])

/-- The attributes that have none of some names. -/
def without (pool : Pool) (names : List String) (attributes : List Attribute) : List Attribute :=
  attributes.filter fun attr => !isNamed pool names attr

variable {pool : Pool} {attr : Attribute} {name : String}

theorem isNamed_of_utf8 (h : pool.utf8 attr.name = .ok name) (names : List String) :
    isNamed pool names attr = names.contains name := by
  unfold isNamed
  rw [h]

theorem withName_cons (h : pool.utf8 attr.name = .ok name) (other : String)
    (attributes : List Attribute) : withName pool other (attr :: attributes) =
      if name = other then attr :: withName pool other attributes
      else withName pool other attributes := by
  rw [withName, List.filter_cons, isNamed_of_utf8 h]
  simp [withName]

theorem without_cons (h : pool.utf8 attr.name = .ok name) (names : List String)
    (attributes : List Attribute) : without pool names (attr :: attributes) =
      if name ∈ names then without pool names attributes
      else attr :: without pool names attributes := by
  rw [without, List.filter_cons, isNamed_of_utf8 h]
  by_cases hmem : name ∈ names <;> simp [hmem, without]

theorem withName_append (pool : Pool) (name : String) (front rest : List Attribute) :
    withName pool name (front ++ rest) = withName pool name front ++ withName pool name rest :=
  List.filter_append front rest

theorem without_append (pool : Pool) (names : List String) (front rest : List Attribute) :
    without pool names (front ++ rest) = without pool names front ++ without pool names rest :=
  List.filter_append front rest

/-- The attributes that have none of some names, among some that all have others. -/
theorem without_eq_self {names : List String} {attributes : List Attribute}
    (h : ∀ attr ∈ attributes, ∃ name ∉ names, pool.utf8 attr.name = .ok name) :
    without pool names attributes = attributes := by
  refine List.filter_eq_self.mpr fun attr hmem => ?_
  obtain ⟨name, hnot, hname⟩ := h attr hmem
  simp [isNamed_of_utf8 hname, hnot]

/-- The attributes that have none of some names, among some that all have one of these. -/
theorem without_eq_nil {names : List String} {attributes : List Attribute}
    (h : ∀ attr ∈ attributes, ∃ name ∈ names, pool.utf8 attr.name = .ok name) :
    without pool names attributes = [] := by
  refine List.filter_eq_nil_iff.mpr fun attr hmem => ?_
  obtain ⟨name, hin, hname⟩ := h attr hmem
  simp [isNamed_of_utf8 hname, hin]

/-- The attributes that have a name, among some that all have it. -/
theorem withName_eq_self {attributes : List Attribute}
    (h : ∀ attr ∈ attributes, pool.utf8 attr.name = .ok name) :
    withName pool name attributes = attributes :=
  List.filter_eq_self.mpr fun attr hmem => by simp [isNamed_of_utf8 (h attr hmem)]

/-- The attributes that have a name, among some that all have others. -/
theorem withName_eq_nil {attributes : List Attribute}
    (h : ∀ attr ∈ attributes, ∃ other ≠ name, pool.utf8 attr.name = .ok other) :
    withName pool name attributes = [] := by
  refine List.filter_eq_nil_iff.mpr fun attr hmem => ?_
  obtain ⟨other, hne, hother⟩ := h attr hmem
  simp [isNamed_of_utf8 hother, hne]

/-- Attributes that all have one name are kept or left out together. -/
theorem withName_of_named {attributes : List Attribute}
    (h : ∀ attr ∈ attributes, pool.utf8 attr.name = .ok name) (other : String) :
    withName pool other attributes = if name = other then attributes else [] := by
  split
  · next hsame => exact withName_eq_self (hsame ▸ h)
  · next hne => exact withName_eq_nil fun attr hmem => ⟨name, hne, h attr hmem⟩

theorem without_of_named {attributes : List Attribute}
    (h : ∀ attr ∈ attributes, pool.utf8 attr.name = .ok name) (names : List String) :
    without pool names attributes = if name ∈ names then [] else attributes := by
  split
  · next hin => exact without_eq_nil fun attr hmem => ⟨name, hin, h attr hmem⟩
  · next hnot => exact without_eq_self fun attr hmem => ⟨name, hnot, h attr hmem⟩

/-- Attributes that have none of some names do not have one of them. -/
theorem withName_eq_nil_of_notMem {names : List String} {attributes : List Attribute}
    (h : ∀ attr ∈ attributes, ∃ name ∉ names, pool.utf8 attr.name = .ok name) (hmem : name ∈ names) :
    withName pool name attributes = [] := by
  refine withName_eq_nil fun attr hattr => ?_
  obtain ⟨other, hnot, hother⟩ := h attr hattr
  exact ⟨other, fun hsame => hnot (hsame ▸ hmem), hother⟩

/-- The attributes left when some names are taken away have other names. -/
theorem exists_name_of_mem_without {names : List String} {attributes : List Attribute}
    (hnamed : ∀ attr ∈ attributes, ∃ name, pool.utf8 attr.name = .ok name)
    (hmem : attr ∈ without pool names attributes) :
    ∃ name ∉ names, pool.utf8 attr.name = .ok name := by
  obtain ⟨hmem, hother⟩ := List.mem_filter.mp hmem
  obtain ⟨name, hname⟩ := hnamed attr hmem
  rw [isNamed_of_utf8 hname] at hother
  exact ⟨name, by simpa using hother, hname⟩

/-- An attribute is among those of its name. -/
theorem mem_withName {attributes : List Attribute} (hname : pool.utf8 attr.name = .ok name)
    (hmem : attr ∈ attributes) : attr ∈ withName pool name attributes :=
  List.mem_filter.mpr ⟨hmem, by simp [isNamed_of_utf8 hname]⟩

/-- The attributes of a name have it. -/
theorem utf8_of_mem_withName {attributes : List Attribute}
    (hnamed : ∀ attr ∈ attributes, ∃ name, pool.utf8 attr.name = .ok name)
    (hmem : attr ∈ withName pool name attributes) :
    pool.utf8 attr.name = .ok name := by
  obtain ⟨hmem, hsame⟩ := List.mem_filter.mp hmem
  obtain ⟨other, hother⟩ := hnamed attr hmem
  rw [isNamed_of_utf8 hother] at hsame
  obtain rfl : other = name := by simpa using hsame
  exact hother

end Attribute

/-- The annotations that the attributes of a name list, one attribute after the other. -/
def Annotation.readAll (pool : Pool) (name : String) (attributes : List Attribute) :
    Except Fault (List Annotation) := do
  let lists ← (Attribute.withName pool name attributes).mapM fun attr => readList pool attr.info
  return lists.flatten

namespace Annotation

variable {pool : Pool} {attr : Attribute} {name : String} {attributes : List Attribute}
  {marks others : List Annotation}

theorem readAll_cons_of_ne {other : String} (h : pool.utf8 attr.name = .ok other) (hne : other ≠ name) :
    readAll pool name (attr :: attributes) = readAll pool name attributes := by
  unfold readAll
  rw [Attribute.withName_cons h, if_neg hne]

theorem readAll_cons (h : pool.utf8 attr.name = .ok name) (hmarks : readList pool attr.info = .ok marks)
    (hothers : readAll pool name attributes = .ok others) :
    readAll pool name (attr :: attributes) = .ok (marks ++ others) := by
  obtain ⟨lists, hlists, hothers⟩ := bind_eq_ok.mp hothers
  obtain rfl := pure_eq_ok.mp hothers
  unfold readAll
  rw [Attribute.withName_cons h, if_pos rfl]
  exact bind_eq_ok.mpr ⟨marks :: lists, mapM_eq_ok.mpr (.cons hmarks (mapM_eq_ok.mp hlists)), rfl⟩

/-- Attributes whose annotations are read one after the other can be read each. -/
theorem exists_readList_of_readAll (h : readAll pool name attributes = .ok marks)
    (hmem : attr ∈ Attribute.withName pool name attributes) :
    ∃ marks, readList pool attr.info = .ok marks := by
  obtain ⟨lists, hlists, -⟩ := bind_eq_ok.mp h
  obtain ⟨marks, -, hmarks⟩ := exists_right_of_forall₂ (mapM_eq_ok.mp hlists) hmem
  exact ⟨marks, hmarks⟩

end Annotation

/-! ## Methods -/

namespace Method

/-- The names of the attributes of methods that are decoded. -/
def decodedNames : List String :=
  [CodeAttribute.name, Annotation.visibleAttribute, Annotation.invisibleAttribute,
    Annotation.defaultAttribute]

/-- Attributes of different names are decoded to different things. -/
theorem decodedNames_nodup : decodedNames.Nodup := by decide

/-- Attributes of a method in the order in which they are written: the body, what is not decoded, the
annotations, and the default. -/
structure Arranged (pool : Pool) (attributes body others visible invisible default : List Attribute) :
    Prop where
  eq_append : attributes = body ++ others ++ visible ++ invisible ++ default
  body : ∀ attr ∈ body, pool.utf8 attr.name = .ok CodeAttribute.name
  others : ∀ attr ∈ others, ∃ name ∉ decodedNames, pool.utf8 attr.name = .ok name
  visible : ∀ attr ∈ visible, pool.utf8 attr.name = .ok Annotation.visibleAttribute
  invisible : ∀ attr ∈ invisible, pool.utf8 attr.name = .ok Annotation.invisibleAttribute
  default : ∀ attr ∈ default, pool.utf8 attr.name = .ok Annotation.defaultAttribute

namespace Arranged

variable {pool : Pool} {attributes body others visible invisible default : List Attribute}
  (h : Arranged pool attributes body others visible invisible default)

include h

/-- All attributes have names. -/
theorem named : ∀ attr ∈ attributes, ∃ name, pool.utf8 attr.name = .ok name := by
  intro attr hmem
  simp only [h.eq_append, List.mem_append] at hmem
  rcases hmem with (((hmem | hmem) | hmem) | hmem) | hmem
  · exact ⟨_, h.body attr hmem⟩
  · obtain ⟨name, -, hname⟩ := h.others attr hmem
    exact ⟨name, hname⟩
  · exact ⟨_, h.visible attr hmem⟩
  · exact ⟨_, h.invisible attr hmem⟩
  · exact ⟨_, h.default attr hmem⟩

/-- The attributes of a name that is decoded are one of the parts. -/
theorem withName_eq {name : String} (hmem : name ∈ decodedNames) :
    Attribute.withName pool name attributes =
      (if CodeAttribute.name = name then body else []) ++
      (if Annotation.visibleAttribute = name then visible else []) ++
      (if Annotation.invisibleAttribute = name then invisible else []) ++
      (if Annotation.defaultAttribute = name then default else []) := by
  simp only [h.eq_append, Attribute.withName_append, Attribute.withName_of_named h.body,
    Attribute.withName_of_named h.visible, Attribute.withName_of_named h.invisible,
    Attribute.withName_of_named h.default, Attribute.withName_eq_nil_of_notMem h.others hmem,
    List.append_nil]

theorem withName_code : Attribute.withName pool CodeAttribute.name attributes = body := by
  rw [h.withName_eq (by decide), if_pos rfl, if_neg (by decide), if_neg (by decide), if_neg (by decide)]
  simp only [List.append_nil]

theorem withName_visible : Attribute.withName pool Annotation.visibleAttribute attributes = visible := by
  rw [h.withName_eq (by decide), if_neg (by decide), if_pos rfl, if_neg (by decide), if_neg (by decide)]
  simp only [List.nil_append, List.append_nil]

theorem withName_invisible :
    Attribute.withName pool Annotation.invisibleAttribute attributes = invisible := by
  rw [h.withName_eq (by decide), if_neg (by decide), if_neg (by decide), if_pos rfl, if_neg (by decide)]
  simp only [List.nil_append, List.append_nil]

theorem withName_default : Attribute.withName pool Annotation.defaultAttribute attributes = default := by
  rw [h.withName_eq (by decide), if_neg (by decide), if_neg (by decide), if_neg (by decide), if_pos rfl]
  simp only [List.nil_append]

/-- The attributes of names that are not decoded are the second part. -/
theorem without_eq : Attribute.without pool decodedNames attributes = others := by
  simp only [h.eq_append, Attribute.without_append, Attribute.without_of_named h.body,
    Attribute.without_of_named h.visible, Attribute.without_of_named h.invisible,
    Attribute.without_of_named h.default, Attribute.without_eq_self h.others]
  rw [if_pos (by decide), if_pos (by decide), if_pos (by decide), if_pos (by decide)]
  simp only [List.nil_append, List.append_nil]

end Arranged

/-- A method after it has taken in some attributes. -/
structure Notes (pool : Pool) (attributes : List Attribute) (start after : Method) : Prop where
  /-- The names of all attributes are known. -/
  named : ∀ attr ∈ attributes, ∃ name, pool.utf8 attr.name = .ok name
  access_eq : after.access = start.access
  name_eq : after.name = start.name
  descriptor_eq : after.descriptor = start.descriptor
  /-- Attributes of other names are kept. -/
  attributes_eq :
    after.attributes = start.attributes ++ Attribute.without pool decodedNames attributes
  /-- The last body stays. -/
  body_eq : after.body =
    ((Attribute.withName pool CodeAttribute.name attributes).getLast?.map MethodBody.raw).getD start.body
  /-- Visible annotations add up. -/
  visible : ∃ marks, Annotation.readAll pool Annotation.visibleAttribute attributes = .ok marks ∧
    after.visible = start.visible ++ marks
  /-- Invisible annotations add up. -/
  invisible : ∃ marks, Annotation.readAll pool Annotation.invisibleAttribute attributes = .ok marks ∧
    after.invisible = start.invisible ++ marks
  /-- The last default stays. -/
  default : match (Attribute.withName pool Annotation.defaultAttribute attributes).getLast? with
    | none => after.default = start.default
    | some attr => ∃ value, Annotation.readDefault pool attr.info = .ok value ∧
      after.default = some value

variable {pool : Pool} {attributes : List Attribute} {start after : Method}

/-- Taking in an attribute and then others comes to taking in all of them. -/
theorem Notes.cons {attr : Attribute} {next : Method} (hnext : note pool start attr = .ok next)
    (h : Notes pool attributes next after) : Notes pool (attr :: attributes) start after := by
  obtain ⟨name, hname, hnext⟩ := bind_eq_ok.mp hnext
  have hnamed := List.forall_mem_cons.mpr ⟨⟨name, hname⟩, h.named⟩
  obtain ⟨visible, hvisible, hmarks⟩ := h.visible
  obtain ⟨invisible, hinvisible, hothers⟩ := h.invisible
  have hattributes := h.attributes_eq
  have hbody := h.body_eq
  have hdefault := h.default
  have hskip : ∀ other, name ≠ other → Annotation.readAll pool other (attr :: attributes) =
      Annotation.readAll pool other attributes := fun _ => Annotation.readAll_cons_of_ne hname
  have hnodup := decodedNames_nodup
  simp only [decodedNames, List.nodup_cons, List.mem_cons, List.not_mem_nil, or_false, not_or,
    not_false_eq_true, List.nodup_nil, and_true] at hnodup
  obtain ⟨⟨hcv, hci, hcd⟩, ⟨hvi, hvd⟩, hid⟩ := hnodup
  split at hnext
  · next heq =>
    subst heq
    obtain rfl := pure_eq_ok.mp hnext
    refine ⟨hnamed, h.access_eq, h.name_eq, h.descriptor_eq, ?_, ?_, ⟨visible, ?_, hmarks⟩,
      ⟨invisible, ?_, hothers⟩, ?_⟩
    · simpa [Attribute.without_cons hname, decodedNames] using hattributes
    · rw [hbody, Attribute.withName_cons hname, if_pos rfl, List.getLast?_cons]
      cases (Attribute.withName pool CodeAttribute.name attributes).getLast? <;> rfl
    · rwa [hskip _ hcv]
    · rwa [hskip _ hci]
    · simpa [Attribute.withName_cons hname, hcd] using hdefault
  split at hnext
  · next heq =>
    subst heq
    obtain ⟨marks, hread, hnext⟩ := bind_eq_ok.mp hnext
    obtain rfl := pure_eq_ok.mp hnext
    refine ⟨hnamed, h.access_eq, h.name_eq, h.descriptor_eq, ?_, ?_,
      ⟨marks ++ visible, Annotation.readAll_cons hname hread hvisible, ?_⟩,
      ⟨invisible, ?_, hothers⟩, ?_⟩
    · simpa [Attribute.without_cons hname, decodedNames] using hattributes
    · simpa [Attribute.withName_cons hname, Ne.symm hcv] using hbody
    · rw [hmarks, List.append_assoc]
    · rwa [hskip _ hvi]
    · simpa [Attribute.withName_cons hname, hvd] using hdefault
  split at hnext
  · next heq =>
    subst heq
    obtain ⟨marks, hread, hnext⟩ := bind_eq_ok.mp hnext
    obtain rfl := pure_eq_ok.mp hnext
    refine ⟨hnamed, h.access_eq, h.name_eq, h.descriptor_eq, ?_, ?_, ⟨visible, ?_, hmarks⟩,
      ⟨marks ++ invisible, Annotation.readAll_cons hname hread hinvisible, ?_⟩, ?_⟩
    · simpa [Attribute.without_cons hname, decodedNames] using hattributes
    · simpa [Attribute.withName_cons hname, Ne.symm hci] using hbody
    · rwa [hskip _ (Ne.symm hvi)]
    · rw [hothers, List.append_assoc]
    · simpa [Attribute.withName_cons hname, hid] using hdefault
  split at hnext
  · next heq =>
    subst heq
    obtain ⟨value, hread, hnext⟩ := bind_eq_ok.mp hnext
    obtain rfl := pure_eq_ok.mp hnext
    refine ⟨hnamed, h.access_eq, h.name_eq, h.descriptor_eq, ?_, ?_, ⟨visible, ?_, hmarks⟩,
      ⟨invisible, ?_, hothers⟩, ?_⟩
    · simpa [Attribute.without_cons hname, decodedNames] using hattributes
    · simpa [Attribute.withName_cons hname, Ne.symm hcd] using hbody
    · rwa [hskip _ (Ne.symm hvd)]
    · rwa [hskip _ (Ne.symm hid)]
    · rw [Attribute.withName_cons hname, if_pos rfl, List.getLast?_cons]
      cases hlast : (Attribute.withName pool Annotation.defaultAttribute attributes).getLast? with
      | none =>
        rw [hlast] at hdefault
        exact ⟨value, hread, hdefault⟩
      | some last =>
        rw [hlast] at hdefault
        exact hdefault
  · next hc hv hi hd =>
    obtain rfl := pure_eq_ok.mp hnext
    refine ⟨hnamed, h.access_eq, h.name_eq, h.descriptor_eq, ?_, ?_, ⟨visible, ?_, hmarks⟩,
      ⟨invisible, ?_, hothers⟩, ?_⟩
    · rw [hattributes, Attribute.without_cons hname, if_neg (by simp [decodedNames, *])]
      simp
    · simpa [Attribute.withName_cons hname, hc] using hbody
    · rwa [hskip _ hv]
    · rwa [hskip _ hi]
    · simpa [Attribute.withName_cons hname, hd] using hdefault

/-- What is taken in can be told from the attributes of each name. -/
theorem notes_of_foldlM (h : attributes.foldlM (note pool) start = .ok after) :
    Notes pool attributes start after := by
  induction attributes generalizing start with
  | nil =>
    obtain rfl := pure_eq_ok.mp h
    exact ⟨by simp, rfl, rfl, rfl, by simp [Attribute.without], rfl, ⟨[], rfl, by simp⟩, ⟨[], rfl, by simp⟩, rfl⟩
  | cons attr attributes ih =>
    rw [List.foldlM_cons] at h
    obtain ⟨next, hnext, h⟩ := bind_eq_ok.mp h
    exact (ih h).cons hnext

/-- An attribute is taken in if what it holds can be read. -/
theorem exists_note {attr : Attribute} {name : String} (hname : pool.utf8 attr.name = .ok name)
    (hmarks : name = Annotation.visibleAttribute ∨ name = Annotation.invisibleAttribute →
      ∃ marks, Annotation.readList pool attr.info = .ok marks)
    (hdefault : name = Annotation.defaultAttribute →
      ∃ value, Annotation.readDefault pool attr.info = .ok value) :
    ∃ next, note pool start attr = .ok next := by
  unfold note
  simp only [hname, bind, Except.bind]
  split
  · exact ⟨_, rfl⟩
  split
  · next hvisible =>
    obtain ⟨marks, hmarks⟩ := hmarks (.inl hvisible)
    exact ⟨_, by rw [hmarks]; rfl⟩
  split
  · next hinvisible =>
    obtain ⟨marks, hmarks⟩ := hmarks (.inr hinvisible)
    exact ⟨_, by rw [hmarks]; rfl⟩
  split
  · next hsame =>
    obtain ⟨value, hvalue⟩ := hdefault hsame
    exact ⟨_, by rw [hvalue]; rfl⟩
  · exact ⟨_, rfl⟩

variable {entry : MethodEntry} {method : Method}

/-- How a method of a class under edit was read. -/
structure ReadFrom (pool : Pool) (entry : MethodEntry) (method : Method) : Prop where
  /-- The name is spelled out. -/
  name : pool.utf8 entry.name = .ok method.name
  /-- The descriptor is spelled out. -/
  descriptor : pool.utf8 entry.descriptor = .ok method.descriptor
  /-- The attributes were taken in, starting with none. -/
  notes : Notes pool entry.attributes
    { access := entry.access, name := method.name, descriptor := method.descriptor } method

/-- What a method is read from. -/
theorem readFrom_of_ofEntry (h : ofEntry pool entry = .ok method) : ReadFrom pool entry method := by
  obtain ⟨name, hname, h⟩ := bind_eq_ok.mp h
  obtain ⟨descriptor, hdescriptor, h⟩ := bind_eq_ok.mp h
  have hnotes := notes_of_foldlM h
  obtain rfl := hnotes.name_eq
  obtain rfl := hnotes.descriptor_eq
  exact ⟨hname, hdescriptor, hnotes⟩

/-- A body that was read stands in an attribute of its name. -/
theorem ReadFrom.mem_of_raw (h : ReadFrom pool entry method) {attr : Attribute}
    (hraw : method.body = .raw attr) :
    attr ∈ Attribute.withName pool CodeAttribute.name entry.attributes := by
  have hbody := h.notes.body_eq
  rw [hraw] at hbody
  cases hlast : (Attribute.withName pool CodeAttribute.name entry.attributes).getLast? with
  | none => simp [hlast] at hbody
  | some last =>
    obtain rfl : attr = last := by simpa [hlast] using hbody
    exact List.mem_of_getLast? hlast

/-- A body that was read has not been opened. -/
theorem ReadFrom.isEdited_eq (h : ReadFrom pool entry method) : method.isEdited = false := by
  have hbody := h.notes.body_eq
  unfold isEdited
  rw [hbody]
  cases (Attribute.withName pool CodeAttribute.name entry.attributes).getLast? <;> rfl

/-- The attributes of a method that are kept have other names than those that are decoded. -/
theorem ReadFrom.attributes_named (h : ReadFrom pool entry method) :
    ∀ attr ∈ method.attributes, ∃ name ∉ decodedNames, pool.utf8 attr.name = .ok name := by
  intro attr hmem
  rw [h.notes.attributes_eq] at hmem
  exact Attribute.exists_name_of_mem_without h.notes.named hmem

end Method

/-! ## Classes -/

namespace ClassDecl

/-- The names of the attributes of classes that are decoded. -/
def decodedNames : List String :=
  [ Annotation.visibleAttribute, Annotation.invisibleAttribute]

/-- Attributes of a class in the order in which they are written: what is not decoded, then the
annotations. -/
structure Arranged (pool : Pool) (attributes others visible invisible : List Attribute) : Prop where
  eq_append : attributes = others ++ visible ++ invisible
  others : ∀ attr ∈ others, ∃ name ∉ decodedNames, pool.utf8 attr.name = .ok name
  visible : ∀ attr ∈ visible, pool.utf8 attr.name = .ok Annotation.visibleAttribute
  invisible : ∀ attr ∈ invisible, pool.utf8 attr.name = .ok Annotation.invisibleAttribute

namespace Arranged

variable {pool : Pool} {attributes others visible invisible : List Attribute}
  (h : Arranged pool attributes others visible invisible)

include h

/-- All attributes have names. -/
theorem named : ∀ attr ∈ attributes, ∃ name, pool.utf8 attr.name = .ok name := by
  intro attr hmem
  simp only [h.eq_append, List.mem_append] at hmem
  rcases hmem with (hmem | hmem) | hmem
  · obtain ⟨name, -, hname⟩ := h.others attr hmem
    exact ⟨name, hname⟩
  · exact ⟨_, h.visible attr hmem⟩
  · exact ⟨_, h.invisible attr hmem⟩

/-- The attributes of a name that is decoded are one of the parts. -/
theorem withName_eq {name : String} (hmem : name ∈ decodedNames) :
    Attribute.withName pool name attributes =
      (if Annotation.visibleAttribute = name then visible else []) ++
      (if Annotation.invisibleAttribute = name then invisible else []) := by
  simp only [h.eq_append, Attribute.withName_append, Attribute.withName_of_named h.visible,
    Attribute.withName_of_named h.invisible, Attribute.withName_eq_nil_of_notMem h.others hmem,
    List.nil_append]

theorem withName_visible : Attribute.withName pool Annotation.visibleAttribute attributes = visible := by
  rw [h.withName_eq (by decide), if_pos rfl, if_neg (by decide), List.append_nil]

theorem withName_invisible :
    Attribute.withName pool Annotation.invisibleAttribute attributes = invisible := by
  rw [h.withName_eq (by decide), if_neg (by decide), if_pos rfl, List.nil_append]

/-- The attributes of names that are not decoded are the first part. -/
theorem without_eq : Attribute.without pool decodedNames attributes = others := by
  simp only [h.eq_append, Attribute.without_append, Attribute.without_eq_self h.others,
    Attribute.without_of_named h.visible, Attribute.without_of_named h.invisible]
  rw [if_pos (by decide), if_pos (by decide), List.append_nil, List.append_nil]

end Arranged

/-- A class after it has taken in some attributes. -/
structure Notes (pool : Pool) (attributes : List Attribute) (start after : ClassDecl) : Prop where
  /-- The names of all attributes are known. -/
  named : ∀ attr ∈ attributes, ∃ name, pool.utf8 attr.name = .ok name
  /-- Only annotations and attributes are taken in. -/
  rest_eq : { after with
    visible := start.visible, invisible := start.invisible, attributes := start.attributes } = start
  /-- Attributes of other names are kept. -/
  attributes_eq :
    after.attributes = start.attributes ++ Attribute.without pool decodedNames attributes
  /-- Visible annotations add up. -/
  visible : ∃ marks, Annotation.readAll pool Annotation.visibleAttribute attributes = .ok marks ∧
    after.visible = start.visible ++ marks
  /-- Invisible annotations add up. -/
  invisible : ∃ marks, Annotation.readAll pool Annotation.invisibleAttribute attributes = .ok marks ∧
    after.invisible = start.invisible ++ marks

variable {pool : Pool} {attributes : List Attribute} {start after : ClassDecl}

/-- Taking in an attribute and then others comes to taking in all of them. -/
theorem Notes.cons {attr : Attribute} {next : ClassDecl} (hnext : note pool start attr = .ok next)
    (h : Notes pool attributes next after) : Notes pool (attr :: attributes) start after := by
  obtain ⟨name, hname, hnext⟩ := bind_eq_ok.mp hnext
  have hnamed := List.forall_mem_cons.mpr ⟨⟨name, hname⟩, h.named⟩
  obtain ⟨visible, hvisible, hmarks⟩ := h.visible
  obtain ⟨invisible, hinvisible, hothers⟩ := h.invisible
  have hrest := congrArg (fun decl : ClassDecl => { decl with
    visible := start.visible, invisible := start.invisible, attributes := start.attributes }) h.rest_eq
  have hattributes := h.attributes_eq
  have hskip : ∀ other, name ≠ other → Annotation.readAll pool other (attr :: attributes) =
      Annotation.readAll pool other attributes := fun _ => Annotation.readAll_cons_of_ne hname
  have hvi : Annotation.visibleAttribute ≠ Annotation.invisibleAttribute := by decide
  split at hnext
  · next heq =>
    subst heq
    obtain ⟨marks, hread, hnext⟩ := bind_eq_ok.mp hnext
    obtain rfl := pure_eq_ok.mp hnext
    refine ⟨hnamed, hrest, ?_, ⟨marks ++ visible, Annotation.readAll_cons hname hread hvisible, ?_⟩,
      ⟨invisible, ?_, hothers⟩⟩
    · simpa [Attribute.without_cons hname, decodedNames] using hattributes
    · rw [hmarks, List.append_assoc]
    · rwa [hskip _ hvi]
  split at hnext
  · next heq =>
    subst heq
    obtain ⟨marks, hread, hnext⟩ := bind_eq_ok.mp hnext
    obtain rfl := pure_eq_ok.mp hnext
    refine ⟨hnamed, hrest, ?_, ⟨visible, ?_, hmarks⟩,
      ⟨marks ++ invisible, Annotation.readAll_cons hname hread hinvisible, ?_⟩⟩
    · simpa [Attribute.without_cons hname, decodedNames] using hattributes
    · rwa [hskip _ (Ne.symm hvi)]
    · rw [hothers, List.append_assoc]
  · next hv hi =>
    obtain rfl := pure_eq_ok.mp hnext
    refine ⟨hnamed, hrest, ?_, ⟨visible, ?_, hmarks⟩, ⟨invisible, ?_, hothers⟩⟩
    · rw [hattributes, Attribute.without_cons hname, if_neg (by simp [decodedNames, *])]
      simp
    · rwa [hskip _ hv]
    · rwa [hskip _ hi]

/-- An attribute is taken in if what it holds can be read. -/
theorem exists_note {attr : Attribute} {name : String} (hname : pool.utf8 attr.name = .ok name)
    (hmarks : name = Annotation.visibleAttribute ∨ name = Annotation.invisibleAttribute →
      ∃ marks, Annotation.readList pool attr.info = .ok marks) :
    ∃ next, note pool start attr = .ok next := by
  unfold note
  simp only [hname, bind, Except.bind]
  split
  · next hvisible =>
    obtain ⟨marks, hmarks⟩ := hmarks (.inl hvisible)
    exact ⟨_, by rw [hmarks]; rfl⟩
  split
  · next hinvisible =>
    obtain ⟨marks, hmarks⟩ := hmarks (.inr hinvisible)
    exact ⟨_, by rw [hmarks]; rfl⟩
  · exact ⟨_, rfl⟩

/-- What is taken in can be told from the attributes of each name. -/
theorem notes_of_foldlM (h : attributes.foldlM (note pool) start = .ok after) :
    Notes pool attributes start after := by
  induction attributes generalizing start with
  | nil =>
    obtain rfl := pure_eq_ok.mp h
    exact ⟨by simp, rfl, by simp [Attribute.without], ⟨[], rfl, by simp⟩, ⟨[], rfl, by simp⟩⟩
  | cons attr attributes ih =>
    rw [List.foldlM_cons] at h
    obtain ⟨next, hnext, h⟩ := bind_eq_ok.mp h
    exact (ih h).cons hnext

/-- How a class under edit was read. -/
structure ReadFrom (file : ClassFile) (decl : ClassDecl) : Prop where
  version_eq : decl.version = file.version
  pool_eq : decl.pool = file.pool
  access_eq : decl.access = file.access
  fields_eq : decl.fields = file.fields
  /-- The name is spelled out. -/
  name : file.pool.className file.thisClass = .ok decl.name
  /-- The name of the superclass is spelled out. -/
  superName : file.superClass.mapM file.pool.className = .ok decl.superName
  /-- The names of the interfaces are spelled out. -/
  interfaces : file.interfaces.mapM file.pool.className = .ok decl.interfaces
  /-- The annotations visible at run time are those listed in the attributes. -/
  visible : Annotation.readAll file.pool Annotation.visibleAttribute file.attributes =
    .ok decl.visible
  /-- The annotations invisible at run time are those listed in the attributes. -/
  invisible : Annotation.readAll file.pool Annotation.invisibleAttribute file.attributes =
    .ok decl.invisible
  /-- The names of all attributes are known. -/
  named : ∀ attr ∈ file.attributes, ∃ name, file.pool.utf8 attr.name = .ok name
  /-- Attributes of other names are kept. -/
  attributes_eq : decl.attributes = Attribute.without file.pool decodedNames file.attributes
  /-- The methods are read one by one. -/
  methods : List.Forall₂ (Method.ReadFrom file.pool) file.methods decl.methods

/-- What a class is read from. -/
theorem readFrom_of_ofClassFile {file : ClassFile} {decl : ClassDecl} (h : ofClassFile file = .ok decl) :
    ReadFrom file decl := by
  obtain ⟨name, hname, h⟩ := bind_eq_ok.mp h
  obtain ⟨superName, hsuper, h⟩ := bind_eq_ok.mp h
  obtain ⟨interfaces, hinterfaces, h⟩ := bind_eq_ok.mp h
  obtain ⟨noted, hnoted, h⟩ := bind_eq_ok.mp h
  obtain ⟨methods, hmethods, h⟩ := bind_eq_ok.mp h
  obtain rfl := pure_eq_ok.mp h
  have hnotes := notes_of_foldlM hnoted
  obtain ⟨visible, hvisible, hmarks⟩ := hnotes.visible
  obtain ⟨invisible, hinvisible, hothers⟩ := hnotes.invisible
  have hrest := hnotes.rest_eq
  have hattributes := hnotes.attributes_eq
  obtain ⟨version, pool, access, ownName, ownSuper, ownInterfaces, fields, _, _, _, _⟩ := noted
  simp only [ClassDecl.mk.injEq] at hrest
  obtain ⟨rfl, rfl, rfl, rfl, rfl, rfl, rfl, -⟩ := hrest
  simp only [List.nil_append] at hmarks hothers hattributes
  subst hmarks hothers hattributes
  exact ⟨rfl, rfl, rfl, rfl, hname, hsuper, hinterfaces, hvisible, hinvisible,
    hnotes.named, rfl, (mapM_eq_ok.mp hmethods).imp fun _ _ => Method.readFrom_of_ofEntry⟩

/-- The attributes of a class that are kept have other names than those that are decoded. -/
theorem ReadFrom.attributes_named {file : ClassFile} {decl : ClassDecl} (h : ReadFrom file decl) :
    ∀ attr ∈ decl.attributes, ∃ name ∉ decodedNames, file.pool.utf8 attr.name = .ok name := by
  intro attr hmem
  rw [h.attributes_eq] at hmem
  exact Attribute.exists_name_of_mem_without h.named hmem

end ClassDecl

end ClassInstrument
