import ClassInstrument.Analysis.Merge
import ClassInstrument.Proofs.Descriptor.RoundTrip
import ClassInstrument.Proofs.Hierarchy.CommonSuperclass
import ClassInstrument.Proofs.Outcome

/-!
# The order behind the merge of types

At each level (field types, names of class constants, verification types, local variables) one type
takes in another exactly if the merge of the two is the first, and this relation is the order
`Below`.  A merge is above both of its arguments, `Below` is transitive, and a merge that differs from
its first argument is smaller in rank.  So a type that has taken in another one still takes it in
after any number of merges, and only finitely many merges change it.

From reference types the order carries over to the names of class constants, to verification types,
where the null reference is below every object, and to local variables, where everything is below an
unusable slot.  The weight of a type makes every proper step up a step down in a well-founded order.
Its first part counts null references, which may turn into objects of any height.
-/

namespace ClassInstrument

open Outcome
open Hierarchy (height)

variable {hierarchy : Hierarchy}

namespace FieldType

/-! ## Reference types -/

/-- A type can take the place of another one in a merge: everything is below the root, classes are
ordered by the hierarchy, and arrays of references by their elements. -/
def Below (hierarchy : Hierarchy) : FieldType → FieldType → Prop
  | array sub, array super =>
    sub = super ∨ (sub.isReference ∧ super.isReference ∧ sub.Below hierarchy super)
  | object sub, object super => hierarchy.Below sub super
  | sub, super => super = sub ∨ super = object Name.object

/-- Every type is below itself. -/
theorem Below.refl (type : FieldType) : type.Below hierarchy type := by
  cases type with
  | base _ => exact Or.inl rfl
  | object name => exact Hierarchy.Below.refl name
  | array _ => exact Or.inl rfl

/-- Every type is below the root of the hierarchy. -/
theorem below_object (type : FieldType) : type.Below hierarchy (object Name.object) := by
  cases type with
  | base _ => exact Or.inr rfl
  | object name => exact Hierarchy.below_object name
  | array _ => exact Or.inr rfl

/-- Nothing but the root is above the root. -/
theorem eq_object_of_below (hwf : hierarchy.WellFormed) {type : FieldType}
    (h : (object Name.object).Below hierarchy type) : type = object Name.object := by
  cases type with
  | base _ => simp [Below] at h
  | object name => rw [Hierarchy.eq_object_of_below hwf h]
  | array _ => simp [Below] at h

/-- `Below` is transitive. -/
theorem Below.trans (hwf : hierarchy.WellFormed) {a b c : FieldType} (hab : a.Below hierarchy b)
    (hbc : b.Below hierarchy c) : a.Below hierarchy c := by
  induction a generalizing b c with
  | base type =>
    have hb : b = base type ∨ b = object Name.object := by
      cases b <;> exact hab
    rcases hb with rfl | rfl
    · exact hbc
    · rw [eq_object_of_below hwf hbc]
      exact below_object _
  | object name =>
    cases b with
    | base _ => simp [Below] at hab
    | array _ => simp [Below] at hab
    | object middle =>
      cases c with
      | base _ => simp [Below] at hbc
      | array _ => simp [Below] at hbc
      | object super => exact Hierarchy.Below.trans hwf hab hbc
  | array element ih =>
    cases b with
    | base _ => simp [Below] at hab
    | object middle =>
      have hmiddle : object middle = object Name.object := by simpa [Below] using hab
      rw [hmiddle] at hbc
      rw [eq_object_of_below hwf hbc]
      exact below_object _
    | array middle =>
      cases c with
      | base _ => simp [Below] at hbc
      | object super =>
        have hsuper : object super = object Name.object := by simpa [Below] using hbc
        exact hsuper ▸ below_object _
      | array super =>
        rcases hab with rfl | ⟨ha, hb, hab⟩
        · exact hbc
        · rcases hbc with rfl | ⟨-, hc, hbc⟩
          · exact Or.inr ⟨ha, hb, hab⟩
          · exact Or.inr ⟨ha, hc, ih hab hbc⟩

/-- The height of a type: the height of a class, and one more for each dimension. -/
noncomputable def height (hierarchy : Hierarchy) : FieldType → ℕ
  | base _ => 0
  | object name => hierarchy.height name
  | array element => element.height hierarchy + 1

/-- The height of a reference type falls on the way up. -/
theorem height_lt (hwf : hierarchy.WellFormed) {sub super : FieldType} (href : sub.isReference)
    (h : sub.Below hierarchy super) (hne : super ≠ sub) :
    super.height hierarchy < sub.height hierarchy := by
  induction sub generalizing super with
  | base _ => simp [isReference] at href
  | object name =>
    cases super with
    | base _ => simp [Below] at h
    | array _ => simp [Below] at h
    | object other => exact Hierarchy.height_lt hwf h fun heq => hne (by rw [heq])
  | array element ih =>
    cases super with
    | base _ => simp [Below] at h
    | object other =>
      have hroot : object other = object Name.object := by simpa [Below] using h
      rw [hroot]
      simp [height]
    | array other =>
      rcases h with rfl | ⟨helement, -, h⟩
      · exact absurd rfl hne
      · have hlt := ih helement h fun heq => hne (by rw [heq])
        simpa [height] using hlt

/-- How a merge of types comes about: the types are equal, they have only the root in common, or
classes or the elements of arrays were merged. -/
theorem fieldTypes_cases {left right merged : FieldType}
    (h : Merge.fieldTypes hierarchy left right = .ok merged) :
    (left = right ∧ merged = left) ∨ merged = object Name.object ∨
      (∃ first second super, left = object first ∧ right = object second ∧
        hierarchy.commonSuperclass first second = .ok super ∧ merged = object super) ∨
      ∃ first second inner, left = array first ∧ right = array second ∧ first.isReference ∧
        second.isReference ∧ Merge.fieldTypes hierarchy first second = .ok inner ∧
        merged = array inner := by
  unfold Merge.fieldTypes at h
  split at h
  · next first second =>
    by_cases hsame : first = second
    · left
      subst hsame
      have hmerged := h
      simp only [↓reduceIte, pure, Except.pure, Except.ok.injEq] at hmerged
      exact ⟨rfl, hmerged.symm⟩
    · by_cases hrefs : first.isReference ∧ second.isReference
      · rcases hinner : Merge.fieldTypes hierarchy first second with fault | inner
        · simp [hsame, hrefs, hinner, bind, Except.bind] at h
        · right; right; right
          obtain rfl : array inner = merged := by
            simpa [hsame, hrefs, hinner, bind, Except.bind, pure, Except.pure] using h
          exact ⟨first, second, inner, rfl, rfl, hrefs.1, hrefs.2, hinner, rfl⟩
      · right; left
        obtain rfl : object Name.object = merged := by
          simpa [hsame, hrefs, pure, Except.pure] using h
        rfl
  · next first second =>
    by_cases hsame : first = second
    · left
      subst hsame
      have hmerged := h
      simp only [↓reduceIte, pure, Except.pure, Except.ok.injEq] at hmerged
      exact ⟨rfl, hmerged.symm⟩
    · rcases hcommon : hierarchy.commonSuperclass first second with fault | super
      · simp [hsame, hcommon, bind, Except.bind] at h
      · right; right; left
        obtain rfl : object super = merged := by
          simpa [hsame, hcommon, bind, Except.bind, pure, Except.pure] using h
        exact ⟨first, second, super, rfl, rfl, hcommon, rfl⟩
  · by_cases hsame : left = right
    · left
      subst hsame
      have hmerged := h
      simp only [↓reduceIte, pure, Except.pure, Except.ok.injEq] at hmerged
      exact ⟨rfl, hmerged.symm⟩
    · right; left
      obtain rfl : object Name.object = merged := by
        simpa [hsame, pure, Except.pure] using h
      rfl

/-- A merge of references is a reference above both of them. -/
theorem below_of_fieldTypes {left right merged : FieldType} (hleft : left.isReference)
    (h : Merge.fieldTypes hierarchy left right = .ok merged) :
    left.Below hierarchy merged ∧ right.Below hierarchy merged ∧ merged.isReference := by
  induction left generalizing right merged with
  | base _ => simp [isReference] at hleft
  | object name =>
    rcases fieldTypes_cases h with ⟨rfl, rfl⟩ | rfl | ⟨_, _, super, ⟨⟩, rfl, hcommon, rfl⟩ |
      ⟨_, _, _, ⟨⟩, _⟩
    · exact ⟨.refl _, .refl _, rfl⟩
    · exact ⟨below_object _, below_object _, rfl⟩
    · obtain ⟨hfirst, hsecond, -⟩ := Hierarchy.below_commonSuperclass hcommon
      exact ⟨hfirst, hsecond, rfl⟩
  | array element ih =>
    rcases fieldTypes_cases h with ⟨rfl, rfl⟩ | rfl | ⟨_, _, _, ⟨⟩, _⟩ |
      ⟨_, other, inner, ⟨⟩, rfl, hfirst, hsecond, hinner, rfl⟩
    · exact ⟨.refl _, .refl _, rfl⟩
    · exact ⟨below_object _, below_object _, rfl⟩
    · obtain ⟨hleft, hright, hinnerRef⟩ := ih hfirst hinner
      exact ⟨Or.inr ⟨hfirst, hinnerRef, hleft⟩, Or.inr ⟨hsecond, hinnerRef, hright⟩, rfl⟩

/-- A merge of references is the first of them exactly if the second is below it. -/
theorem fieldTypes_eq_left_iff (hwf : hierarchy.WellFormed) {left right : FieldType}
    (hleft : left.isReference) :
    Merge.fieldTypes hierarchy left right = .ok left ↔ right.Below hierarchy left := by
  constructor
  · intro h
    exact (below_of_fieldTypes hleft h).2.1
  intro h
  induction left generalizing right with
  | base _ => simp [isReference] at hleft
  | object name =>
    cases right with
    | base _ =>
      have hroot : object name = object Name.object := by simpa [Below] using h
      simp [Merge.fieldTypes, hroot, pure, Except.pure]
    | array _ =>
      have hroot : object name = object Name.object := by simpa [Below] using h
      simp [Merge.fieldTypes, hroot, pure, Except.pure]
    | object other =>
      by_cases hsame : name = other
      · simp [Merge.fieldTypes, hsame, pure, Except.pure]
      · have hcommon := (Hierarchy.commonSuperclass_eq_first_iff hwf).mpr h
        simp [Merge.fieldTypes, hsame, hcommon, bind, Except.bind, pure, Except.pure]
  | array element ih =>
    cases right with
    | base _ => simp [Below] at h
    | object _ => simp [Below] at h
    | array other =>
      by_cases hsame : element = other
      · simp [Merge.fieldTypes, hsame, pure, Except.pure]
      · obtain ⟨hother, helement, hbelow⟩ := h.resolve_left (Ne.symm hsame)
        have hinner := ih helement hbelow
        simp [Merge.fieldTypes, hsame, hother, helement, hinner, bind, Except.bind, pure,
          Except.pure]

/-- A merge of types that can be rendered can be rendered. -/
theorem isRenderable_of_fieldTypes (hwf : hierarchy.WellFormed) {left right merged : FieldType}
    (hleft : left.IsRenderable) (hright : right.IsRenderable)
    (h : Merge.fieldTypes hierarchy left right = .ok merged) : merged.IsRenderable := by
  have hobject : (object Name.object).IsRenderable := by simp [IsRenderable, Name.object]
  induction left generalizing right merged with
  | base _ =>
    rcases fieldTypes_cases h with ⟨rfl, rfl⟩ | rfl | ⟨_, _, _, ⟨⟩, _⟩ | ⟨_, _, _, ⟨⟩, _⟩
    · exact hleft
    · exact hobject
  | object name =>
    rcases fieldTypes_cases h with ⟨rfl, rfl⟩ | rfl | ⟨_, other, super, ⟨⟩, rfl, hcommon, rfl⟩ |
      ⟨_, _, _, ⟨⟩, _⟩
    · exact hleft
    · exact hobject
    · rcases (Hierarchy.below_commonSuperclass hcommon).2.2 with rfl | rfl | rfl | ⟨sub, hmentions⟩
      · exact hleft
      · exact hright
      · exact hobject
      · obtain ⟨hne, hsemicolon, -⟩ := hwf.named hmentions
        exact ⟨hne, hsemicolon⟩
  | array element ih =>
    rcases fieldTypes_cases h with ⟨rfl, rfl⟩ | rfl | ⟨_, _, _, ⟨⟩, _⟩ |
      ⟨_, other, inner, ⟨⟩, rfl, -, -, hinner, rfl⟩
    · exact hleft
    · exact hobject
    · have hother : other.IsRenderable := hright
      have hinnerRender : inner.IsRenderable := ih hleft hother hinner
      exact hinnerRender

/-- A merge of types named by class constants is named by a class constant. -/
theorem isNamed_of_fieldTypes (hwf : hierarchy.WellFormed) {left right merged : FieldType}
    (hleft : left.IsNamed) (hright : right.IsNamed)
    (h : Merge.fieldTypes hierarchy left right = .ok merged) : merged.IsNamed := by
  have hobject : (object Name.object).IsNamed := by simp [IsNamed, Name.object]
  rcases fieldTypes_cases h with ⟨rfl, rfl⟩ | rfl | ⟨first, second, super, rfl, rfl, hcommon, rfl⟩ |
    ⟨first, second, inner, rfl, rfl, -, -, hinner, rfl⟩
  · exact hleft
  · exact hobject
  · rcases (Hierarchy.below_commonSuperclass hcommon).2.2 with rfl | rfl | rfl | ⟨sub, hmentions⟩
    · exact hleft
    · exact hright
    · exact hobject
    · exact (hwf.named hmentions).2.2
  · have hinnerRender := isRenderable_of_fieldTypes hwf hleft hright hinner
    exact hinnerRender

/-- A merge that fails does not go on for ever. -/
theorem isEndless_of_fieldTypes (hwf : hierarchy.WellFormed) {left right : FieldType}
    {fault : Fault} (h : Merge.fieldTypes hierarchy left right = .error fault) :
    fault.isEndless = false := by
  induction left generalizing right with
  | base _ =>
    cases right <;> simp only [Merge.fieldTypes, pure, Except.pure] at h <;> split at h <;>
      simp at h
  | object name =>
    cases right with
    | base _ => simp [Merge.fieldTypes, pure, Except.pure] at h
    | array _ => simp [Merge.fieldTypes, pure, Except.pure] at h
    | object other =>
      by_cases hsame : name = other
      · simp [Merge.fieldTypes, hsame, pure, Except.pure] at h
      · rcases hcommon : hierarchy.commonSuperclass name other with found | super
        · obtain rfl : found = fault := by
            simpa [Merge.fieldTypes, hsame, hcommon, bind, Except.bind] using h
          exact Hierarchy.isEndless_of_commonSuperclass hwf hcommon
        · simp [Merge.fieldTypes, hsame, hcommon, bind, Except.bind, pure, Except.pure] at h
  | array element ih =>
    cases right with
    | base _ => simp [Merge.fieldTypes, pure, Except.pure] at h
    | object _ => simp [Merge.fieldTypes, pure, Except.pure] at h
    | array other =>
      by_cases hsame : element = other
      · simp [Merge.fieldTypes, hsame, pure, Except.pure] at h
      by_cases hrefs : element.isReference ∧ other.isReference
      · rcases hinner : Merge.fieldTypes hierarchy element other with found | inner
        · obtain rfl : found = fault := by
            simpa [Merge.fieldTypes, hsame, hrefs, hinner, bind, Except.bind] using h
          exact ih hinner
        · simp [Merge.fieldTypes, hsame, hrefs, hinner, bind, Except.bind, pure, Except.pure] at h
      · simp [Merge.fieldTypes, hsame, hrefs, pure, Except.pure] at h

end FieldType

/-! ## Names of class constants -/

/-- One class or array type, given by the name of its constant, is below another one. -/
def NameBelow (hierarchy : Hierarchy) (sub super : String) : Prop :=
  sub = super ∨ ∃ lower upper, FieldType.ofClassConstantName sub = .ok lower ∧
    FieldType.ofClassConstantName super = .ok upper ∧ lower.Below hierarchy upper

/-- The order of names is transitive. -/
theorem NameBelow.trans (hwf : hierarchy.WellFormed) {a b c : String}
    (hab : NameBelow hierarchy a b) (hbc : NameBelow hierarchy b c) : NameBelow hierarchy a c := by
  rcases hab with rfl | ⟨lower, middle, hlower, hmiddle, hab⟩
  · exact hbc
  rcases hbc with rfl | ⟨middle', upper, hmiddle', hupper, hbc⟩
  · exact Or.inr ⟨lower, middle, hlower, hmiddle, hab⟩
  · rw [hmiddle, Except.ok.injEq] at hmiddle'
    subst hmiddle'
    exact Or.inr ⟨lower, upper, hlower, hupper, FieldType.Below.trans hwf hab hbc⟩

/-- The height of the type that a name stands for. -/
noncomputable def nameHeight (hierarchy : Hierarchy) (name : String) : ℕ :=
  match FieldType.ofClassConstantName name with
  | .ok type => type.height hierarchy
  | .error _ => 0

/-- Types named by class constants are references. -/
theorem FieldType.IsNamed.isReference {type : FieldType} (h : type.IsNamed) : type.isReference := by
  cases type with
  | base _ => simp [FieldType.IsNamed] at h
  | object _ => rfl
  | array _ => rfl

/-- The height of a name falls on the way up. -/
theorem nameHeight_lt (hwf : hierarchy.WellFormed) {sub super : String}
    (h : NameBelow hierarchy sub super) (hne : super ≠ sub) :
    nameHeight hierarchy super < nameHeight hierarchy sub := by
  obtain ⟨lower, upper, hlower, hupper, hbelow⟩ := h.resolve_left hne.symm
  obtain ⟨hlowerName, hlowerNamed⟩ := FieldType.eq_of_ofClassConstantName hlower
  obtain ⟨hupperName, -⟩ := FieldType.eq_of_ofClassConstantName hupper
  have hdiffer : upper ≠ lower := by
    rintro rfl
    exact hne (Option.some.inj (hupperName.symm.trans hlowerName))
  simpa [nameHeight, hlower, hupper] using
    FieldType.height_lt hwf hlowerNamed.isReference hbelow hdiffer

/-- A name that an instruction refers to is read as that of a class constant. -/
theorem demandClass_eq_ok {name : String} {type : FieldType} :
    FieldType.demandClass name = .ok type ↔ FieldType.ofClassConstantName name = .ok type := by
  unfold FieldType.demandClass
  split <;> simp [*]

/-- A merge of names comes from a merge of the types they stand for. -/
theorem classNames_eq_ok {left right merged : String}
    (h : Merge.classNames hierarchy left right = .ok merged) :
    ∃ lower upper type, FieldType.ofClassConstantName left = .ok lower ∧
      FieldType.ofClassConstantName right = .ok upper ∧
      Merge.fieldTypes hierarchy lower upper = .ok type ∧
      merged = type.classConstantName?.getD Name.object := by
  unfold Merge.classNames at h
  obtain ⟨lower, hlower, h⟩ := bind_eq_ok.mp h
  obtain ⟨upper, hupper, h⟩ := bind_eq_ok.mp h
  obtain ⟨type, htype, h⟩ := bind_eq_ok.mp h
  exact ⟨lower, upper, type, demandClass_eq_ok.mp hlower, demandClass_eq_ok.mp hupper, htype,
    (pure_eq_ok.mp h).symm⟩

/-- A merge of names is above both of them. -/
theorem below_of_classNames (hwf : hierarchy.WellFormed) {left right merged : String}
    (h : Merge.classNames hierarchy left right = .ok merged) :
    NameBelow hierarchy left merged ∧ NameBelow hierarchy right merged := by
  obtain ⟨lower, upper, type, hlower, hupper, htype, hmerged⟩ := classNames_eq_ok h
  have hlowerNamed := (FieldType.eq_of_ofClassConstantName hlower).2
  have hupperNamed := (FieldType.eq_of_ofClassConstantName hupper).2
  have hnamed := FieldType.isNamed_of_fieldTypes hwf hlowerNamed hupperNamed htype
  obtain ⟨name, hname⟩ : ∃ name, type.classConstantName? = some name := by
    cases type with
    | base _ => simp [FieldType.IsNamed] at hnamed
    | object name => exact ⟨name, rfl⟩
    | array element => exact ⟨_, rfl⟩
  rw [hname, Option.getD_some] at hmerged
  have hread := FieldType.ofClassConstantName_of_isNamed hnamed hname
  obtain ⟨hleft, hright, -⟩ := FieldType.below_of_fieldTypes hlowerNamed.isReference htype
  rw [hmerged]
  exact ⟨Or.inr ⟨lower, type, hlower, hread, hleft⟩, Or.inr ⟨upper, type, hupper, hread, hright⟩⟩

/-- A merge of different names is the first if the second is below it. -/
theorem classNames_eq_left (hwf : hierarchy.WellFormed) {left right : String} (hne : left ≠ right)
    (h : NameBelow hierarchy right left) :
    Merge.classNames hierarchy left right = .ok left := by
  obtain ⟨lower, upper, hlower, hupper, hbelow⟩ := h.resolve_left hne.symm
  obtain ⟨hname, hnamed⟩ := FieldType.eq_of_ofClassConstantName hupper
  have htype := (FieldType.fieldTypes_eq_left_iff hwf hnamed.isReference).mpr hbelow
  simp [Merge.classNames, demandClass_eq_ok.mpr hlower, demandClass_eq_ok.mpr hupper, htype, hname,
    bind, Except.bind, pure, Except.pure]

/-- A merge of names that fails does not go on for ever. -/
theorem isEndless_of_classNames (hwf : hierarchy.WellFormed) {left right : String} {fault : Fault}
    (h : Merge.classNames hierarchy left right = .error fault) : fault.isEndless = false := by
  have hdemand : ∀ name, FieldType.demandClass name = .error fault → fault.isEndless = false := by
    intro name hname
    unfold FieldType.demandClass at hname
    split at hname
    · simp at hname
    · cases hname
      rfl
  unfold Merge.classNames at h
  rcases bind_eq_error.mp h with h | ⟨lower, -, h⟩
  · exact hdemand left h
  rcases bind_eq_error.mp h with h | ⟨upper, -, h⟩
  · exact hdemand right h
  rcases bind_eq_error.mp h with h | ⟨type, -, h⟩
  · exact FieldType.isEndless_of_fieldTypes hwf h
  · exact absurd h pure_ne_error

/-! ## Verification types -/

/-- One verification type is below another one. -/
def TypeBelow (hierarchy : Hierarchy) : FlowType → FlowType → Prop
  | .null, .object _ => True
  | .object sub, .object super => NameBelow hierarchy sub super
  | sub, super => sub = super

/-- Every type is below itself. -/
theorem TypeBelow.refl (type : FlowType) : TypeBelow hierarchy type type := by
  cases type with
  | object _ => exact Or.inl rfl
  | _ => rfl

/-- The order of types is transitive. -/
theorem TypeBelow.trans (hwf : hierarchy.WellFormed) {a b c : FlowType}
    (hab : TypeBelow hierarchy a b) (hbc : TypeBelow hierarchy b c) : TypeBelow hierarchy a c := by
  cases b with
  | object middle =>
    cases c with
    | object super =>
      cases a with
      | null => trivial
      | object sub => exact NameBelow.trans hwf hab hbc
      | _ => simp [TypeBelow] at hab
    | _ => simp [TypeBelow] at hbc
  | null =>
    have ha : a = .null := by cases a <;> simp_all [TypeBelow]
    exact ha ▸ hbc
  | _ =>
    have hc := hbc
    simp only [TypeBelow] at hc
    exact hc ▸ hab

/-- A merge of types is above both of them. -/
theorem below_of_types (hwf : hierarchy.WellFormed) {left right merged : FlowType}
    (h : Merge.types hierarchy left right = .ok (some merged)) :
    TypeBelow hierarchy left merged ∧ TypeBelow hierarchy right merged := by
  unfold Merge.types at h
  split at h
  · next hsame =>
    obtain rfl := Option.some.inj (pure_eq_ok.mp h)
    exact ⟨.refl _, hsame ▸ .refl _⟩
  · split at h
    · obtain rfl := Option.some.inj (pure_eq_ok.mp h)
      exact ⟨trivial, .refl _⟩
    · obtain rfl := Option.some.inj (pure_eq_ok.mp h)
      exact ⟨.refl _, trivial⟩
    · obtain ⟨name, hname, h⟩ := bind_eq_ok.mp h
      obtain rfl := Option.some.inj (pure_eq_ok.mp h)
      exact below_of_classNames hwf hname
    · simp [pure_eq_ok] at h

/-- A merge of types is the first exactly if the second is below it. -/
theorem types_eq_left_iff (hwf : hierarchy.WellFormed) {left right : FlowType} :
    Merge.types hierarchy left right = .ok (some left) ↔ TypeBelow hierarchy right left := by
  constructor
  · intro h
    exact (below_of_types hwf h).2
  intro h
  unfold Merge.types
  split
  · rfl
  · next hne =>
    cases left with
    | object name =>
      cases right with
      | null => rfl
      | object other =>
        have hdiffer : name ≠ other := fun heq => hne (by rw [heq])
        simp [classNames_eq_left hwf hdiffer h, bind, Except.bind, pure, Except.pure]
      | _ => simp [TypeBelow] at h
    | _ => cases right <;> simp_all [TypeBelow]

/-- A merge of types that fails does not go on for ever. -/
theorem isEndless_of_types (hwf : hierarchy.WellFormed) {left right : FlowType} {fault : Fault}
    (h : Merge.types hierarchy left right = .error fault) : fault.isEndless = false := by
  unfold Merge.types at h
  split at h
  · exact absurd h pure_ne_error
  · split at h
    · exact absurd h pure_ne_error
    · exact absurd h pure_ne_error
    · rcases bind_eq_error.mp h with h | ⟨name, -, h⟩
      · exact isEndless_of_classNames hwf h
      · exact absurd h pure_ne_error
    · exact absurd h pure_ne_error

/-! ## Local variables -/

/-- One type of a local variable is below another one. -/
def LocalBelow (hierarchy : Hierarchy) (sub super : FlowType) : Prop :=
  super = .top ∨ TypeBelow hierarchy sub super

/-- Every type of a variable is below itself. -/
theorem LocalBelow.refl (type : FlowType) : LocalBelow hierarchy type type :=
  Or.inr (.refl type)

/-- The order of variables is transitive. -/
theorem LocalBelow.trans (hwf : hierarchy.WellFormed) {a b c : FlowType}
    (hab : LocalBelow hierarchy a b) (hbc : LocalBelow hierarchy b c) :
    LocalBelow hierarchy a c := by
  rcases hbc with hbc | hbc
  · exact Or.inl hbc
  rcases hab with rfl | hab
  · refine Or.inl ?_
    cases c <;> simp_all [TypeBelow]
  · exact Or.inr (hab.trans hwf hbc)

/-- A merge of variables is above both of them. -/
theorem below_of_locals (hwf : hierarchy.WellFormed) {left right merged : FlowType}
    (h : Merge.locals hierarchy (left, right) = .ok merged) :
    LocalBelow hierarchy left merged ∧ LocalBelow hierarchy right merged := by
  unfold Merge.locals at h
  obtain ⟨found, hfound, h⟩ := bind_eq_ok.mp h
  obtain rfl := pure_eq_ok.mp h
  cases found with
  | none => exact ⟨Or.inl rfl, Or.inl rfl⟩
  | some type =>
    obtain ⟨hleft, hright⟩ := below_of_types hwf hfound
    exact ⟨Or.inr hleft, Or.inr hright⟩

/-- A merge of variables is the first exactly if the second is below it. -/
theorem locals_eq_left_iff (hwf : hierarchy.WellFormed) {left right : FlowType} :
    Merge.locals hierarchy (left, right) = .ok left ↔ LocalBelow hierarchy right left := by
  constructor
  · intro h
    exact (below_of_locals hwf h).2
  · rintro (rfl | h)
    · unfold Merge.locals Merge.types
      split
      · rfl
      · cases right <;> simp_all [bind, Except.bind, pure, Except.pure]
    · simp [Merge.locals, (types_eq_left_iff hwf).mpr h, bind, Except.bind, pure, Except.pure]

/-! ## Weights -/

/-- The weight of a type: whether it is the null reference, then how far it can move up. -/
noncomputable def typeWeight (hierarchy : Hierarchy) : FlowType → ℕ ×ₗ ℕ
  | .null => toLex (1, 0)
  | .top => toLex (0, 0)
  | .object name => toLex (0, nameHeight hierarchy name + 1)
  | _ => toLex (0, 1)

/-- A type that moves up loses weight. -/
theorem typeWeight_lt (hwf : hierarchy.WellFormed) {sub super : FlowType}
    (h : LocalBelow hierarchy sub super) (hne : super ≠ sub) :
    typeWeight hierarchy super < typeWeight hierarchy sub := by
  rcases h with rfl | h
  · cases sub <;> simp_all [typeWeight, Prod.Lex.toLex_lt_toLex]
  · cases sub with
    | null =>
      cases super <;> simp_all [TypeBelow, typeWeight, Prod.Lex.toLex_lt_toLex]
    | object name =>
      cases super with
      | object other =>
        have hlt := nameHeight_lt hwf h fun heq => hne (by rw [heq])
        simpa [typeWeight, Prod.Lex.toLex_lt_toLex] using hlt
      | _ => simp [TypeBelow] at h
    | _ =>
      simp only [TypeBelow] at h
      exact absurd h.symm hne

end ClassInstrument
