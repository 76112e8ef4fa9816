import ClassInstrument.Proofs.Analysis.CanonicalFrames

/-!
# Types that fit others

Which class a merge gives depends on the order in which frames arrive, since interfaces have only the
root in common.  What does not depend on it is how a value can be used: whether it is a number of some
width, an object, the null reference, or an object that is not initialized yet, and for an array what
its elements are in this sense.  A type fits another one if it can be used in the same way or is the null
reference in the place of an object.

Known types that fit a third one have a merge, and it fits the third one as well.  So frames that fit
a given frame can be merged in any order.  Creation sites are named by positions of a source code, and
`site` says where they are in the code under analysis.
-/

namespace ClassInstrument

open Outcome

variable {hierarchy : Hierarchy}

namespace Hierarchy

/-- The root of a hierarchy that knows a class is known. -/
theorem Knows.root (hwf : hierarchy.WellFormed) {name : String} (h : hierarchy.Knows name) :
    hierarchy.Knows Name.object :=
  h.reaches hwf (reaches_object hwf h)

/-- Two known classes have a common superclass, which is known. -/
theorem exists_commonSuperclass (hwf : hierarchy.WellFormed) {first second : String}
    (hfirst : hierarchy.Knows first) (hsecond : hierarchy.Knows second) :
    ∃ super, hierarchy.commonSuperclass first second = .ok super ∧ hierarchy.Knows super := by
  suffices h : ∃ super, hierarchy.commonSuperclass first second = .ok super by
    obtain ⟨super, hsuper⟩ := h
    refine ⟨super, hsuper, ?_⟩
    rcases (below_commonSuperclass hsuper).2.2 with rfl | rfl | rfl | ⟨sub, hmentions⟩
    · exact hfirst
    · exact hsecond
    · exact hfirst.root hwf
    · exact hwf.closed hmentions
  have habove : ∀ above, Relation.ReflTransGen hierarchy.Extends first above → hierarchy.Knows above :=
    fun above h => hfirst.reaches hwf (reaches_of_extends h)
  refine avoids_true.mp (avoids_commonSuperclass_of ?_ ?_ ?_ ?_ fun _ _ _ _ => ?_)
  · exact avoids_true.mpr (exists_isAssignable hwf hsecond first)
  · exact avoids_true.mpr (exists_isAssignable hwf hfirst second)
  · exact avoids_true.mpr hfirst
  · exact avoids_true.mpr hsecond
  · exact exists_climb (hwf.acc_extends first) (fun above h => avoids_true.mpr (habove above h))
      fun above _ => avoids_true.mpr (exists_isAssignable hwf hsecond above)

end Hierarchy

/-! ## Types of fields -/

namespace FieldType

/-- The classes in a type have proper names and are known. -/
def IsKnown (hierarchy : Hierarchy) : FieldType → Prop
  | base _ => True
  | object name => Name.IsClassName name ∧ hierarchy.Knows name
  | array element => element.IsKnown hierarchy

/-- Values of the first type can be used like those of the second, as far as classes do not matter:
every reference is an object, and arrays go by their elements. -/
def Resembles : FieldType → FieldType → Prop
  | sub, base type => sub = base type
  | sub, object _ => sub.isReference
  | sub, array element => ∃ inner, sub = array inner ∧ inner.Resembles element

/-- The class names of a known type can be written in a descriptor. -/
theorem IsKnown.isRenderable {type : FieldType} (h : type.IsKnown hierarchy) : type.IsRenderable := by
  induction type with
  | base _ => trivial
  | object name => exact ⟨h.1.1, h.1.2.1⟩
  | array element ih => exact ih h

/-- A known reference type is named by a class constant. -/
theorem IsKnown.exists_name {type : FieldType} (h : type.IsKnown hierarchy)
    (href : type.isReference) :
    ∃ name, type.classConstantName? = some name ∧ ofClassConstantName name = .ok type := by
  cases type with
  | base _ => simp [isReference] at href
  | object name => exact ⟨name, rfl, ofClassConstantName_of_isNamed h.1.2.2 rfl⟩
  | array element =>
    exact ⟨_, rfl, ofClassConstantName_of_isNamed (@IsKnown.isRenderable _ element h) rfl⟩

/-- The root of a hierarchy that knows it is a known type. -/
theorem isKnown_object (hroot : hierarchy.Knows Name.object) :
    (object Name.object).IsKnown hierarchy :=
  ⟨by simp [Name.IsClassName, Name.object], hroot⟩

/-- Every type resembles itself. -/
theorem Resembles.refl (type : FieldType) : type.Resembles type := by
  induction type with
  | base _ => exact rfl
  | object _ => exact rfl
  | array element ih => exact ⟨element, rfl, ih⟩

/-- What resembles a reference is a reference. -/
theorem Resembles.isReference {sub super : FieldType} (h : sub.Resembles super)
    (href : super.isReference) : sub.isReference := by
  cases super with
  | base _ => simp [FieldType.isReference] at href
  | object _ => exact h
  | array element =>
    obtain ⟨inner, rfl, -⟩ := h
    rfl

/-- What resembles a reference resembles all that is above it. -/
theorem Resembles.below {sub middle super : FieldType} (h : sub.Resembles middle)
    (href : middle.isReference) (hbelow : middle.Below hierarchy super) : sub.Resembles super := by
  induction middle generalizing sub super with
  | base _ => simp [FieldType.isReference] at href
  | object name =>
    cases super with
    | base _ => simp [Below] at hbelow
    | array _ => simp [Below] at hbelow
    | object _ => exact h.isReference rfl
  | array element ih =>
    cases super with
    | base _ => simp [Below] at hbelow
    | object _ => exact h.isReference rfl
    | array other =>
      rcases hbelow with rfl | ⟨helement, -, hbelow⟩
      · exact h
      · obtain ⟨inner, rfl, h⟩ := h
        exact ⟨inner, rfl, ih h helement hbelow⟩

/-- Known types have a merge, which is known. -/
theorem exists_fieldTypes (hwf : hierarchy.WellFormed) (hroot : hierarchy.Knows Name.object)
    {left right : FieldType} (hleft : left.IsKnown hierarchy) (hright : right.IsKnown hierarchy) :
    ∃ merged, Merge.fieldTypes hierarchy left right = .ok merged ∧ merged.IsKnown hierarchy := by
  have hobject := isKnown_object hroot
  induction left generalizing right with
  | base type =>
    by_cases hsame : base type = right
    · exact ⟨base type, by subst hsame; simp [Merge.fieldTypes, pure, Except.pure], hleft⟩
    · exact ⟨_, by simp [Merge.fieldTypes, hsame, pure, Except.pure], hobject⟩
  | object name =>
    cases right with
    | base _ => exact ⟨_, by simp [Merge.fieldTypes, pure, Except.pure], hobject⟩
    | array _ => exact ⟨_, by simp [Merge.fieldTypes, pure, Except.pure], hobject⟩
    | object other =>
      by_cases hsame : name = other
      · exact ⟨object name, by simp [Merge.fieldTypes, hsame, pure, Except.pure], hleft⟩
      · obtain ⟨super, hsuper, hknows⟩ := Hierarchy.exists_commonSuperclass hwf hleft.2 hright.2
        refine ⟨object super, ?_, ?_, hknows⟩
        · simp [Merge.fieldTypes, hsame, hsuper, bind, Except.bind, pure, Except.pure]
        · rcases (Hierarchy.below_commonSuperclass hsuper).2.2 with rfl | rfl | rfl | ⟨_, hmentions⟩
          · exact hleft.1
          · exact hright.1
          · exact hobject.1
          · exact hwf.named hmentions
  | array element ih =>
    cases right with
    | base _ => exact ⟨_, by simp [Merge.fieldTypes, pure, Except.pure], hobject⟩
    | object _ => exact ⟨_, by simp [Merge.fieldTypes, pure, Except.pure], hobject⟩
    | array other =>
      by_cases hsame : element = other
      · exact ⟨array element, by simp [Merge.fieldTypes, hsame, pure, Except.pure], hleft⟩
      by_cases hrefs : element.isReference ∧ other.isReference
      · have hother : other.IsKnown hierarchy := hright
        obtain ⟨inner, hinner, hknown⟩ := ih hleft hother
        exact ⟨array inner, by simp [Merge.fieldTypes, hsame, hrefs, hinner, bind, Except.bind, pure,
          Except.pure], hknown⟩
      · exact ⟨_, by simp [Merge.fieldTypes, hsame, hrefs, pure, Except.pure], hobject⟩

/-- The merge of types that resemble a third one resembles it. -/
theorem resembles_of_fieldTypes {left right merged type : FieldType}
    (h : Merge.fieldTypes hierarchy left right = .ok merged) (hleft : left.Resembles type)
    (hright : right.Resembles type) : merged.Resembles type := by
  induction type generalizing left right merged with
  | base base =>
    obtain rfl : left = .base base := hleft
    obtain rfl : right = .base base := hright
    simp only [Merge.fieldTypes, if_true] at h
    exact (pure_eq_ok.mp h).symm
  | object name => exact (below_of_fieldTypes (hleft.isReference rfl) h).2.2
  | array element ih =>
    obtain ⟨first, rfl, hfirst⟩ := hleft
    obtain ⟨second, rfl, hsecond⟩ := hright
    rw [Merge.fieldTypes] at h
    split at h
    · obtain rfl := pure_eq_ok.mp h
      exact ⟨first, rfl, hfirst⟩
    · next hdiffer =>
      have href : element.isReference := by
        cases element with
        | base _ => exact absurd (hfirst.trans hsecond.symm) hdiffer
        | object _ => rfl
        | array _ => rfl
      rw [if_pos ⟨hfirst.isReference href, hsecond.isReference href⟩] at h
      obtain ⟨inner, hinner, h⟩ := bind_eq_ok.mp h
      obtain rfl := pure_eq_ok.mp h
      exact ⟨inner, rfl, ih hinner hfirst hsecond⟩

end FieldType

/-! ## Verification types -/

/-- A class constant stands for a known type. -/
def NameKnown (hierarchy : Hierarchy) (name : String) : Prop :=
  ∃ type, FieldType.ofClassConstantName name = .ok type ∧ type.IsKnown hierarchy

/-- One class constant stands for a known type that resembles that of another one. -/
def NameFits (hierarchy : Hierarchy) (sub super : String) : Prop :=
  ∃ lower upper, FieldType.ofClassConstantName sub = .ok lower ∧
    FieldType.ofClassConstantName super = .ok upper ∧ lower.IsKnown hierarchy ∧ lower.Resembles upper

/-- The classes in a verification type are known. -/
def TypeKnown (hierarchy : Hierarchy) : FlowType → Prop
  | .object name => NameKnown hierarchy name
  | _ => True

/-- One verification type can take the place of another one, whose creation site is one of a source
code. -/
def TypeFits (hierarchy : Hierarchy) (site : Nat → Nat) : FlowType → FlowType → Prop
  | sub, .object super => sub = .null ∨ ∃ name, sub = .object name ∧ NameFits hierarchy name super
  | sub, .uninit place => sub = .uninit (site place)
  | sub, super => sub = super

section

variable {site : Nat → Nat}

/-- A known name fits itself. -/
theorem NameKnown.fits {name : String} (h : NameKnown hierarchy name) :
    NameFits hierarchy name name := by
  obtain ⟨type, htype, hknown⟩ := h
  exact ⟨type, type, htype, htype, hknown, .refl type⟩

/-- A name that fits another one is known. -/
theorem NameFits.known {sub super : String} (h : NameFits hierarchy sub super) :
    NameKnown hierarchy sub := by
  obtain ⟨lower, -, hlower, -, hknown, -⟩ := h
  exact ⟨lower, hlower, hknown⟩

/-- A type that fits another one is known. -/
theorem TypeFits.known {sub super : FlowType} (h : TypeFits hierarchy site sub super) :
    TypeKnown hierarchy sub := by
  cases super with
  | object _ =>
    rcases h with rfl | ⟨name, rfl, h⟩
    · trivial
    · exact h.known
  | _ =>
    obtain rfl := h
    trivial

/-- A type without a creation site fits itself if it is known. -/
theorem TypeFits.refl {type : FlowType} (hknown : TypeKnown hierarchy type)
    (hplain : ∀ place, type ≠ .uninit place) : TypeFits hierarchy site type type := by
  cases type with
  | object name => exact Or.inr ⟨name, rfl, NameKnown.fits hknown⟩
  | uninit place => exact absurd rfl (hplain place)
  | _ => exact rfl

/-- A type that fits another one takes as many slots. -/
theorem TypeFits.isWide {sub super : FlowType} (h : TypeFits hierarchy site sub super) :
    sub.isWide = super.isWide := by
  cases super with
  | object _ => rcases h with rfl | ⟨name, rfl, -⟩ <;> rfl
  | _ =>
    obtain rfl := h
    rfl

/-- What fits a reference is one. -/
theorem TypeFits.isReference {sub super : FlowType} (h : TypeFits hierarchy site sub super) :
    sub.isReference = super.isReference := by
  cases super with
  | object _ => rcases h with rfl | ⟨name, rfl, -⟩ <;> rfl
  | _ =>
    obtain rfl := h
    rfl

/-- What fits a type fits all that is above it. -/
theorem TypeFits.below {sub middle super : FlowType} (h : TypeFits hierarchy site sub middle)
    (hbelow : TypeBelow hierarchy middle super) : TypeFits hierarchy site sub super := by
  cases middle with
  | object name =>
    cases super with
    | object other =>
      rcases h with rfl | ⟨sub, rfl, h⟩
      · exact Or.inl rfl
      refine Or.inr ⟨sub, rfl, ?_⟩
      rcases hbelow with rfl | ⟨type, upper, htype, hupper, hbelow⟩
      · exact h
      · obtain ⟨lower, type', hlower, htype', hknown, hresembles⟩ := h
        obtain rfl := Except.ok.inj (htype.symm.trans htype')
        have href := (FieldType.eq_of_ofClassConstantName htype).2.isReference
        exact ⟨lower, upper, hlower, hupper, hknown, hresembles.below href hbelow⟩
    | _ => simp [TypeBelow] at hbelow
  | null =>
    cases super with
    | object _ => exact Or.inl h
    | null => exact h
    | _ => simp [TypeBelow] at hbelow
  | _ =>
    simp only [TypeBelow] at hbelow
    exact hbelow ▸ h

/-! ## Merges of types -/

/-- Known names have a merge, which is known and fits whatever both of them fit. -/
theorem exists_classNames (hwf : hierarchy.WellFormed) (hroot : hierarchy.Knows Name.object)
    {left right : String} (hleft : NameKnown hierarchy left) (hright : NameKnown hierarchy right) :
    ∃ merged, Merge.classNames hierarchy left right = .ok merged ∧ NameKnown hierarchy merged ∧
      ∀ super, NameFits hierarchy left super → NameFits hierarchy right super →
        NameFits hierarchy merged super := by
  obtain ⟨lower, hlower, hlowerKnown⟩ := hleft
  obtain ⟨upper, hupper, hupperKnown⟩ := hright
  obtain ⟨type, htype, hknown⟩ := FieldType.exists_fieldTypes hwf hroot hlowerKnown hupperKnown
  have href := (FieldType.below_of_fieldTypes
    (FieldType.eq_of_ofClassConstantName hlower).2.isReference htype).2.2
  obtain ⟨name, hname, hread⟩ := hknown.exists_name href
  refine ⟨name, ?_, ⟨type, hread, hknown⟩, ?_⟩
  · simp [Merge.classNames, demandClass_eq_ok.mpr hlower, demandClass_eq_ok.mpr hupper, htype, hname,
      bind, Except.bind, pure, Except.pure]
  · rintro super ⟨first, above, hfirst, habove, -, hfits⟩ ⟨second, above', hsecond, habove', -, hfits'⟩
    obtain rfl := Except.ok.inj (hlower.symm.trans hfirst)
    obtain rfl := Except.ok.inj (hupper.symm.trans hsecond)
    obtain rfl := Except.ok.inj (habove.symm.trans habove')
    exact ⟨type, above, hread, habove, hknown, FieldType.resembles_of_fieldTypes htype hfits hfits'⟩

/-- The merge of known types has an outcome, which is known if there is one. -/
theorem exists_types (hwf : hierarchy.WellFormed) (hroot : hierarchy.Knows Name.object)
    {left right : FlowType} (hleft : TypeKnown hierarchy left) (hright : TypeKnown hierarchy right) :
    ∃ found, Merge.types hierarchy left right = .ok found ∧
      ∀ merged, found = some merged → TypeKnown hierarchy merged := by
  by_cases hsame : left = right
  · refine ⟨some left, by simp [Merge.types, hsame, pure, Except.pure], ?_⟩
    rintro merged ⟨⟩
    exact hleft
  unfold Merge.types
  rw [if_neg hsame]
  split
  · exact ⟨_, rfl, fun merged h => Option.some.inj h ▸ hright⟩
  · exact ⟨_, rfl, fun merged h => Option.some.inj h ▸ hleft⟩
  · obtain ⟨merged, hmerged, hknown, -⟩ := exists_classNames hwf hroot hleft hright
    rw [hmerged]
    exact ⟨_, rfl, fun other h => Option.some.inj h ▸ hknown⟩
  · exact ⟨none, rfl, by simp⟩

/-- Types that fit a third one have a merge that fits it. -/
theorem exists_types_of_fits (hwf : hierarchy.WellFormed) (hroot : hierarchy.Knows Name.object)
    {left right super : FlowType} (hleft : TypeFits hierarchy site left super)
    (hright : TypeFits hierarchy site right super) :
    ∃ merged, Merge.types hierarchy left right = .ok (some merged) ∧
      TypeFits hierarchy site merged super := by
  by_cases hsame : left = right
  · exact ⟨left, by simp [Merge.types, hsame, pure, Except.pure], hleft⟩
  cases super with
  | object super =>
    rcases hleft with rfl | ⟨name, rfl, hname⟩ <;> rcases hright with rfl | ⟨other, rfl, hother⟩
    · exact absurd rfl hsame
    · exact ⟨.object other, rfl, Or.inr ⟨other, rfl, hother⟩⟩
    · exact ⟨.object name, rfl, Or.inr ⟨name, rfl, hname⟩⟩
    · obtain ⟨merged, hmerged, -, hfits⟩ := exists_classNames hwf hroot hname.known hother.known
      have hdiffer : name ≠ other := fun heq => hsame (by rw [heq])
      exact ⟨.object merged, by
        simp [Merge.types, hdiffer, hmerged, bind, Except.bind, pure, Except.pure],
        Or.inr ⟨merged, rfl, hfits super hname hother⟩⟩
  | _ =>
    obtain rfl := hleft
    obtain rfl := hright
    exact absurd rfl hsame

/-- One type of a local variable can take the place of another one. -/
def LocalFits (hierarchy : Hierarchy) (site : Nat → Nat) (sub super : FlowType) : Prop :=
  super = .top ∨ TypeFits hierarchy site sub super

/-- What fits a variable fits all that is above it. -/
theorem LocalFits.below {sub middle super : FlowType} (h : LocalFits hierarchy site sub middle)
    (hbelow : LocalBelow hierarchy middle super) : LocalFits hierarchy site sub super := by
  rcases hbelow with rfl | hbelow
  · exact Or.inl rfl
  rcases h with rfl | h
  · refine Or.inl ?_
    cases super <;> simp_all [TypeBelow]
  · exact Or.inr (h.below hbelow)

/-- Known types of variables have a merge, which is known and fits whatever both of them fit. -/
theorem exists_locals (hwf : hierarchy.WellFormed) (hroot : hierarchy.Knows Name.object)
    {left right : FlowType} (hleft : TypeKnown hierarchy left) (hright : TypeKnown hierarchy right) :
    ∃ merged, Merge.locals hierarchy (left, right) = .ok merged ∧ TypeKnown hierarchy merged ∧
      ∀ super, LocalFits hierarchy site left super → LocalFits hierarchy site right super →
        LocalFits hierarchy site merged super := by
  obtain ⟨found, hfound, hknown⟩ := exists_types hwf hroot hleft hright
  refine ⟨found.getD .top, by simp [Merge.locals, hfound, bind, Except.bind, pure, Except.pure],
    ?_, ?_⟩
  · cases found with
    | none => trivial
    | some merged => exact hknown merged rfl
  · rintro super (rfl | hfits) hother
    · exact Or.inl rfl
    · rcases hother with rfl | hother
      · exact Or.inl rfl
      · obtain ⟨merged, hmerged, hfits⟩ := exists_types_of_fits hwf hroot hfits hother
        obtain rfl := Except.ok.inj (hfound.symm.trans hmerged)
        exact Or.inr hfits

/-! ## Frames -/

/-- Stack values can take the place of others, one by one. -/
abbrev ValuesFit (hierarchy : Hierarchy) (site : Nat → Nat) : List FlowType → List FlowType → Prop :=
  List.Forall₂ (TypeFits hierarchy site)

/-- All variables of the second list are in the first one, with types that can take the place of
theirs. -/
def VariablesFit (hierarchy : Hierarchy) (site : Nat → Nat) (sub super : List FlowType) : Prop :=
  ∀ (slot : ℕ) (type : FlowType), super[slot]? = some type →
    ∃ own, sub[slot]? = some own ∧ LocalFits hierarchy site own type

/-- A frame can take the place of another one: its values and variables can, all its classes are known,
and it is in canonical form. -/
structure FrameFits (hierarchy : Hierarchy) (site : Nat → Nat) (frame super : FlowFrame) : Prop where
  /-- The stack values fit. -/
  stack : ValuesFit hierarchy site frame.stack.toList super.stack.toList
  /-- The variables fit. -/
  locals : VariablesFit hierarchy site frame.locals super.locals
  /-- The classes of all variables are known, those of variables that the other frame does not have
  included. -/
  known : ∀ type ∈ frame.locals, TypeKnown hierarchy type
  /-- The frame is in canonical form. -/
  canonical : frame.Canonical

/-- A frame that fits another one fits all that is above it. -/
theorem FrameFits.below {frame middle super : FlowFrame} (h : FrameFits hierarchy site frame middle)
    (hbelow : FrameBelow hierarchy middle super) : FrameFits hierarchy site frame super where
  stack := by
    have hvalues := h.stack
    have habove := hbelow.stack
    generalize frame.stack.toList = values at hvalues
    generalize middle.stack.toList = others at hvalues habove
    generalize super.stack.toList = uppers at habove
    induction hvalues generalizing uppers with
    | nil =>
      cases habove
      exact .nil
    | cons hfits _ ih =>
      cases habove with
      | cons hfirst hrest => exact .cons (hfits.below hfirst) (ih _ hrest)
  locals slot type htype := by
    obtain ⟨middle, hmiddle, habove⟩ := hbelow.locals slot type htype
    obtain ⟨own, hown, hfits⟩ := h.locals slot middle hmiddle
    exact ⟨own, hown, hfits.below habove⟩
  known := h.known
  canonical := h.canonical

/-- Values that fit others have merges that fit them. -/
theorem exists_merge_values (hwf : hierarchy.WellFormed) (hroot : hierarchy.Knows Name.object)
    (position : Nat) {left right supers : List FlowType} (hleft : ValuesFit hierarchy site left supers)
    (hright : ValuesFit hierarchy site right supers) :
    ∃ merged, (left.zip right).mapM (Merge.stackValues hierarchy position) = .ok merged ∧
      ValuesFit hierarchy site merged supers := by
  simp only [mapM_eq_ok]
  induction hleft generalizing right with
  | nil =>
    cases hright
    exact ⟨[], .nil, .nil⟩
  | cons hfirst _ ih =>
    cases hright with
    | cons hother hothers =>
      obtain ⟨merged, hmerged, hfits⟩ := exists_types_of_fits hwf hroot hfirst hother
      obtain ⟨rest, hrest, hfitsRest⟩ := ih hothers
      exact ⟨merged :: rest, .cons (stackValues_eq_ok.mpr hmerged) hrest, .cons hfits hfitsRest⟩

/-- Known variables have merges, which are known and fit whatever both of them fit. -/
theorem exists_merge_variables (hwf : hierarchy.WellFormed) (hroot : hierarchy.Knows Name.object)
    {left right : List FlowType} (hleft : ∀ type ∈ left, TypeKnown hierarchy type)
    (hright : ∀ type ∈ right, TypeKnown hierarchy type) :
    ∃ merged, (left.zip right).mapM (Merge.locals hierarchy) = .ok merged ∧
      (∀ type ∈ merged, TypeKnown hierarchy type) ∧
      ∀ supers, VariablesFit hierarchy site left supers → VariablesFit hierarchy site right supers →
        VariablesFit hierarchy site merged supers := by
  simp only [mapM_eq_ok]
  induction left generalizing right with
  | nil => exact ⟨[], .nil, by simp, fun supers hleft _ => hleft⟩
  | cons type left ih =>
    cases right with
    | nil => exact ⟨[], .nil, by simp, fun supers _ hright => hright⟩
    | cons other right =>
      obtain ⟨merged, hmerged, hknown, hfits⟩ := @exists_locals _ site hwf hroot _ _
        (hleft type List.mem_cons_self) (hright other List.mem_cons_self)
      obtain ⟨rest, hrest, hknownRest, hfitsRest⟩ :=
        @ih right (fun type hmem => hleft type (List.mem_cons_of_mem _ hmem))
          (fun type hmem => hright type (List.mem_cons_of_mem _ hmem))
      refine ⟨merged :: rest, .cons hmerged hrest, ?_, ?_⟩
      · intro type hmem
        rcases List.mem_cons.mp hmem with rfl | hmem
        · exact hknown
        · exact hknownRest type hmem
      · intro supers hlefts hrights slot super hsuper
        cases slot with
        | zero =>
          obtain ⟨own, hown, hfit⟩ := hlefts 0 super hsuper
          obtain ⟨own', hown', hfit'⟩ := hrights 0 super hsuper
          obtain rfl : type = own := by simpa using hown
          obtain rfl : other = own' := by simpa using hown'
          exact ⟨merged, rfl, hfits super hfit hfit'⟩
        | succ slot =>
          cases supers with
          | nil => simp at hsuper
          | cons first supers =>
            exact hfitsRest supers (fun slot type h => hlefts (slot + 1) type h)
              (fun slot type h => hrights (slot + 1) type h) slot super hsuper

/-- Variables that are known stay so when a wide one is cleared. -/
theorem known_clearWideAt {slot : ℕ} {slots : List FlowType}
    (h : ∀ type ∈ slots, TypeKnown hierarchy type) :
    ∀ type ∈ Frame.clearWideAt slot slots, TypeKnown hierarchy type := by
  intro type hmem
  obtain ⟨other, hother⟩ := List.mem_iff_getElem?.mp hmem
  rw [Frame.getElem?_clearWideAt, Option.map_eq_some_iff] at hother
  obtain ⟨old, hold, rfl⟩ := hother
  split
  · trivial
  · exact h old (List.mem_of_getElem? hold)

/-- **Merges of frames that fit.**  Frames that fit a third one in canonical form have a merge, which
fits it, too. -/
theorem exists_mergeFrames (hwf : hierarchy.WellFormed) (hroot : hierarchy.Knows Name.object)
    (position : Nat) {existing incoming super : FlowFrame} (hcanonical : super.Canonical)
    (hexisting : FrameFits hierarchy site existing super)
    (hincoming : FrameFits hierarchy site incoming super) :
    ∃ found, mergeFrames hierarchy position existing incoming = .ok found ∧
      ∀ merged, found = some merged → FrameFits hierarchy site merged super := by
  obtain ⟨stack, hstack, hvalues⟩ :=
    exists_merge_values hwf hroot position hexisting.stack hincoming.stack
  obtain ⟨locals, hlocals, hknown, hvariables⟩ :=
    @exists_merge_variables _ site hwf hroot _ _ hexisting.known hincoming.known
  have hmerge := mergeFrames_eq_ok.mpr
    ⟨hexisting.stack.length_eq.trans hincoming.stack.length_eq.symm, stack, locals, hstack, hlocals,
      rfl⟩
  refine ⟨_, hmerge, fun merged hmerged => ?_⟩
  have hfound := hmerge
  rw [hmerged] at hfound
  split at hmerged
  · simp at hmerged
  obtain rfl := Option.some.inj hmerged
  have hfit := hvariables _ hexisting.locals hincoming.locals
  refine ⟨?_, ?_, known_clearWideAt hknown, canonical_of_mergeFrames hfound⟩
  · rw [mergedFrame, Slots.toList_ofList]
    exact hvalues
  · intro slot type htype
    obtain ⟨own, hown, hfits⟩ := hfit slot type htype
    refine ⟨_, by rw [mergedFrame, Merge.clearWideLast, Frame.getElem?_clearWideAt, hown,
      Option.map_some], ?_⟩
    split
    · next hcleared =>
      obtain ⟨rfl, hwide⟩ := hcleared
      refine hfits.imp_right fun hfits => ?_
      -- A wide variable of a canonical frame is not in its last slot, so there is a slot behind it.
      have hlong : locals.length - 1 + 1 < super.locals.length := by
        by_contra hshort
        have hlast : super.locals.length - 1 = locals.length - 1 := by
          have := (List.getElem?_eq_some_iff.mp htype).1
          omega
        have := Frame.clearWideLast_eq_iff.mp hcanonical.locals_eq type (hlast ▸ htype)
        rw [hfits.isWide, this] at hwide
        simp at hwide
      obtain ⟨behind, hbehind, -⟩ := hfit _ _ (List.getElem?_eq_getElem hlong)
      have := (List.getElem?_eq_some_iff.mp hbehind).1
      omega
    · exact hfits

end

end ClassInstrument
