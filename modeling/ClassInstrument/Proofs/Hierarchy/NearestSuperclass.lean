import ClassInstrument.Proofs.Hierarchy.EndlessClimb

/-!
# The nearest common superclass

In a layered hierarchy classes extend classes and interfaces extend interfaces.  If moreover classes list
only interfaces as their interfaces, a class is above another one exactly if it is one of its superclasses.
The climb from a class then stops at the lowest of its superclasses that is also a superclass of the other
class, whichever of the two it starts from.

Without that condition on the listed interfaces, the result depends on the order of the two classes.
-/

namespace ClassInstrument

open Outcome

namespace Hierarchy

variable {hierarchy : Hierarchy} {first second name super other : String}

/-- A closed, acyclic hierarchy in which classes and interfaces are kept apart. -/
structure Layered (hierarchy : Hierarchy) : Prop where
  /-- Every supertype of a known class is known. -/
  closed : ∀ {name super}, hierarchy.Mentions name super → hierarchy.Knows super
  /-- No class is above itself. -/
  acyclic : ∀ name, ¬ Relation.TransGen hierarchy.Mentions name name
  /-- Chains of superclasses end at the root of the hierarchy. -/
  rooted : ∀ {name shape}, hierarchy.shape name = .ok shape → shape.superName = none →
    name = Name.object
  /-- Superclasses are not interfaces. -/
  superclass : ∀ {name super}, hierarchy.Extends name super → ¬ hierarchy.IsInterface super
  /-- Interfaces extend the root and interfaces only. -/
  interface : ∀ {name super}, hierarchy.IsInterface name → hierarchy.Mentions name super →
    super = Name.object ∨ hierarchy.IsInterface super

/-- What a class or an interface lists as its interfaces are interfaces, or the root. -/
def ListsInterfaces (hierarchy : Hierarchy) : Prop :=
  ∀ {name shape super}, hierarchy.shape name = .ok shape → super ∈ shape.interfaces →
    super = Name.object ∨ hierarchy.IsInterface super

/-- What a class mentions is its superclass or one of its interfaces. -/
theorem Mentions.extends_or (h : hierarchy.Mentions name super) :
    hierarchy.Extends name super ∨
      ∃ shape, hierarchy.shape name = .ok shape ∧ super ∈ shape.interfaces := by
  obtain ⟨shape, hshape, hsuper⟩ := h
  rcases List.mem_append.mp hsuper with hsuper | hsuper
  · exact Or.inl ⟨shape, hshape, Option.mem_toList.mp hsuper⟩
  · exact Or.inr ⟨shape, hshape, hsuper⟩

namespace Layered

/-- Whatever is above a known class is known. -/
theorem knows (h : hierarchy.Layered) (hname : hierarchy.Knows name)
    (hreach : hierarchy.Reaches name other) : hierarchy.Knows other := by
  rcases Relation.ReflTransGen.cases_tail hreach with rfl | ⟨sub, -, hmentions⟩
  exacts [hname, h.closed hmentions]

section

variable (hfinite : ∀ name, {other | hierarchy.Reaches name other}.Finite)

include hfinite

/-- Chains of superclasses end. -/
theorem acc_extends (h : hierarchy.Layered) (name : String) :
    Acc (fun super name => hierarchy.Extends name super) name :=
  acc_of_finite ((hfinite name).subset fun _ => reaches_of_extends) fun place _ hcycle =>
    h.acyclic place (hcycle.lift id fun _ _ => Extends.mentions)

/-- The root is a superclass of every known class. -/
theorem extends_object (h : hierarchy.Layered) (hname : hierarchy.Knows name) :
    Relation.ReflTransGen hierarchy.Extends name Name.object := by
  induction h.acc_extends hfinite name with
  | intro name _ ih =>
    obtain ⟨shape, hshape⟩ := hname
    rcases hsuper : shape.superName with - | super
    · rw [h.rooted hshape hsuper]
    · have hextends : hierarchy.Extends name super := ⟨shape, hshape, hsuper⟩
      exact .head hextends (ih super hextends (h.closed hextends.mentions))

/-- Nothing but the root is above the root. -/
theorem eq_object_of_reaches (h : hierarchy.Layered) (hreach : hierarchy.Reaches Name.object other) :
    other = Name.object := by
  rcases Relation.ReflTransGen.cases_head hreach with rfl | ⟨next, hnext, -⟩
  · rfl
  · have hback := reaches_of_extends (h.extends_object hfinite (h.closed hnext))
    exact absurd (.head' hnext hback) (h.acyclic Name.object)

/-- Classes that are below each other are the same. -/
theorem eq_of_below (h : hierarchy.Layered) (hbelow : hierarchy.Below first second)
    (habove : hierarchy.Below second first) : first = second := by
  rcases hbelow with rfl | hbelow
  · exact habove.elim id fun hreach => h.eq_object_of_reaches hfinite hreach
  rcases habove with rfl | habove
  · exact (h.eq_object_of_reaches hfinite hbelow).symm
  · by_contra hne
    have hup := (Relation.reflTransGen_iff_eq_or_transGen.mp hbelow).resolve_left (Ne.symm hne)
    exact h.acyclic first (hup.trans_left habove)

/-- Everything above an interface is an interface or the root. -/
theorem interface_of_reaches (h : hierarchy.Layered) (hname : hierarchy.IsInterface name)
    (hreach : hierarchy.Reaches name other) : other = Name.object ∨ hierarchy.IsInterface other := by
  induction hreach with
  | refl => exact Or.inr hname
  | tail _ hmentions ih =>
    rcases ih with rfl | hinterface
    · exact Or.inl (h.eq_object_of_reaches hfinite (.single hmentions))
    · exact h.interface hinterface hmentions

/-- A class above another one is one of its superclasses. -/
theorem extends_of_reaches (h : hierarchy.Layered) (hlists : hierarchy.ListsInterfaces)
    (hreach : hierarchy.Reaches name other) (hclass : ¬ hierarchy.IsInterface other)
    (hne : other ≠ Name.object) : Relation.ReflTransGen hierarchy.Extends name other := by
  induction hreach using Relation.ReflTransGen.head_induction_on with
  | refl => exact .refl
  | head hmentions hrest ih =>
    rcases hmentions.extends_or with hextends | ⟨shape, hshape, hlisted⟩
    · exact .head hextends ih
    -- a listed interface has only interfaces and the root above it
    · rcases hlists hshape hlisted with rfl | hinterface
      · exact absurd (h.eq_object_of_reaches hfinite hrest) hne
      · exact absurd (h.interface_of_reaches hfinite hinterface hrest) (not_or.mpr ⟨hne, hclass⟩)

end

/-- A climb from a class other than the root stops at the lowest superclass that the other class is
below. -/
theorem lowest_of_climb (h : hierarchy.Layered) (hclimb : hierarchy.climb other name = some (.ok super))
    (hname : name ≠ Name.object) :
    Relation.TransGen hierarchy.Extends name super ∧ hierarchy.Below other super ∧
      ∀ above, Relation.TransGen hierarchy.Extends name above → hierarchy.Below other above →
        Relation.ReflTransGen hierarchy.Extends super above := by
  have key := climb.partial_correctness hierarchy other
    (fun name result => ∀ super, result = .ok super → name ≠ Name.object →
      Relation.TransGen hierarchy.Extends name super ∧ hierarchy.Below other super ∧
        ∀ above, Relation.TransGen hierarchy.Extends name above → hierarchy.Below other above →
          Relation.ReflTransGen hierarchy.Extends super above)
    ?_ name _ hclimb super rfl hname
  · exact key
  intro search ih name result hresult super hsuper hname
  subst hsuper
  rcases hshape : hierarchy.shape name with fault | shape
  · simp [hshape] at hresult
  rcases hnext : shape.superName with - | next
  · exact absurd (h.rooted hshape hnext) hname
  have hextends : hierarchy.Extends name next := ⟨shape, hshape, hnext⟩
  have hfollows : ∀ above, Relation.TransGen hierarchy.Extends name above →
      Relation.ReflTransGen hierarchy.Extends next above := by
    intro above habove
    obtain ⟨first, hfirst, hrest⟩ := Relation.TransGen.head'_iff.mp habove
    exact hextends.unique hfirst ▸ hrest
  rcases hassign : hierarchy.isAssignable other next with fault | answer
  · simp [hshape, hnext, hassign] at hresult
  cases answer with
  | true =>
    simp only [hshape, hnext, hassign, Option.some.injEq, Except.ok.injEq] at hresult
    subst hresult
    exact ⟨.single hextends, (isAssignable_eq_ok hassign).mp rfl, fun above habove _ => hfollows above habove⟩
  | false =>
    simp only [hshape, hnext, hassign] at hresult
    have hapart : ¬ hierarchy.Below other next := fun hbelow => by
      simpa using (isAssignable_eq_ok hassign).mpr hbelow
    have hnext' : next ≠ Name.object := fun heq => hapart (Or.inl heq)
    obtain ⟨habove, hbelow, hlowest⟩ := ih _ _ hresult _ rfl hnext'
    refine ⟨.head hextends habove, hbelow, fun above hchain hother => hlowest above ?_ hother⟩
    refine (Relation.reflTransGen_iff_eq_or_transGen.mp (hfollows above hchain)).resolve_left ?_
    rintro rfl
    exact hapart hother

end Layered

/-- A superclass of both classes that is below each other one that both are below and that is a superclass of
one of them. -/
structure IsNearest (hierarchy : Hierarchy) (first second super : String) : Prop where
  superclass_first : Relation.ReflTransGen hierarchy.Extends first super
  superclass_second : Relation.ReflTransGen hierarchy.Extends second super
  below_others : ∀ other, Relation.ReflTransGen hierarchy.Extends first other ∨
      Relation.ReflTransGen hierarchy.Extends second other →
    hierarchy.Below first other → hierarchy.Below second other → hierarchy.Below super other

open Classical in
/-- What two classes have in common: the first if the second is below it, else the second if the first is below
it, else the root if one of them is an interface, else their nearest common superclass. -/
def Joins (hierarchy : Hierarchy) (first second super : String) : Prop :=
  if hierarchy.Below second first then super = first
  else if hierarchy.Below first second then super = second
  else if hierarchy.IsInterface first ∨ hierarchy.IsInterface second then super = Name.object
  else hierarchy.IsNearest first second super

/-- The common superclass of two classes whose questions are answered. -/
theorem commonSuperclass_eq {up down : Bool} {shape shape' : ClassShape}
    (hup : hierarchy.isAssignable second first = .ok up)
    (hdown : hierarchy.isAssignable first second = .ok down)
    (hshape : hierarchy.shape first = .ok shape) (hshape' : hierarchy.shape second = .ok shape') :
    hierarchy.commonSuperclass first second =
      if up then .ok first else if down then .ok second
      else if shape.isInterface || shape'.isInterface then .ok Name.object
      else (hierarchy.climb second first).getD (.error (.endlessSuperclasses first)) := by
  unfold commonSuperclass
  simp only [hup, hdown, hshape, hshape', bind, Except.bind, pure, Except.pure]
  cases up <;> cases down <;> cases shape.isInterface <;> cases shape'.isInterface <;> rfl

namespace Layered

section

variable (hfinite : ∀ name, {other | hierarchy.Reaches name other}.Finite)

include hfinite

/-- Whether a known class is assignable is answered, and truly. -/
theorem exists_isAssignable (h : hierarchy.Layered) (hname : hierarchy.Knows name) (super : String) :
    ∃ answer, hierarchy.isAssignable name super = .ok answer ∧
      (answer = true ↔ hierarchy.Below name super) := by
  obtain ⟨answer, hanswer⟩ :=
    exists_isAssignable_of_finite (hfinite name) (fun _ => h.knows hname) super
  exact ⟨answer, hanswer, isAssignable_eq_ok hanswer⟩

/-- The climb from a known class has a result. -/
theorem exists_climb_eq_ok (h : hierarchy.Layered) (hfirst : hierarchy.Knows first)
    (hsecond : hierarchy.Knows second) :
    ∃ super, hierarchy.climb second first = some (.ok super) := by
  obtain ⟨result, hresult, havoids⟩ := exists_climb (p := fun _ => True) (h.acc_extends hfinite first)
    (fun above habove => avoids_true.mpr (h.knows hfirst (reaches_of_extends habove)))
    fun above _ => avoids_true.mpr
      ((h.exists_isAssignable hfinite hsecond above).imp fun _ => And.left)
  obtain ⟨super, rfl⟩ := avoids_true.mp havoids
  exact ⟨super, hresult⟩

/-- Where a climb stops is the nearest common superclass. -/
theorem isNearest_of_climb (h : hierarchy.Layered) (hlists : hierarchy.ListsInterfaces)
    (hsecond : hierarchy.Knows second) (hnotAbove : ¬ hierarchy.Below second first)
    (hnotBelow : ¬ hierarchy.Below first second)
    (hclimb : hierarchy.climb second first = some (.ok super)) :
    hierarchy.IsNearest first second super := by
  have hroot : first ≠ Name.object := fun heq => hnotAbove (Or.inl heq)
  obtain ⟨hchain, hbelow, hlowest⟩ := h.lowest_of_climb hclimb hroot
  have hclass : ∀ {name other}, Relation.TransGen hierarchy.Extends name other →
      ¬ hierarchy.IsInterface other := by
    intro name other hother
    obtain ⟨sub, -, hextends⟩ := Relation.TransGen.tail'_iff.mp hother
    exact h.superclass hextends
  refine ⟨hchain.to_reflTransGen, ?_, fun other hother hfirst' hsecond' => ?_⟩
  · by_cases hsuper : super = Name.object
    · exact hsuper ▸ h.extends_object hfinite hsecond
    · exact h.extends_of_reaches hfinite hlists (hbelow.resolve_left hsuper) (hclass hchain) hsuper
  · by_cases hobject : other = Name.object
    · exact Or.inl hobject
    -- the other class is above both, so it is neither of them, and no interface
    have hne : other ≠ first := fun heq => hnotAbove (heq ▸ hsecond')
    have hne' : other ≠ second := fun heq => hnotBelow (heq ▸ hfirst')
    have hother' : ¬ hierarchy.IsInterface other := by
      rcases hother with hother | hother
      · exact hclass ((Relation.reflTransGen_iff_eq_or_transGen.mp hother).resolve_left hne)
      · exact hclass ((Relation.reflTransGen_iff_eq_or_transGen.mp hother).resolve_left hne')
    have habove := h.extends_of_reaches hfinite hlists (hfirst'.resolve_left hobject) hother' hobject
    have hstrict := (Relation.reflTransGen_iff_eq_or_transGen.mp habove).resolve_left hne
    exact Or.inr (reaches_of_extends (hlowest other hstrict hsecond'))

/-- Two known classes have a common superclass, and it is what they have in common. -/
theorem exists_joins (h : hierarchy.Layered) (hlists : hierarchy.ListsInterfaces)
    (hfirst : hierarchy.Knows first) (hsecond : hierarchy.Knows second) :
    ∃ super, hierarchy.commonSuperclass first second = .ok super ∧ hierarchy.Joins first second super := by
  obtain ⟨up, hup, hup'⟩ := h.exists_isAssignable hfinite hsecond first
  obtain ⟨down, hdown, hdown'⟩ := h.exists_isAssignable hfinite hfirst second
  obtain ⟨shape, hshape⟩ := id hfirst
  obtain ⟨shape', hshape'⟩ := id hsecond
  obtain ⟨super, hclimb⟩ := h.exists_climb_eq_ok hfinite hfirst hsecond
  have hinterface : hierarchy.IsInterface first ↔ shape.isInterface = true := by
    simp [IsInterface, hshape]
  have hinterface' : hierarchy.IsInterface second ↔ shape'.isInterface = true := by
    simp [IsInterface, hshape']
  rw [commonSuperclass_eq hup hdown hshape hshape']
  simp only [Joins, ← hup', ← hdown', hinterface, hinterface', Bool.or_eq_true]
  cases up with
  | true => exact ⟨first, by simp⟩
  | false =>
    cases down with
    | true => exact ⟨second, by simp⟩
    | false =>
      simp only [Bool.false_eq_true, if_false]
      by_cases hany : shape.isInterface = true ∨ shape'.isInterface = true
      · exact ⟨Name.object, by rw [if_pos hany], by rw [if_pos hany]⟩
      · have hnearest := h.isNearest_of_climb hfinite hlists hsecond
          (fun hbelow => Bool.false_ne_true (hup'.mpr hbelow))
          (fun hbelow => Bool.false_ne_true (hdown'.mpr hbelow)) hclimb
        exact ⟨super, by rw [if_neg hany, hclimb, Option.getD_some], by rwa [if_neg hany]⟩

/-- What two classes have in common does not depend on their order. -/
theorem joins_unique (h : hierarchy.Layered) {super super' : String}
    (hjoins : hierarchy.Joins first second super) (hjoins' : hierarchy.Joins second first super') :
    super = super' := by
  unfold Joins at hjoins hjoins'
  by_cases hup : hierarchy.Below second first
  · rw [if_pos hup] at hjoins
    by_cases hdown : hierarchy.Below first second
    · obtain rfl := h.eq_of_below hfinite hdown hup
      rw [if_pos hdown] at hjoins'
      rw [hjoins, hjoins']
    · rw [if_neg hdown, if_pos hup] at hjoins'
      rw [hjoins, hjoins']
  rw [if_neg hup] at hjoins
  by_cases hdown : hierarchy.Below first second
  · rw [if_pos hdown] at hjoins hjoins'
    rw [hjoins, hjoins']
  rw [if_neg hdown] at hjoins hjoins'
  rw [if_neg hup] at hjoins'
  by_cases hinterface : hierarchy.IsInterface first ∨ hierarchy.IsInterface second
  · rw [if_pos hinterface] at hjoins
    rw [if_pos hinterface.symm] at hjoins'
    rw [hjoins, hjoins']
  · -- two nearest superclasses are below each other
    rw [if_neg hinterface] at hjoins
    rw [if_neg (hinterface ∘ Or.symm)] at hjoins'
    have hbelow : ∀ {name other}, Relation.ReflTransGen hierarchy.Extends name other →
        hierarchy.Below name other := fun h => Or.inr (reaches_of_extends h)
    refine h.eq_of_below hfinite ?_ ?_
    · exact hjoins.below_others super' (Or.inl hjoins'.superclass_second)
        (hbelow hjoins'.superclass_second) (hbelow hjoins'.superclass_first)
    · exact hjoins'.below_others super (Or.inl hjoins.superclass_second)
        (hbelow hjoins.superclass_second) (hbelow hjoins.superclass_first)

end

end Layered

end Hierarchy

namespace Catalog

open Hierarchy

variable {catalog : Catalog}

/-- A catalog is layered if its classes and those that are always known can be put in an order in which
supertypes come first, and look as they should. -/
theorem layered_of_order (order : List String)
    (hclosed : ∀ name ∈ catalog.names, ∀ shape ∈ catalog.known? name, ∀ super ∈ shape.supertypes,
      (catalog.known? super).isSome ∧ order.idxOf super < order.idxOf name)
    (hrooted : ∀ name ∈ catalog.names, ∀ shape ∈ catalog.known? name, shape.superName = none →
      name = Name.object)
    (hsuperclass : ∀ name ∈ catalog.names, ∀ shape ∈ catalog.known? name, ∀ super ∈ shape.superName,
      ¬ ∃ above ∈ catalog.known? super, above.isInterface = true)
    (hinterface : ∀ name ∈ catalog.names, ∀ shape ∈ catalog.known? name, shape.isInterface = true →
      ∀ super ∈ shape.supertypes,
        super = Name.object ∨ ∃ above ∈ catalog.known? super, above.isInterface = true) :
    (catalog.hierarchy Classpath.empty).Layered where
  closed h := by
    obtain ⟨shape, hshape, hsuper⟩ := mentions_iff.mp h
    obtain ⟨above, habove⟩ := Option.isSome_iff_exists.mp
      (hclosed _ (mem_names_of_known? hshape) shape hshape _ hsuper).1
    exact ⟨above, shape_eq_ok_iff.mpr habove⟩
  acyclic name h := by
    have hless : ∀ {first last}, Relation.TransGen (catalog.hierarchy Classpath.empty).Mentions first last →
        order.idxOf last < order.idxOf first := by
      intro first last h
      induction h with
      | single h =>
        obtain ⟨shape, hshape, hsuper⟩ := mentions_iff.mp h
        exact (hclosed _ (mem_names_of_known? hshape) shape hshape _ hsuper).2
      | tail _ h ih =>
        obtain ⟨shape, hshape, hsuper⟩ := mentions_iff.mp h
        exact (hclosed _ (mem_names_of_known? hshape) shape hshape _ hsuper).2.trans ih
    exact lt_irrefl _ (hless h)
  rooted hshape hsuper :=
    have hknown := shape_eq_ok_iff.mp hshape
    hrooted _ (mem_names_of_known? hknown) _ hknown hsuper
  superclass h := by
    obtain ⟨shape, hshape, hsuper⟩ := extends_iff.mp h
    rw [isInterface_iff]
    exact hsuperclass _ (mem_names_of_known? hshape) shape hshape _ hsuper
  interface hname h := by
    obtain ⟨shape, hshape, hsuper⟩ := mentions_iff.mp h
    obtain ⟨shape', hshape', hname⟩ := isInterface_iff.mp hname
    obtain rfl := Option.some.inj (hshape.symm.trans hshape')
    rw [isInterface_iff]
    exact hinterface _ (mem_names_of_known? hshape) shape hshape hname _ hsuper

/-- Whether the classes of a catalog list interfaces only can be looked up. -/
theorem listsInterfaces_of_known
    (hlists : ∀ name ∈ catalog.names, ∀ shape ∈ catalog.known? name, ∀ super ∈ shape.interfaces,
      super = Name.object ∨ ∃ above ∈ catalog.known? super, above.isInterface = true) :
    (catalog.hierarchy Classpath.empty).ListsInterfaces := by
  intro name shape super hshape hsuper
  have hknown := shape_eq_ok_iff.mp hshape
  rw [isInterface_iff]
  exact hlists name (mem_names_of_known? hknown) shape hknown super hsuper

/-- A public class with a superclass and a list of interfaces. -/
def plainClass (name superName : String) (interfaces : List String) : ClassFact :=
  { access := ClassHeader.publicClass, name, superName := some superName, interfaces, annotations := [],
    methods := [] }

/-- In a layered hierarchy of a catalog and a classpath, where what is listed as an interface is one, known
classes are assignable to those they are below, and two known classes have a common superclass in either
order, which is what they have in common. -/
theorem commonSuperclass_joins (catalog : Catalog) (classpath : Classpath)
    (hlayered : (catalog.hierarchy classpath).Layered)
    (hlists : (catalog.hierarchy classpath).ListsInterfaces) :
    (∀ sub super, (catalog.hierarchy classpath).Knows sub →
      ∃ answer, (catalog.hierarchy classpath).isAssignable sub super = .ok answer ∧
        (answer = true ↔ (catalog.hierarchy classpath).Below sub super)) ∧
    ∀ first second, (catalog.hierarchy classpath).Knows first → (catalog.hierarchy classpath).Knows second →
      ∃ super, (catalog.hierarchy classpath).commonSuperclass first second = .ok super ∧
        (catalog.hierarchy classpath).commonSuperclass second first = .ok super ∧
        (catalog.hierarchy classpath).Joins first second super := by
  refine ⟨fun sub super hsub => hlayered.exists_isAssignable finite_reaches hsub super,
    fun first second hfirst hsecond => ?_⟩
  obtain ⟨super, hsuper, hjoins⟩ := hlayered.exists_joins finite_reaches hlists hfirst hsecond
  obtain ⟨super', hsuper', hjoins'⟩ := hlayered.exists_joins finite_reaches hlists hsecond hfirst
  obtain rfl := hlayered.joins_unique finite_reaches hjoins hjoins'
  exact ⟨super, hsuper, hsuper', hjoins⟩

/-- Two classes that share a superclass. -/
def siblings : Catalog :=
  ⟨[plainClass "b/Base" Name.object [], plainClass "b/One" "b/Base" [],
    plainClass "b/Two" "b/Base" []]⟩

/-- The classes that share a superclass have it in common. -/
theorem commonSuperclass_siblings :
    (siblings.hierarchy Classpath.empty).commonSuperclass "b/One" "b/Two" = .ok "b/Base" ∧
      (siblings.hierarchy Classpath.empty).commonSuperclass "b/Two" "b/One" = .ok "b/Base" := by
  have hlayered : (siblings.hierarchy Classpath.empty).Layered :=
    layered_of_order (ClassHeader.builtin.map ClassHeader.name ++ siblings.facts.map ClassFact.name)
      (by decide) (by decide) (by decide) (by decide)
  have hknown : ∀ name ∈ ["b/One", "b/Two"], (siblings.hierarchy Classpath.empty).Knows name :=
    fun name => knows_of_mem (by decide)
  obtain ⟨super, hsuper, hsuper', hjoins⟩ := (commonSuperclass_joins siblings Classpath.empty hlayered
    (listsInterfaces_of_known (by decide))).2 "b/One" "b/Two" (hknown _ (by decide)) (hknown _ (by decide))
  have happart : ¬ (siblings.hierarchy Classpath.empty).Below "b/Two" "b/One" :=
    not_below_of_closed ["b/Two", "b/Base", Name.object] (by decide) (by decide) (by decide)
  have happart' : ¬ (siblings.hierarchy Classpath.empty).Below "b/One" "b/Two" :=
    not_below_of_closed ["b/One", "b/Base", Name.object] (by decide) (by decide) (by decide)
  have hclasses : ¬ ((siblings.hierarchy Classpath.empty).IsInterface "b/One" ∨
      (siblings.hierarchy Classpath.empty).IsInterface "b/Two") := by
    rw [isInterface_iff, isInterface_iff]
    decide
  unfold Joins at hjoins
  rw [if_neg happart, if_neg happart', if_neg hclasses] at hjoins
  have hone : (siblings.hierarchy Classpath.empty).Extends "b/One" "b/Base" := extends_iff.mpr (by decide)
  have htwo : (siblings.hierarchy Classpath.empty).Extends "b/Two" "b/Base" := extends_iff.mpr (by decide)
  have hbelow : (siblings.hierarchy Classpath.empty).Below super "b/Base" :=
    hjoins.below_others "b/Base" (Or.inl (.single hone)) (Or.inr (.single hone.mentions))
      (Or.inr (.single htwo.mentions))
  have hmem : super ∈ ["b/One", "b/Base", Name.object] :=
    mem_of_reaches (by decide) List.mem_cons_self (reaches_of_extends hjoins.superclass_first)
  have hmem' : super ∈ ["b/Two", "b/Base", Name.object] :=
    mem_of_reaches (by decide) List.mem_cons_self (reaches_of_extends hjoins.superclass_second)
  have hobject : ¬ (siblings.hierarchy Classpath.empty).Below Name.object "b/Base" :=
    not_below_of_closed [Name.object] (by decide) (by decide) (by decide)
  have hcases : ∀ super ∈ ["b/One", "b/Base", Name.object], super ∈ ["b/Two", "b/Base", Name.object] →
      super = "b/Base" ∨ super = Name.object := by decide
  rcases hcases super hmem hmem' with rfl | rfl
  · exact ⟨hsuper, hsuper'⟩
  · exact absurd hbelow hobject

/-- A class that lists another class among its interfaces, and a subclass of that other class. -/
def listedClass : Catalog :=
  ⟨[plainClass "c/D" Name.object [], plainClass "c/X" Name.object ["c/D"], plainClass "c/Y" "c/D" []]⟩

/-- In a layered hierarchy a class may list another class among its interfaces, and then what it has in common
with a subclass of that other class depends on the order of the two. -/
theorem not_commonSuperclass_comm :
    (listedClass.hierarchy Classpath.empty).Layered ∧
      (listedClass.hierarchy Classpath.empty).Knows "c/X" ∧
      (listedClass.hierarchy Classpath.empty).Knows "c/Y" ∧
      (listedClass.hierarchy Classpath.empty).commonSuperclass "c/X" "c/Y" = .ok Name.object ∧
      (listedClass.hierarchy Classpath.empty).commonSuperclass "c/Y" "c/X" = .ok "c/D" := by
  have hlayered : (listedClass.hierarchy Classpath.empty).Layered :=
    layered_of_order (ClassHeader.builtin.map ClassHeader.name ++ listedClass.facts.map ClassFact.name)
      (by decide) (by decide) (by decide) (by decide)
  have hx : (listedClass.hierarchy Classpath.empty).shape "c/X" =
      .ok (plainClass "c/X" Name.object ["c/D"]).shape := shape_eq_ok_iff.mpr (by decide)
  have hy : (listedClass.hierarchy Classpath.empty).shape "c/Y" =
      .ok (plainClass "c/Y" "c/D" []).shape := shape_eq_ok_iff.mpr (by decide)
  have hapart : (listedClass.hierarchy Classpath.empty).isAssignable "c/X" "c/Y" = .ok false :=
    (isAssignable_eq_false_iff (finite_reaches _)).mpr
      ⟨not_below_of_closed ["c/X", "c/D", Name.object] (by decide) (by decide) (by decide),
        fun _ => hlayered.knows ⟨_, hx⟩⟩
  have hapart' : (listedClass.hierarchy Classpath.empty).isAssignable "c/Y" "c/X" = .ok false :=
    (isAssignable_eq_false_iff (finite_reaches _)).mpr
      ⟨not_below_of_closed ["c/Y", "c/D", Name.object] (by decide) (by decide) (by decide),
        fun _ => hlayered.knows ⟨_, hy⟩⟩
  refine ⟨hlayered, ⟨_, hx⟩, ⟨_, hy⟩, ?_, ?_⟩
  · have hobject : (listedClass.hierarchy Classpath.empty).isAssignable "c/Y" Name.object = .ok true := by
      simp [isAssignable]
    have hextends : (listedClass.hierarchy Classpath.empty).Extends "c/X" Name.object :=
      extends_iff.mpr (by decide)
    rw [commonSuperclass_eq hapart' hapart hx hy, climb_of_extends hextends, hobject]
    rfl
  · obtain ⟨answer, hanswer, hlisted⟩ := hlayered.exists_isAssignable finite_reaches ⟨_, hx⟩ "c/D"
    obtain rfl : answer = true := hlisted.mpr (Or.inr (.single (mentions_iff.mpr (by decide))))
    have hextends : (listedClass.hierarchy Classpath.empty).Extends "c/Y" "c/D" :=
      extends_iff.mpr (by decide)
    rw [commonSuperclass_eq hapart hapart' hy hx, climb_of_extends hextends, hanswer]
    rfl

end Catalog

end ClassInstrument
