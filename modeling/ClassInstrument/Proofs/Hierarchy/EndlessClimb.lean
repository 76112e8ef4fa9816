import ClassInstrument.Proofs.Classpath.Builtin
import ClassInstrument.Proofs.Classpath.Headers
import ClassInstrument.Proofs.Hierarchy.CommonSuperclass

/-!
# When the search for a common superclass ends

A catalog takes in classes whose supertypes form cycles.  Assignability is always decided, because the
search for it remembers where it has been and finitely many supertypes are mentioned at all.  The climb for
a common superclass does not remember anything: it goes on for ever exactly if the superclasses of the first
class run into a cycle and none of them is above the second.
-/

namespace ClassInstrument

open Outcome

/-- If finitely many places can be reached and none of them can be left and reached again, every way
ends. -/
theorem acc_of_finite {α : Type} {r : α → α → Prop} {start : α}
    (hfinite : {place | Relation.ReflTransGen r start place}.Finite)
    (hcycles : ∀ place, Relation.ReflTransGen r start place → ¬ Relation.TransGen r place place) :
    Acc (fun next place => r place next) start := by
  -- fewer places can be reached after each step
  induction hcount : {place | Relation.ReflTransGen r start place}.ncard using Nat.strong_induction_on
    generalizing start with
  | _ count ih =>
    refine ⟨start, fun next hnext => ?_⟩
    have hsubset : {place | Relation.ReflTransGen r next place} ⊂
        {place | Relation.ReflTransGen r start place} := by
      refine ⟨fun place hplace => hplace.head hnext, fun hall => ?_⟩
      exact hcycles start .refl (.head' hnext (hall Relation.ReflTransGen.refl))
    exact ih _ (hcount ▸ Set.ncard_lt_ncard hsubset hfinite) (hfinite.subset hsubset.1)
      (fun place hplace => hcycles place (hplace.head hnext)) rfl

namespace Hierarchy

variable {hierarchy : Hierarchy} {first second : String}

/-- A class has one superclass at most. -/
theorem Extends.unique {name super super' : String} (h : hierarchy.Extends name super)
    (h' : hierarchy.Extends name super') : super = super' := by
  obtain ⟨shape, hshape, hsuper⟩ := h
  obtain ⟨shape', hshape', hsuper'⟩ := h'
  obtain rfl := Except.ok.inj (hshape.symm.trans hshape')
  exact Option.some.inj (hsuper.symm.trans hsuper')

/-- A way that comes to a cycle of superclasses never leaves it. -/
theorem exists_extends_of_cycle {name : String}
    (h : ∃ place, Relation.ReflTransGen hierarchy.Extends name place ∧
      Relation.TransGen hierarchy.Extends place place) :
    ∃ super, hierarchy.Extends name super ∧
      ∃ place, Relation.ReflTransGen hierarchy.Extends super place ∧
        Relation.TransGen hierarchy.Extends place place := by
  obtain ⟨place, hplace, hcycle⟩ := h
  rcases Relation.ReflTransGen.cases_head hplace with rfl | ⟨super, hsuper, hrest⟩
  · obtain ⟨super, hsuper, hback⟩ := Relation.TransGen.head'_iff.mp hcycle
    exact ⟨super, hsuper, name, hback, hcycle⟩
  · exact ⟨super, hsuper, place, hrest, hcycle⟩

/-- A climb does not end if the superclasses run into a cycle and the other class, all of whose supertypes
are known, is below none of them. -/
theorem climb_eq_none {other name : String}
    (hcycle : ∃ place, Relation.ReflTransGen hierarchy.Extends name place ∧
      Relation.TransGen hierarchy.Extends place place)
    (hassign : ∀ super, Relation.TransGen hierarchy.Extends name super →
      hierarchy.isAssignable other super = .ok false) :
    hierarchy.climb other name = none := by
  rcases hclimb : hierarchy.climb other name with - | result
  · rfl
  have key := climb.partial_correctness hierarchy other
    (fun name _ => (∃ place, Relation.ReflTransGen hierarchy.Extends name place ∧
        Relation.TransGen hierarchy.Extends place place) →
      (∀ super, Relation.TransGen hierarchy.Extends name super →
        hierarchy.isAssignable other super = .ok false) → False)
    ?_ name result hclimb hcycle hassign
  · exact key.elim
  intro search ih name result hresult hcycle hassign
  obtain ⟨super, hsuper, hcycle⟩ := exists_extends_of_cycle hcycle
  obtain ⟨shape, hshape, hname⟩ := id hsuper
  simp only [hshape, hname, hassign super (.single hsuper)] at hresult
  exact ih super result hresult hcycle fun above habove => hassign above (.head hsuper habove)

/-- A climb ends if it comes to a superclass that the other class is below. -/
theorem exists_climb_of_isAssignable {p : Fault → Prop} {other name super : String}
    (habove : Relation.TransGen hierarchy.Extends name super)
    (hsuper : hierarchy.isAssignable other super = .ok true)
    (hassign : ∀ above, Avoids p (hierarchy.isAssignable other above)) :
    ∃ result, hierarchy.climb other name = some result ∧ Avoids p result := by
  induction habove using Relation.TransGen.head_induction_on with
  | single hextends => exact ⟨.ok super, by rw [climb_of_extends hextends, hsuper], avoids_ok _⟩
  | head hextends _ ih => exact exists_climb_of_extends hextends (hassign _) ih

/-- The climb from a class goes on for ever: neither of two classes is an interface, all their supertypes
are known, the first is not below the second, and its superclasses run into a cycle without coming to one
that the second is below. -/
structure EndlessClimb (hierarchy : Hierarchy) (first second : String) : Prop where
  known_first : ∀ above, hierarchy.Reaches first above → hierarchy.Knows above
  known_second : ∀ above, hierarchy.Reaches second above → hierarchy.Knows above
  class_first : ¬ hierarchy.IsInterface first
  class_second : ¬ hierarchy.IsInterface second
  not_below : ¬ hierarchy.Below first second
  /-- The second class is below neither the first nor a superclass of it. -/
  apart : ∀ super, Relation.ReflTransGen hierarchy.Extends first super → ¬ hierarchy.Below second super
  /-- The superclasses of the first class run into a cycle. -/
  cycle : ∃ place, Relation.ReflTransGen hierarchy.Extends first place ∧
    Relation.TransGen hierarchy.Extends place place

/-- A class with finitely many classes above it, all of them known, is assignable exactly to those that it is
below. -/
theorem isAssignable_eq_false_iff {sub super : String}
    (hfinite : {other | hierarchy.Reaches sub other}.Finite) :
    hierarchy.isAssignable sub super = .ok false ↔
      ¬ hierarchy.Below sub super ∧ ∀ other, hierarchy.Reaches sub other → hierarchy.Knows other := by
  constructor
  · intro h
    exact ⟨fun hbelow => by simpa using (isAssignable_eq_ok h).mpr hbelow,
      fun _ => Knows.of_isAssignable_eq_false h⟩
  · rintro ⟨hbelow, hknows⟩
    obtain ⟨answer, hanswer⟩ := exists_isAssignable_of_finite hfinite hknows super
    cases answer with
    | true => exact absurd ((isAssignable_eq_ok hanswer).mp rfl) hbelow
    | false => exact hanswer

/-- An endless climb shows up as such. -/
theorem EndlessClimb.commonSuperclass_eq (h : hierarchy.EndlessClimb first second)
    (hfirst : {other | hierarchy.Reaches first other}.Finite)
    (hsecond : {other | hierarchy.Reaches second other}.Finite) :
    hierarchy.commonSuperclass first second = .error (.endlessSuperclasses first) := by
  have hassign : ∀ super, Relation.ReflTransGen hierarchy.Extends first super →
      hierarchy.isAssignable second super = .ok false :=
    fun super hsuper => (isAssignable_eq_false_iff hsecond).mpr ⟨h.apart super hsuper, h.known_second⟩
  have hdown : hierarchy.isAssignable first second = .ok false :=
    (isAssignable_eq_false_iff hfirst).mpr ⟨h.not_below, h.known_first⟩
  have hclimb : hierarchy.climb second first = none :=
    climb_eq_none h.cycle fun super hsuper => hassign super hsuper.to_reflTransGen
  obtain ⟨shape, hshape⟩ := h.known_first first .refl
  obtain ⟨shape', hshape'⟩ := h.known_second second .refl
  have hclass : shape.isInterface = false := by
    simpa using fun hinterface => h.class_first ⟨shape, hshape, hinterface⟩
  have hclass' : shape'.isInterface = false := by
    simpa using fun hinterface => h.class_second ⟨shape', hshape', hinterface⟩
  simp [commonSuperclass, hassign first .refl, hdown, hshape, hshape', hclass, hclass', hclimb, bind,
    Except.bind]

/-- Without an endless climb, the search for a common superclass ends. -/
theorem ends_of_not_endlessClimb (h : ¬ hierarchy.EndlessClimb first second)
    (hfirst : {other | hierarchy.Reaches first other}.Finite)
    (hsecond : {other | hierarchy.Reaches second other}.Finite)
    (hshape : ∀ name, Avoids Fault.IsEndless (hierarchy.shape name))
    (hassign : ∀ sub super, Avoids Fault.IsEndless (hierarchy.isAssignable sub super)) :
    Avoids Fault.IsEndless (hierarchy.commonSuperclass first second) := by
  refine avoids_commonSuperclass_of (hassign _ _) (hassign _ _) (hshape _) (hshape _)
    fun hup hdown hclass hclass' => ?_
  obtain ⟨hnotAbove, hknown'⟩ := (isAssignable_eq_false_iff hsecond).mp hup
  obtain ⟨hnotBelow, hknown⟩ := (isAssignable_eq_false_iff hfirst).mp hdown
  by_cases hcycle : ∃ place, Relation.ReflTransGen hierarchy.Extends first place ∧
      Relation.TransGen hierarchy.Extends place place
  · -- some superclass is above the second class, and the climb comes to it
    have hjoined : ∃ super, Relation.ReflTransGen hierarchy.Extends first super ∧
        hierarchy.Below second super := by
      by_contra hapart
      push Not at hapart
      exact h ⟨hknown, hknown', hclass, hclass', hnotBelow, hapart, hcycle⟩
    obtain ⟨super, hsuper, hbelow⟩ := hjoined
    have hne : super ≠ first := fun heq => hnotAbove (heq ▸ hbelow)
    have habove := (Relation.reflTransGen_iff_eq_or_transGen.mp hsuper).resolve_left hne
    obtain ⟨answer, hanswer⟩ := exists_isAssignable_of_finite hsecond hknown' super
    obtain rfl : answer = true := (isAssignable_eq_ok hanswer).mpr hbelow
    exact exists_climb_of_isAssignable habove hanswer (hassign second)
  · push Not at hcycle
    exact exists_climb (acc_of_finite (hfirst.subset fun _ => reaches_of_extends) hcycle)
      (fun above _ => hshape above) fun above _ => hassign second above

end Hierarchy

namespace Catalog

open Hierarchy

variable {catalog : Catalog} {classpath : Classpath}

/-- No question of assignability goes on for ever. -/
theorem avoids_isAssignable (sub super : String) :
    Avoids Fault.IsEndless ((catalog.hierarchy classpath).isAssignable sub super) := by
  intro fault h
  obtain ⟨name, hshape⟩ := exists_shape_of_isAssignable (finite_reaches sub) h
  exact avoids_shape name fault hshape

/-- Whatever the classes of a catalog and a classpath are, assignability is decided or cannot be for want of a
class, and so is the common superclass of two classes unless the climb for it is an endless one. -/
theorem endlessSuperclasses_iff (catalog : Catalog) (classpath : Classpath) :
    (∀ sub super, Avoids Fault.IsEndless ((catalog.hierarchy classpath).isAssignable sub super)) ∧
      ∀ first second,
        ((catalog.hierarchy classpath).commonSuperclass first second =
            .error (.endlessSuperclasses first) ↔
          (catalog.hierarchy classpath).EndlessClimb first second) ∧
        (¬ (catalog.hierarchy classpath).EndlessClimb first second →
          Avoids Fault.IsEndless ((catalog.hierarchy classpath).commonSuperclass first second)) := by
  refine ⟨avoids_isAssignable, fun first second => ?_⟩
  have hends : ¬ (catalog.hierarchy classpath).EndlessClimb first second →
      Avoids Fault.IsEndless ((catalog.hierarchy classpath).commonSuperclass first second) :=
    fun h => ends_of_not_endlessClimb h (finite_reaches first) (finite_reaches second)
      avoids_shape avoids_isAssignable
  refine ⟨⟨fun h => ?_, fun h => h.commonSuperclass_eq (finite_reaches first) (finite_reaches second)⟩, hends⟩
  by_contra hclimb
  exact hends hclimb _ h rfl

/-- Two classes that are each other's superclass, and a third one. -/
def twoInACircle : Catalog :=
  ⟨[{ access := ClassHeader.publicClass, name := "c/A", superName := some "c/B", interfaces := [],
      annotations := [], methods := [] },
    { access := ClassHeader.publicClass, name := "c/B", superName := some "c/A", interfaces := [],
      annotations := [], methods := [] },
    { access := ClassHeader.publicClass, name := "c/C", superName := some Name.object, interfaces := [],
      annotations := [], methods := [] }]⟩

/-- The search for the common superclass of a class in a circle and a class outside does not end. -/
theorem commonSuperclass_twoInACircle :
    (twoInACircle.hierarchy Classpath.empty).commonSuperclass "c/A" "c/C" =
      .error (.endlessSuperclasses "c/A") := by
  have hinside : ∀ other, (twoInACircle.hierarchy Classpath.empty).Reaches "c/A" other →
      other ∈ ["c/A", "c/B"] :=
    fun other => mem_of_reaches (by decide) (by decide)
  have houtside : ∀ other, (twoInACircle.hierarchy Classpath.empty).Reaches "c/C" other →
      other ∈ ["c/C", Name.object] :=
    fun other => mem_of_reaches (by decide) (by decide)
  refine ((endlessSuperclasses_iff _ _).2 _ _).1.mpr
    { known_first := fun above h => knows_of_mem (by decide) (hinside above h)
      known_second := fun above h => knows_of_mem (by decide) (houtside above h)
      class_first := by rw [isInterface_iff]; decide
      class_second := by rw [isInterface_iff]; decide
      not_below := not_below_of_closed ["c/A", "c/B"] (by decide) (by decide) (by decide)
      apart := fun super hsuper => ?_
      cycle := ⟨"c/A", .refl, .head (b := "c/B") (extends_iff.mpr (by decide))
        (.single (extends_iff.mpr (by decide)))⟩ }
  have hdisjoint : ∀ super ∈ ["c/A", "c/B"], super ∉ [Name.object, "c/C", Name.object] := by decide
  exact not_below_of_closed ["c/C", Name.object] (by decide) (by decide)
    (hdisjoint super (hinside super (reaches_of_extends hsuper)))

end Catalog

end ClassInstrument
