import ClassInstrument.Proofs.Hierarchy.Supertypes
import ClassInstrument.Proofs.Outcome

/-!
# Common superclasses are upper bounds

In a well formed hierarchy `Below` is a partial order whose greatest element is the root.  The common
superclass of two classes is above both of them, it is the first of them exactly if the second is
below it, and every step up lowers the height of a class.
-/

namespace ClassInstrument

open Outcome

namespace Hierarchy

variable {hierarchy : Hierarchy}

/-! ## The order of the classes -/

/-- No class is above itself. -/
theorem not_transGen_self (hwf : hierarchy.WellFormed) (name : String) :
    ¬Relation.TransGen hierarchy.Mentions name name := by
  intro h
  have hswap : Relation.TransGen (fun super name => hierarchy.Mentions name super) name name :=
    Relation.transGen_swap.mpr h
  exact hwf.acyclic.transGen.asymmetric _ _ hswap hswap

/-- Every known class is below the root by its superclasses. -/
theorem reaches_object (hwf : hierarchy.WellFormed) {name : String} (h : hierarchy.Knows name) :
    hierarchy.Reaches name Name.object := by
  induction name using hwf.acyclic.induction with
  | _ name ih =>
    obtain ⟨shape, hshape⟩ := h
    rcases hsuper : shape.superName with - | super
    · rw [hwf.rooted hshape hsuper]
    · have hmentions : hierarchy.Mentions name super :=
        ⟨shape, hshape, by simp [ClassShape.supertypes, hsuper]⟩
      exact .head hmentions (ih super hmentions (hwf.closed hmentions))

/-- The root of the hierarchy has no supertypes. -/
theorem not_mentions_object (hwf : hierarchy.WellFormed) (super : String) :
    ¬hierarchy.Mentions Name.object super := by
  intro h
  exact not_transGen_self hwf Name.object (.head' h (reaches_object hwf (hwf.closed h)))

/-- Nothing but the root is above the root. -/
theorem eq_object_of_below (hwf : hierarchy.WellFormed) {super : String}
    (h : hierarchy.Below Name.object super) : super = Name.object := by
  rcases h with h | h
  · exact h
  · rcases Relation.ReflTransGen.cases_head h with h | ⟨next, hnext, -⟩
    · exact h.symm
    · exact absurd hnext (not_mentions_object hwf next)

/-- `Below` is transitive. -/
theorem Below.trans (hwf : hierarchy.WellFormed) {a b c : String} (hab : hierarchy.Below a b)
    (hbc : hierarchy.Below b c) : hierarchy.Below a c := by
  rcases hab with rfl | hab
  · exact Or.inl (eq_object_of_below hwf hbc)
  · rcases hbc with rfl | hbc
    · exact below_object a
    · exact Or.inr (hab.trans hbc)

open Classical in
/-- The number of names above a class, the class itself included; none count above the root. -/
noncomputable def height (hierarchy : Hierarchy) (name : String) : ℕ :=
  if name = Name.object then 0 else {other | hierarchy.Reaches name other}.ncard

/-- The root has height zero. -/
@[simp] theorem height_object : hierarchy.height Name.object = 0 := if_pos rfl

/-- Classes other than the root have a positive height. -/
theorem height_pos (hwf : hierarchy.WellFormed) {name : String} (h : name ≠ Name.object) :
    0 < hierarchy.height name := by
  rw [height, if_neg h]
  exact (Set.ncard_pos (finite_setOf_reaches hwf name)).mpr ⟨name, .refl⟩

/-- The height falls on the way up. -/
theorem height_lt (hwf : hierarchy.WellFormed) {sub super : String}
    (h : hierarchy.Below sub super) (hne : super ≠ sub) :
    hierarchy.height super < hierarchy.height sub := by
  by_cases hroot : super = Name.object
  · subst hroot
    rw [height_object]
    exact height_pos hwf hne.symm
  · have hreach : hierarchy.Reaches sub super := h.resolve_left hroot
    have hsub : sub ≠ Name.object := by
      rintro rfl
      exact hroot (eq_object_of_below hwf h)
    rw [height, height, if_neg hroot, if_neg hsub]
    refine Set.ncard_lt_ncard ⟨fun other hother => hreach.trans hother, fun hsubset => ?_⟩
      (finite_setOf_reaches hwf sub)
    have hback : hierarchy.Reaches super sub := hsubset .refl
    have hcycle := (Relation.reflTransGen_iff_eq_or_transGen.mp hback).resolve_left hne.symm
    exact not_transGen_self hwf super (hcycle.trans_left hreach)

/-! ## The climb -/

/-- The end of a climb is above its start and above the other class. -/
theorem below_of_climb {other name super : String}
    (h : hierarchy.climb other name = some (.ok super)) :
    hierarchy.Below other super ∧
      (super = Name.object ∨ Relation.TransGen hierarchy.Mentions name super) := by
  have key := climb.partial_correctness hierarchy other
    (fun name result => ∀ super, result = .ok super → hierarchy.Below other super ∧
      (super = Name.object ∨ Relation.TransGen hierarchy.Mentions name super))
    ?_ name _ h super rfl
  · exact key
  intro search ih name result hresult super hsuper
  subst hsuper
  rcases hshape : hierarchy.shape name with fault | shape
  · simp [hshape] at hresult
  rcases hnext : shape.superName with - | next
  · simp only [hshape, hnext, Option.some.injEq, Except.ok.injEq] at hresult
    subst hresult
    exact ⟨below_object other, Or.inl rfl⟩
  have hmentions : hierarchy.Mentions name next :=
    ⟨shape, hshape, by simp [ClassShape.supertypes, hnext]⟩
  rcases hassign : hierarchy.isAssignable other next with fault | answer
  · simp [hshape, hnext, hassign] at hresult
  cases answer with
  | true =>
    simp only [hshape, hnext, hassign, Option.some.injEq, Except.ok.injEq] at hresult
    subst hresult
    exact ⟨(isAssignable_eq_ok hassign).mp rfl, Or.inr (.single hmentions)⟩
  | false =>
    simp only [hshape, hnext, hassign] at hresult
    obtain ⟨hbelow, habove⟩ := ih _ _ hresult _ rfl
    exact ⟨hbelow, habove.imp_right (.head hmentions)⟩

/-- A class names another one as its superclass. -/
def Extends (hierarchy : Hierarchy) (name super : String) : Prop :=
  ∃ shape, hierarchy.shape name = .ok shape ∧ shape.superName = some super

/-- A superclass is one of the supertypes. -/
theorem Extends.mentions {name super : String} (h : hierarchy.Extends name super) :
    hierarchy.Mentions name super := by
  obtain ⟨shape, hshape, hsuper⟩ := h
  exact ⟨shape, hshape, by simp [ClassShape.supertypes, hsuper]⟩

/-- The superclasses above a class are among the classes above it. -/
theorem reaches_of_extends {name super : String}
    (h : Relation.ReflTransGen hierarchy.Extends name super) : hierarchy.Reaches name super :=
  h.lift id fun _ _ => Extends.mentions

/-- A climb from a class with a superclass asks about the superclass, and may go on from there. -/
theorem climb_of_extends {other name super : String} (h : hierarchy.Extends name super) :
    hierarchy.climb other name =
      match hierarchy.isAssignable other super with
      | .error fault => some (.error fault)
      | .ok true => some (.ok super)
      | .ok false => hierarchy.climb other super := by
  obtain ⟨shape, hshape, hsuper⟩ := h
  rw [climb]
  rcases hanswer : hierarchy.isAssignable other super with fault | _ | _ <;>
    simp only [hshape, hsuper, hanswer]

/-- A climb ends if it does from the superclass, in case it goes on. -/
theorem exists_climb_of_extends {p : Fault → Prop} {other name super : String}
    (h : hierarchy.Extends name super) (hassign : Avoids p (hierarchy.isAssignable other super))
    (hrest : ∃ result, hierarchy.climb other super = some result ∧ Avoids p result) :
    ∃ result, hierarchy.climb other name = some result ∧ Avoids p result := by
  rw [climb_of_extends h]
  split
  · next fault hfault => exact ⟨_, rfl, avoids_error.mpr (hassign fault hfault)⟩
  · exact ⟨_, rfl, avoids_ok super⟩
  · exact hrest

/-- A climb ends if the superclasses above its start do, and goes wrong only as a question on its way
does. -/
theorem exists_climb {p : Fault → Prop} {other name : String}
    (hacc : Acc (fun super name => hierarchy.Extends name super) name)
    (hshape : ∀ above, Relation.ReflTransGen hierarchy.Extends name above →
      Avoids p (hierarchy.shape above))
    (hassign : ∀ above, Relation.TransGen hierarchy.Extends name above →
      Avoids p (hierarchy.isAssignable other above)) :
    ∃ result, hierarchy.climb other name = some result ∧ Avoids p result := by
  induction hacc with
  | intro name _ ih =>
    rcases hname : hierarchy.shape name with fault | shape
    · exact ⟨.error fault, by rw [climb, hname], avoids_error.mpr (hshape name .refl fault hname)⟩
    rcases hsuper : shape.superName with - | super
    · exact ⟨.ok Name.object, by rw [climb, hname]; simp [hsuper], avoids_ok _⟩
    have hextends : hierarchy.Extends name super := ⟨shape, hname, hsuper⟩
    exact exists_climb_of_extends hextends (hassign super (.single hextends)) <| ih super hextends
      (fun above habove => hshape above (.head hextends habove))
      (fun above habove => hassign above (.head hextends habove))

/-- Chains of superclasses of a well formed hierarchy end. -/
theorem WellFormed.acc_extends (hwf : hierarchy.WellFormed) (name : String) :
    Acc (fun super name => hierarchy.Extends name super) name :=
  Subrelation.accessible (fun h => h.mentions) (hwf.acyclic.apply name)

/-- No question about a class of a well formed hierarchy goes on for ever. -/
theorem WellFormed.avoids_shape (hwf : hierarchy.WellFormed) (name : String) :
    Avoids Fault.IsEndless (hierarchy.shape name) :=
  fun _ h => by simp [hwf.answers h]

/-- No question of assignability in a well formed hierarchy goes on for ever. -/
theorem WellFormed.avoids_isAssignable (hwf : hierarchy.WellFormed) (sub super : String) :
    Avoids Fault.IsEndless (hierarchy.isAssignable sub super) :=
  fun _ h => by simp [isEndless_of_isAssignable hwf h]

/-! ## The common superclass -/

/-- Where a common superclass comes from: it is one of the two classes, the root, or a supertype that
some class names. -/
def IsNamedSuper (hierarchy : Hierarchy) (first second super : String) : Prop :=
  super = first ∨ super = second ∨ super = Name.object ∨ ∃ name, hierarchy.Mentions name super

/-- The common superclass of two classes is above both of them. -/
theorem below_commonSuperclass {first second super : String}
    (h : hierarchy.commonSuperclass first second = .ok super) :
    hierarchy.Below first super ∧ hierarchy.Below second super ∧
      hierarchy.IsNamedSuper first second super := by
  unfold commonSuperclass at h
  rcases hsecond : hierarchy.isAssignable second first with fault | answer
  · simp [hsecond, bind, Except.bind] at h
  rcases answer with - | -
  case true =>
    obtain rfl : first = super := by simpa [hsecond, bind, Except.bind, pure, Except.pure] using h
    exact ⟨.refl _, (isAssignable_eq_ok hsecond).mp rfl, Or.inl rfl⟩
  rcases hfirst : hierarchy.isAssignable first second with fault | answer
  · simp [hsecond, hfirst, bind, Except.bind] at h
  rcases answer with - | -
  case true =>
    obtain rfl : second = super := by
      simpa [hsecond, hfirst, bind, Except.bind, pure, Except.pure] using h
    exact ⟨(isAssignable_eq_ok hfirst).mp rfl, .refl _, Or.inr (Or.inl rfl)⟩
  have hroot : ∀ other, other = super → other = Name.object →
      hierarchy.Below first super ∧ hierarchy.Below second super ∧
        hierarchy.IsNamedSuper first second super := by
    rintro other rfl rfl
    exact ⟨below_object _, below_object _, Or.inr (Or.inr (Or.inl rfl))⟩
  rcases hshape : hierarchy.shape first with fault | shape
  · simp [hsecond, hfirst, hshape, bind, Except.bind] at h
  by_cases hinterface : shape.isInterface
  · refine hroot _ ?_ rfl
    simpa [hsecond, hfirst, hshape, hinterface, bind, Except.bind, pure, Except.pure] using h
  rcases hshape' : hierarchy.shape second with fault | shape'
  · simp [hsecond, hfirst, hshape, hshape', hinterface, bind, Except.bind] at h
  by_cases hinterface' : shape'.isInterface
  · refine hroot _ ?_ rfl
    simpa [hsecond, hfirst, hshape, hshape', hinterface, hinterface', bind, Except.bind, pure,
      Except.pure] using h
  have hclimb : (hierarchy.climb second first).getD (.error (.endlessSuperclasses first)) =
      .ok super := by
    simpa [hsecond, hfirst, hshape, hshape', hinterface, hinterface', bind, Except.bind] using h
  rcases hresult : hierarchy.climb second first with - | result
  · simp [hresult] at hclimb
  rw [hresult, Option.getD_some] at hclimb
  rw [hclimb] at hresult
  obtain ⟨hbelow, rfl | habove⟩ := below_of_climb hresult
  · exact hroot _ rfl rfl
  · refine ⟨Or.inr habove.to_reflTransGen, hbelow, Or.inr (Or.inr (Or.inr ?_))⟩
    obtain ⟨name, -, hmentions⟩ := Relation.TransGen.tail'_iff.mp habove
    exact ⟨name, hmentions⟩

/-- The common superclass is the first of two classes exactly if the second is below it. -/
theorem commonSuperclass_eq_first_iff (hwf : hierarchy.WellFormed) {first second : String} :
    hierarchy.commonSuperclass first second = .ok first ↔ hierarchy.Below second first := by
  constructor
  · intro h
    exact (below_commonSuperclass h).2.1
  · intro h
    have hassign := (isAssignable_eq_true_iff hwf).mpr h
    simp [commonSuperclass, hassign, bind, Except.bind, pure, Except.pure]

/-- An interface is known as one. -/
def IsInterface (hierarchy : Hierarchy) (name : String) : Prop :=
  ∃ shape, hierarchy.shape name = .ok shape ∧ shape.isInterface = true

/-- The search for a common superclass goes wrong only as one of its questions does, or as the climb does
that follows if neither of two classes is assignable to the other and neither is an interface. -/
theorem avoids_commonSuperclass_of {p : Fault → Prop} {first second : String}
    (hsecond : Avoids p (hierarchy.isAssignable second first))
    (hfirst : Avoids p (hierarchy.isAssignable first second))
    (hshape : Avoids p (hierarchy.shape first)) (hshape' : Avoids p (hierarchy.shape second))
    (hclimb : hierarchy.isAssignable second first = .ok false →
      hierarchy.isAssignable first second = .ok false →
      ¬ hierarchy.IsInterface first → ¬ hierarchy.IsInterface second →
      ∃ result, hierarchy.climb second first = some result ∧ Avoids p result) :
    Avoids p (hierarchy.commonSuperclass first second) := by
  refine hsecond.bind_ok fun upward hupward => ?_
  split
  · exact avoids_pure _
  next hnotAbove =>
  refine hfirst.bind_ok fun downward hdownward => ?_
  split
  · exact avoids_pure _
  next hnotBelow =>
  refine hshape.bind_ok fun shape hfound => ?_
  split
  · exact avoids_pure _
  next hclass =>
  refine hshape'.bind_ok fun shape' hfound' => ?_
  split
  · exact avoids_pure _
  next hclass' =>
  simp only [Bool.not_eq_true] at hnotAbove hnotBelow hclass hclass'
  obtain ⟨result, hresult, havoids⟩ := hclimb (hnotAbove ▸ hupward) (hnotBelow ▸ hdownward)
    (fun ⟨other, hother, hinterface⟩ => by simp_all) (fun ⟨other, hother, hinterface⟩ => by simp_all)
  rwa [hresult, Option.getD_some]

/-- The search for a common superclass ends. -/
theorem isEndless_of_commonSuperclass (hwf : hierarchy.WellFormed) {first second : String}
    {fault : Fault} (h : hierarchy.commonSuperclass first second = .error fault) :
    fault.isEndless = false := by
  have havoids : Avoids Fault.IsEndless (hierarchy.commonSuperclass first second) :=
    avoids_commonSuperclass_of (hwf.avoids_isAssignable _ _) (hwf.avoids_isAssignable _ _)
      (hwf.avoids_shape _) (hwf.avoids_shape _) fun _ _ _ _ =>
        exists_climb (hwf.acc_extends first) (fun above _ => hwf.avoids_shape above)
          fun above _ => hwf.avoids_isAssignable second above
  simpa using havoids fault h

end Hierarchy

end ClassInstrument
