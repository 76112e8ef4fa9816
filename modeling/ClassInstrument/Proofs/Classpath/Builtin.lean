import ClassInstrument.Classpath.Hierarchy
import ClassInstrument.Proofs.Hierarchy.CommonSuperclass

/-!
# The classes that are always known

The hierarchy of a classpath without elements is that of the classes that are known without any element
that holds them.  It is well formed: each of these classes comes after its supertypes in the list.

A catalog in front of such a classpath knows its own classes as well, so that what its hierarchy mentions
can be looked up in a list.
-/

namespace ClassInstrument

namespace Classpath

/-- A classpath without elements knows the classes that are always known, and no others. -/
theorem shape_empty (name : String) :
    empty.hierarchy.shape name =
      match ClassHeader.builtin? name with
      | some header => .ok header.shape
      | none => .error (.typeNotFound name) := by
  have hask : empty.load name =
      match ClassHeader.builtin? name with
      | some header => .ok header
      | none => .error (.typeNotFound name) := by
    unfold Classpath.load ask search
    cases ClassHeader.builtin? name <;> rfl
  unfold Classpath.hierarchy
  dsimp only
  rw [hask]
  cases ClassHeader.builtin? name <;> rfl

/-- Each class that is always known comes after its supertypes, which are known as well and have proper
names. -/
theorem builtin_sorted : ∀ header ∈ ClassHeader.builtin, ∀ super ∈ header.shape.supertypes,
    ClassHeader.builtin.findIdx (fun other => other.name == super) <
      ClassHeader.builtin.findIdx (fun other => other.name == header.name) ∧
    (ClassHeader.builtin? super).isSome ∧
    super.toList ≠ [] ∧ ';' ∉ super.toList ∧ super.toList.head? ≠ some '[' := by
  decide

/-- A class that mentions another one is always known. -/
theorem exists_builtin_of_mentions {name super : String}
    (h : empty.hierarchy.Mentions name super) :
    ∃ header ∈ ClassHeader.builtin, header.name = name ∧ super ∈ header.shape.supertypes := by
  obtain ⟨shape, hshape, hsuper⟩ := h
  rw [shape_empty] at hshape
  cases hfound : ClassHeader.builtin? name with
  | none => simp [hfound] at hshape
  | some header =>
    rw [hfound, Except.ok.injEq] at hshape
    subst hshape
    have hname := List.find?_some hfound
    exact ⟨header, List.mem_of_find?_eq_some hfound, by simpa using hname, hsuper⟩

/-- The hierarchy of the classes that are always known is well formed. -/
theorem wellFormed_empty : empty.hierarchy.WellFormed where
  closed h := by
    obtain ⟨header, hmem, rfl, hsuper⟩ := exists_builtin_of_mentions h
    obtain ⟨found, hfound⟩ := Option.isSome_iff_exists.mp (builtin_sorted header hmem _ hsuper).2.1
    exact ⟨found.shape, by rw [shape_empty, hfound]⟩
  acyclic := by
    refine Subrelation.wf (fun {super name} h => ?_)
      (InvImage.wf (fun name => ClassHeader.builtin.findIdx fun other => other.name == name)
        Nat.lt_wfRel.wf)
    obtain ⟨header, hmem, rfl, hsuper⟩ := exists_builtin_of_mentions h
    exact (builtin_sorted header hmem _ hsuper).1
  rooted {name shape} hshape hsuper := by
    rw [shape_empty] at hshape
    cases hfound : ClassHeader.builtin? name with
    | none => simp [hfound] at hshape
    | some header =>
      rw [hfound, Except.ok.injEq] at hshape
      subst hshape
      have hroot : ∀ header ∈ ClassHeader.builtin, header.shape.superName = none →
          header.name = Name.object := by decide
      have hname := List.find?_some hfound
      rw [← hroot header (List.mem_of_find?_eq_some hfound) hsuper]
      exact (by simpa using hname : header.name = name).symm
  named h := by
    obtain ⟨header, hmem, rfl, hsuper⟩ := exists_builtin_of_mentions h
    exact (builtin_sorted header hmem _ hsuper).2.2
  answers {name fault} hshape := by
    rw [shape_empty] at hshape
    cases hfound : ClassHeader.builtin? name with
    | none =>
      rw [hfound, Except.error.injEq] at hshape
      exact hshape ▸ rfl
    | some header => simp [hfound] at hshape

end Classpath

namespace Catalog

/-- The names of the classes in a catalog and of those that are always known. -/
def names (catalog : Catalog) : List String :=
  catalog.facts.map ClassFact.name ++ ClassHeader.builtin.map ClassHeader.name

/-- What a catalog, or else the list of classes that are always known, says about a class. -/
def known? (catalog : Catalog) (name : String) : Option ClassShape :=
  ((catalog.class? name).map ClassFact.shape).or ((ClassHeader.builtin? name).map ClassHeader.shape)

variable {catalog : Catalog} {name super : String} {shape : ClassShape}

/-- A catalog in front of a classpath without elements knows what it can look up. -/
theorem shape_eq_ok_iff :
    (catalog.hierarchy Classpath.empty).shape name = .ok shape ↔ catalog.known? name = some shape := by
  unfold known?
  cases hfact : catalog.class? name with
  | some fact => simp [hierarchy, hfact]
  | none =>
    have hshape : (catalog.hierarchy Classpath.empty).shape name = Classpath.empty.hierarchy.shape name := by
      simp only [hierarchy, hfact]
      rfl
    rw [hshape, Classpath.shape_empty]
    cases ClassHeader.builtin? name <;> simp

/-- What is known has one of the names that are known. -/
theorem mem_names_of_known? (h : catalog.known? name = some shape) : name ∈ catalog.names := by
  rcases Option.or_eq_some_iff.mp h with h | ⟨-, h⟩
  · obtain ⟨fact, hfact, -⟩ := Option.map_eq_some_iff.mp h
    obtain rfl : fact.name = name := by simpa using List.find?_some hfact
    exact List.mem_append_left _ (List.mem_map_of_mem (List.mem_of_find?_eq_some hfact))
  · obtain ⟨header, hheader, -⟩ := Option.map_eq_some_iff.mp h
    obtain rfl : header.name = name := by simpa using List.find?_some hheader
    exact List.mem_append_right _ (List.mem_map_of_mem (List.mem_of_find?_eq_some hheader))

/-- What a catalog in front of a classpath without elements mentions can be looked up. -/
theorem mentions_iff : (catalog.hierarchy Classpath.empty).Mentions name super ↔
    ∃ shape ∈ catalog.known? name, super ∈ shape.supertypes :=
  exists_congr fun _ => and_congr_left fun _ => shape_eq_ok_iff

/-- The superclass that a catalog in front of a classpath without elements gives can be looked up. -/
theorem extends_iff : (catalog.hierarchy Classpath.empty).Extends name super ↔
    ∃ shape ∈ catalog.known? name, shape.superName = some super :=
  exists_congr fun _ => and_congr_left fun _ => shape_eq_ok_iff

/-- Whether a class of a catalog in front of a classpath without elements is an interface can be looked
up. -/
theorem isInterface_iff : (catalog.hierarchy Classpath.empty).IsInterface name ↔
    ∃ shape ∈ catalog.known? name, shape.isInterface = true :=
  exists_congr fun _ => and_congr_left fun _ => shape_eq_ok_iff

/-- Names that are known together with all their supertypes have only such names above them. -/
theorem mem_of_reaches {all : List String} {other : String}
    (hall : ∀ name ∈ all, ∀ shape ∈ catalog.known? name, ∀ super ∈ shape.supertypes, super ∈ all)
    (hname : name ∈ all) (hreach : (catalog.hierarchy Classpath.empty).Reaches name other) : other ∈ all := by
  induction hreach with
  | refl => exact hname
  | tail _ hmentions ih =>
    obtain ⟨shape, hshape, hsuper⟩ := mentions_iff.mp hmentions
    exact hall _ ih shape hshape _ hsuper

/-- A class is not below one that is outside of a list of names with all their supertypes. -/
theorem not_below_of_closed (all : List String)
    (hall : ∀ name ∈ all, ∀ shape ∈ catalog.known? name, ∀ super ∈ shape.supertypes, super ∈ all)
    (hname : name ∈ all) (hsuper : super ∉ Name.object :: all) :
    ¬ (catalog.hierarchy Classpath.empty).Below name super := by
  obtain ⟨hobject, hout⟩ := not_or.mp (hsuper ∘ List.mem_cons.mpr)
  rintro (h | h)
  · exact hobject h
  · exact hout (mem_of_reaches hall hname h)

/-- Names that can be looked up are known. -/
theorem knows_of_mem {all : List String} (hall : ∀ name ∈ all, (catalog.known? name).isSome)
    (hname : name ∈ all) : (catalog.hierarchy Classpath.empty).Knows name := by
  obtain ⟨shape, hshape⟩ := Option.isSome_iff_exists.mp (hall name hname)
  exact ⟨shape, shape_eq_ok_iff.mpr hshape⟩

end Catalog

end ClassInstrument
