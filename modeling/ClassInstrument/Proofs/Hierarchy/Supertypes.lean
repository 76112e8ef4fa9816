import Mathlib
import ClassInstrument.Hierarchy

/-!
# Assignability is reachability over supertypes

`Hierarchy.Mentions` is the relation of a class to its direct supertypes.  A hierarchy is well formed
if every supertype is known and bears a proper name, no class is above itself, and only the root of
the hierarchy has no superclass.

The search of `isReachable` keeps an invariant: what it has seen and no longer has to visit is not
the target, and has all its supertypes among what it has seen.  So an exhausted search has seen
everything above its start.  In a well formed hierarchy finitely many classes are above each class,
which is why the search ends.
-/

namespace ClassInstrument

/-- Does a fault stand for a computation that never ends? -/
def Fault.isEndless : Fault → Bool
  | .endlessSuperclasses _ | .unsettledFrames => true
  | _ => false

/-- A fault stands for a computation that never ends. -/
abbrev Fault.IsEndless (fault : Fault) : Prop := fault.isEndless = true

/-- A name that a class or interface can have in a class file: not empty, without a semicolon, and
not spelled like an array type. -/
def Name.IsClassName (name : String) : Prop :=
  name.toList ≠ [] ∧ ';' ∉ name.toList ∧ name.toList.head? ≠ some '['

namespace Hierarchy

variable {hierarchy : Hierarchy}

/-- A class names another one as its superclass or as one of its interfaces. -/
def Mentions (hierarchy : Hierarchy) (name super : String) : Prop :=
  ∃ shape, hierarchy.shape name = .ok shape ∧ super ∈ shape.supertypes

/-- The hierarchy has an answer about a class. -/
def Knows (hierarchy : Hierarchy) (name : String) : Prop :=
  ∃ shape, hierarchy.shape name = .ok shape

/-- A closed, acyclic hierarchy with proper names under one root. -/
structure WellFormed (hierarchy : Hierarchy) : Prop where
  /-- Every supertype of a known class is known. -/
  closed : ∀ {name super}, hierarchy.Mentions name super → hierarchy.Knows super
  /-- No class is above itself, and no chain of supertypes goes on for ever. -/
  acyclic : WellFounded fun super name => hierarchy.Mentions name super
  /-- Chains of superclasses end at the root of the hierarchy. -/
  rooted : ∀ {name shape}, hierarchy.shape name = .ok shape → shape.superName = none →
    name = Name.object
  /-- Supertypes have proper names. -/
  named : ∀ {name super}, hierarchy.Mentions name super → Name.IsClassName super
  /-- A question about a class ends, with an answer or without one. -/
  answers : ∀ {name fault}, hierarchy.shape name = .error fault → fault.isEndless = false

/-- A class is another one, or stands below it. -/
abbrev Reaches (hierarchy : Hierarchy) : String → String → Prop :=
  Relation.ReflTransGen hierarchy.Mentions

/-! ## The search of the supertypes -/

/-- What a search has seen and need not visit any more is known, is not its target, and has its
supertypes among what was seen; what it has yet to visit was seen. -/
structure Searched (hierarchy : Hierarchy) (target : String) (pending seen : List String) :
    Prop where
  pending_seen : ∀ name ∈ pending, name ∈ seen
  known : ∀ name ∈ seen, name ∉ pending → hierarchy.Knows name
  ne_target : ∀ name ∈ seen, name ∉ pending → name ≠ target
  supers_seen : ∀ name ∈ seen, name ∉ pending → ∀ super, hierarchy.Mentions name super → super ∈ seen

/-- Names to visit later are among those that were pending or are new. -/
theorem mem_visitLater_fst {names pending seen : List String} {name : String}
    (h : name ∈ (visitLater names pending seen).1) : name ∈ pending ∨ name ∈ names := by
  induction names generalizing pending seen with
  | nil => exact Or.inl h
  | cons first rest ih =>
    simp only [visitLater, List.foldl_cons] at h ih
    split at h
    · rcases ih h with h | h
      · exact Or.inl h
      · exact Or.inr (List.mem_cons_of_mem _ h)
    · rcases ih h with h | h
      · rcases List.mem_cons.mp h with rfl | h
        · exact Or.inr List.mem_cons_self
        · exact Or.inl h
      · exact Or.inr (List.mem_cons_of_mem _ h)

/-- After names were noted, exactly they and those seen before are seen. -/
theorem mem_visitLater_snd {names pending seen : List String} {name : String} :
    name ∈ (visitLater names pending seen).2 ↔ name ∈ seen ∨ name ∈ names := by
  induction names generalizing pending seen with
  | nil => simp [visitLater]
  | cons first rest ih =>
    simp only [visitLater, List.foldl_cons] at ih ⊢
    split
    · next hseen =>
      have hmem : first ∈ seen := by simpa using hseen
      rw [ih, List.mem_cons]
      constructor
      · rintro (h | h)
        · exact Or.inl h
        · exact Or.inr (Or.inr h)
      · rintro (h | rfl | h)
        · exact Or.inl h
        · exact Or.inl hmem
        · exact Or.inr h
    · rw [ih, List.mem_cons, List.mem_cons]
      tauto

/-- Names that were pending stay so while others are noted. -/
theorem pending_subset_visitLater {names pending seen : List String} {name : String}
    (h : name ∈ pending) : name ∈ (visitLater names pending seen).1 := by
  induction names generalizing pending seen with
  | nil => exact h
  | cons first rest ih =>
    simp only [visitLater, List.foldl_cons] at ih ⊢
    split
    · exact ih h
    · exact ih (List.mem_cons_of_mem _ h)

/-- A name seen for the first time is to be visited. -/
theorem mem_visitLater_of_new {names pending seen : List String} {name : String}
    (h : name ∈ (visitLater names pending seen).2) (hnew : name ∉ seen) :
    name ∈ (visitLater names pending seen).1 := by
  induction names generalizing pending seen with
  | nil => exact absurd h hnew
  | cons first rest ih =>
    by_cases hseen : seen.contains first
    · have hmem : first ∈ seen := by simpa using hseen
      simp only [visitLater, List.foldl_cons, hseen, if_true] at ih h ⊢
      exact ih h hnew
    · simp only [visitLater, List.foldl_cons, hseen] at ih h ⊢
      by_cases hfirst : name = first
      · subst hfirst
        exact pending_subset_visitLater List.mem_cons_self
      · exact ih h (by simpa [hfirst] using hnew)

/-- Noting names makes as many of them pending as are seen for the first time. -/
theorem length_visitLater (names pending seen : List String) :
    (visitLater names pending seen).1.length + seen.length =
      pending.length + (visitLater names pending seen).2.length := by
  induction names generalizing pending seen with
  | nil => simp [visitLater]
  | cons first rest ih =>
    simp only [visitLater, List.foldl_cons] at ih ⊢
    split
    · exact ih pending seen
    · have hrest := ih (first :: pending) (first :: seen)
      simp only [List.length_cons] at hrest
      omega

/-- Noting names that were not seen keeps what is seen free of repetitions. -/
theorem nodup_visitLater {names pending seen : List String} (h : seen.Nodup) :
    (visitLater names pending seen).2.Nodup := by
  induction names generalizing pending seen with
  | nil => exact h
  | cons first rest ih =>
    simp only [visitLater, List.foldl_cons] at ih ⊢
    split
    · exact ih h
    · next hseen => exact ih (List.nodup_cons.mpr ⟨by simpa using hseen, h⟩)

/-- What need not be visited any more after the supertypes of a class were noted is this class, or need
not have been visited before. -/
theorem visited_of_visitLater {names pending seen : List String} (name : String) {other : String}
    (hseen : other ∈ (visitLater names pending seen).2)
    (hvisited : other ∉ (visitLater names pending seen).1) :
    other = name ∨ other ∈ seen ∧ other ∉ name :: pending := by
  by_cases hold : other ∈ seen
  · by_cases hname : other = name
    · exact Or.inl hname
    · refine Or.inr ⟨hold, fun hmem => hvisited ?_⟩
      exact pending_subset_visitLater (List.mem_of_ne_of_mem hname hmem)
  · exact absurd (mem_visitLater_of_new hseen hold) hvisited

/-- A visit of a class other than the target keeps the invariant of the search. -/
theorem Searched.visit {target name : String} {pending seen : List String} {shape : ClassShape}
    (h : Searched hierarchy target (name :: pending) seen) (hne : name ≠ target)
    (hshape : hierarchy.shape name = .ok shape) :
    Searched hierarchy target (visitLater shape.supertypes pending seen).1
      (visitLater shape.supertypes pending seen).2 where
  pending_seen := by
    intro other hother
    rw [mem_visitLater_snd]
    rcases mem_visitLater_fst hother with hother | hother
    · exact Or.inl (h.pending_seen other (List.mem_cons_of_mem _ hother))
    · exact Or.inr hother
  known := by
    intro other hseen hvisited
    rcases visited_of_visitLater name hseen hvisited with rfl | ⟨hold, hpending⟩
    · exact ⟨shape, hshape⟩
    · exact h.known other hold hpending
  ne_target := by
    intro other hseen hvisited
    rcases visited_of_visitLater name hseen hvisited with rfl | ⟨hold, hpending⟩
    · exact hne
    · exact h.ne_target other hold hpending
  supers_seen := by
    intro other hseen hvisited super hsuper
    rw [mem_visitLater_snd]
    rcases visited_of_visitLater name hseen hvisited with rfl | ⟨hold, hpending⟩
    · obtain ⟨found, hfound, hmem⟩ := hsuper
      rw [hshape, Except.ok.injEq] at hfound
      exact Or.inr (hfound ▸ hmem)
    · exact Or.inl (h.supers_seen other hold hpending super hsuper)

/-- A search that finds its target starts below it. -/
theorem reaches_of_isReachable {target : String} {pending seen : List String}
    (h : hierarchy.isReachable target pending seen = some (.ok true)) :
    ∃ name ∈ pending, hierarchy.Reaches name target := by
  have key := isReachable.partial_correctness hierarchy target
    (fun pending _ result => result = .ok true → ∃ name ∈ pending, hierarchy.Reaches name target)
    ?_ pending seen _ h rfl
  · exact key
  intro search ih pending seen result hresult htrue
  subst htrue
  cases pending with
  | nil => simp at hresult
  | cons name pending =>
    simp only at hresult
    split at hresult
    · next heq => exact ⟨name, List.mem_cons_self, heq ▸ .refl⟩
    · split at hresult
      · simp at hresult
      · next shape hshape =>
        obtain ⟨other, hother, hreach⟩ := ih _ _ _ hresult rfl
        rcases mem_visitLater_fst hother with hother | hother
        · exact ⟨other, List.mem_cons_of_mem _ hother, hreach⟩
        · exact ⟨name, List.mem_cons_self, .head ⟨shape, hshape, hother⟩ hreach⟩

/-- A search that does not find its target ends with nothing left to visit. -/
theorem exists_searched_of_isReachable {target : String} {pending seen : List String}
    (h : hierarchy.isReachable target pending seen = some (.ok false))
    (hsearched : Searched hierarchy target pending seen) :
    ∃ all, seen ⊆ all ∧ Searched hierarchy target [] all := by
  have key := isReachable.partial_correctness hierarchy target
    (fun pending seen result => result = .ok false → Searched hierarchy target pending seen →
      ∃ all, seen ⊆ all ∧ Searched hierarchy target [] all)
    ?_ pending seen _ h rfl hsearched
  · exact key
  intro search ih pending seen result hresult hfalse hsearched
  subst hfalse
  cases pending with
  | nil => exact ⟨seen, List.Subset.refl _, hsearched⟩
  | cons first pending =>
    simp only at hresult
    split at hresult
    · simp at hresult
    · next hne =>
      split at hresult
      · simp at hresult
      · next shape hshape =>
        obtain ⟨all, hsubset, hall⟩ := ih _ _ _ hresult rfl (hsearched.visit hne hshape)
        exact ⟨all, fun name hname => hsubset (mem_visitLater_snd.mpr (Or.inl hname)), hall⟩

/-- A search that is over has seen everything above what it has seen. -/
theorem Searched.mem_of_reaches {target name other : String} {all : List String}
    (h : Searched hierarchy target [] all) (hname : name ∈ all) (hreach : hierarchy.Reaches name other) :
    other ∈ all := by
  induction hreach with
  | refl => exact hname
  | tail _ hstep ih => exact h.supers_seen _ ih List.not_mem_nil _ hstep

/-- A search from a class that does not find its target has found all classes above its start, and its
target is not among them. -/
theorem reaches_of_isReachable_eq_false {target name : String}
    (h : hierarchy.isReachable target [name] [name] = some (.ok false)) {other : String}
    (hreach : hierarchy.Reaches name other) : hierarchy.Knows other ∧ other ≠ target := by
  have hstart : Searched hierarchy target [name] [name] :=
    ⟨fun _ h => h, fun _ h h' => absurd h h', fun _ h h' => absurd h h', fun _ h h' => absurd h h'⟩
  obtain ⟨all, hsubset, hall⟩ := exists_searched_of_isReachable h hstart
  have hmem := hall.mem_of_reaches (hsubset List.mem_cons_self) hreach
  exact ⟨hall.known other hmem List.not_mem_nil, hall.ne_target other hmem List.not_mem_nil⟩

/-! ## The end of the search -/

/-- Finitely many classes are above a class of a well formed hierarchy. -/
theorem finite_setOf_reaches (hwf : hierarchy.WellFormed) (name : String) :
    {other | hierarchy.Reaches name other}.Finite := by
  induction name using hwf.acyclic.induction with
  | _ name ih =>
    rcases hshape : hierarchy.shape name with fault | shape
    · refine (Set.finite_singleton name).subset fun other hother => ?_
      rcases Relation.ReflTransGen.cases_head hother with rfl | ⟨super, ⟨found, hfound, -⟩, -⟩
      · exact rfl
      · simp [hshape] at hfound
    · have hsupers : (⋃ super ∈ {super | super ∈ shape.supertypes},
          {other | hierarchy.Reaches super other}).Finite :=
        (List.finite_toSet shape.supertypes).biUnion fun super hsuper =>
          ih super ⟨shape, hshape, hsuper⟩
      refine (hsupers.insert name).subset fun other hother => ?_
      rcases Relation.ReflTransGen.cases_head hother with rfl | ⟨super, ⟨found, hfound, hmem⟩, hrest⟩
      · exact Set.mem_insert _ _
      · rw [hshape, Except.ok.injEq] at hfound
        subst hfound
        exact Set.mem_insert_of_mem _ (Set.mem_biUnion hmem hrest)

/-- A search inside a finite set of classes that is closed under supertypes ends.  It fails only with
the fault of a question about a class, and not at all if all classes of the set are known. -/
theorem exists_isReachable (target : String) (above : Finset String)
    (habove : ∀ name ∈ above, ∀ super, hierarchy.Mentions name super → super ∈ above)
    (pending seen : List String) (hnodup : seen.Nodup) (hseen : ∀ name ∈ seen, name ∈ above)
    (hpending : ∀ name ∈ pending, name ∈ seen) :
    ∃ result, hierarchy.isReachable target pending seen = some result ∧
      (∀ fault, result = .error fault → ∃ name, hierarchy.shape name = .error fault) ∧
      ((∀ name ∈ above, hierarchy.Knows name) → ∃ found, result = .ok found) := by
  -- each round visits one class and notes only classes that were not seen before
  induction hmeasure : above.card - seen.length + pending.length using Nat.strong_induction_on
    generalizing pending seen with
  | _ measure ih =>
    cases pending with
    | nil =>
      rw [isReachable]
      exact ⟨_, rfl, by simp, fun _ => ⟨false, rfl⟩⟩
    | cons name pending =>
      rw [isReachable]
      by_cases heq : name = target
      · exact ⟨_, if_pos heq, by simp, fun _ => ⟨true, rfl⟩⟩
      rw [if_neg heq]
      have hname : name ∈ above := hseen name (hpending name List.mem_cons_self)
      rcases hshape : hierarchy.shape name with fault | shape
      · refine ⟨_, rfl, ?_, fun hknows => ?_⟩
        · rintro other ⟨⟩
          exact ⟨name, hshape⟩
        · obtain ⟨found, hfound⟩ := hknows name hname
          simp [hshape] at hfound
      · have hnext : ∀ other ∈ (visitLater shape.supertypes pending seen).2, other ∈ above := by
          intro other hother
          rcases mem_visitLater_snd.mp hother with hother | hother
          · exact hseen other hother
          · exact habove name hname other ⟨shape, hshape, hother⟩
        have hnodup' : (visitLater shape.supertypes pending seen).2.Nodup := nodup_visitLater hnodup
        have hcard : (visitLater shape.supertypes pending seen).2.length ≤ above.card := by
          rw [← List.toFinset_card_of_nodup hnodup']
          exact Finset.card_le_card fun other hother => hnext other (List.mem_toFinset.mp hother)
        have hlength := length_visitLater shape.supertypes pending seen
        simp only [List.length_cons] at hmeasure
        refine ih (above.card - (visitLater shape.supertypes pending seen).2.length +
          (visitLater shape.supertypes pending seen).1.length) (by omega) _ _ hnodup' hnext ?_ rfl
        intro other hother
        rw [mem_visitLater_snd]
        rcases mem_visitLater_fst hother with hother | hother
        · exact Or.inl (hpending other (List.mem_cons_of_mem _ hother))
        · exact Or.inr hother

/-- The search for a class among finitely many ones above another one ends. -/
theorem exists_isReachable_of_finite {name : String}
    (hfinite : {other | hierarchy.Reaches name other}.Finite) (target : String) :
    ∃ result, hierarchy.isReachable target [name] [name] = some result ∧
      (∀ fault, result = .error fault → ∃ name, hierarchy.shape name = .error fault) ∧
      ((∀ other, hierarchy.Reaches name other → hierarchy.Knows other) →
        ∃ found, result = .ok found) := by
  obtain ⟨result, hresult, hfault, hknown⟩ :=
    exists_isReachable target hfinite.toFinset
      (fun other hother super hsuper => by
        simp only [Set.Finite.mem_toFinset, Set.mem_ofPred_eq] at hother ⊢
        exact hother.tail hsuper)
      [name] [name] (List.nodup_singleton name)
      (fun other hother => by simp [List.mem_singleton.mp hother, Relation.ReflTransGen.refl])
      (fun _ hother => hother)
  exact ⟨result, hresult, hfault, fun hknows => hknown fun other hother => hknows other (by
    simpa using hother)⟩

/-- Whatever is above a known class is known. -/
theorem Knows.reaches (hwf : hierarchy.WellFormed) {name super : String} (h : hierarchy.Knows name)
    (hreach : hierarchy.Reaches name super) : hierarchy.Knows super := by
  rcases Relation.ReflTransGen.cases_tail hreach with rfl | ⟨sub, -, hmentions⟩
  · exact h
  · exact hwf.closed hmentions

/-! ## Assignability -/

/-- A class is below another one, as every class is below the root of the hierarchy. -/
def Below (hierarchy : Hierarchy) (sub super : String) : Prop :=
  super = Name.object ∨ hierarchy.Reaches sub super

/-- Every class is below itself. -/
theorem Below.refl (name : String) : hierarchy.Below name name := Or.inr .refl

/-- Every class is below the root of the hierarchy. -/
theorem below_object (name : String) : hierarchy.Below name Name.object := Or.inl rfl

/-- An answered question of assignability says whether one class is below the other. -/
theorem isAssignable_eq_ok {sub super : String} {answer : Bool}
    (h : hierarchy.isAssignable sub super = .ok answer) :
    answer = true ↔ hierarchy.Below sub super := by
  unfold isAssignable at h
  split at h
  · next hsame =>
    rw [Except.ok.injEq] at h
    refine ⟨fun _ => ?_, fun _ => h.symm⟩
    rcases hsame with rfl | rfl
    · exact .refl sub
    · exact below_object sub
  · next hdiffer =>
    push Not at hdiffer
    rcases hfound : hierarchy.isReachable super [sub] [sub] with - | result
    · simp [hfound] at h
    · have hresult : result = .ok answer := by simpa [hfound] using h
      rw [hresult] at hfound
      cases answer with
      | true =>
        obtain ⟨name, hname, hreach⟩ := reaches_of_isReachable hfound
        rw [List.mem_singleton] at hname
        exact ⟨fun _ => Or.inr (hname ▸ hreach), fun _ => rfl⟩
      | false =>
        have hnot : ¬hierarchy.Reaches sub super :=
          fun hreach => (reaches_of_isReachable_eq_false hfound hreach).2 rfl
        simp [Below, hdiffer.2, hnot]

/-- A class that is not assignable has only known classes above it. -/
theorem Knows.of_isAssignable_eq_false {sub super other : String}
    (h : hierarchy.isAssignable sub super = .ok false) (hreach : hierarchy.Reaches sub other) :
    hierarchy.Knows other := by
  unfold isAssignable at h
  split at h
  · simp at h
  · rcases hfound : hierarchy.isReachable super [sub] [sub] with - | result
    · simp [hfound] at h
    · obtain rfl : result = .ok false := by simpa [hfound] using h
      exact (reaches_of_isReachable_eq_false hfound hreach).1

/-- Whether a class is assignable is answered if finitely many classes are above it and all of them are
known. -/
theorem exists_isAssignable_of_finite {sub : String}
    (hfinite : {other | hierarchy.Reaches sub other}.Finite)
    (hknows : ∀ other, hierarchy.Reaches sub other → hierarchy.Knows other) (super : String) :
    ∃ answer, hierarchy.isAssignable sub super = .ok answer := by
  unfold isAssignable
  split
  · exact ⟨true, rfl⟩
  · obtain ⟨result, hresult, -, hknown⟩ := exists_isReachable_of_finite hfinite super
    obtain ⟨answer, rfl⟩ := hknown hknows
    exact ⟨answer, by simp [hresult]⟩

/-- Whether a class is assignable is asked in vain only as a question about a class is, if finitely many
classes are above it. -/
theorem exists_shape_of_isAssignable {sub super : String} {fault : Fault}
    (hfinite : {other | hierarchy.Reaches sub other}.Finite)
    (h : hierarchy.isAssignable sub super = .error fault) :
    ∃ name, hierarchy.shape name = .error fault := by
  unfold isAssignable at h
  split at h
  · simp at h
  · obtain ⟨result, hresult, hfault, -⟩ := exists_isReachable_of_finite hfinite super
    rw [hresult, Option.getD_some] at h
    exact hfault fault h

/-- Whether a known class is assignable is always answered. -/
theorem exists_isAssignable (hwf : hierarchy.WellFormed) {sub : String}
    (hknows : hierarchy.Knows sub) (super : String) :
    ∃ answer, hierarchy.isAssignable sub super = .ok answer :=
  exists_isAssignable_of_finite (finite_setOf_reaches hwf sub) (fun _ => hknows.reaches hwf) super

/-- A class is assignable to another one exactly if it is below it. -/
theorem isAssignable_eq_true_iff (hwf : hierarchy.WellFormed) {sub super : String} :
    hierarchy.isAssignable sub super = .ok true ↔ hierarchy.Below sub super := by
  constructor
  · intro h
    exact (isAssignable_eq_ok h).mp rfl
  · rintro (rfl | hreach)
    · simp [isAssignable]
    · by_cases hsame : sub = super
      · simp [isAssignable, hsame]
      · obtain ⟨next, ⟨shape, hshape, -⟩, -⟩ :=
          (Relation.ReflTransGen.cases_head hreach).resolve_left hsame
        obtain ⟨answer, hanswer⟩ := exists_isAssignable hwf ⟨shape, hshape⟩ super
        rw [hanswer, (isAssignable_eq_ok hanswer).mpr (Or.inr hreach)]

/-- No question of assignability goes on for ever. -/
theorem isEndless_of_isAssignable (hwf : hierarchy.WellFormed) {sub super : String} {fault : Fault}
    (h : hierarchy.isAssignable sub super = .error fault) : fault.isEndless = false := by
  obtain ⟨name, hshape⟩ := exists_shape_of_isAssignable (finite_setOf_reaches hwf sub) h
  exact hwf.answers hshape

end Hierarchy

end ClassInstrument
