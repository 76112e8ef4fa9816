import Mathlib
import ClassInstrument.Policy.Benchmark
import ClassInstrument.Proofs.Catalog.Closure
import ClassInstrument.Proofs.Outcome

/-!
# How thresholds are settled

The classes above a method that annotate their version of it may give different values to a threshold.  The rule that
settles this is `Benchmark.TieBreak`: a value that is no number is refused; without values the default counts; a class
that gives a value itself has the last word; values that agree are taken; and all others are a conflict, which is
reported with everything that was given.  The code does not follow the rule case by case, since a single value is taken
without asking which class gives it, but it comes to the same result (`Benchmark.tieBreak_threshold`).

The declared defaults are read once and then kept.  What is kept are always the declared defaults, so no answer depends
on which questions have been asked before (`Benchmark.answers_eq_map`).
-/

namespace ClassInstrument

open Outcome

/-! ## Tables of given values -/

namespace NameTable

variable {α : Type} {table : NameTable α} {given : String → α → Prop} {name : String} {value : α}

/-- A table lists exactly the values that are given to names, by ascending name. -/
structure Lists (table : NameTable α) (given : String → α → Prop) : Prop where
  ascending : (table.map Prod.fst).Pairwise (· < ·)
  mem_iff : ∀ name value, (name, value) ∈ table ↔ given name value

/-- In a table by ascending name, each entry is found under its name. -/
theorem find?_of_mem (hascending : (table.map Prod.fst).Pairwise (· < ·)) (h : (name, value) ∈ table) :
    table.find? name = some value := by
  obtain ⟨before, after, rfl⟩ := List.append_of_mem h
  rw [List.map_append, List.map_cons, List.pairwise_append] at hascending
  refine List.lookup_eq_some_iff.mpr ⟨before, after, rfl, fun entry hentry => bne_iff_ne.mpr ?_⟩
  exact (hascending.2.2 _ (List.mem_map_of_mem hentry) _ List.mem_cons_self).ne'

/-- The values of ascending names. -/
theorem lists_filterMap {names : List String} (h : names.Pairwise (· < ·)) (value? : String → Option α) :
    Lists (names.filterMap fun name => (value? name).map (name, ·))
      fun name value => name ∈ names ∧ value? name = some value where
  ascending := by
    rw [List.pairwise_map, List.pairwise_filterMap]
    refine h.imp fun hlt entry hentry other hother => ?_
    obtain ⟨_, -, rfl⟩ := Option.map_eq_some_iff.mp hentry
    obtain ⟨_, -, rfl⟩ := Option.map_eq_some_iff.mp hother
    exact hlt
  mem_iff name value := by
    simp only [List.mem_filterMap, Option.map_eq_some_iff, Prod.mk.injEq]
    constructor
    · rintro ⟨_, hmem, _, hvalue, rfl, rfl⟩
      exact ⟨hmem, hvalue⟩
    · exact fun ⟨hmem, hvalue⟩ => ⟨name, hmem, value, hvalue, rfl, rfl⟩

end NameTable

namespace Catalog

variable {catalog : Catalog} {owner marker property : String} {signature : Signature}

/-- A class in the closure of a method annotates its version of the method and gives a property a value there. -/
def Gives (catalog : Catalog) (owner : String) (signature : Signature) (marker property member : String)
    (value : ElementValue) : Prop :=
  member ∈ catalog.methodClosure owner signature ∧ ∃ method mark, catalog.declared? member signature = some method ∧
    method.annotation? marker = some mark ∧ mark.value? property = some value

theorem withValues_eq_ok {names : List String} {value : String → Except CatalogFault (Option ElementValue)}
    {value? : String → Option ElementValue} (h : ∀ name ∈ names, value name = .ok (value? name)) :
    withValues names value = .ok (names.filterMap fun name => (value? name).map (name, ·)) := by
  have hentries : (names.mapM fun name => do return (← value name).map (name, ·)) =
      .ok (names.map fun name => (value? name).map (name, ·)) := by
    refine mapM_eq_ok.mpr (List.forall₂_map_right_iff.mpr (List.forall₂_same.mpr fun name hname => ?_))
    rw [h name hname]
    rfl
  rw [withValues, hentries]
  exact congrArg Except.ok List.filterMap_map

theorem demandMethod_of_declared? {name : String} {method : MethodFact}
    (h : catalog.declared? name signature = some method) : catalog.demandMethod name signature = .ok method := by
  obtain ⟨fact, hfact, hmethod⟩ := Option.bind_eq_some_iff.mp h
  simp only [demandMethod, demand, hfact, bind, Except.bind, hmethod]
  rfl

/-- The values that are given to a property can always be read, since only annotated methods are asked. -/
theorem annotatedMethodValues_eq_ok (catalog : Catalog) (owner : String) (signature : Signature)
    (marker property : String) :
    ∃ values, catalog.annotatedMethodValues owner signature marker property = .ok values ∧
      values.Lists (catalog.Gives owner signature marker property) := by
  let mark? (name : String) : Option Annotation :=
    (catalog.declared? name signature).bind fun method => method.annotation? marker
  have hread (name : String) (hname : name ∈ catalog.annotatedMethodClosure owner signature marker) :
      catalog.methodProperty name signature marker property =
        .ok ((mark? name).bind fun mark => mark.value? property) := by
    obtain ⟨mark, hmark⟩ := Option.isSome_iff_exists.mp (List.mem_filter.mp hname).2
    obtain ⟨method, hmethod, hfind⟩ := Option.bind_eq_some_iff.mp hmark
    simp only [methodProperty, demandMethod_of_declared? hmethod, bind, Except.bind, hfind, mark?, hmethod,
      Option.bind_some]
    rfl
  refine ⟨_, withValues_eq_ok hread, ?_⟩
  have hascending : (catalog.annotatedMethodClosure owner signature marker).Pairwise (· < ·) :=
    ((pairwise_closure _ _).filter _).filter _
  have hlists := NameTable.lists_filterMap hascending fun name => (mark? name).bind fun mark => mark.value? property
  refine ⟨hlists.ascending, fun member value => (hlists.mem_iff member value).trans ?_⟩
  rw [annotatedMethodClosure, List.mem_filter, and_assoc]
  refine and_congr_right fun _ => ?_
  simp only [mark?, isMethodAnnotated, Option.bind_eq_some_iff, Option.isSome_iff_exists]
  constructor
  · rintro ⟨-, mark, ⟨method, hmethod, hmark⟩, hvalue⟩
    exact ⟨method, mark, hmethod, hmark, hvalue⟩
  · rintro ⟨method, mark, hmethod, hmark, hvalue⟩
    exact ⟨⟨mark, method, hmethod, hmark⟩, mark, ⟨method, hmethod, hmark⟩, hvalue⟩

end Catalog

/-! ## The rule -/

namespace Benchmark

variable {policy : Benchmark} {catalog : Catalog} {owner property : String} {signature : Signature} {default : Int32}
  {given : String → ElementValue → Prop} {values : NameTable ElementValue} {numbers : NameTable Int32} {number : Int32}

/-- The rule for a threshold of a method of a class, by what is given to the property. -/
structure TieBreak (policy : Benchmark) (owner : String) (signature : Signature) (property : String) (default : Int32)
    (given : String → ElementValue → Prop) (result : Except PolicyFault Int32) : Prop where
  /-- A value that is no number is refused. -/
  notInt : (∃ member value, given member value ∧ value.int? = none) →
    ∃ member value, given member value ∧ value.int? = none ∧
      result = .error (.propertyNotInt policy.marker property value.describe)
  /-- Without values the default counts. -/
  unset : (∀ member value, ¬given member value) → result = .ok default
  /-- The value of the class itself counts before all others. -/
  own : (∀ member value, given member value → value.int?.isSome) → ∀ value number, given owner value →
    value.int? = some number → result = .ok number
  /-- Values that agree count. -/
  common : ∀ number, (∃ member value, given member value) →
    (∀ member value, given member value → value.int? = some number) → result = .ok number
  /-- Values of other classes that do not agree are a conflict, which lists all of them. -/
  conflict : (∀ member value, given member value → value.int?.isSome) → (∀ value, ¬given owner value) →
    (¬∃ number, ∀ member value, given member value → value.int? = some number) →
      ∃ numbers : NameTable Int32,
        numbers.Lists (fun member number => ∃ value, given member value ∧ value.int? = some number) ∧
          result = .error (.conflictingValues owner signature property policy.marker numbers)

/-- The values are numbers if they are read as such, and these are all that are given. -/
theorem lists_of_demandInts (h : policy.demandInts property values = .ok numbers) (hvalues : values.Lists given) :
    (∀ member value, given member value → value.int?.isSome) ∧
      numbers.Lists fun member number => ∃ value, given member value ∧ value.int? = some number := by
  have hentries : List.Forall₂ (fun entry result => result.1 = entry.1 ∧ entry.2.int? = some result.2) values
      numbers := by
    refine (mapM_eq_ok.mp h).imp fun ⟨member, value⟩ result hresult => ?_
    dsimp only at hresult
    split at hresult
    · next number hint =>
      obtain rfl := Except.ok.inj hresult
      exact ⟨rfl, hint⟩
    · cases hresult
  have hnames : numbers.map Prod.fst = values.map Prod.fst := by
    refine (map_eq_map_of_forall₂ hentries fun _ _ hsame => ?_).symm
    exact hsame.1.symm
  refine ⟨fun member value hgiven => ?_, hnames ▸ hvalues.ascending, fun member number => ⟨fun hmem => ?_, ?_⟩⟩
  · obtain ⟨result, -, -, hint⟩ := exists_right_of_forall₂ hentries ((hvalues.mem_iff member value).mpr hgiven)
    exact Option.isSome_iff_exists.mpr ⟨_, hint⟩
  · obtain ⟨⟨_, value⟩, hentry, rfl, hint⟩ := exists_left_of_forall₂ hentries hmem
    exact ⟨value, (hvalues.mem_iff _ _).mp hentry, hint⟩
  · rintro ⟨value, hgiven, hint⟩
    obtain ⟨⟨_, result⟩, hmem, rfl, hresult⟩ :=
      exists_right_of_forall₂ hentries ((hvalues.mem_iff member value).mpr hgiven)
    obtain rfl := Option.some.inj (hint.symm.trans hresult)
    exact hmem

/-- Values are refused because of one that is no number. -/
theorem of_demandInts_eq_error {fault : PolicyFault} (h : policy.demandInts property values = .error fault)
    (hvalues : values.Lists given) : ∃ member value, given member value ∧ value.int? = none ∧
      fault = .propertyNotInt policy.marker property value.describe := by
  obtain ⟨⟨member, value⟩, hmem, hfault⟩ := exists_of_mapM_eq_error h
  dsimp only at hfault
  split at hfault
  · cases hfault
  · next hint => exact ⟨member, value, (hvalues.mem_iff _ _).mp hmem, hint, (Except.error.inj hfault).symm⟩

/-- The value of the class itself counts, also if it is the only one. -/
theorem settle_own (hascending : (numbers.map Prod.fst).Pairwise (· < ·)) (h : (owner, number) ∈ numbers) :
    policy.settle owner signature property default numbers = .ok number := by
  unfold settle
  split
  · cases h
  · exact congrArg Except.ok (Prod.mk.inj (List.mem_singleton.mp h)).2.symm
  · simp only [NameTable.find?_of_mem hascending h]

/-- Values that agree count; if the class itself gives a value, it is one of them. -/
theorem settle_common {entry : String × Int32} (hmem : entry ∈ numbers) (h : ∀ entry ∈ numbers, entry.2 = number) :
    policy.settle owner signature property default numbers = .ok number := by
  unfold settle
  split
  · cases hmem
  · exact congrArg Except.ok (h _ List.mem_cons_self)
  · next first value rest _ =>
    dsimp only
    split
    · next own hown => exact congrArg Except.ok (h _ (mem_of_lookup hown))
    · obtain rfl : value = number := h _ List.mem_cons_self
      have hrest : rest.all fun entry => entry.2 == value :=
        List.all_eq_true.mpr fun entry hentry => beq_iff_eq.mpr (h _ (List.mem_cons_of_mem _ hentry))
      rw [if_pos hrest]

/-- Values that do not agree are a conflict if none of them is of the class itself. -/
theorem settle_conflict (hown : ∀ number, (owner, number) ∉ numbers)
    (h : ¬∃ number, ∀ entry ∈ numbers, entry.2 = number) :
    policy.settle owner signature property default numbers =
      .error (.conflictingValues owner signature property policy.marker numbers) := by
  unfold settle
  split
  · exact absurd ⟨0, by simp⟩ h
  · next first value => exact absurd ⟨value, by simp⟩ h
  · next first value rest _ =>
    dsimp only
    split
    · next own hfind => exact absurd (mem_of_lookup hfind) (hown own)
    · refine if_neg fun hall => h ⟨value, List.forall_mem_cons.mpr ⟨rfl, fun entry hentry => ?_⟩⟩
      exact beq_iff_eq.mp (List.all_eq_true.mp hall entry hentry)

/-- **Thresholds follow the rule**, for every property and every default. -/
theorem tieBreak_threshold (policy : Benchmark) (catalog : Catalog) (owner : String) (signature : Signature)
    (property : String) (default : Int32) :
    policy.TieBreak owner signature property default (catalog.Gives owner signature policy.marker property)
      (policy.threshold catalog owner signature property default) := by
  obtain ⟨values, hread, hvalues⟩ := catalog.annotatedMethodValues_eq_ok owner signature policy.marker property
  have hthreshold : policy.threshold catalog owner signature property default =
      policy.demandInts property values >>= policy.settle owner signature property default := by
    rw [threshold, hread]
    rfl
  rw [hthreshold]
  cases hdemand : policy.demandInts property values with
  | error fault =>
    obtain ⟨member, value, hgiven, hint, rfl⟩ := of_demandInts_eq_error hdemand hvalues
    -- the value that is refused rules out all other cases
    have hno {P : Prop} (h : value.int?.isSome) : P := by simp [hint] at h
    exact {
      notInt := fun _ => ⟨member, value, hgiven, hint, rfl⟩
      unset := fun hnone => absurd hgiven (hnone _ _)
      own := fun hints => hno (hints _ _ hgiven)
      common := fun number _ hall => hno (Option.isSome_iff_exists.mpr ⟨number, hall _ _ hgiven⟩)
      conflict := fun hints => hno (hints _ _ hgiven) }
  | ok numbers =>
    -- the numbers are all that is given, so the rule is carried over from the given values to the table
    obtain ⟨hints, hnumbers⟩ := lists_of_demandInts hdemand hvalues
    change TieBreak _ _ _ _ _ _ (policy.settle owner signature property default numbers)
    refine { notInt := ?_, unset := ?_, own := ?_, common := ?_, conflict := ?_ }
    · rintro ⟨member, value, hgiven, hint⟩
      simpa [hint] using hints member value hgiven
    · intro hnone
      have hempty : numbers = [] := List.eq_nil_iff_forall_not_mem.mpr fun entry hmem =>
        have ⟨value, hgiven, _⟩ := (hnumbers.mem_iff entry.1 entry.2).mp hmem
        hnone _ _ hgiven
      rw [hempty, settle]
    · exact fun _ value number hgiven hint =>
        settle_own hnumbers.ascending ((hnumbers.mem_iff _ _).mpr ⟨value, hgiven, hint⟩)
    · rintro number ⟨member, value, hgiven⟩ hall
      refine settle_common ((hnumbers.mem_iff _ _).mpr ⟨value, hgiven, hall _ _ hgiven⟩) fun entry hentry => ?_
      obtain ⟨value, hgiven, hint⟩ := (hnumbers.mem_iff entry.1 entry.2).mp hentry
      exact Option.some.inj (hint.symm.trans (hall _ _ hgiven))
    · intro _ hown hdiffer
      refine ⟨numbers, hnumbers, settle_conflict (fun number hmem => ?_) fun ⟨number, hall⟩ => hdiffer ⟨number, ?_⟩⟩
      · obtain ⟨value, hgiven, -⟩ := (hnumbers.mem_iff _ _).mp hmem
        exact hown value hgiven
      · intro member value hgiven
        obtain ⟨other, hother⟩ := Option.isSome_iff_exists.mp (hints _ _ hgiven)
        exact hother.trans (congrArg some (hall _ ((hnumbers.mem_iff _ _).mpr ⟨value, hgiven, hother⟩)))

/-! ## Which methods are timed -/

/-- The annotation is registered and declares both thresholds as numbers. -/
structure DeclaresThresholds (policy : Benchmark) (catalog : Catalog) : Prop where
  known : catalog.knowsAnnotationType policy.marker
  typed : ∃ properties, catalog.annotationProperties policy.marker = .ok properties ∧
    ∀ property ∈ [warnAtMillis, failAtMillis], properties.find? property = some "I"

/-- The annotation declares this default for a property, or none and the threshold is not set. -/
def IsDeclared (policy : Benchmark) (catalog : Catalog) (property : String) (default : Int32) : Prop :=
  ∃ declared, catalog.annotationDefault policy.marker property = .ok declared ∧
    default = (declared.bind ElementValue.int?).getD (-1)

theorem DeclaresThresholds.exists_declaredDefault (h : policy.DeclaresThresholds catalog) {property : String}
    (hproperty : property ∈ [warnAtMillis, failAtMillis]) :
    ∃ default, policy.declaredDefault catalog property = .ok default ∧ policy.IsDeclared catalog property default := by
  obtain ⟨properties, hproperties, htyped⟩ := h.typed
  obtain ⟨fact, hfact, -⟩ := bind_eq_ok.mp hproperties
  have hdefault : catalog.annotationDefault policy.marker property =
      .ok ((fact.methods.filter fun method => method.signature.name == property).findSome? MethodFact.default) := by
    rw [Catalog.annotationDefault, hfact]
    rfl
  refine ⟨_, ?_, _, hdefault, rfl⟩
  simp only [declaredDefault, h.known, hproperties, hdefault, liftM, monadLift, MonadLift.monadLift, Except.mapError,
    bind, Except.bind, htyped property hproperty]
  rfl

/-- What a method that some class annotates comes to, with certain defaults. -/
def thresholdsFrom (policy : Benchmark) (catalog : Catalog) (owner : String) (signature : Signature)
    (defaults : Thresholds) : Except PolicyFault (Option Thresholds) := do
  let found : Thresholds := {
    warnAt := ← policy.threshold catalog owner signature warnAtMillis defaults.warnAt
    failAt := ← policy.threshold catalog owner signature failAtMillis defaults.failAt }
  return if found.isAnySet then some found else none

theorem thresholds?_eq (policy : Benchmark) (catalog : Catalog) (owner : String) (signature : Signature) :
    policy.thresholds? catalog owner signature =
      if (catalog.annotatedMethodClosure owner signature policy.marker).isEmpty then .ok none
      else policy.declaredDefaults catalog >>= policy.thresholdsFrom catalog owner signature := rfl

theorem thresholdsFrom_eq_ok {defaults found : Thresholds} :
    policy.thresholdsFrom catalog owner signature defaults = .ok (some found) ↔
      policy.threshold catalog owner signature warnAtMillis defaults.warnAt = .ok found.warnAt ∧
      policy.threshold catalog owner signature failAtMillis defaults.failAt = .ok found.failAt ∧
      (found.warnAt ≠ -1 ∨ found.failAt ≠ -1) := by
  have hset : found.isAnySet ↔ found.warnAt ≠ -1 ∨ found.failAt ≠ -1 := by
    simp [Thresholds.isAnySet, Thresholds.unset]
  rw [← hset]
  constructor
  · intro h
    obtain ⟨warnAt, hwarn, h⟩ := bind_eq_ok.mp h
    obtain ⟨failAt, hfail, h⟩ := bind_eq_ok.mp h
    obtain ⟨hany, hfound⟩ := Option.ite_none_right_eq_some.mp (pure_eq_ok.mp h)
    obtain rfl := Option.some.inj hfound
    exact ⟨hwarn, hfail, hany⟩
  · rintro ⟨hwarn, hfail, hany⟩
    refine bind_eq_ok.mpr ⟨_, hwarn, bind_eq_ok.mpr ⟨_, hfail, pure_eq_ok.mpr ?_⟩⟩
    exact if_pos hany

/-! ### Defaults that are kept -/

/-- The thresholds of a method, with the defaults that are kept or else, if they are needed, with the declared ones,
which are kept from then on. -/
def answer (policy : Benchmark) (catalog : Catalog) (kept : Option Thresholds) (owner : String)
    (signature : Signature) : Except PolicyFault (Option Thresholds) × Option Thresholds :=
  if (catalog.annotatedMethodClosure owner signature policy.marker).isEmpty then (.ok none, kept)
  else
    match kept.elim (policy.declaredDefaults catalog) .ok with
    | .error fault => (.error fault, kept)
    | .ok defaults => (policy.thresholdsFrom catalog owner signature defaults, some defaults)

/-- The answers to questions about methods, one after the other. -/
def answers (policy : Benchmark) (catalog : Catalog) :
    Option Thresholds → List (String × Signature) → List (Except PolicyFault (Option Thresholds))
  | _, [] => []
  | kept, (owner, signature) :: questions =>
    let (result, kept) := policy.answer catalog kept owner signature
    result :: answers policy catalog kept questions

/-- What is kept are the declared defaults. -/
def KeepsDeclared (policy : Benchmark) (catalog : Catalog) (kept : Option Thresholds) : Prop :=
  ∀ defaults ∈ kept, policy.declaredDefaults catalog = .ok defaults

/-- A question is answered as if nothing were kept, and what is kept afterwards are still the declared defaults. -/
theorem KeepsDeclared.answer {kept : Option Thresholds} (h : policy.KeepsDeclared catalog kept) (owner : String)
    (signature : Signature) :
    (policy.answer catalog kept owner signature).1 = policy.thresholds? catalog owner signature ∧
      policy.KeepsDeclared catalog (policy.answer catalog kept owner signature).2 := by
  have hread : kept.elim (policy.declaredDefaults catalog) .ok = policy.declaredDefaults catalog := by
    cases kept with
    | none => rfl
    | some defaults => exact (h defaults rfl).symm
  rw [thresholds?_eq, Benchmark.answer, hread]
  split
  · exact ⟨rfl, h⟩
  · cases hdeclared : policy.declaredDefaults catalog with
    | error fault => exact ⟨rfl, h⟩
    | ok defaults =>
      refine ⟨rfl, fun other hother => ?_⟩
      rw [hdeclared, Option.mem_some_iff.mp hother]

/-- No answer depends on the questions that have been asked before. -/
theorem answers_eq_map {kept : Option Thresholds} (h : policy.KeepsDeclared catalog kept)
    (questions : List (String × Signature)) :
    policy.answers catalog kept questions =
      questions.map fun question => policy.thresholds? catalog question.1 question.2 := by
  induction questions generalizing kept with
  | nil => rfl
  | cons question questions ih =>
    obtain ⟨hanswer, hkept⟩ := h.answer question.1 question.2
    exact congrArg₂ _ hanswer (ih hkept)

/-- **Which thresholds a method has.**  Where the annotation declares both thresholds as numbers, each threshold follows
the rule, with the declared default.  A method is timed if some class in its closure annotates it and at least one of
the thresholds is set.  Keeping the defaults changes no answer. -/
theorem tieBreak_and_timed_iff {policy : Benchmark} {catalog : Catalog} (h : policy.DeclaresThresholds catalog) :
    ∃ defaults, policy.declaredDefaults catalog = .ok defaults ∧
      policy.IsDeclared catalog warnAtMillis defaults.warnAt ∧ policy.IsDeclared catalog failAtMillis defaults.failAt ∧
      (∀ owner signature,
        policy.TieBreak owner signature warnAtMillis defaults.warnAt
            (catalog.Gives owner signature policy.marker warnAtMillis)
            (policy.threshold catalog owner signature warnAtMillis defaults.warnAt) ∧
          policy.TieBreak owner signature failAtMillis defaults.failAt
            (catalog.Gives owner signature policy.marker failAtMillis)
            (policy.threshold catalog owner signature failAtMillis defaults.failAt) ∧
          ∀ found, policy.thresholds? catalog owner signature = .ok (some found) ↔
            (∃ member ∈ catalog.methodClosure owner signature,
              catalog.isMethodAnnotated member signature policy.marker) ∧
            policy.threshold catalog owner signature warnAtMillis defaults.warnAt = .ok found.warnAt ∧
            policy.threshold catalog owner signature failAtMillis defaults.failAt = .ok found.failAt ∧
            (found.warnAt ≠ -1 ∨ found.failAt ≠ -1)) ∧
      ∀ questions, policy.answers catalog none questions =
        questions.map fun question => policy.thresholds? catalog question.1 question.2 := by
  obtain ⟨warnAt, hwarn, hwarnDeclared⟩ := h.exists_declaredDefault List.mem_cons_self
  obtain ⟨failAt, hfail, hfailDeclared⟩ := h.exists_declaredDefault (List.mem_cons_of_mem _ List.mem_cons_self)
  have hdefaults : policy.declaredDefaults catalog = .ok ⟨warnAt, failAt⟩ :=
    bind_eq_ok.mpr ⟨_, hwarn, bind_eq_ok.mpr ⟨_, hfail, rfl⟩⟩
  refine ⟨⟨warnAt, failAt⟩, hdefaults, hwarnDeclared, hfailDeclared, fun owner signature =>
    ⟨tieBreak_threshold _ _ _ _ _ _, tieBreak_threshold _ _ _ _ _ _, fun found => ?_⟩,
    answers_eq_map fun _ hnone => absurd hnone (by simp)⟩
  have hannotated : (catalog.annotatedMethodClosure owner signature policy.marker).isEmpty = false ↔
      ∃ member ∈ catalog.methodClosure owner signature, catalog.isMethodAnnotated member signature policy.marker := by
    simp [Catalog.annotatedMethodClosure]
  rw [thresholds?_eq, hdefaults, ← hannotated]
  cases (catalog.annotatedMethodClosure owner signature policy.marker).isEmpty with
  | true => simp
  | false => exact thresholdsFrom_eq_ok.trans (by simp)

/-- The annotation with a default for one threshold, and a diamond whose upper classes give different values to the
other.  Of the two classes at the lower end one leaves it at that, and one gives a value itself. -/
def disagreeing : List ClassDecl :=
  [{ version := ⟨52, 0⟩, access := ⟨0x2601⟩, name := "Timed", superName := some Name.object
     methods := [{ access := ⟨0x0401⟩, name := warnAtMillis, descriptor := "()I" },
       { access := ⟨0x0401⟩, name := failAtMillis, descriptor := "()I", default := some (.int .int 30) }] },
    Catalog.oneMethod "a/Base" Name.object [] 1 [⟨"LTimed;", [(warnAtMillis, .int .int 10)]⟩],
    Catalog.oneMethod "a/Other" Name.object [] 1 [⟨"LTimed;", [(warnAtMillis, .int .int 20)]⟩],
    Catalog.oneMethod "c/Lower" "a/Base" ["a/Other"] 1 [],
    Catalog.oneMethod "c/Pinned" "a/Base" ["a/Other"] 1 [⟨"LTimed;", [(warnAtMillis, .int .int 15)]⟩]]

/-- A diamond with different values is a conflict, unless the class at its lower end gives a value itself. -/
theorem tieBreak_and_timed_iff_disagreeing :
    DeclaresThresholds { marker := "LTimed;" } (.ofList disagreeing) ∧
    threshold { marker := "LTimed;" } (.ofList disagreeing) "c/Lower" ⟨"f", "()V", ⟨1⟩⟩ warnAtMillis (-1) =
      .error (.conflictingValues "c/Lower" ⟨"f", "()V", ⟨1⟩⟩ warnAtMillis "LTimed;" [("a/Base", 10), ("a/Other", 20)]) ∧
    thresholds? { marker := "LTimed;" } (.ofList disagreeing) "c/Pinned" ⟨"f", "()V", ⟨1⟩⟩ = .ok (some ⟨15, 30⟩) := by
  have hdeclares : DeclaresThresholds { marker := "LTimed;" } (.ofList disagreeing) :=
    ⟨by decide +kernel, [(failAtMillis, "I"), (warnAtMillis, "I")], by decide +kernel, by decide +kernel⟩
  obtain ⟨defaults, hdefaults, -, -, hrule, -⟩ := tieBreak_and_timed_iff hdeclares
  obtain rfl : defaults = ⟨-1, 30⟩ := Except.ok.inj (hdefaults.symm.trans (by decide +kernel))
  refine ⟨hdeclares, by decide +kernel, ((hrule _ _).2.2 _).mpr ⟨⟨"a/Base", ?_, ?_⟩, ?_, ?_, ?_⟩⟩
  all_goals decide +kernel

end Benchmark

end ClassInstrument
