import ClassInstrument.Policy.Benchmark
import ClassInstrument.Policy.ThreadCheck
import ClassInstrument.Proofs.Catalog.Closure

/-!
# Private methods and overriding

A method is in the same slot as others of its name and descriptor that are private if it is, and static if it is.  So
nothing that is private above a class matters for a method of the class that is not private: neither its thresholds nor
what it asks of threads.  But all private methods of one name and descriptor are in one slot, although none of them
overrides another, and a private method inherits from those of its superclasses (`Catalog.avoids_private_iff`).
-/

namespace ClassInstrument

/-- The class without the methods that are private, or without those that are not. -/
def ClassFact.withMethods (fact : ClassFact) (isPrivate : Bool) : ClassFact :=
  { fact with methods := fact.methods.filter fun method => method.signature.access.isPrivate == isPrivate }

/-- A method in the slot of a signature is still there when all that differ from it in being private are not. -/
theorem ClassFact.method?_withMethods (fact : ClassFact) (signature : Signature) :
    (fact.withMethods signature.access.isPrivate).method? signature = fact.method? signature := by
  rw [method?, method?, withMethods, List.find?_filter]
  congr 1
  funext method
  rw [Bool.eq_iff_iff, decide_eq_true_iff, beq_iff_eq, and_iff_right_iff_imp]
  exact fun h => (Signature.sameSlot_iff.mp h).2.2.1.symm

namespace Catalog

variable {catalog : Catalog} {name owner member : String} {signature : Signature} {method : MethodFact}

/-- The catalog without the methods that are private, or without those that are not. -/
def withMethods (catalog : Catalog) (isPrivate : Bool) : Catalog :=
  ⟨catalog.facts.map fun fact => fact.withMethods isPrivate⟩

theorem class?_withMethods (catalog : Catalog) (isPrivate : Bool) (name : String) :
    (catalog.withMethods isPrivate).class? name =
      (catalog.class? name).map fun fact => fact.withMethods isPrivate := by
  rw [class?, withMethods, List.find?_map]
  rfl

theorem closure_withMethods (catalog : Catalog) (isPrivate : Bool) (name : String) :
    (catalog.withMethods isPrivate).closure name = catalog.closure name := by
  have hmentions : (catalog.withMethods isPrivate).Mentions = catalog.Mentions := by
    ext name super
    rw [Mentions, Mentions, supertypes, supertypes, class?_withMethods]
    cases catalog.class? name <;> rfl
  refine eq_of_ascending (pairwise_closure _ _) (pairwise_closure _ _) fun other => ?_
  rw [mem_closure, mem_closure, Reaches, Reaches, hmentions]

theorem declared?_withMethods (catalog : Catalog) (name : String) (signature : Signature) :
    (catalog.withMethods signature.access.isPrivate).declared? name signature = catalog.declared? name signature := by
  rw [declared?, declared?, class?_withMethods, Option.bind_map]
  exact congrArg _ (funext fun fact => fact.method?_withMethods signature)

theorem methodClosure_withMethods (catalog : Catalog) (name : String) (signature : Signature) :
    (catalog.withMethods signature.access.isPrivate).methodClosure name signature =
      catalog.methodClosure name signature := by
  simp only [methodClosure, closure_withMethods, declared?_withMethods]

theorem annotatedMethodClosure_withMethods (catalog : Catalog) (name : String) (signature : Signature)
    (marker : String) : (catalog.withMethods signature.access.isPrivate).annotatedMethodClosure name signature marker =
      catalog.annotatedMethodClosure name signature marker := by
  simp only [annotatedMethodClosure, isMethodAnnotated, methodClosure_withMethods, declared?_withMethods]

theorem methodProperty_withMethods (catalog : Catalog) (name : String) (signature : Signature)
    (marker property : String) :
    (catalog.withMethods signature.access.isPrivate).methodProperty name signature marker property =
      catalog.methodProperty name signature marker property := by
  have hdemand : (catalog.withMethods signature.access.isPrivate).demandMethod name signature =
      catalog.demandMethod name signature := by
    unfold demandMethod demand
    rw [class?_withMethods]
    cases catalog.class? name with
    | none => rfl
    | some fact => simp only [Option.map_some, bind, Except.bind, fact.method?_withMethods]
  rw [methodProperty, hdemand, methodProperty]

theorem annotatedMethodValues_withMethods (catalog : Catalog) (name : String) (signature : Signature)
    (marker property : String) :
    (catalog.withMethods signature.access.isPrivate).annotatedMethodValues name signature marker property =
      catalog.annotatedMethodValues name signature marker property := by
  simp only [annotatedMethodValues, annotatedMethodClosure_withMethods, methodProperty_withMethods]

/-- What a member of a closure declares in a slot is private if the signature of the slot is. -/
theorem isPrivate_of_declared? (h : catalog.declared? member signature = some method) :
    method.signature.access.isPrivate = signature.access.isPrivate := by
  obtain ⟨fact, -, hmethod⟩ := Option.bind_eq_some_iff.mp h
  unfold ClassFact.method? at hmethod
  have hslot := List.find?_some hmethod
  exact (Signature.sameSlot_iff.mp hslot).2.2.1.symm

/-- **Private methods and overriding.**  The closure of a method that a class declares holds no class above with a
private method, except if the method is private itself and there is a class above with a method in its slot.  The
closure, the thresholds and what is asked of threads are the same without the methods that differ from it in being
private. -/
theorem avoids_private_iff (catalog : Catalog) (owner : String) (signature : Signature) (timing : Benchmark)
    (check : ThreadCheck) :
    ((∀ member ∈ catalog.methodClosure owner signature, member ≠ owner → ∀ method,
        catalog.declared? member signature = some method → method.signature.access.isPrivate = false) ↔
      signature.access.isPrivate = false ∨ ∀ member ∈ catalog.methodClosure owner signature, member = owner) ∧
    (catalog.withMethods signature.access.isPrivate).methodClosure owner signature =
      catalog.methodClosure owner signature ∧
    (∀ property default,
      timing.threshold (catalog.withMethods signature.access.isPrivate) owner signature property default =
        timing.threshold catalog owner signature property default) ∧
    check.methodRequirement (catalog.withMethods signature.access.isPrivate) owner signature =
      check.methodRequirement catalog owner signature := by
  refine ⟨⟨fun havoids => ?_, ?_⟩, methodClosure_withMethods _ _ _, fun property default => ?_, ?_⟩
  · by_contra hnot
    obtain ⟨hprivate, hother⟩ := not_or.mp hnot
    obtain ⟨member, hmember⟩ := not_forall.mp hother
    obtain ⟨hmember, hne⟩ := Classical.not_imp.mp hmember
    obtain ⟨method, hmethod⟩ := Option.isSome_iff_exists.mp (List.mem_filter.mp hmember).2
    exact hprivate (isPrivate_of_declared? hmethod ▸ havoids member hmember hne method hmethod)
  · rintro (hpublic | honly) member hmember hne method hmethod
    · exact (isPrivate_of_declared? hmethod).trans hpublic
    · exact absurd (honly member hmember) hne
  · simp only [Benchmark.threshold, annotatedMethodValues_withMethods]
  · have hfindings (marker : String) := catalog.annotatedMethodClosure_withMethods owner signature marker
    simp only [ThreadCheck.methodRequirement, ThreadCheck.findings, hfindings]

/-- A class and its superclass, each with a private method of the same name; only the one above is annotated. -/
def privates : List ClassDecl :=
  [oneMethod "a/A" Name.object [] 2 [⟨"LTimed;", [(Benchmark.warnAtMillis, .int .int 10)]⟩, ⟨"LMain;", []⟩],
    oneMethod "a/B" "a/A" [] 2 []]

/-- A private method has the threshold of a private method of the superclass, and asks for the thread that this one
asks for. -/
theorem not_avoids_private_privates :
    (ofList privates).methodClosure "a/B" ⟨"f", "()V", ⟨2⟩⟩ = ["a/A", "a/B"] ∧
    Benchmark.threshold { marker := "LTimed;" } (ofList privates) "a/B" ⟨"f", "()V", ⟨2⟩⟩ Benchmark.warnAtMillis (-1) =
      .ok 10 ∧
    ThreadCheck.methodRequirement { ui := some "Main" } (ofList privates) "a/B" ⟨"f", "()V", ⟨2⟩⟩ = .ok (some .ui) ∧
    ¬ ∀ member ∈ (ofList privates).methodClosure "a/B" ⟨"f", "()V", ⟨2⟩⟩, member ≠ "a/B" → ∀ method,
      (ofList privates).declared? member ⟨"f", "()V", ⟨2⟩⟩ = some method →
        method.signature.access.isPrivate = false := by
  refine ⟨by decide +kernel, ?_, ?_, ?_⟩
  · decide +kernel
  · decide +kernel
  · rw [(avoids_private_iff (ofList privates) "a/B" ⟨"f", "()V", ⟨2⟩⟩ { marker := "" } {}).1]
    decide +kernel

end Catalog

end ClassInstrument
