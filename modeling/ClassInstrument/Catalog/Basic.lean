import ClassInstrument.Catalog.Fact

/-!
# Catalogs of classes

A catalog holds facts about every class of a batch and answers questions that span the hierarchy:
does a method, or a method that it overrides, carry an annotation, and with which values?  The
first registration of a name counts.

The closure of a class is the class with everything above it.  A name that was never registered
belongs to the closure, but nothing above it is known.
-/

namespace ClassInstrument

/-- A question about something that the catalog does not know. -/
inductive CatalogFault where
  /-- No class has this name. -/
  | unknownClass (name : String)
  /-- The class has no such method. -/
  | unknownMethod (owner : String) (signature : Signature)
  /-- The class does not carry the annotation. -/
  | missingClassMark (owner marker : String)
  /-- The method does not carry the annotation. -/
  | missingMethodMark (signature : Signature) (marker : String)
  /-- The class is not an annotation interface. -/
  | notAnnotationType (descriptor : String)
deriving DecidableEq, Repr

/-- The text shown for a question that has no answer. -/
def CatalogFault.message : CatalogFault → String
  | .unknownClass name => s!"Class '{name}' is not known to the model"
  | .unknownMethod owner signature =>
    s!"Class '{owner}' does not contain method {signature.describe} with access " ++
      toString signature.access.bits.toNat
  | .missingClassMark owner marker =>
    s!"Class '{owner}' does not have annotation with descriptor '{marker}'"
  | .missingMethodMark signature marker =>
    s!"Method '{signature.describe}' (access {signature.access.bits.toNat})" ++
      s!" does not have annotation with descriptor '{marker}'"
  | .notAnnotationType descriptor => s!"Class {descriptor} is not an annotation"

/-- Facts about the classes of a batch. -/
structure Catalog where
  /-- What is known, in the order of registration. -/
  facts : List ClassFact

namespace Catalog

/-- A catalog without classes. -/
def empty : Catalog := ⟨[]⟩

/-- The number of registered classes. -/
def size (catalog : Catalog) : Nat := catalog.facts.length

/-- What is known about a class. -/
def class? (catalog : Catalog) (name : String) : Option ClassFact :=
  catalog.facts.find? fun fact => fact.name == name

/-- Is a class registered? -/
def knows (catalog : Catalog) (name : String) : Bool := (catalog.class? name).isSome

/-- Registers facts, unless there are some about a class of the same name. -/
def add (catalog : Catalog) (fact : ClassFact) : Catalog :=
  if catalog.knows fact.name then catalog else ⟨catalog.facts ++ [fact]⟩

/-- Registers a class, unless one of the same name is known. -/
def register (catalog : Catalog) (decl : ClassDecl) : Catalog := catalog.add (.ofClass decl)

/-- The catalog of a list of classes. -/
def ofList (decls : List ClassDecl) : Catalog := decls.foldl register empty

@[simp] theorem class?_empty (name : String) : empty.class? name = none := rfl

/-- A registered class is known from then on, and an earlier registration stays. -/
theorem class?_add (catalog : Catalog) (fact : ClassFact) (name : String) :
    (catalog.add fact).class? name =
      (catalog.class? name).or (if fact.name = name then some fact else none) := by
  unfold add
  split
  · next h =>
    simp only [knows] at h
    by_cases hn : fact.name = name
    · subst hn
      obtain ⟨known, hk⟩ := Option.isSome_iff_exists.mp h
      simp [hk]
    · simp [hn]
  · by_cases hn : fact.name = name <;> simp [class?, List.find?_append, hn]

/-! ## Facts that must be there -/

/-- What is known about a class that should be registered. -/
def demand (catalog : Catalog) (name : String) : Except CatalogFault ClassFact :=
  match catalog.class? name with
  | some fact => .ok fact
  | none => .error (.unknownClass name)

/-- What is known about a method that should be there. -/
def demandMethod (catalog : Catalog) (name : String) (signature : Signature) :
    Except CatalogFault MethodFact := do
  match (← catalog.demand name).method? signature with
  | some fact => return fact
  | none => throw (.unknownMethod name signature)

/-- What is known about an annotation interface, by descriptor. -/
def demandAnnotationType (catalog : Catalog) (descriptor : String) : Except CatalogFault ClassFact := do
  let fact ← catalog.demand ((Name.ofDescriptor? descriptor).getD descriptor)
  if fact.access.isAnnotationType then return fact else throw (.notAnnotationType descriptor)

/-- Is this the descriptor of a registered annotation interface? -/
def knowsAnnotationType (catalog : Catalog) (descriptor : String) : Bool :=
  match (Name.ofDescriptor? descriptor).bind catalog.class? with
  | some fact => fact.access.isAnnotationType
  | none => false

/-! ## Single classes and methods -/

/-- The descriptors of annotations in ascending order. -/
def descriptors (annotations : List Annotation) : List String :=
  sortedNames (annotations.map Annotation.descriptor)

/-- The superclass of a class. -/
def superName (catalog : Catalog) (name : String) : Except CatalogFault (Option String) := do
  return (← catalog.demand name).superName

/-- The interfaces of a class. -/
def interfaces (catalog : Catalog) (name : String) : Except CatalogFault (List String) := do
  return (← catalog.demand name).interfaces

/-- The descriptors of the annotations on a class. -/
def classAnnotations (catalog : Catalog) (name : String) : Except CatalogFault (List String) := do
  return descriptors (← catalog.demand name).annotations

/-- Does a class declare a method in an override slot? -/
def hasMethod (catalog : Catalog) (name : String) (signature : Signature) :
    Except CatalogFault Bool := do
  return ((← catalog.demand name).method? signature).isSome

/-- The descriptors of the annotations on a method. -/
def methodAnnotations (catalog : Catalog) (name : String) (signature : Signature) :
    Except CatalogFault (List String) := do
  return descriptors (← catalog.demandMethod name signature).annotations

/-- The value that an annotation of a class gives to a property. -/
def classProperty (catalog : Catalog) (name marker property : String) :
    Except CatalogFault (Option ElementValue) := do
  match (← catalog.demand name).annotation? marker with
  | some found => return found.value? property
  | none => throw (.missingClassMark name marker)

/-- The value that an annotation of a method gives to a property. -/
def methodProperty (catalog : Catalog) (name : String) (signature : Signature)
    (marker property : String) : Except CatalogFault (Option ElementValue) := do
  match (← catalog.demandMethod name signature).annotation? marker with
  | some found => return found.value? property
  | none => throw (.missingMethodMark signature marker)

/-- The properties of an annotation interface with the descriptors of their results. -/
def annotationProperties (catalog : Catalog) (descriptor : String) :
    Except CatalogFault (NameTable String) := do
  let fact ← catalog.demandAnnotationType descriptor
  return NameTable.ofList (fact.methods.map fun method =>
    (method.signature.name, method.resultDescriptor))

/-- The default of a property of an annotation interface. -/
def annotationDefault (catalog : Catalog) (descriptor property : String) :
    Except CatalogFault (Option ElementValue) := do
  let fact ← catalog.demandAnnotationType descriptor
  return (fact.methods.filter fun method => method.signature.name == property).findSome?
    MethodFact.default

/-! ## Closures -/

/-- The supertypes of a class, none if it is not registered. -/
def supertypes (catalog : Catalog) (name : String) : List String :=
  match catalog.class? name with
  | some fact => fact.shape.supertypes
  | none => []

/-- How many supertypes are mentioned by registered classes that have not been found. -/
def unexplored (catalog : Catalog) (found : List String) : Nat :=
  (catalog.facts.flatMap fun fact =>
    if found.contains fact.name then [] else fact.shape.supertypes).length

/-- What has been found is not explored again. -/
theorem unexplored_cons_le (catalog : Catalog) (name : String) (found : List String) :
    catalog.unexplored (name :: found) ≤ catalog.unexplored found := by
  obtain ⟨facts⟩ := catalog
  unfold unexplored
  induction facts with
  | nil => exact Nat.le_refl _
  | cons fact facts ih =>
    simp only [List.flatMap_cons, List.length_append, List.contains_cons] at ih ⊢
    cases fact.name == name <;> cases found.contains fact.name <;> simp at ih ⊢ <;> omega

/-- The supertypes of a class count until the class has been found. -/
theorem length_supertypes_add_unexplored_le (catalog : Catalog) {name : String} {found : List String}
    (hnew : ¬found.contains name) :
    (catalog.supertypes name).length + catalog.unexplored (name :: found) ≤ catalog.unexplored found := by
  obtain ⟨facts⟩ := catalog
  induction facts with
  | nil => exact Nat.le_refl _
  | cons fact facts ih =>
    have hrest := unexplored_cons_le ⟨facts⟩ name found
    simp only [supertypes, class?, unexplored, List.flatMap_cons, List.length_append, List.find?_cons,
      List.contains_cons] at ih hrest ⊢
    by_cases hname : fact.name = name
    · subst hname
      simp only [BEq.rfl, Bool.true_or, if_true, if_neg hnew, List.length_nil]
      omega
    · have hother : (fact.name == name) = false := beq_eq_false_iff_ne.mpr hname
      simp only [hother, Bool.false_or]
      cases found.contains fact.name <;> simp at ih ⊢ <;> omega

/-- Adds pending names and everything above them to those already found.  This comes to an end, since a class
makes its supertypes pending only once. -/
def spread (catalog : Catalog) (pending found : List String) : List String :=
  match pending with
  | [] => found
  | name :: pending =>
    if found.contains name then spread catalog pending found
    else spread catalog (pending ++ catalog.supertypes name) (name :: found)
termination_by catalog.unexplored found + pending.length
decreasing_by
  · simp only [List.length_cons]
    omega
  · have hvisit := catalog.length_supertypes_add_unexplored_le ‹_›
    simp only [List.length_cons, List.length_append]
    omega

/-- A class and everything above it, in ascending order. -/
def closure (catalog : Catalog) (name : String) : List String := sortedNames (catalog.spread [name] [])

/-- The method that a class declares in an override slot. -/
def declared? (catalog : Catalog) (name : String) (signature : Signature) : Option MethodFact :=
  (catalog.class? name).bind fun fact => fact.method? signature

/-- Does a class carry an annotation? -/
def isAnnotated (catalog : Catalog) (name marker : String) : Bool :=
  ((catalog.class? name).bind fun fact => fact.annotation? marker).isSome

/-- Does a class declare a method that carries an annotation? -/
def isMethodAnnotated (catalog : Catalog) (name : String) (signature : Signature)
    (marker : String) : Bool :=
  ((catalog.declared? name signature).bind fun method => method.annotation? marker).isSome

/-- The members of the closure that declare a method in an override slot. -/
def methodClosure (catalog : Catalog) (name : String) (signature : Signature) : List String :=
  (catalog.closure name).filter fun member => (catalog.declared? member signature).isSome

/-- The members of the closure that carry an annotation. -/
def annotatedClosure (catalog : Catalog) (name marker : String) : List String :=
  (catalog.closure name).filter fun member => catalog.isAnnotated member marker

/-- The members of the closure whose version of a method carries an annotation. -/
def annotatedMethodClosure (catalog : Catalog) (name : String) (signature : Signature)
    (marker : String) : List String :=
  (catalog.methodClosure name signature).filter fun member =>
    catalog.isMethodAnnotated member signature marker

/-- The names that have a value, with their values. -/
def withValues (names : List String)
    (value : String → Except CatalogFault (Option ElementValue)) :
    Except CatalogFault (NameTable ElementValue) := do
  let entries ← names.mapM fun name => do return (← value name).map (name, ·)
  return entries.filterMap id

/-- The members of the closure that carry an annotation and give a property a value. -/
def annotatedValues (catalog : Catalog) (name marker property : String) :
    Except CatalogFault (NameTable ElementValue) :=
  withValues (catalog.annotatedClosure name marker) fun member =>
    catalog.classProperty member marker property

/-- The members of the closure whose version of a method carries an annotation and gives a property
a value. -/
def annotatedMethodValues (catalog : Catalog) (name : String) (signature : Signature)
    (marker property : String) : Except CatalogFault (NameTable ElementValue) :=
  withValues (catalog.annotatedMethodClosure name signature marker) fun member =>
    catalog.methodProperty member signature marker property

end Catalog

end ClassInstrument
