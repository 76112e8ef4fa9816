import ClassInstrument.Catalog.Basic

/-!
# Why a policy cannot be applied to a class

The wording of each failure is in `PolicyFault.message`.
-/

namespace ClassInstrument

/-- The classes on which an annotation was found. -/
structure AnnotatedClasses where
  /-- The internal names of the classes. -/
  classes : List String
  /-- The java name of the annotation. -/
  marker : String
deriving DecidableEq, Repr

/-- Why a policy cannot be applied to a class. -/
inductive PolicyFault where
  /-- The class is malformed. -/
  | unusable (cause : Fault)
  /-- The catalog does not know what it is asked about. -/
  | unanswered (cause : CatalogFault)
  /-- The annotation interface is not in the catalog. -/
  | unknownMarker (marker : String)
  /-- The annotation interface does not declare a property. -/
  | missingProperty (marker property : String)
  /-- A property is not of type `int`. -/
  | propertyNotInt (marker property found : String)
  /-- The classes above a method give different values. -/
  | conflictingValues (owner : String) (signature : Signature) (property marker : String)
      (values : NameTable Int32)
  /-- The delegating call of a constructor cannot be singled out. -/
  | unsupportedConstructor (owner name descriptor : String)
  /-- More than one thread requirement applies to a class, or to a method. -/
  | conflictingThreads (method : Option Signature) (ui worker any : AnnotatedClasses)
deriving DecidableEq, Repr

namespace AnnotatedClasses

/-- Annotated classes as they are shown in messages, with what they are annotated as. -/
def describe (found : AnnotatedClasses) (role : String) : String :=
  let classes := ",".intercalate found.classes
  s!"[{classes}] have {role} annotation ({found.marker})"

end AnnotatedClasses

namespace PolicyFault

/-- A method as it is shown in messages. -/
def describeMethod (signature : Signature) : String :=
  s!"{signature.describe} (access {signature.access.bits.toNat})"

/-- The text shown for a policy that cannot be applied. -/
def message : PolicyFault → String
  | unusable cause => cause.message
  | unanswered cause => cause.message
  | unknownMarker marker => s!"Annotation not known: {marker}"
  | missingProperty marker property =>
    s!"Annotation {marker} does not contain property {property}"
  | propertyNotInt marker property found =>
    s!"Annotation {marker} property {property} has type {found} instead of int"
  | conflictingValues owner signature property marker values =>
    let shown := ",".intercalate (values.map fun (name, value) => s!"{name}={value.toInt}")
    s!"Class {owner}, method {describeMethod signature} has multiple different inherited values" ++
      s!" for property {property} of annotation {marker} from [{shown}]"
  | unsupportedConstructor owner name descriptor =>
    s!"Don't know what to do to transform method {name}{descriptor} of class {owner}" ++
      " for benchmarking"
  | conflictingThreads method ui worker any =>
    let place :=
      match method with
      | some signature => s!" when analyzing method {describeMethod signature}"
      | none => ""
    let (ui, worker, any) := (ui.describe "UI", worker.describe "worker", any.describe "any")
    s!"Inconsistent annotations in class hierarchy{place}: {ui}, {worker} and {any}"

end PolicyFault

/-- Faults of a class are faults of the policy that is applied to it. -/
instance : MonadLift (Except Fault) (Except PolicyFault) where
  monadLift result := result.mapError .unusable

/-- Open questions are faults of the policy that asks them. -/
instance : MonadLift (Except CatalogFault) (Except PolicyFault) where
  monadLift result := result.mapError .unanswered

end ClassInstrument
