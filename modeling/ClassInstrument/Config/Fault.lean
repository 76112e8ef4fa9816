import ClassInstrument.Fault
import ClassInstrument.Storage.Tree

/-!
# What can go wrong with a configuration

Either a line cannot be understood, or a setting is missing or given twice, or a class that is named
does not have the shape that it needs.  The wording is in `ConfigFault.message`.
-/

namespace ClassInstrument

/-- A place in a configuration. -/
structure Position where
  /-- The text of the path of the file. -/
  path : String
  /-- The number of the line, from one on. -/
  line : Nat := 0
deriving DecidableEq, Repr

/-- What can go wrong with a configuration. -/
inductive ConfigFault where
  /-- The file cannot be read. -/
  | unreadable (cause : FileFault)
  /-- A class on the classpath cannot be read. -/
  | unusable (cause : Fault)
  /-- No setting has this name. -/
  | unknownDirective (place : Position) (directive : String)
  /-- A directive needs exactly one value. -/
  | notSingleValue (place : Position) (directive : String)
  /-- A directive needs another number of values. -/
  | wrongValueCount (place : Position) (directive : String) (expected : Nat)
  /-- A setting is given for the second time. -/
  | alreadyDefined (place : Position) (directive previous : String)
  /-- A setting that is needed is not given. -/
  | notDefined (path directive : String)
  /-- A value is neither `true` nor `false`. -/
  | notBoolean (value : String)
  /-- A class is not on the classpath. -/
  | classNotFound (name : String)
  /-- A class is not public. -/
  | classNotPublic (name : String)
  /-- A class does not declare a method. -/
  | methodNotFound (owner name : String) (parameters : List String)
  /-- A method is not public and static. -/
  | methodNotPublicStatic (owner name : String)
  /-- A class is not an annotation interface. -/
  | notAnnotationType (name : String)
  /-- An annotation is not kept in class files. -/
  | badRetention (name : String)
  /-- An annotation interface does not declare a property. -/
  | missingAnnotationProperty (marker property : String)
deriving DecidableEq, Repr

namespace ConfigFault

/-- A place as it is shown in messages. -/
def describePlace (place : Position) : String := s!"{place.path}:{place.line}"

/-- The text shown for a configuration that cannot be used. -/
def message : ConfigFault → String
  | unreadable cause => cause.message
  | unusable cause => cause.message
  | unknownDirective place directive =>
    s!"{describePlace place}: Unknown directive: '{directive}'"
  | notSingleValue place directive =>
    s!"{describePlace place}: directive '{directive}' should have a single value"
  | wrongValueCount place directive expected =>
    s!"{describePlace place}: directive '{directive}' should have {expected} values"
  | alreadyDefined place directive previous =>
    s!"{describePlace place}: Setting '{directive}' already defined (previous value '{previous}')"
  | notDefined path directive => s!"{path}: Setting '{directive}' not defined"
  | notBoolean value => s!"'{value}' is not 'true' or 'false'"
  | classNotFound name => s!"Failed to load class '{name}'"
  | classNotPublic name => s!"Class '{name}' is not public"
  | methodNotFound owner name parameters =>
    let parameters := ", ".intercalate parameters
    s!"Method '{name}' with parameters ({parameters}) not found in class '{owner}'"
  | methodNotPublicStatic owner name => s!"Method '{name}' of class '{owner}' is not public static"
  | notAnnotationType name => s!"'{name}' is not a subclass of 'java.lang.annotation.Annotation'"
  | badRetention name =>
    s!"Annotation '{name}' must have @Retention with RetentionPolicy.CLASS" ++
      " or RetentionPolicy.RUNTIME"
  | missingAnnotationProperty marker property =>
    s!"Annotation '{marker}' must declare a method {property}"

end ConfigFault

end ClassInstrument
