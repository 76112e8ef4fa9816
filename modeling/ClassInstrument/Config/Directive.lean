import ClassInstrument.Config.Fault
import ClassInstrument.Text.Blank

/-!
# Directives and settings

A line of a configuration is a directive: a name, and behind the first run of blanks its contents.
A setting takes one value and may be given once; some settings are truth values.
-/

namespace ClassInstrument

/-- A line of a configuration. -/
structure Directive where
  /-- The name. -/
  name : String
  /-- The rest of the line. -/
  contents : String
deriving DecidableEq, Repr

namespace Directive

/-- The directive on a line. -/
def ofChars (line : List Char) : Directive :=
  let trimmed := Text.trim line
  { name := String.ofList (trimmed.takeWhile fun c => !isBlank c)
    contents := String.ofList (Text.dropBlanks (trimmed.dropWhile fun c => !isBlank c)) }

/-- The directive on a line. -/
def ofLine (line : String) : Directive := ofChars line.toList

/-- The contents as one value without blanks. -/
def single (directive : Directive) (place : Position) : Except ConfigFault String :=
  if directive.contents = "" ∨ directive.contents.toList.any isBlank then
    .error (.notSingleValue place directive.name)
  else .ok directive.contents

/-- The contents as a number of values between blanks. -/
def values (directive : Directive) (place : Position) (expected : Nat) :
    Except ConfigFault (List String) :=
  let found := (Text.words directive.contents.toList).map String.ofList
  if found.length = expected then .ok found
  else .error (.wrongValueCount place directive.name expected)

end Directive

/-- A setting that may be given once. -/
structure UniqueSetting where
  /-- The name of its directive. -/
  name : String
  /-- The value, if it has been given. -/
  value : Option String := none
deriving DecidableEq, Repr

namespace UniqueSetting

/-- Gives a setting its value. -/
def give (setting : UniqueSetting) (place : Position) (value : String) :
    Except ConfigFault UniqueSetting :=
  match setting.value with
  | some previous => .error (.alreadyDefined place setting.name previous)
  | none => .ok { setting with value := some value }

/-- The value of a setting that is needed. -/
def demand (setting : UniqueSetting) (path : String) : Except ConfigFault String :=
  match setting.value with
  | some value => .ok value
  | none => .error (.notDefined path setting.name)

/-- The truth value of a setting that is needed. -/
def demandBool (setting : UniqueSetting) (path : String) : Except ConfigFault Bool := do
  match ← setting.demand path with
  | "true" => return true
  | "false" => return false
  | other => throw (.notBoolean other)

/-- The truth value of a setting that is false unless given. -/
def isEnabled (setting : UniqueSetting) (path : String) : Except ConfigFault Bool :=
  match setting.value with
  | some _ => setting.demandBool path
  | none => .ok false

end UniqueSetting

end ClassInstrument
