import ClassInstrument.Config.Directive
import ClassInstrument.NameTable

/-!
# Reading settings

A configuration is a text whose lines are directives; empty lines and lines that start with `#` say
nothing.  Most directives give a setting its only value.  The lists of safe classes and of ignored
packages grow by one entry with each of their directives.
-/

namespace ClassInstrument

namespace Directive

/-- Turns shielding on. -/
def shieldEnabled : String := "exception-handling-enabled"

/-- Names the annotation that asks for shielding. -/
def shieldEnable : String := "auto-handle-exceptions"

/-- Names the annotation that forbids shielding. -/
def shieldDisable : String := "no-auto-handle-exceptions"

/-- Names the handler of shielded methods. -/
def shieldHandler : String := "auto-exception-handler"

/-- Tells whether all constructors are shielded. -/
def shieldConstructors : String := "should-process-constructor"

/-- Tells whether views are treated in their own way. -/
def shieldViews : String := "should-process-views"

/-- Names a class and its safe replacement. -/
def safeClass : String := "crash-shield-safe-class"

/-- Names a package whose classes are not shielded. -/
def shieldIgnoredPackage : String := "crash-shield-ignored-package"

/-- Turns timing on. -/
def benchmarkEnabled : String := "benchmark-enabled"

/-- Names the annotation with the thresholds. -/
def benchmarkMarker : String := "benchmark-annotation-class"

/-- Names the class that is told about times. -/
def benchmarkReceiver : String := "benchmark-receiver-class"

/-- Turns the checking of threads on. -/
def threadsEnabled : String := "thread-check-enabled"

/-- Names the annotation for the main thread. -/
def threadsUi : String := "thread-check-ui-annotation-class"

/-- Names the annotation for worker threads. -/
def threadsWorker : String := "thread-check-worker-annotation-class"

/-- Names the annotation for any thread. -/
def threadsAny : String := "thread-check-any-annotation-class"

/-- Names the class that is told about calls from the wrong thread. -/
def threadsHandler : String := "thread-check-violation-handler-class"

/-- Turns the logging of calls on. -/
def loggingEnabled : String := "call-logging-enabled"

/-- Names the annotation on logged methods. -/
def loggingMarker : String := "log-call"

/-- Names the class that is told about calls. -/
def loggingLogger : String := "call-logger"

/-- The directives that give a setting its only value. -/
def unique : List String :=
  [shieldEnabled, shieldEnable, shieldDisable, shieldHandler, shieldConstructors, shieldViews,
    benchmarkEnabled, benchmarkMarker, benchmarkReceiver, threadsEnabled, threadsUi,
    threadsWorker, threadsAny, threadsHandler, loggingEnabled, loggingMarker, loggingLogger]

end Directive

/-- What the lines of a configuration say. -/
structure Settings where
  /-- The values of the settings that take one. -/
  given : NameTable String := []
  /-- The classes with safe replacements, as java names. -/
  safeClasses : List (String × String) := []
  /-- The packages whose classes are not shielded. -/
  ignoredPackages : List String := []
deriving Repr

namespace Settings

/-- The setting of a directive. -/
def setting (settings : Settings) (name : String) : UniqueSetting :=
  { name, value := settings.given.find? name }

/-- Gives the setting of a directive its value. -/
def give (settings : Settings) (place : Position) (name value : String) :
    Except ConfigFault Settings := do
  let _ ← (settings.setting name).give place value
  return { settings with given := settings.given.insert name value }

/-- Takes in a directive. -/
def note (settings : Settings) (place : Position) (directive : Directive) :
    Except ConfigFault Settings := do
  if Directive.unique.contains directive.name then
    settings.give place directive.name (← directive.single place)
  else if directive.name = Directive.safeClass then
    match ← directive.values place 2 with
    | [unsafeName, safeName] =>
      return { settings with safeClasses := settings.safeClasses ++ [(unsafeName, safeName)] }
    | _ => return settings
  else if directive.name = Directive.shieldIgnoredPackage then
    let package ← directive.single place
    return { settings with ignoredPackages := settings.ignoredPackages ++ [package] }
  else throw (.unknownDirective place directive.name)

/-- Does a trimmed line say nothing? -/
def isSilent : List Char → Bool
  | [] => true
  | c :: _ => c == '#'

/-- Takes in a line. -/
def noteLine (path : String) (settings : Settings) (line : List Char × Nat) :
    Except ConfigFault Settings :=
  let trimmed := Text.trim line.1
  if isSilent trimmed then .ok settings
  else settings.note { path, line := line.2 + 1 } (Directive.ofChars trimmed)

/-- What a text says. -/
def parse (path text : String) : Except ConfigFault Settings :=
  (Text.lines text.toList).zipIdx.foldlM (noteLine path) {}

end Settings

end ClassInstrument
