import ClassInstrument.Config.Settings
import ClassInstrument.Storage.Archive.Basic

/-!
# Configurations

The settings of every policy.  A policy that is turned on needs all of its settings; one that is
turned off keeps only those by which its markers are recognized.  All classes are given by their
java names.
-/

namespace ClassInstrument

/-- How methods are to be shielded. -/
structure CrashShieldConfig where
  /-- Is shielding turned on? -/
  enabled : Bool := false
  /-- The annotation that asks for shielding. -/
  enable : Option String := none
  /-- The annotation that forbids shielding. -/
  disable : Option String := none
  /-- The handler. -/
  handler : Option String := none
  /-- Are all constructors shielded? -/
  constructors : Bool := false
  /-- Are views treated in their own way? -/
  views : Bool := false
  /-- The classes with safe replacements; none stands for the usual ones. -/
  safeClasses : List (String × String) := []
  /-- The packages whose classes are left alone. -/
  ignoredPackages : List String := []
deriving DecidableEq, Repr

/-- How methods are to be timed. -/
structure BenchmarkConfig where
  /-- Is timing turned on? -/
  enabled : Bool := false
  /-- The annotation with the thresholds. -/
  marker : Option String := none
  /-- The receiver of the times. -/
  receiver : Option String := none
deriving DecidableEq, Repr

/-- How threads are to be checked. -/
structure ThreadCheckConfig where
  /-- Is the checking of threads turned on? -/
  enabled : Bool := false
  /-- The annotation for the main thread. -/
  ui : Option String := none
  /-- The annotation for worker threads. -/
  worker : Option String := none
  /-- The annotation for any thread. -/
  any : Option String := none
  /-- The handler. -/
  handler : Option String := none
deriving DecidableEq, Repr

/-- How calls are to be logged. -/
structure CallLoggerConfig where
  /-- Is the logging of calls turned on? -/
  enabled : Bool := false
  /-- The annotation on logged methods. -/
  marker : Option String := none
  /-- The logger. -/
  logger : Option String := none
deriving DecidableEq, Repr

/-- The settings of every policy. -/
structure Configuration where
  /-- How methods are to be shielded. -/
  crashShield : CrashShieldConfig := {}
  /-- How methods are to be timed. -/
  benchmark : BenchmarkConfig := {}
  /-- How threads are to be checked. -/
  threadCheck : ThreadCheckConfig := {}
  /-- How calls are to be logged. -/
  callLogger : CallLoggerConfig := {}
deriving DecidableEq, Repr

namespace Settings

/-- Is a policy turned on? -/
def isEnabled (settings : Settings) (path name : String) : Except ConfigFault Bool :=
  (settings.setting name).isEnabled path

/-- The value of a setting that is needed. -/
def demand (settings : Settings) (path name : String) : Except ConfigFault String :=
  (settings.setting name).demand path

/-- The value of a setting that may be left out. -/
def value? (settings : Settings) (name : String) : Option String := (settings.setting name).value

/-- How methods are to be shielded. -/
def crashShield (settings : Settings) (path : String) : Except ConfigFault CrashShieldConfig := do
  if ← settings.isEnabled path Directive.shieldEnabled then
    return {
      enabled := true
      enable := some (← settings.demand path Directive.shieldEnable)
      disable := some (← settings.demand path Directive.shieldDisable)
      handler := some (← settings.demand path Directive.shieldHandler)
      constructors := ← (settings.setting Directive.shieldConstructors).demandBool path
      views := ← (settings.setting Directive.shieldViews).demandBool path
      safeClasses := settings.safeClasses
      ignoredPackages := settings.ignoredPackages }
  else
    return {
      enable := settings.value? Directive.shieldEnable
      disable := settings.value? Directive.shieldDisable
      ignoredPackages := settings.ignoredPackages }

/-- How methods are to be timed. -/
def benchmark (settings : Settings) (path : String) : Except ConfigFault BenchmarkConfig := do
  if ← settings.isEnabled path Directive.benchmarkEnabled then
    return {
      enabled := true
      marker := some (← settings.demand path Directive.benchmarkMarker)
      receiver := some (← settings.demand path Directive.benchmarkReceiver) }
  else return { marker := settings.value? Directive.benchmarkMarker }

/-- How threads are to be checked. -/
def threadCheck (settings : Settings) (path : String) : Except ConfigFault ThreadCheckConfig := do
  if ← settings.isEnabled path Directive.threadsEnabled then
    return {
      enabled := true
      ui := some (← settings.demand path Directive.threadsUi)
      worker := some (← settings.demand path Directive.threadsWorker)
      any := some (← settings.demand path Directive.threadsAny)
      handler := some (← settings.demand path Directive.threadsHandler) }
  else
    return {
      ui := settings.value? Directive.threadsUi
      worker := settings.value? Directive.threadsWorker
      any := settings.value? Directive.threadsAny
      handler := settings.value? Directive.threadsHandler }

/-- How calls are to be logged. -/
def callLogger (settings : Settings) (path : String) : Except ConfigFault CallLoggerConfig := do
  if ← settings.isEnabled path Directive.loggingEnabled then
    return {
      enabled := true
      marker := some (← settings.demand path Directive.loggingMarker)
      logger := some (← settings.demand path Directive.loggingLogger) }
  else return { marker := settings.value? Directive.loggingMarker }

end Settings

namespace Configuration

/-- Reads a configuration; `path` is what messages call it. -/
def parse (path text : String) : Except ConfigFault Configuration := do
  let settings ← Settings.parse path text
  return {
    crashShield := ← settings.crashShield path
    benchmark := ← settings.benchmark path
    threadCheck := ← settings.threadCheck path
    callLogger := ← settings.callLogger path }

/-- The text in the file that a route leads to. -/
def readText (tree : FileTree) (route : Route) : Except ConfigFault String :=
  match tree.read route with
  | .error cause => .error (.unreadable cause)
  | .ok content =>
    match String.fromUTF8? ⟨content.toBytes.toArray⟩ with
    | some text => .ok text
    | none => .error (.unreadable .notText)

/-- Reads the configuration in the file that a route leads to. -/
def parseFile (tree : FileTree) (route : Route) : Except ConfigFault Configuration := do
  parse (tree.describe route) (← readText tree route)

end Configuration

end ClassInstrument
