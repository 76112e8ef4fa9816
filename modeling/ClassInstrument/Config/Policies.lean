import ClassInstrument.Config.Basic
import ClassInstrument.Config.Validation
import ClassInstrument.Policy.Basic

/-!
# From configurations to policies

The classes that a configuration names are looked up and checked, and each policy that has anything
to do is made, in the order in which policies are applied.  A policy that is turned off is still
made if its markers are named, since they are to come off.
-/

namespace ClassInstrument

namespace Validation

/-- The internal name of the class that callbacks are called on, if there is one, after checking
that it declares them. -/
def callbackOwner (classpath : Classpath) (enabled : Bool) (java : Option String)
    (callbacks : List Callback) : Except ConfigFault (Option String) := do
  match java, enabled with
  | some java, true =>
    let header ← loadPublic classpath java
    callbacks.forM fun callback => checkMethod header callback.name callback.descriptor
    return some header.name
  | _, _ => return none

/-- The descriptor of an annotation, if there is one, after checking it. -/
def annotationDescriptor (classpath : Classpath) (java : Option String) :
    Except ConfigFault (Option String) :=
  java.mapM fun java => do
    let _ ← loadMarker classpath java
    return Name.descriptorOfJava java

end Validation

/-- The policy that shields methods, if it has anything to do. -/
def CrashShieldConfig.policy? (config : CrashShieldConfig) (classpath : Classpath) :
    Except ConfigFault (Option CrashShield) := do
  let handler ← Validation.callbackOwner classpath config.enabled config.handler
    [CrashShield.handleThrowable, CrashShield.methodFinished, CrashShield.isObjectCrashing]
  if handler.isNone && config.enable.isNone && config.disable.isNone then return none
  else
    return some {
      handler
      enable := ← Validation.annotationDescriptor classpath config.enable
      disable := ← Validation.annotationDescriptor classpath config.disable
      constructors := config.constructors
      views := config.views
      safeClasses :=
        if config.safeClasses.isEmpty then CrashShield.standardSafeClasses
        else NameTable.ofList (config.safeClasses.map fun (unsafeName, safeName) =>
          (Name.ofJava unsafeName, Name.ofJava safeName))
      ignoredPackages := config.ignoredPackages }

/-- The policy that times methods, if it has anything to do. -/
def BenchmarkConfig.policy? (config : BenchmarkConfig) (classpath : Classpath) :
    Except ConfigFault (Option Benchmark) := do
  match config.marker with
  | none => return none
  | some marker =>
    let receiver ← Validation.callbackOwner classpath config.enabled config.receiver
      [Benchmark.executed, Benchmark.executedWithWarning, Benchmark.failed, Benchmark.thrown]
    let _ ← Validation.loadMarker classpath marker
    return some { marker := Name.descriptorOfJava marker, receiver }

/-- The policy that checks threads, if it has anything to do. -/
def ThreadCheckConfig.policy? (config : ThreadCheckConfig) (classpath : Classpath) :
    Except ConfigFault (Option ThreadCheck) := do
  let annotations := [config.ui, config.worker, config.any]
  if !config.enabled && annotations.all Option.isNone then return none
  else
    let handler ← Validation.callbackOwner classpath config.enabled config.handler
      [ThreadCheck.uiViolation, ThreadCheck.workerViolation]
    annotations.forM fun marker => do
      let _ ← Validation.annotationDescriptor classpath marker
    return some { handler, ui := config.ui, worker := config.worker, any := config.any }

/-- The policy that logs calls, if it has anything to do. -/
def CallLoggerConfig.policy? (config : CallLoggerConfig) (classpath : Classpath) :
    Except ConfigFault (Option CallLogger) := do
  match config.marker with
  | none => return none
  | some marker =>
    let logger ← Validation.callbackOwner classpath config.enabled config.logger
      [CallLogger.logCall]
    let header ← Validation.loadMarker classpath marker
    Validation.checkProperty header CallLogger.description
    return some { marker := Name.descriptorOfJava marker, logger }

/-! ## The classes that are looked up -/

/-- The class that callbacks are called on, if it is looked up. -/
def Validation.ownerNames (enabled : Bool) (java : Option String) : List String :=
  if enabled then java.toList else []

/-- The classes that are looked up to shield methods. -/
def CrashShieldConfig.lookups (config : CrashShieldConfig) : List String :=
  Validation.ownerNames config.enabled config.handler ++ config.enable.toList ++
    config.disable.toList

/-- The classes that are looked up to time methods. -/
def BenchmarkConfig.lookups (config : BenchmarkConfig) : List String :=
  if config.marker.isNone then []
  else Validation.ownerNames config.enabled config.receiver ++ config.marker.toList

/-- The classes that are looked up to check threads. -/
def ThreadCheckConfig.lookups (config : ThreadCheckConfig) : List String :=
  Validation.ownerNames config.enabled config.handler ++ config.ui.toList ++
    config.worker.toList ++ config.any.toList

/-- The classes that are looked up to log calls. -/
def CallLoggerConfig.lookups (config : CallLoggerConfig) : List String :=
  if config.marker.isNone then []
  else Validation.ownerNames config.enabled config.logger ++ config.marker.toList

/-- The internal names of the classes that are looked up if all checks succeed. -/
def Configuration.lookups (config : Configuration) : List String :=
  (config.crashShield.lookups ++ config.benchmark.lookups ++ config.threadCheck.lookups ++
    config.callLogger.lookups).map Name.ofJava

/-! ## All policies -/

/-- The policies that a configuration asks for, in the order in which they are applied. -/
def Configuration.policies (config : Configuration) (classpath : Classpath) :
    Except ConfigFault (List Policy) := do
  let shield ← config.crashShield.policy? classpath
  let timing ← config.benchmark.policy? classpath
  let check ← config.threadCheck.policy? classpath
  let logger ← config.callLogger.policy? classpath
  return (shield.map Policy.crashShield).toList ++ (timing.map Policy.benchmark).toList ++
    (check.map Policy.threadCheck).toList ++ (logger.map Policy.callLogger).toList

end ClassInstrument
