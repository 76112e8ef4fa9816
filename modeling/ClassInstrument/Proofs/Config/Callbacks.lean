import ClassInstrument.Config.Policies
import ClassInstrument.Proofs.Policy.Keeping

/-!
# The callbacks of checked configurations

Before a class is instrumented, the classes that a configuration names are looked up, and the callbacks
that policies report to are looked for among their methods.  A callback is looked for by its name and its
parameters.  The type of the result is no part of the lookup, and the first method that is found counts.
So that is what is known about the calls that policies add.
-/

namespace ClassInstrument

open Outcome

namespace Validation

/-- Does a method have the name and the parameters of a callback? -/
def answers (callback : Callback) (method : Signature) : Bool :=
  method.name == callback.name && parameterText method.descriptor == parameterText callback.descriptor

/-- The first method of a class with the name and the parameters of a callback is public and static. -/
def Declares (header : ClassHeader) (callback : Callback) : Prop :=
  ∃ declared, header.methods.find? (answers callback) = some declared ∧ declared.access.isPublicStatic

variable {classpath : Classpath}

/-- A callback that passes the check is declared. -/
theorem declares_of_checkMethod {header : ClassHeader} {callback : Callback}
    (h : checkMethod header callback.name callback.descriptor = .ok ()) : Declares header callback := by
  unfold checkMethod at h
  dsimp only at h
  split at h
  · cases h
  · next declared hfound =>
    split at h
    · next hpublic => exact ⟨declared, hfound, hpublic⟩
    · cases h

/-- A class that was looked up as public was loaded and is public. -/
theorem loadPublic_eq_ok {java : String} {header : ClassHeader}
    (h : loadPublic classpath java = .ok header) :
    load classpath java = .ok header ∧ header.access.isPublic := by
  obtain ⟨found, hfound, h⟩ := bind_eq_ok.mp h
  split at h
  · next hpublic =>
    obtain rfl := pure_eq_ok.mp h
    exact ⟨hfound, hpublic⟩
  · cases h

/-- A class that reports go to: it is the one that the configuration names, it is public, and it declares
all callbacks. -/
structure Receives (classpath : Classpath) (callbacks : List Callback) (java : Option String)
    (receiver : String) (header : ClassHeader) : Prop where
  loaded : ∃ name ∈ java, load classpath name = .ok header
  isPublic : header.access.isPublic
  name_eq : header.name = receiver
  declares : ∀ callback ∈ callbacks, Declares header callback

/-- What is known about a class that reports go to. -/
theorem receives_of_callbackOwner {enabled : Bool} {java : Option String} {callbacks : List Callback}
    {receiver : String} (h : callbackOwner classpath enabled java callbacks = .ok (some receiver)) :
    ∃ header, Receives classpath callbacks java receiver header := by
  unfold callbackOwner at h
  split at h
  · next name =>
    obtain ⟨header, hheader, h⟩ := bind_eq_ok.mp h
    obtain ⟨_, hchecks, h⟩ := bind_eq_ok.mp h
    obtain rfl := Option.some.inj (pure_eq_ok.mp h)
    obtain ⟨hloaded, hpublic⟩ := loadPublic_eq_ok hheader
    refine ⟨header, ⟨name, rfl, hloaded⟩, hpublic, rfl, fun callback hmem => ?_⟩
    exact declares_of_checkMethod (forM_eq_ok.mp hchecks callback hmem)
  · cases h

end Validation

/-- The class that a configuration names for the reports of a policy. -/
def Configuration.receiver? (config : Configuration) : Policy → Option String
  | .crashShield _ => config.crashShield.handler
  | .benchmark _ => config.benchmark.receiver
  | .threadCheck _ => config.threadCheck.handler
  | .callLogger _ => config.callLogger.logger

section

variable {classpath : Classpath}

theorem CrashShieldConfig.receives {config : CrashShieldConfig} {shield : CrashShield} {receiver : String}
    (h : config.policy? classpath = .ok (some shield)) (hreceiver : shield.handler = some receiver) :
    ∃ header, Validation.Receives classpath CrashShield.reports config.handler receiver header := by
  obtain ⟨handler, hhandler, h⟩ := bind_eq_ok.mp h
  split at h
  · cases h
  · obtain ⟨enable, -, h⟩ := bind_eq_ok.mp h
    obtain ⟨disable, -, h⟩ := bind_eq_ok.mp h
    obtain rfl := Option.some.inj (pure_eq_ok.mp h)
    obtain rfl : handler = some receiver := hreceiver
    exact Validation.receives_of_callbackOwner hhandler

theorem BenchmarkConfig.receives {config : BenchmarkConfig} {timing : Benchmark} {receiver : String}
    (h : config.policy? classpath = .ok (some timing)) (hreceiver : timing.receiver = some receiver) :
    ∃ header, Validation.Receives classpath Benchmark.reports config.receiver receiver header := by
  unfold policy? at h
  split at h
  · cases h
  · obtain ⟨found, hfound, h⟩ := bind_eq_ok.mp h
    obtain ⟨_, -, h⟩ := bind_eq_ok.mp h
    obtain rfl := Option.some.inj (pure_eq_ok.mp h)
    obtain rfl : found = some receiver := hreceiver
    exact Validation.receives_of_callbackOwner hfound

theorem ThreadCheckConfig.receives {config : ThreadCheckConfig} {check : ThreadCheck} {receiver : String}
    (h : config.policy? classpath = .ok (some check)) (hreceiver : check.handler = some receiver) :
    ∃ header, Validation.Receives classpath ThreadCheck.reports config.handler receiver header := by
  unfold policy? at h
  dsimp only at h
  split at h
  · cases h
  · obtain ⟨found, hfound, h⟩ := bind_eq_ok.mp h
    obtain ⟨_, -, h⟩ := bind_eq_ok.mp h
    obtain rfl := Option.some.inj (pure_eq_ok.mp h)
    obtain rfl : found = some receiver := hreceiver
    exact Validation.receives_of_callbackOwner hfound

theorem CallLoggerConfig.receives {config : CallLoggerConfig} {logging : CallLogger} {receiver : String}
    (h : config.policy? classpath = .ok (some logging)) (hreceiver : logging.logger = some receiver) :
    ∃ header, Validation.Receives classpath [CallLogger.logCall] config.logger receiver header := by
  unfold policy? at h
  split at h
  · cases h
  · obtain ⟨found, hfound, h⟩ := bind_eq_ok.mp h
    obtain ⟨header, -, h⟩ := bind_eq_ok.mp h
    obtain ⟨_, -, h⟩ := bind_eq_ok.mp h
    obtain rfl := Option.some.inj (pure_eq_ok.mp h)
    obtain rfl : found = some receiver := hreceiver
    exact Validation.receives_of_callbackOwner hfound

end

namespace Configuration

variable {classpath : Classpath} {config : Configuration} {policies : List Policy}

/-- Every class that the policies of a configuration report to was checked for their reports. -/
theorem receives_of_policies (h : config.policies classpath = .ok policies) {policy : Policy}
    (hmem : policy ∈ policies) {receiver : String} (hreceiver : policy.receiver? = some receiver) :
    ∃ header,
      Validation.Receives classpath policy.reports (config.receiver? policy) receiver header := by
  obtain ⟨shield, hshield, h⟩ := bind_eq_ok.mp h
  obtain ⟨timing, htiming, h⟩ := bind_eq_ok.mp h
  obtain ⟨check, hcheck, h⟩ := bind_eq_ok.mp h
  obtain ⟨logging, hlogging, h⟩ := bind_eq_ok.mp h
  obtain rfl := pure_eq_ok.mp h
  simp only [List.mem_append, Option.mem_toList, Option.map_eq_some_iff] at hmem
  rcases hmem with ((⟨made, rfl, rfl⟩ | ⟨made, rfl, rfl⟩) | ⟨made, rfl, rfl⟩) | ⟨made, rfl, rfl⟩
  · exact CrashShieldConfig.receives hshield hreceiver
  · exact BenchmarkConfig.receives htiming hreceiver
  · exact ThreadCheckConfig.receives hcheck hreceiver
  · exact CallLoggerConfig.receives hlogging hreceiver

/-- A static call in a class that the policies of a configuration have treated was in the class before, or
is one that policies make anyway, or is a report.  A report goes to the class that the configuration names;
this class is public, and its first method with the name and the parameters of the report is public and
static. -/
theorem calls_of_policies {catalog : Catalog} {decl after : ClassDecl} {method : Method} {callee : Member}
    (hpolicies : config.policies classpath = .ok policies)
    (happly : Policy.applyAll policies catalog decl = .ok after) (hmethod : method ∈ after.methods)
    (hcall : method.Calls after.pool callee) :
    (∃ other ∈ decl.methods, other.Calls decl.pool callee) ∨ Policy.IsFixedCall decl.name callee ∨
      ∃ policy ∈ policies, ∃ callback ∈ policy.reports, ∃ header, callee = callback.member header.name ∧
        Validation.Receives classpath policy.reports (config.receiver? policy) header.name header := by
  have hkeeps := Policy.keeps_of_applyAll happly
  rw [hkeeps.pool_eq] at hcall
  rcases hkeeps.calls hmethod hcall with hbefore | hfixed | hreport
  · exact .inl hbefore
  · exact .inr (.inl hfixed)
  · obtain ⟨policy, hmem, receiver, hreceiver, callback, hcallback, rfl⟩ := hreport
    obtain ⟨header, hheader⟩ := receives_of_policies hpolicies hmem hreceiver
    obtain rfl := hheader.name_eq
    exact .inr (.inr ⟨policy, hmem, callback, hcallback, header, rfl, hheader⟩)

end Configuration

/-! ## A report whose result is ignored by the check -/

namespace CallLogger

/-- A directory with a class whose only method has the name and the parameters of the report of calls, but
gives a number, and with an annotation. -/
def loggers : Classpath where
  tree :=
    { location := ""
      nodes := [
        (["d"], .directory),
        (["d", "G.class"], .file (.bytes [
        202, 254, 186, 190, 0, 0, 0, 52, 0, 5, 1, 0, 3, 100, 47, 71, 7, 0, 1, 1, 0, 7, 108, 111,
        103, 67, 97, 108, 108, 1, 0, 57, 40, 76, 106, 97, 118, 97, 47, 108, 97, 110, 103, 47, 83,
        116, 114, 105, 110, 103, 59, 76, 106, 97, 118, 97, 47, 108, 97, 110, 103, 47, 83, 116,
        114, 105, 110, 103, 59, 76, 106, 97, 118, 97, 47, 108, 97, 110, 103, 47, 83, 116, 114,
        105, 110, 103, 59, 41, 73, 0, 33, 0, 2, 0, 0, 0, 0, 0, 0, 0, 1, 1, 9, 0, 3, 0, 4, 0, 0,
        0, 0])),
        (["d", "L.class"], .file (.bytes [
        202, 254, 186, 190, 0, 0, 0, 52, 0, 10, 1, 0, 3, 100, 47, 76, 7, 0, 1, 1, 0, 11, 100,
        101, 115, 99, 114, 105, 112, 116, 105, 111, 110, 1, 0, 20, 40, 41, 76, 106, 97, 118, 97,
        47, 108, 97, 110, 103, 47, 83, 116, 114, 105, 110, 103, 59, 1, 0, 32, 76, 106, 97, 118,
        97, 47, 108, 97, 110, 103, 47, 97, 110, 110, 111, 116, 97, 116, 105, 111, 110, 47, 82,
        101, 116, 101, 110, 116, 105, 111, 110, 59, 1, 0, 5, 118, 97, 108, 117, 101, 1, 0, 1, 65,
        1, 0, 5, 67, 76, 65, 83, 83, 1, 0, 25, 82, 117, 110, 116, 105, 109, 101, 86, 105, 115,
        105, 98, 108, 101, 65, 110, 110, 111, 116, 97, 116, 105, 111, 110, 115, 38, 1, 0, 2, 0,
        0, 0, 0, 0, 0, 0, 1, 4, 1, 0, 3, 0, 4, 0, 0, 0, 1, 0, 9, 0, 0, 0, 13, 0, 1, 0, 5, 0, 1,
        0, 6, 101, 0, 7, 0, 8]))] }
  elements := [⟨false, ["."]⟩]

/-- Calls of methods that carry the annotation are reported to the class. -/
def loggingConfig : Configuration where
  callLogger := { enabled := true, marker := some "d.L", logger := some "d.G" }

/-- A class with a method that carries the annotation. -/
def loggedClass : ClassDecl where
  version := ⟨52, 0⟩
  access := ⟨33⟩
  name := "a/A"
  superName := some Name.object
  methods :=
    [{ access := ⟨9⟩, name := "f", descriptor := "()V", invisible := [⟨"Ld/L;", []⟩]
       body := .edited { instructions := [.plain Opcode.returnVoid] } }]

/-- The configuration passes all checks, and the method reports its calls. -/
theorem exists_logged : ∃ policies after, loggingConfig.policies loggers = .ok policies ∧
    Policy.applyAll policies .empty loggedClass = .ok after ∧
    ∃ method ∈ after.methods, method.Calls after.pool (logCall.member "d/G") := by
  let shown : Policy → Option (String × Option String × List String) := fun policy =>
    match policy with
    | .callLogger logging => some (logging.marker, logging.logger, logging.ignoredPackages)
    | _ => none
  have hshown : (loggingConfig.policies loggers).toOption.map (List.map shown) =
      some [some ("Ld/L;", some "d/G", [])] := by
    decide +kernel
  cases hpolicies : loggingConfig.policies loggers with
  | error fault => simp [hpolicies, Except.toOption] at hshown
  | ok policies =>
    rw [hpolicies] at hshown
    have hmap : policies.map shown = [some ("Ld/L;", some "d/G", [])] := Option.some.inj hshown
    obtain ⟨policy, rest, rfl, hpolicy, hrest⟩ := List.map_eq_cons_iff.mp hmap
    obtain rfl := List.map_eq_nil_iff.mp hrest
    cases policy with
    | callLogger logging =>
      obtain ⟨marker, logger, ignored⟩ := logging
      obtain ⟨rfl, rfl, rfl⟩ : marker = "Ld/L;" ∧ logger = some "d/G" ∧ ignored = [] := by
        simpa [shown] using hpolicy
      obtain ⟨after, hafter, hcalls⟩ : ∃ after,
          apply { marker := "Ld/L;", logger := some "d/G" } loggedClass = .ok after ∧
            ∃ method ∈ after.methods, method.Calls after.pool (logCall.member "d/G") :=
        ⟨_, rfl, _, List.mem_singleton_self _, _, rfl, mem_staticCalls.mpr (by
          simp [Body.insertAt, logEntry, Callback.call, Callback.member, Instruction.invokeStatic])⟩
      have hskip : Policy.skips (.callLogger { marker := "Ld/L;", logger := some "d/G" }) "a/A" = false := by
        decide +kernel
      refine ⟨_, after, rfl, ?_, hcalls⟩
      rw [Policy.applyAll, List.foldlM_cons, Policy.apply, loggedClass, if_neg (by simp [hskip])]
      exact bind_eq_ok.mpr ⟨after, hafter, rfl⟩
    | _ => cases hpolicy

/-- The header of the class that calls are reported to. -/
theorem exists_header : ∃ header, Validation.load loggers "d.G" = .ok header ∧ header.name = "d/G" ∧
    ∀ method ∈ header.methods, method.descriptor ≠ logCall.descriptor := by
  have hshown : (Validation.load loggers "d.G").toOption.map
      (fun header => (header.name, header.methods.map Signature.descriptor)) =
        some ("d/G", ["(Ljava/lang/String;Ljava/lang/String;Ljava/lang/String;)I"]) := by
    decide +kernel
  cases hheader : Validation.load loggers "d.G" with
  | error fault => simp [hheader, Except.toOption] at hshown
  | ok header =>
    rw [hheader] at hshown
    obtain ⟨hname, hmethods⟩ := Prod.mk.inj (Option.some.inj hshown)
    refine ⟨header, rfl, hname, fun method hmem => ?_⟩
    have hmem := List.mem_map_of_mem (f := Signature.descriptor) hmem
    rw [hmethods, List.mem_singleton] at hmem
    rw [hmem]
    decide

end CallLogger

/-- A report is added whose method the class that it goes to does not declare: the one that passed the check
has another result. -/
theorem Configuration.not_calls_declared : ∃ policies after header,
    CallLogger.loggingConfig.policies CallLogger.loggers = .ok policies ∧
      Policy.applyAll policies .empty CallLogger.loggedClass = .ok after ∧
      CallLogger.loggingConfig.callLogger.logger = some "d.G" ∧
      Validation.load CallLogger.loggers "d.G" = .ok header ∧
      (∃ method ∈ after.methods, method.Calls after.pool (CallLogger.logCall.member header.name)) ∧
      ¬ ∃ declared ∈ header.methods, declared.name = CallLogger.logCall.name ∧
        declared.descriptor = CallLogger.logCall.descriptor ∧ declared.access.isPublicStatic := by
  obtain ⟨policies, after, hpolicies, hafter, hcalls⟩ := CallLogger.exists_logged
  obtain ⟨header, hheader, hname, hmethods⟩ := CallLogger.exists_header
  refine ⟨policies, after, header, hpolicies, hafter, rfl, hheader, ?_, ?_⟩
  · rw [hname]
    exact hcalls
  · rintro ⟨declared, hmem, -, hdescriptor, -⟩
    exact hmethods declared hmem hdescriptor

/-- The report goes to the class that the configuration names, whose first method with the name and the
parameters is public and static. -/
theorem Configuration.calls_of_policies_logged : ∃ policies after,
    CallLogger.loggingConfig.policies CallLogger.loggers = .ok policies ∧
      Policy.applyAll policies .empty CallLogger.loggedClass = .ok after ∧
      ∃ method ∈ after.methods, method.Calls after.pool (CallLogger.logCall.member "d/G") ∧
        ((∃ other ∈ CallLogger.loggedClass.methods,
            other.Calls CallLogger.loggedClass.pool (CallLogger.logCall.member "d/G")) ∨
          Policy.IsFixedCall CallLogger.loggedClass.name (CallLogger.logCall.member "d/G") ∨
          ∃ policy ∈ policies, ∃ callback ∈ policy.reports, ∃ header,
            CallLogger.logCall.member "d/G" = callback.member header.name ∧
              Validation.Receives CallLogger.loggers policy.reports
                (CallLogger.loggingConfig.receiver? policy) header.name header) := by
  obtain ⟨policies, after, hpolicies, hafter, method, hmem, hcall⟩ := CallLogger.exists_logged
  exact ⟨policies, after, hpolicies, hafter, method, hmem, hcall,
    calls_of_policies hpolicies hafter hmem hcall⟩

end ClassInstrument
