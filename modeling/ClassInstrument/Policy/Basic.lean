import ClassInstrument.Policy.Benchmark
import ClassInstrument.Policy.CallLogger
import ClassInstrument.Policy.CrashShield
import ClassInstrument.Policy.ThreadCheck

/-!
# Policies

A policy edits one class at a time, and asks a catalog about everything that spans the hierarchy.
It takes its marker annotations off in any case.  Classes that hold the annotations of a package,
and classes of packages that the policy ignores, are left alone.
-/

namespace ClassInstrument

/-- A way to instrument classes. -/
inductive Policy where
  /-- Methods are shielded from their exceptions. -/
  | crashShield (shield : CrashShield)
  /-- Methods are timed. -/
  | benchmark (timing : Benchmark)
  /-- Methods are bound to threads. -/
  | threadCheck (check : ThreadCheck)
  /-- Calls are logged. -/
  | callLogger (logger : CallLogger)
deriving Repr

namespace Policy

/-- The packages whose classes are left alone, as java names. -/
def ignoredPackages : Policy → List String
  | crashShield shield => shield.ignoredPackages
  | benchmark _ => []
  | threadCheck check => check.ignoredPackages
  | callLogger logger => logger.ignoredPackages

/-- Does a class hold the annotations of a package? -/
def isPackageInfo (name : String) : Bool :=
  (Name.toJava name).endsWith ".package-info" || name == "package-info"

/-- Is a class left alone? -/
def skips (policy : Policy) (name : String) : Bool :=
  isPackageInfo name || policy.ignoredPackages.contains (Name.package name)

/-- Edits a class that is not left alone. -/
def edit (policy : Policy) (catalog : Catalog) (decl : ClassDecl) :
    Except PolicyFault ClassDecl :=
  match policy with
  | crashShield shield => shield.apply catalog decl
  | benchmark timing => timing.apply catalog decl
  | threadCheck check => check.apply catalog decl
  | callLogger logger => logger.apply decl

/-- Applies a policy to a class. -/
def apply (policy : Policy) (catalog : Catalog) (decl : ClassDecl) :
    Except PolicyFault ClassDecl :=
  if policy.skips decl.name then .ok decl else policy.edit catalog decl

/-- Applies policies one after the other. -/
def applyAll (policies : List Policy) (catalog : Catalog) (decl : ClassDecl) :
    Except PolicyFault ClassDecl :=
  policies.foldlM (fun decl policy => policy.apply catalog decl) decl

end Policy

end ClassInstrument
