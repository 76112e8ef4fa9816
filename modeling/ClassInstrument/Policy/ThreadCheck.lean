import ClassInstrument.Policy.Editing
import ClassInstrument.Policy.Fault

/-!
# Checking threads

Classes and methods are annotated as bound to the main thread, as bound to worker threads, or as
free.  Annotations are inherited through the hierarchy, and what a method asks for counts before
what its class asks for.  A method that is bound starts with a guard that compares the looper of the
current thread with the main one, and tells a handler if the call comes from the wrong thread.
-/

namespace ClassInstrument

/-- The thread on which a method is to be called. -/
inductive ThreadRequirement where
  /-- The main thread. -/
  | ui
  /-- Any thread but the main one. -/
  | worker
  /-- Any thread. -/
  | any
deriving DecidableEq, Repr

/-- Checking of threads. -/
structure ThreadCheck where
  /-- The internal name of the handler; without one, markers come off and nothing is checked. -/
  handler : Option String := none
  /-- The java name of the annotation for the main thread. -/
  ui : Option String := none
  /-- The java name of the annotation for worker threads. -/
  worker : Option String := none
  /-- The java name of the annotation for any thread. -/
  any : Option String := none
  /-- The packages whose classes are left alone, as java names. -/
  ignoredPackages : List String := []
deriving Repr

namespace ThreadCheck

/-- Is told about a call from another thread than the main one. -/
def uiViolation : Callback :=
  ⟨"uiThreadViolationDetected", "(Ljava/lang/Class;Ljava/lang/String;Ljava/lang/String;)V"⟩

/-- Is told about a call from the main thread. -/
def workerViolation : Callback :=
  ⟨"workerThreadViolationDetected", "(Ljava/lang/Class;Ljava/lang/String;Ljava/lang/String;)V"⟩

/-- The class of the message loops of threads. -/
def looper : String := "android/os/Looper"

/-- Gives the looper of the current thread. -/
def myLooper : Callback := ⟨"myLooper", "()Landroid/os/Looper;"⟩

/-- Gives the looper of the main thread. -/
def mainLooper : Callback := ⟨"getMainLooper", "()Landroid/os/Looper;"⟩

/-- The java names of the annotations. -/
def annotations (policy : ThreadCheck) : List (Option String) :=
  [policy.ui, policy.worker, policy.any]

/-- Takes the first marker of each kind off. -/
def strip (policy : ThreadCheck) (marks : Marks) : Marks :=
  policy.annotations.foldl
    (fun marks marker =>
      match marker with
      | some name => (marks.stripFirst (Name.descriptorOfJava name)).2
      | none => marks)
    marks

/-- The classes on which each annotation is found. -/
structure Findings where
  /-- Those bound to the main thread. -/
  ui : List String
  /-- Those bound to worker threads. -/
  worker : List String
  /-- Those that are free. -/
  any : List String

/-- The requirements that some class expresses. -/
def Findings.requirements (findings : Findings) : List ThreadRequirement :=
  (if findings.ui.isEmpty then [] else [.ui]) ++
    (if findings.worker.isEmpty then [] else [.worker]) ++
    (if findings.any.isEmpty then [] else [.any])

/-- Looks for each annotation. -/
def findings (policy : ThreadCheck) (search : String → List String) : Findings :=
  let found := fun (marker : Option String) =>
    match marker with
    | some name => search (Name.descriptorOfJava name)
    | none => []
  ⟨found policy.ui, found policy.worker, found policy.any⟩

/-- The only requirement that is found, if there is any. -/
def resolve (policy : ThreadCheck) (findings : Findings) (method : Option Signature) :
    Except PolicyFault (Option ThreadRequirement) :=
  match findings.requirements with
  | [] => .ok none
  | [requirement] => .ok (some requirement)
  | _ =>
    .error (.conflictingThreads method
      ⟨findings.ui, policy.ui.getD ""⟩
      ⟨findings.worker, policy.worker.getD ""⟩
      ⟨findings.any, policy.any.getD ""⟩)

/-- The requirement of a class. -/
def classRequirement (policy : ThreadCheck) (catalog : Catalog) (name : String) :
    Except PolicyFault (Option ThreadRequirement) :=
  policy.resolve (policy.findings (catalog.annotatedClosure name)) none

/-- The requirement of a method. -/
def methodRequirement (policy : ThreadCheck) (catalog : Catalog) (name : String)
    (signature : Signature) : Except PolicyFault (Option ThreadRequirement) :=
  policy.resolve (policy.findings (catalog.annotatedMethodClosure name signature)) (some signature)

/-- Tells the handler unless two loopers compare as they should. -/
def looperGuard (owner name descriptor handler : String) (jump : Opcode) (violation : Callback)
    (passed : Label) : List Instruction :=
  [myLooper.call looper,
    mainLooper.call looper,
    .jump jump passed,
    .pushClass owner,
    .pushString name,
    .pushString descriptor,
    violation.call handler,
    .label passed]

/-- The guard for a requirement. -/
def guardFor (owner : String) (method : Method) (handler : String) (passed : Label) :
    ThreadRequirement → List Instruction
  | .ui => looperGuard owner method.name method.descriptor handler Opcode.ifAcmpeq uiViolation passed
  | .worker =>
    looperGuard owner method.name method.descriptor handler Opcode.ifAcmpne workerViolation passed
  | .any => []

/-- Puts the guard for a requirement in front of a body. -/
def guardBody (owner : String) (method : Method) (handler : String)
    (requirement : ThreadRequirement) (body : Body) : Body :=
  let (passed, body) := body.freshLabel
  body.insertAt 0 (guardFor owner method handler passed requirement)

/-- Can a guard be put in front of a method?  The body of a benchmarked method is reached only
through another method, which is guarded itself. -/
def isGuardable (decl : ClassDecl) (method : Method) : Bool :=
  !(decl.access.isInterface || Name.isStaticInitializer method.name ||
    method.name.startsWith Editing.movedBodyStart || method.access.isAbstract)

/-- Treats a method that some requirement applies to. -/
def guardMethod (decl : ClassDecl) (handler : String) (requirement : ThreadRequirement)
    (method : Method) : Except Fault Method := do
  if requirement = .any || !isGuardable decl method then return method
  else
    match ← decl.decodeBody method with
    | some body => return method.withBody (guardBody decl.name method handler requirement body)
    | none => return method

/-- Treats a method of a class with a requirement. -/
def applyToMethod (policy : ThreadCheck) (catalog : Catalog) (decl : ClassDecl)
    (ofClass : Option ThreadRequirement) (method : Method) : Except PolicyFault Method := do
  let ofMethod ← policy.methodRequirement catalog decl.name (.ofMethod method)
  let method := method.withMarks (policy.strip method.marks)
  match policy.handler, ofMethod.or ofClass with
  | some handler, some requirement => guardMethod decl handler requirement method
  | _, _ => return method

/-- Treats a class. -/
def apply (policy : ThreadCheck) (catalog : Catalog) (decl : ClassDecl) :
    Except PolicyFault ClassDecl := do
  let ofClass ← policy.classRequirement catalog decl.name
  let decl := decl.withMarks (policy.strip decl.marks)
  return { decl with methods := ← decl.methods.mapM (policy.applyToMethod catalog decl ofClass) }

end ThreadCheck

end ClassInstrument
