import ClassInstrument.Policy.Editing
import ClassInstrument.Policy.Fault

/-!
# Timing methods

The body of a benchmarked method moves to a private method of another name.  A forwarder takes its
place: it times a call of the moved body and reports the time to a receiver, as a failure, as a
warning or as a plain execution, depending on two thresholds; or it reports what the body throws,
and throws it again.  A constructor keeps its delegating call in the forwarder, because only an
initialized object can run the moved body.

A threshold is a property of an annotation.  It is looked up on every class up the hierarchy that
annotates the method; a class that gives a value itself settles a disagreement.
-/

namespace ClassInstrument

/-- Timing of methods. -/
structure Benchmark where
  /-- The descriptor of the annotation with the thresholds. -/
  marker : String
  /-- The internal name of the receiver; without one, markers come off and nothing is timed. -/
  receiver : Option String := none
deriving Repr

/-- The thresholds of a method, in milliseconds. -/
structure Thresholds where
  /-- From which time on an execution is reported as a warning. -/
  warnAt : Int32
  /-- From which time on an execution is reported as a failure. -/
  failAt : Int32
deriving DecidableEq, Repr

namespace Thresholds

/-- The threshold that is none. -/
def unset : Int32 := -1

/-- Is any threshold set? -/
def isAnySet (thresholds : Thresholds) : Bool :=
  thresholds.warnAt != unset || thresholds.failAt != unset

end Thresholds

namespace Benchmark

/-- The property that holds the threshold for warnings. -/
def warnAtMillis : String := "warnAtMillis"

/-- The property that holds the threshold for failures. -/
def failAtMillis : String := "failAtMillis"

/-- Is told about an execution that keeps to the thresholds. -/
def executed : Callback :=
  ⟨"executed", "(Ljava/lang/String;Ljava/lang/String;Ljava/lang/String;J)V"⟩

/-- Is told about an execution that exceeds the threshold for warnings. -/
def executedWithWarning : Callback :=
  ⟨"executedWithWarning", "(Ljava/lang/String;Ljava/lang/String;Ljava/lang/String;JJ)V"⟩

/-- Is told about an execution that exceeds the threshold for failures. -/
def failed : Callback :=
  ⟨"failed", "(Ljava/lang/String;Ljava/lang/String;Ljava/lang/String;JJ)V"⟩

/-- Is told about an execution that ends by throwing. -/
def thrown : Callback :=
  ⟨"thrown", "(Ljava/lang/String;Ljava/lang/String;Ljava/lang/String;Ljava/lang/Throwable;J)V"⟩

/-! ## Thresholds -/

/-- The default that the annotation declares for a property of type `int`. -/
def declaredDefault (policy : Benchmark) (catalog : Catalog) (property : String) :
    Except PolicyFault Int32 := do
  if !catalog.knowsAnnotationType policy.marker then
    throw (.unknownMarker policy.marker)
  let properties ← catalog.annotationProperties policy.marker
  match properties.find? property with
  | none => throw (.missingProperty policy.marker property)
  | some type =>
    if type ≠ "I" then
      throw (.propertyNotInt policy.marker property ((Name.ofDescriptor? type).getD type))
    let value ← catalog.annotationDefault policy.marker property
    return (value.bind ElementValue.int?).getD Thresholds.unset

/-- The defaults that the annotation declares. -/
def declaredDefaults (policy : Benchmark) (catalog : Catalog) : Except PolicyFault Thresholds := do
  return {
    warnAt := ← policy.declaredDefault catalog warnAtMillis
    failAt := ← policy.declaredDefault catalog failAtMillis }

/-- The numbers that classes give to a property. -/
def demandInts (policy : Benchmark) (property : String) (values : NameTable ElementValue) :
    Except PolicyFault (NameTable Int32) :=
  values.mapM fun (name, value) =>
    match value.int? with
    | some number => .ok (name, number)
    | none => .error (.propertyNotInt policy.marker property value.describe)

/-- The threshold of a method of a class: the only value given, or else the value that the class
itself gives, or else the value that all classes agree on. -/
def settle (policy : Benchmark) (owner : String) (signature : Signature) (property : String)
    (default : Int32) : NameTable Int32 → Except PolicyFault Int32
  | [] => .ok default
  | [(_, value)] => .ok value
  | (first, value) :: rest =>
    let values : NameTable Int32 := (first, value) :: rest
    match values.find? owner with
    | some own => .ok own
    | none =>
      if rest.all fun entry => entry.2 == value then .ok value
      else .error (.conflictingValues owner signature property policy.marker values)

/-- A threshold of a method. -/
def threshold (policy : Benchmark) (catalog : Catalog) (owner : String) (signature : Signature)
    (property : String) (default : Int32) : Except PolicyFault Int32 := do
  let values ← catalog.annotatedMethodValues owner signature policy.marker property
  let numbers ← policy.demandInts property values
  policy.settle owner signature property default numbers

/-- The thresholds of a method, `none` if it is not timed. -/
def thresholds? (policy : Benchmark) (catalog : Catalog) (owner : String) (signature : Signature) :
    Except PolicyFault (Option Thresholds) := do
  if (catalog.annotatedMethodClosure owner signature policy.marker).isEmpty then return none
  else
    let defaults ← policy.declaredDefaults catalog
    let found : Thresholds := {
      warnAt := ← policy.threshold catalog owner signature warnAtMillis defaults.warnAt
      failAt := ← policy.threshold catalog owner signature failAtMillis defaults.failAt }
    return if found.isAnySet then some found else none

/-! ## The forwarder -/

/-- What a forwarder reports about, and to whom. -/
structure Report where
  /-- The internal name of the class. -/
  owner : String
  /-- The name of the method. -/
  name : String
  /-- The descriptor of the method. -/
  descriptor : String
  /-- Does the method run without a receiver? -/
  isStatic : Bool
  /-- The internal name of the class that is told. -/
  receiver : String

/-- Reads the clock. -/
def readClock : Instruction := .invokeStatic "java/lang/System" "nanoTime" "()J"

namespace Report

/-- The class, the name and the descriptor, which come first in every report. -/
def identity (report : Report) : List String :=
  [Name.toJava report.owner, report.name, report.descriptor]

/-- Pushes what comes first in every report. -/
def pushIdentity (report : Report) : List Instruction := report.identity.map .pushString

/-- Pushes what comes first in every report under the last value. -/
def pushIdentityUnder (report : Report) : List Instruction :=
  report.identity.flatMap fun text => [.pushString text, .plain Opcode.swap]

/-- Pushes the time since the one in a slot: the difference the other way round, negated. -/
def pushElapsed (slot : UInt16) : List Instruction :=
  [.var Opcode.lload slot, readClock, .plain Opcode.lsub, .plain Opcode.lneg]

end Report

/-- A threshold that is set: where the report of the time starts that exceeds it, the threshold in
nanoseconds, and the report. -/
structure Limit where
  /-- Where the report starts. -/
  exceeded : Label
  /-- The threshold in nanoseconds. -/
  nanos : Int64
  /-- Who is told. -/
  callback : Callback

namespace Limit

/-- A threshold of milliseconds in nanoseconds. -/
def nanosOfMillis (millis : Int32) : Int64 := millis.toInt64 * 1000000

/-- The thresholds that are set, the one for failures first, with fresh labels from a number on. -/
def ofThresholds (thresholds : Thresholds) (nextLabel : Nat) : List Limit :=
  let given :=
    [(thresholds.failAt, failed), (thresholds.warnAt, executedWithWarning)].filter
      fun entry => entry.1 != Thresholds.unset
  given.zipIdx.map fun ((millis, callback), position) =>
    { exceeded := ⟨nextLabel + position⟩, nanos := nanosOfMillis millis, callback }

/-- Compares the elapsed time with a threshold. -/
def compare (limit : Limit) : List Instruction :=
  [.plain Opcode.dup2, .pushLong limit.nanos, .plain Opcode.lcmp,
    .jump Opcode.ifge limit.exceeded]

/-- Reports that a threshold is exceeded. -/
def tell (limit : Limit) (receiver : String) (done : Label) : List Instruction :=
  [.label limit.exceeded, .pushLong limit.nanos, limit.callback.call receiver,
    .jump Opcode.goto done]

end Limit

namespace Report

/-- Calls a moved body with the receiver and the parameters of the forwarder. -/
def callMoved (report : Report) (moved : String) (parameters : List Instruction) :
    List Instruction :=
  let callee : Member := { owner := report.owner, name := moved, descriptor := report.descriptor }
  if report.isStatic then parameters ++ [.method Opcode.invokestatic callee]
  else .aload 0 :: parameters ++ [.method Opcode.invokespecial callee]

/-- The body of a forwarder to a moved body: the delegating call, if it is a constructor, the timed
call, the reports of its time, and the report of what it throws. -/
def forwarder (report : Report) (moved : String) (delegating : List Instruction)
    (thresholds : Thresholds) : Except Fault Body := do
  let slot ← Editing.firstFreeSlot report.descriptor report.isStatic
  let parameters ← Editing.loadParameters report.descriptor report.isStatic
  let start : Label := ⟨0⟩
  let stop : Label := ⟨1⟩
  let done : Label := ⟨2⟩
  let catcher : Label := ⟨3⟩
  let limits := Limit.ofThresholds thresholds 4
  return {
    instructions :=
      delegating ++ [readClock, .var Opcode.lstore slot] ++
        [.label start] ++ report.callMoved moved parameters ++ [.label stop] ++
        report.pushIdentity ++ pushElapsed slot ++ limits.flatMap Limit.compare ++
        [executed.call report.receiver, .label done,
          .plain (Editing.returnOpcode report.descriptor)] ++
        limits.flatMap (fun limit => limit.tell report.receiver done) ++
        [.label catcher, .plain Opcode.dup] ++ report.pushIdentityUnder ++ pushElapsed slot ++
        [thrown.call report.receiver, .plain Opcode.athrow]
    handlers := [{ start, stop, handler := catcher, caught := some Name.throwable }]
    nextLabel := 4 + limits.length }

end Report

/-! ## Methods and classes -/

/-- The attributes that a forwarder shares with its method: declared exceptions and the generic
signature. -/
def sharedAttributes (pool : Pool) (attributes : List Attribute) : Except Fault (List Attribute) :=
  attributes.filterM fun attr => do
    let name ← pool.utf8 attr.name
    return name == "Exceptions" || name == "Signature"

/-- The delegating call of a constructor, cut out of its body; nothing for other methods. -/
def splitConstructor (decl : ClassDecl) (method : Method) :
    Except PolicyFault (List Instruction × Method) := do
  if !Name.isConstructor method.name then return ([], method)
  else
    let refused := PolicyFault.unsupportedConstructor decl.name method.name method.descriptor
    match ← decl.decodeBody method with
    | none => throw refused
    | some body =>
      match DelegatingCall.extract? body decl.name decl.superName with
      | none => throw refused
      | some (delegating, rest) => return (delegating, method.withBody rest)

/-- The method that keeps the body, and its forwarder. -/
def split (receiver : String) (decl : ClassDecl) (thresholds : Thresholds) (method : Method) :
    Except PolicyFault (Method × Method) := do
  let (delegating, rest) ← splitConstructor decl method
  let attributes ← sharedAttributes decl.pool method.attributes
  let moved := Editing.movedBodyStart ++ Name.sanitized method.name
  let report : Report := {
    owner := decl.name, name := method.name, descriptor := method.descriptor
    isStatic := method.access.isStatic, receiver }
  let body ← report.forwarder moved delegating thresholds
  let forwarder : Method := {
    access := method.access, name := method.name, descriptor := method.descriptor
    body := .edited body, attributes }
  return ({ rest with name := moved, access := method.access.madePrivate }, forwarder)

/-- Treats a method, and gives its forwarder if it is timed. -/
def applyToMethod (policy : Benchmark) (catalog : Catalog) (decl : ClassDecl) (method : Method) :
    Except PolicyFault (Method × Option Method) := do
  let method := method.withMarks (method.marks.stripAll policy.marker).2
  match policy.receiver with
  | none => return (method, none)
  | some receiver =>
    if decl.access.isInterface || !method.hasCode then return (method, none)
    else
      match ← policy.thresholds? catalog decl.name (.ofMethod method) with
      | none => return (method, none)
      | some thresholds =>
        let (moved, forwarder) ← split receiver decl thresholds method
        return (moved, some forwarder)

/-- Treats a class; the forwarders come behind all other methods. -/
def apply (policy : Benchmark) (catalog : Catalog) (decl : ClassDecl) :
    Except PolicyFault ClassDecl := do
  let treated ← decl.methods.mapM (policy.applyToMethod catalog decl)
  return { decl with methods := treated.map Prod.fst ++ treated.filterMap Prod.snd }

end Benchmark

end ClassInstrument
