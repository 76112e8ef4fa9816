import ClassInstrument.Policy.Benchmark
import ClassInstrument.Proofs.Code.Placements
import ClassInstrument.Proofs.Descriptor.Shortcuts

/-!
# What a forwarder does

A forwarder is run on the machine.  It reads the clock, calls the moved body with its own arguments, reads
the clock again and makes one report; then it returns what the moved body has returned, or throws what it
has thrown.  The proof follows the run from one label to the next.
-/

namespace ClassInstrument

open Outcome

/-! ## Arguments in local variables -/

/-- The number of slots of a value is that of its kind. -/
@[simp] theorem FieldType.width_kind (type : FieldType) : type.kind.width = type.width := by
  cases type with
  | base base => cases base <;> rfl
  | object _ => rfl
  | array _ => rfl

/-- The opcode that loads a parameter loads values of its kind. -/
@[simp] theorem Editing.loads?_loadOpcode (type : FieldType) :
    (Editing.loadOpcode type).loads? = some type.kind := by
  cases type with
  | base base => cases base <;> rfl
  | object _ => rfl
  | array _ => rfl

variable {world : World} {resultKind : Option Kind}

/-- Loads of variables push the values that stand there. -/
theorem straightRun_loadFrom {types : List FieldType} {values : List Value} {slot : UInt16}
    {memory : Memory} (hkinds : values.map Value.kind = types.map FieldType.kind)
    (hvalues : memory.locals.Holds slot.toNat values)
    (hslots : slot.toNat + (types.map FieldType.width).sum < 65536) :
    straightRun world resultKind (Editing.loadFrom slot types) memory =
      some { memory with stack := values.reverse ++ memory.stack } := by
  induction types generalizing values slot memory with
  | nil =>
    obtain rfl : values = [] := by simpa using hkinds
    rfl
  | cons type rest ih =>
    cases values with
    | nil => simp at hkinds
    | cons value others =>
      obtain ⟨hkind, hkinds⟩ := List.cons.inj hkinds
      obtain ⟨hvalue, hothers⟩ := hvalues
      rw [List.map_cons, List.sum_cons] at hslots
      have hwidth : value.width = type.width := by rw [Value.width, hkind, FieldType.width_kind]
      have hslot : (slot + UInt16.ofNat type.width).toNat = slot.toNat + value.width := by
        rw [UInt16.toNat_add, UInt16.toNat_ofNat', hwidth]
        omega
      have hload : Turn.ofVariable memory (Editing.loadOpcode type) slot.toNat =
          some (.proceed (memory.push value)) := by
        simp [Turn.ofVariable, hvalue, hkind]
      simp only [Editing.loadFrom, straightRun, Instruction.turn, hload]
      rw [ih hkinds (by rw [hslot]; exact hothers) (by omega)]
      simp [Memory.push]

namespace Benchmark

/-! ## Thresholds -/

namespace Limit

/-- A threshold in nanoseconds does not overflow. -/
theorem toInt_nanosOfMillis (millis : Int32) :
    (nanosOfMillis millis).toInt = millis.toInt * 1000000 := by
  have hlow : -2147483648 ≤ millis.toInt := millis.le_toInt
  have hhigh : millis.toInt ≤ 2147483647 := millis.toInt_le
  have hfactor : Int64.toInt 1000000 = 1000000 := rfl
  rw [nanosOfMillis, Int64.toInt_mul, Int32.toInt_toInt64, hfactor]
  exact Int.bmod_eq_of_le (by omega) (by omega)

/-- The labels of limits have the numbers from the given one on. -/
theorem map_exceeded_ofThresholds (thresholds : Thresholds) (nextLabel : Nat) :
    (ofThresholds thresholds nextLabel).map exceeded =
      (List.range' nextLabel (ofThresholds thresholds nextLabel).length).map Label.mk := by
  rw [ofThresholds]
  generalize List.filter _ _ = given
  rw [List.map_map, List.length_map, List.length_zipIdx]
  refine List.ext_getElem (by simp) fun index hleft hright => ?_
  simp

end Limit

/-- What is reported about a time, and the limit that comes with it. -/
def verdict (thresholds : Thresholds) (spent : Int64) : Callback × List Value :=
  let nanos := fun (millis : Int32) => millis.toInt * 1000000
  if thresholds.failAt ≠ Thresholds.unset ∧ nanos thresholds.failAt ≤ spent.toInt then
    (failed, [.long (Int64.ofInt (nanos thresholds.failAt))])
  else if thresholds.warnAt ≠ Thresholds.unset ∧ nanos thresholds.warnAt ≤ spent.toInt then
    (executedWithWarning, [.long (Int64.ofInt (nanos thresholds.warnAt))])
  else (executed, [])

/-- What is reported is told by the first limit that a time exceeds. -/
theorem verdict_eq (thresholds : Thresholds) (nextLabel : Nat) (spent : Int64) :
    verdict thresholds spent =
      match (Limit.ofThresholds thresholds nextLabel).find? (·.nanos ≤ spent) with
      | some limit => (limit.callback, [.long limit.nanos])
      | none => (executed, []) := by
  have hlimit : ∀ millis : Int32, Int64.ofInt (millis.toInt * 1000000) = Limit.nanosOfMillis millis := by
    intro millis
    rw [← Limit.toInt_nanosOfMillis, Int64.ofInt_toInt]
  have hle : ∀ millis : Int32,
      millis.toInt * 1000000 ≤ spent.toInt ↔ Limit.nanosOfMillis millis ≤ spent := by
    intro millis
    rw [← Limit.toInt_nanosOfMillis, Int64.le_iff_toInt_le]
  simp only [verdict, hlimit, hle, Limit.ofThresholds]
  by_cases hfail : thresholds.failAt = Thresholds.unset <;>
    by_cases hwarn : thresholds.warnAt = Thresholds.unset <;>
      by_cases hover : Limit.nanosOfMillis thresholds.failAt ≤ spent <;>
        by_cases hover' : Limit.nanosOfMillis thresholds.warnAt ≤ spent <;>
          simp [hfail, hwarn, hover, hover']

/-! ## Calls -/

/-- A call that reads the clock. -/
def clock : Call where
  opcode := Opcode.invokestatic
  callee := { owner := "java/lang/System", name := "nanoTime", descriptor := "()J" }
  arguments := []

namespace Report

/-- The call of a moved body. -/
def movedCall (report : Report) (moved : String) (arguments : List Value) : Call where
  opcode := if report.isStatic then Opcode.invokestatic else Opcode.invokespecial
  callee := { owner := report.owner, name := moved, descriptor := report.descriptor }
  arguments

/-- The call that makes a report: the class, the name and the descriptor, and then what else is told. -/
def told (report : Report) (callback : Callback) (arguments : List Value) : Call where
  opcode := Opcode.invokestatic
  callee := { owner := report.receiver, name := callback.name, descriptor := callback.descriptor }
  arguments := report.identity.map Value.text ++ arguments

/-- The call that reports a time. -/
def toldTime (report : Report) (thresholds : Thresholds) (spent : Int64) : Call :=
  report.told (verdict thresholds spent).1 (.long spent :: (verdict thresholds spent).2)

/-- The types of the arguments of a method, the receiver first. -/
def argumentTypes (report : Report) (parsed : MethodDescriptor) : List FieldType :=
  (if report.isStatic then [] else [.object report.owner]) ++ parsed.parameters

end Report

section Turns

variable {world : World} {resultKind : Option Kind} {memory : Memory} {report : Report}

/-- Reading the clock pushes the time. -/
theorem turn_readClock {time : Int64}
    (h : world.respond memory.calls clock = .returned (some (.long time))) :
    readClock.turn world resultKind memory =
      some (.proceed { memory with
        stack := .long time :: memory.stack, calls := memory.calls ++ [clock] }) := by
  have hcall : Turn.ofCall world memory Opcode.invokestatic clock.callee =
      some (Turn.ofAnswer { memory with stack := memory.stack, calls := memory.calls ++ [clock] }
        (world.respond memory.calls clock)) :=
    Turn.ofCall_eq (show MethodDescriptor.parse "()J" = .ok ⟨[], some (.base .long)⟩ from rfl) rfl
      (by simp) rfl
  rw [h] at hcall
  exact hcall

/-- A report takes what is told off the stack. -/
theorem turn_callback {callback : Callback} {types : List FieldType} {arguments rest : List Value}
    (hparse : MethodDescriptor.parse callback.descriptor = .ok ⟨types, none⟩)
    (hkinds : (report.told callback arguments).arguments.map Value.kind = types.map FieldType.kind)
    (hstack : memory.stack = (report.told callback arguments).arguments.reverse ++ rest)
    (h : ∀ exception, world.respond memory.calls (report.told callback arguments) ≠ .thrown exception) :
    (callback.call report.receiver).turn world resultKind memory =
      some (.proceed { memory with
        stack := rest, calls := memory.calls ++ [report.told callback arguments] }) := by
  have hcall : Turn.ofCall world memory Opcode.invokestatic (report.told callback arguments).callee =
      some (Turn.ofAnswer { memory with
          stack := rest, calls := memory.calls ++ [report.told callback arguments] }
        (world.respond memory.calls (report.told callback arguments))) :=
    Turn.ofCall_eq hparse hkinds (by simp) hstack
  rcases hanswer : world.respond memory.calls (report.told callback arguments) with result | exception
  · obtain rfl : result = none := by simpa using world.kind_of_returned hanswer hparse
    rw [hanswer] at hcall
    exact hcall
  · exact absurd hanswer (h exception)

/-- A call of the moved body does what the answer to it does. -/
theorem turn_callMoved {parsed : MethodDescriptor} {moved : String} {arguments : List Value}
    (hparse : MethodDescriptor.parse report.descriptor = .ok parsed)
    (hkinds : arguments.map Value.kind = (report.argumentTypes parsed).map FieldType.kind)
    (hreceiver : report.isStatic = false → arguments.head? ≠ some .null)
    (hstack : memory.stack = arguments.reverse) :
    (Instruction.method (report.movedCall moved arguments).opcode
        (report.movedCall moved arguments).callee).turn world resultKind memory =
      some (Turn.ofAnswer { memory with
          stack := [], calls := memory.calls ++ [report.movedCall moved arguments] }
        (world.respond memory.calls (report.movedCall moved arguments))) := by
  refine Turn.ofCall_eq hparse ?_ ?_ (by rw [hstack, List.append_nil])
  · rw [hkinds, Report.movedCall, Report.argumentTypes, Turn.argumentKinds]
    cases report.isStatic <;> rfl
  · cases hstatic : report.isStatic <;> simp_all [Report.movedCall]

/-- Pushing a number has one turn, whatever its form. -/
theorem turn_pushLong (value : Int64) :
    (Instruction.pushLong value).turn world resultKind memory =
      some (.proceed (memory.push (.long value))) := by
  unfold Instruction.pushLong
  split
  · next h => rw [h]; rfl
  · split
    · next h => rw [h]; rfl
    · rfl

/-- What comes first in every report is pushed. -/
theorem straightRun_pushIdentity :
    straightRun world resultKind report.pushIdentity memory =
      some { memory with stack := (report.identity.map Value.text).reverse ++ memory.stack } := by
  rfl

/-- What comes first in every report is pushed under an object. -/
theorem straightRun_pushIdentityUnder {exception : Value} {rest : List Value}
    (hkind : exception.kind = .reference) (hstack : memory.stack = exception :: rest) :
    straightRun world resultKind report.pushIdentityUnder memory =
      some { memory with
        stack := exception :: ((report.identity.map Value.text).reverse ++ rest) } := by
  have hwidth : exception.width = 1 := by rw [Value.width, hkind]; rfl
  have hturn : ∀ (content : String) (below : List Value),
      straightRun world resultKind [.pushString content, .plain Opcode.swap]
          { memory with stack := exception :: below } =
        some { memory with stack := exception :: .text content :: below } := by
    intro content below
    have hswap : Turn.ofPlain { memory with stack := .text content :: exception :: below } Opcode.swap =
        some (.proceed { memory with stack := exception :: .text content :: below }) :=
      if_pos ⟨rfl, hwidth⟩
    simp only [straightRun, Instruction.pushString, Instruction.turn, Value.ofConstant?, Option.map_some,
      Memory.push]
    rw [if_neg (by decide), hswap]
  obtain ⟨stack, locals, calls⟩ := memory
  obtain rfl : stack = exception :: rest := hstack
  simp only [Report.pushIdentityUnder, Report.identity, List.flatMap_cons, List.flatMap_nil,
    straightRun_append, hturn, Option.bind_some]
  rfl

/-- The time since the one in a slot is pushed. -/
theorem straightRun_pushElapsed {slot : UInt16} {start time : Int64}
    (hstart : memory.locals slot.toNat = some (.long start))
    (h : world.respond memory.calls clock = .returned (some (.long time))) :
    straightRun world resultKind (Report.pushElapsed slot) memory =
      some { memory with
        stack := .long (time - start) :: memory.stack, calls := memory.calls ++ [clock] } := by
  have hload : (Instruction.var Opcode.lload slot).turn world resultKind memory =
      some (.proceed (memory.push (.long start))) := by
    simp only [Instruction.turn, Turn.ofVariable]
    rw [show Opcode.loads? Opcode.lload = some .long from rfl, hstart]
    rfl
  have hclock : readClock.turn world resultKind (memory.push (.long start)) =
      some (.proceed { memory with
        stack := .long time :: .long start :: memory.stack, calls := memory.calls ++ [clock] }) :=
    turn_readClock h
  have hneg : -(start - time) = time - start := Int64.neg_sub
  simp only [Report.pushElapsed, straightRun, hload, hclock, ← hneg]
  rfl

end Turns

/-! ## Limits -/

section Limits

variable {world : World} {resultKind : Option Kind} {body : Body} {memory : Memory}
  {spent : Int64} {rest : List Value}

/-- A comparison is not negative if the first number is not below the second one. -/
theorem zero_le_compareLong {first second : Int64} :
    0 ≤ Turn.compareLong first second ↔ second ≤ first := by
  unfold Turn.compareLong
  split
  · next h => simp [Int64.not_le.mpr h]
  · next h =>
    have hle : second ≤ first := Int64.not_lt.mp h
    split <;> simp [hle]

/-- A limit is compared with the time on the stack. -/
theorem leads_compare (front back : List Instruction) {limit : Limit}
    (hbody : body.instructions = front ++ limit.compare ++ back)
    (hstack : memory.stack = .long spent :: rest) :
    (spent < limit.nanos → body.Leads world resultKind ⟨front.length, memory⟩
      ⟨(front ++ limit.compare).length, memory⟩) ∧
    (limit.nanos ≤ spent → ∀ position, body.labelPosition? limit.exceeded = some position →
      body.Leads world resultKind ⟨front.length, memory⟩ ⟨position, memory⟩) := by
  obtain ⟨stack, locals, calls⟩ := memory
  obtain rfl : stack = .long spent :: rest := hstack
  let compared : Memory :=
    ⟨.int (Turn.compareLong spent limit.nanos) :: .long spent :: rest, locals, calls⟩
  let code : List Instruction := [.plain Opcode.dup2, .pushLong limit.nanos, .plain Opcode.lcmp]
  have hstraight : straightRun world resultKind code ⟨.long spent :: rest, locals, calls⟩ =
      some compared := by
    have hdup : (Instruction.plain Opcode.dup2).turn world resultKind
        ⟨.long spent :: rest, locals, calls⟩ =
          some (.proceed ⟨.long spent :: .long spent :: rest, locals, calls⟩) := by
      cases rest <;> rfl
    simp only [code, straightRun, hdup, turn_pushLong]
    rfl
  have hjump : body.instructions = front ++ code ++ .jump Opcode.ifge limit.exceeded :: back := by
    simp [hbody, code, Limit.compare]
  have hleads := Body.leads_of_straight front _ hjump hstraight
  have hturn : (Instruction.jump Opcode.ifge limit.exceeded).turn world resultKind compared =
      some (if 0 ≤ Turn.compareLong spent limit.nanos then
        .jump limit.exceeded ⟨.long spent :: rest, locals, calls⟩
        else .proceed ⟨.long spent :: rest, locals, calls⟩) := rfl
  constructor
  · intro hbelow
    rw [if_neg (zero_le_compareLong.not.mpr (Int64.not_le.mpr hbelow))] at hturn
    have hstep := Body.step_of_proceed _ _ hjump hturn
    refine hleads.tail ?_
    simpa [code, Limit.compare] using hstep
  · intro hover position hposition
    rw [if_pos (zero_le_compareLong.mpr hover)] at hturn
    exact hleads.tail (Body.step_of_jump _ _ hjump hturn hposition)

/-- The first limit that a time exceeds is found. -/
theorem leads_compareAll (front back : List Instruction) {limits : List Limit}
    (hbody : body.instructions = front ++ limits.flatMap Limit.compare ++ back)
    (hstack : memory.stack = .long spent :: rest) :
    match limits.find? (·.nanos ≤ spent) with
    | none => body.Leads world resultKind ⟨front.length, memory⟩
        ⟨(front ++ limits.flatMap Limit.compare).length, memory⟩
    | some limit => ∀ position, body.labelPosition? limit.exceeded = some position →
        body.Leads world resultKind ⟨front.length, memory⟩ ⟨position, memory⟩ := by
  induction limits generalizing front with
  | nil =>
    rw [List.flatMap_nil, List.append_nil]
    exact .refl
  | cons limit others ih =>
    obtain ⟨hbelow, hover⟩ := leads_compare front (others.flatMap Limit.compare ++ back)
      (by simpa using hbody) hstack
    rw [List.find?_cons]
    by_cases hle : limit.nanos ≤ spent
    · simp only [hle, decide_true]
      exact hover hle
    · simp only [hle, decide_false]
      have hfirst := hbelow (Int64.not_le.mp hle)
      have hrest := ih (front ++ limit.compare) (by simp [hbody])
      split
      · next hnone =>
        rw [hnone] at hrest
        refine hfirst.trans ?_
        simpa using hrest
      · next found hfound =>
        rw [hfound] at hrest
        exact fun position hposition => hfirst.trans (hrest position hposition)

end Limits

/-! ## The parts of a forwarder -/

namespace Report

/-- The slot behind arguments of given types. -/
def freeSlot (types : List FieldType) : UInt16 := UInt16.ofNat (types.map FieldType.width).sum

/-- From the start to the call of the moved body. -/
def opening (types : List FieldType) : List Instruction :=
  [readClock, .var Opcode.lstore (freeSlot types), .label ⟨0⟩] ++ Editing.loadFrom 0 types

/-- The call of the moved body. -/
def calling (report : Report) (moved : String) : Instruction :=
  .method (report.movedCall moved []).opcode (report.movedCall moved []).callee

/-- Behind the call: what is told is put on the stack. -/
def timing (report : Report) (types : List FieldType) : List Instruction :=
  .label ⟨1⟩ :: (report.pushIdentity ++ pushElapsed (freeSlot types))

/-- The report of an execution, and the return. -/
def closing (report : Report) : List Instruction :=
  [executed.call report.receiver, .label ⟨2⟩, .plain (Editing.returnOpcode report.descriptor)]

/-- The reports of limits that are exceeded. -/
def telling (report : Report) (limits : List Limit) : List Instruction :=
  limits.flatMap fun limit => limit.tell report.receiver ⟨2⟩

/-- The report of what is thrown. -/
def catching (report : Report) (types : List FieldType) : List Instruction :=
  .label ⟨3⟩ :: .plain Opcode.dup :: (report.pushIdentityUnder ++ pushElapsed (freeSlot types) ++
    [thrown.call report.receiver])

/-- A forwarder of a method whose arguments are of given types. -/
def forwarderBody (report : Report) (moved : String) (types : List FieldType) (limits : List Limit) :
    Body where
  instructions := opening types ++ report.calling moved :: (report.timing types ++
    limits.flatMap Limit.compare ++ report.closing ++ report.telling limits ++
    report.catching types ++ [.plain Opcode.athrow])
  handlers := [{ start := ⟨0⟩, stop := ⟨1⟩, handler := ⟨3⟩, caught := some Name.throwable }]
  nextLabel := 4 + limits.length

/-- The slots of the arguments are those of the parameters and of the receiver. -/
theorem parameterSlots_eq (report : Report) (parsed : MethodDescriptor) :
    parsed.parameterSlots (!report.isStatic) =
      ((report.argumentTypes parsed).map FieldType.width).sum := by
  have hfold : ∀ (types : List FieldType) (first : Nat),
      types.foldr (fun type count => type.width + count) first =
        first + (types.map FieldType.width).sum := by
    intro types first
    induction types with
    | nil => rfl
    | cons type rest ih =>
      rw [List.foldr_cons, ih, List.map_cons, List.sum_cons]
      omega
  rw [MethodDescriptor.parameterSlots, hfold, argumentTypes, List.map_append, List.sum_append]
  cases report.isStatic <;> rfl

/-- A method whose descriptor is read has a forwarder. -/
theorem forwarder_eq {report : Report} {parsed : MethodDescriptor}
    (hparse : MethodDescriptor.parse report.descriptor = .ok parsed) (moved : String)
    (thresholds : Thresholds) :
    report.forwarder moved [] thresholds = .ok (report.forwarderBody moved (report.argumentTypes parsed)
      (Limit.ofThresholds thresholds 4)) := by
  have hdemand : MethodDescriptor.demand report.descriptor = .ok parsed := by
    simp [MethodDescriptor.demand, hparse]
  have hslot : Editing.firstFreeSlot report.descriptor report.isStatic =
      .ok (freeSlot (report.argumentTypes parsed)) := by
    rw [Editing.firstFreeSlot, hdemand, freeSlot, ← parameterSlots_eq]
    rfl
  have hloads : Editing.loadParameters report.descriptor report.isStatic =
      .ok (Editing.loadFrom (if report.isStatic then 0 else 1) parsed.parameters) := by
    rw [Editing.loadParameters, hdemand]
    rfl
  rw [forwarder, hslot, hloads]
  cases hstatic : report.isStatic <;>
    simp [bind, Except.bind, pure, Except.pure, forwarderBody, argumentTypes, opening, timing, closing,
      telling, catching, callMoved, calling, movedCall, hstatic, Editing.loadFrom, Editing.loadOpcode,
      FieldType.width, Instruction.aload]

end Report

/-! ## Labels of a forwarder -/

/-- No label stands among loads of variables. -/
theorem placedLabels_loadFrom (slot : UInt16) (types : List FieldType) :
    placedLabels (Editing.loadFrom slot types) = [] := by
  induction types generalizing slot with
  | nil => rfl
  | cons type rest ih => exact ih _

/-- Pushing a number places no label. -/
theorem placed?_pushLong (value : Int64) : (Instruction.pushLong value).placed? = none := by
  unfold Instruction.pushLong
  split
  · rfl
  · split <;> rfl

/-- The labels of a forwarder: those around the call, the one of the return, those of the limits, and the one
where the handler starts. -/
theorem placedLabels_forwarderBody (report : Report) (moved : String) (types : List FieldType)
    (limits : List Limit) :
    placedLabels (report.forwarderBody moved types limits).instructions =
      [⟨0⟩, ⟨1⟩, ⟨2⟩] ++ limits.map Limit.exceeded ++ [⟨3⟩] := by
  have hcompare : placedLabels (limits.flatMap Limit.compare) = [] := by
    induction limits with
    | nil => rfl
    | cons limit rest ih =>
      rw [List.flatMap_cons, placedLabels_append, ih, Limit.compare]
      simp only [placedLabels_cons, placed?_pushLong]
      rfl
  have htelling : placedLabels (report.telling limits) = limits.map Limit.exceeded := by
    clear hcompare
    induction limits with
    | nil => rfl
    | cons limit rest ih =>
      rw [Report.telling] at ih ⊢
      rw [List.flatMap_cons, placedLabels_append, ih, Limit.tell]
      simp only [placedLabels_cons, placed?_pushLong]
      rfl
  have hopening : placedLabels (Report.opening types) = [⟨0⟩] := by
    rw [Report.opening, placedLabels_append, placedLabels_loadFrom]
    rfl
  have hcalling : (report.calling moved).placed? = none := rfl
  have htiming : placedLabels (report.timing types) = [⟨1⟩] := rfl
  have hclosing : placedLabels report.closing = [⟨2⟩] := rfl
  have hcatching : placedLabels (report.catching types) = [⟨3⟩] := rfl
  have hthrow : placedLabels [.plain Opcode.athrow] = [] := rfl
  simp only [Report.forwarderBody, placedLabels_append, placedLabels_cons _ (_ ++ _), hopening, hcalling,
    htiming, hcompare, hclosing, htelling, hcatching, hthrow]
  simp

/-- The labels of a forwarder are handed out, and placed once. -/
theorem wellLabelled_forwarderBody (report : Report) (moved : String) (types : List FieldType)
    (thresholds : Thresholds) :
    (report.forwarderBody moved types (Limit.ofThresholds thresholds 4)).WellLabelled := by
  have hplaced := placedLabels_forwarderBody report moved types (Limit.ofThresholds thresholds 4)
  have hnext : (report.forwarderBody moved types (Limit.ofThresholds thresholds 4)).nextLabel =
      4 + (Limit.ofThresholds thresholds 4).length := rfl
  rw [Limit.map_exceeded_ofThresholds] at hplaced
  generalize (Limit.ofThresholds thresholds 4).length = count at hplaced hnext
  refine ⟨fun label hmem => ?_, ?_⟩
  · rw [hplaced] at hmem
    simp only [List.mem_append, List.mem_cons, List.not_mem_nil, or_false, List.mem_map,
      List.mem_range'_1] at hmem
    rw [hnext]
    rcases hmem with ((rfl | rfl | rfl) | ⟨number, hnumber, rfl⟩) | rfl <;> dsimp only <;> omega
  · have hlimits : ((List.range' 4 count).map Label.mk).Nodup :=
      List.Nodup.map (fun _ _ h => by simpa using h) List.nodup_range'
    rw [hplaced, List.append_assoc]
    refine List.nodup_append'.mpr ⟨by decide, List.nodup_append'.mpr ⟨hlimits, by simp, by simp⟩, ?_⟩
    simp only [List.disjoint_left, List.mem_append, List.mem_map, List.mem_range'_1]
    rintro label hlabel (⟨number, hnumber, rfl⟩ | hlabel')
    · simp only [List.mem_cons, Label.mk.injEq, List.not_mem_nil, or_false] at hlabel
      omega
    · simp_all

/-- A label is found where it stands in a forwarder. -/
theorem labelPosition?_forwarderBody {report : Report} {moved : String} {types : List FieldType}
    {thresholds : Thresholds} {label : Label} (front back : List Instruction)
    (hbody : (report.forwarderBody moved types (Limit.ofThresholds thresholds 4)).instructions =
      front ++ .label label :: back) :
    (report.forwarderBody moved types (Limit.ofThresholds thresholds 4)).labelPosition? label =
      some front.length := by
  have hnodup := (wellLabelled_forwarderBody report moved types thresholds).placedOnce
  rw [hbody, placedLabels_append] at hnodup
  refine Body.labelPosition?_of_eq_append _ _ hbody fun hmem => ?_
  exact List.disjoint_of_nodup_append hnodup (mem_placedLabels.mpr hmem)
    (by simp [placedLabels, Instruction.placed?])

/-- A limit is reported as a failure, or as a warning. -/
theorem callback_of_mem {thresholds : Thresholds} {nextLabel : Nat} {limit : Limit}
    (h : limit ∈ Limit.ofThresholds thresholds nextLabel) :
    limit.callback = failed ∨ limit.callback = executedWithWarning := by
  simp only [Limit.ofThresholds, List.mem_map] at h
  obtain ⟨⟨⟨millis, callback⟩, position⟩, hmem, rfl⟩ := h
  have hgiven := (List.mem_filter.mp (List.mem_iff_getElem?.mpr
    ⟨position, List.mem_zipIdx_iff_getElem?.mp hmem⟩)).1
  simp only [List.mem_cons, Prod.mk.injEq, List.not_mem_nil, or_false] at hgiven
  rcases hgiven with ⟨-, rfl⟩ | ⟨-, rfl⟩
  · exact .inl rfl
  · exact .inr rfl

/-- The reports of limits are told the class, the name, the descriptor, the time and the limit. -/
theorem parse_descriptor_of_mem {thresholds : Thresholds} {nextLabel : Nat} {limit : Limit}
    (h : limit ∈ Limit.ofThresholds thresholds nextLabel) :
    MethodDescriptor.parse limit.callback.descriptor =
      .ok ⟨[.object Name.string, .object Name.string, .object Name.string, .base .long, .base .long],
        none⟩ := by
  rcases callback_of_mem h with hcallback | hcallback <;> rw [hcallback] <;> rfl

/-! ## From the answer to the end -/

section Endings

variable {world : World} {resultKind : Option Kind} {body : Body} {memory : Memory} {report : Report}
  {moved : String} {types : List FieldType} {thresholds : Thresholds} {start time : Int64}

/-- What is returned last: the result, if the instruction fits it. -/
theorem ends_return (front back : List Instruction) {label : Label} {opcode : Opcode}
    {result : Option Value} (hbody : body.instructions = front ++ .label label :: .plain opcode :: back)
    (hstack : memory.stack = result.toList) (hkind : result.map Value.kind = resultKind)
    (hreturn : opcode.isReturn) (ending : Ending) :
    body.Ends world resultKind ⟨front.length, memory⟩ ending ↔
      opcode = Opcode.returning resultKind ∧ ending = ⟨memory.calls, .returned result⟩ := by
  have hlabel : body.Leads world resultKind ⟨front.length, memory⟩ ⟨front.length + 1, memory⟩ :=
    .single (Body.step_of_proceed _ _ hbody rfl)
  have hplain : body.instructions = (front ++ [Instruction.label label]) ++ .plain opcode :: back := by
    simp [hbody]
  have hturn : (Instruction.plain opcode).turn world resultKind memory =
      Turn.ofReturn resultKind memory opcode := if_pos hreturn
  rw [Body.Leads.ends_iff hlabel,
    show front.length + 1 = (front ++ [Instruction.label label]).length by simp]
  by_cases hopcode : opcode = Opcode.returning resultKind
  · have hfinish : Turn.ofReturn resultKind memory opcode = some (.finish result memory) := by
      subst hkind
      unfold Turn.ofReturn
      rw [if_neg (not_not.mpr hopcode), hstack]
      cases result with
      | none => rfl
      | some value => exact if_pos rfl
    rw [Body.ends_iff_of_stop (Body.step_of_finish _ _ hplain (hturn.trans hfinish))]
    simp [hopcode]
  · have hstuck : Turn.ofReturn resultKind memory opcode = none := if_pos hopcode
    have hends := Body.not_ends_of_step_eq_none
      (Body.step_of_turn_eq_none _ _ hplain (hturn.trans hstuck)) ending
    exact ⟨fun h => absurd h hends, fun h => absurd h.1 hopcode⟩

/-- The time is reported by the first limit that it exceeds, or else as an execution, and the run goes on
at the return. -/
theorem leads_toldTime {rest : List Value} {spent : Int64}
    (hstack : memory.stack = .long spent :: ((report.identity.map Value.text).reverse ++ rest))
    (hquiet : ∀ exception,
      world.respond memory.calls (report.toldTime thresholds spent) ≠ .thrown exception) :
    (report.forwarderBody moved types (Limit.ofThresholds thresholds 4)).Leads world resultKind
      ⟨(Report.opening types ++ [report.calling moved] ++ report.timing types).length, memory⟩
      ⟨(Report.opening types ++ [report.calling moved] ++ report.timing types ++
          ((Limit.ofThresholds thresholds 4).flatMap Limit.compare ++
            [executed.call report.receiver])).length,
        { memory with stack := rest, calls := memory.calls ++ [report.toldTime thresholds spent] }⟩ := by
  set body := report.forwarderBody moved types (Limit.ofThresholds thresholds 4) with hbody
  set front := Report.opening types ++ [report.calling moved] ++ report.timing types with hfront
  set limits := Limit.ofThresholds thresholds 4 with hlimits
  have hcompare : body.instructions = front ++ limits.flatMap Limit.compare ++ (report.closing ++
      (report.telling limits ++ (report.catching types ++ [.plain Opcode.athrow]))) := by
    simp [hbody, hfront, Report.forwarderBody]
  have hcompared := @leads_compareAll world resultKind body memory spent _ front _ limits hcompare hstack
  rw [Report.toldTime, verdict_eq thresholds 4, ← hlimits] at hquiet ⊢
  split at hcompared
  · next hnone =>
    rw [hnone] at hquiet ⊢
    have hturn : (executed.call report.receiver).turn world resultKind memory =
        some (.proceed { memory with
          stack := rest, calls := memory.calls ++ [report.told executed [.long spent]] }) :=
      turn_callback rfl rfl (by simpa [Report.told] using hstack) hquiet
    have hexecuted : body.instructions = (front ++ limits.flatMap Limit.compare) ++
        executed.call report.receiver :: (.label ⟨2⟩ ::
          .plain (Editing.returnOpcode report.descriptor) ::
          (report.telling limits ++ (report.catching types ++ [.plain Opcode.athrow]))) := by
      simp [hcompare, Report.closing]
    have hstep := Body.step_of_proceed _ _ hexecuted hturn
    refine hcompared.tail ?_
    simpa [Nat.add_assoc] using hstep
  · next limit hfound =>
    rw [hfound] at hquiet ⊢
    have hmem := List.mem_of_find?_eq_some hfound
    obtain ⟨before, after, hsplit⟩ := List.append_of_mem hmem
    -- What stands in front of the report of the limit, and what stands behind it.
    let ahead := front ++ limits.flatMap Limit.compare ++ report.closing ++ report.telling before
    let behind := report.telling after ++ (report.catching types ++ [.plain Opcode.athrow])
    have htelling : report.telling limits =
        report.telling before ++ (limit.tell report.receiver ⟨2⟩ ++ report.telling after) := by
      simp [hsplit, Report.telling]
    have hinstructions : body.instructions = ahead ++ (limit.tell report.receiver ⟨2⟩ ++ behind) := by
      simp [hbody, hfront, ahead, behind, Report.forwarderBody, htelling]
    have hlabel : body.labelPosition? limit.exceeded = some ahead.length :=
      labelPosition?_forwarderBody _ _ hinstructions
    have hturn : (limit.callback.call report.receiver).turn world resultKind
        (memory.push (.long limit.nanos)) = some (.proceed { memory with
          stack := rest
          calls := memory.calls ++ [report.told limit.callback [.long spent, .long limit.nanos]] }) :=
      turn_callback (parse_descriptor_of_mem hmem) rfl (by simp [Report.told, hstack]) hquiet
    have htold : straightRun world resultKind
        [.label limit.exceeded, .pushLong limit.nanos, limit.callback.call report.receiver] memory =
          some { memory with
            stack := rest
            calls := memory.calls ++
              [report.told limit.callback [.long spent, .long limit.nanos]] } := by
      have hskip : (Instruction.label limit.exceeded).turn world resultKind memory =
          some (.proceed memory) := rfl
      simp only [straightRun, hskip, turn_pushLong, hturn]
    have hgoto : body.instructions = ahead ++
        [.label limit.exceeded, .pushLong limit.nanos, limit.callback.call report.receiver] ++
          .jump Opcode.goto ⟨2⟩ :: behind := by
      rw [hinstructions, Limit.tell]
      simp
    refine (hcompared _ hlabel).trans
      ((Body.leads_of_straight _ _ hgoto htold).tail (Body.step_of_jump _ _ hgoto rfl ?_))
    refine labelPosition?_forwarderBody _ (.plain (Editing.returnOpcode report.descriptor) ::
      (report.telling limits ++ (report.catching types ++ [.plain Opcode.athrow]))) ?_
    simp [hfront, hlimits, Report.forwarderBody, Report.closing]

/-- A run in which the moved body has returned makes one report and returns what the moved body did. -/
theorem ends_iff_of_returned {result : Option Value}
    (hstack : memory.stack = result.toList) (hkind : result.map Value.kind = resultKind)
    (hstart : memory.locals (Report.freeSlot types).toNat = some (.long start))
    (hclock : world.respond memory.calls clock = .returned (some (.long time)))
    (hquiet : ∀ exception, world.respond (memory.calls ++ [clock])
      (report.toldTime thresholds (time - start)) ≠ .thrown exception) (ending : Ending) :
    (report.forwarderBody moved types (Limit.ofThresholds thresholds 4)).Ends world resultKind
      ⟨(Report.opening types).length + 1, memory⟩ ending ↔
      Editing.returnOpcode report.descriptor = Opcode.returning resultKind ∧
        ending = { calls := memory.calls ++ [clock, report.toldTime thresholds (time - start)]
                   answer := .returned result } := by
  set body := report.forwarderBody moved types (Limit.ofThresholds thresholds 4) with hbody
  set limits := Limit.ofThresholds thresholds 4 with hlimits
  let timed : Memory := { memory with
    stack := .long (time - start) :: ((report.identity.map Value.text).reverse ++ result.toList)
    calls := memory.calls ++ [clock] }
  have htiming : straightRun world resultKind (report.timing types) memory = some timed := by
    rw [Report.timing, ← List.singleton_append, straightRun_append,
      show straightRun world resultKind [.label ⟨1⟩] memory = some memory from rfl, Option.bind_some,
      straightRun_append, straightRun_pushIdentity, Option.bind_some, hstack]
    exact straightRun_pushElapsed hstart hclock
  have hbefore : body.Leads world resultKind ⟨(Report.opening types).length + 1, memory⟩
      ⟨(Report.opening types ++ [report.calling moved] ++ report.timing types).length, timed⟩ := by
    rw [show (Report.opening types).length + 1 =
      (Report.opening types ++ [report.calling moved]).length by simp]
    refine Body.leads_of_straight _ (limits.flatMap Limit.compare ++ (report.closing ++
      (report.telling limits ++ (report.catching types ++ [.plain Opcode.athrow])))) ?_ htiming
    simp [hbody, Report.forwarderBody]
  have hreturn : body.instructions = (Report.opening types ++ [report.calling moved] ++
      report.timing types ++ (limits.flatMap Limit.compare ++ [executed.call report.receiver])) ++
        .label ⟨2⟩ :: .plain (Editing.returnOpcode report.descriptor) ::
          (report.telling limits ++ (report.catching types ++ [.plain Opcode.athrow])) := by
    simp [hbody, Report.forwarderBody, Report.closing]
  rw [Body.Leads.ends_iff (hbefore.trans (leads_toldTime rfl hquiet)),
    ends_return _ _ hreturn rfl hkind (Editing.isReturn_returnOpcode _)]
  simp [timed]

/-- What can be thrown is caught up to the call of the moved body, and nowhere behind it. -/
theorem catching?_forwarderBody {position : Nat} {exception : Value}
    (hthrowable : world.isInstance exception Name.throwable) (hposition : 2 ≤ position) :
    (report.forwarderBody moved types (Limit.ofThresholds thresholds 4)).catching? world position
        exception =
      if position ≤ (Report.opening types).length then
        some { start := ⟨0⟩, stop := ⟨1⟩, handler := ⟨3⟩, caught := some Name.throwable }
      else none := by
  set body := report.forwarderBody moved types (Limit.ofThresholds thresholds 4) with hbody
  have hstart : body.labelPosition? ⟨0⟩ = some 2 :=
    labelPosition?_forwarderBody [readClock, .var Opcode.lstore (Report.freeSlot types)] _ rfl
  have hstop : body.labelPosition? ⟨1⟩ = some ((Report.opening types).length + 1) := by
    rw [show (Report.opening types).length + 1 =
      (Report.opening types ++ [report.calling moved]).length by simp]
    refine labelPosition?_forwarderBody _ (report.pushIdentity ++
      Report.pushElapsed (Report.freeSlot types) ++
      ((Limit.ofThresholds thresholds 4).flatMap Limit.compare ++ (report.closing ++
      (report.telling (Limit.ofThresholds thresholds 4) ++
      (report.catching types ++ [.plain Opcode.athrow]))))) ?_
    simp [Report.forwarderBody, Report.timing]
  have hhandlers : body.handlers =
      [{ start := ⟨0⟩, stop := ⟨1⟩, handler := ⟨3⟩, caught := some Name.throwable }] := rfl
  simp only [Body.catching?, hhandlers, List.find?_cons, List.find?_nil, Body.isProtectedBy, hstart, hstop,
    Option.all_some, hthrowable, Bool.and_true, decide_eq_true hposition, Bool.true_and,
    Nat.lt_succ_iff]
  split <;> simp_all

/-- A run in which the moved body has thrown reports what was thrown, and throws it again. -/
theorem ends_iff_of_thrown {exception : Value} {before : Memory}
    (hturn : (report.calling moved).turn world resultKind before = some (.raise exception memory))
    (hkind : exception.kind = .reference) (hnull : exception ≠ .null)
    (hthrowable : world.isInstance exception Name.throwable)
    (hstart : memory.locals (Report.freeSlot types).toNat = some (.long start))
    (hclock : world.respond memory.calls clock = .returned (some (.long time)))
    (hquiet : ∀ other, world.respond (memory.calls ++ [clock])
      (report.told thrown [exception, .long (time - start)]) ≠ .thrown other) (ending : Ending) :
    (report.forwarderBody moved types (Limit.ofThresholds thresholds 4)).Ends world resultKind
      ⟨(Report.opening types).length, before⟩ ending ↔
        ending = { calls := memory.calls ++ [clock, report.told thrown [exception, .long (time - start)]]
                   answer := .thrown exception } := by
  set body := report.forwarderBody moved types (Limit.ofThresholds thresholds 4) with hbody
  let front := Report.opening types ++ report.calling moved :: (report.timing types ++
    ((Limit.ofThresholds thresholds 4).flatMap Limit.compare ++ (report.closing ++
    report.telling (Limit.ofThresholds thresholds 4))))
  have hinstructions : body.instructions = front ++ report.catching types ++ [.plain Opcode.athrow] := by
    simp [hbody, front, Report.forwarderBody]
  have hcatcher : body.labelPosition? ⟨3⟩ = some front.length :=
    labelPosition?_forwarderBody _ (.plain Opcode.dup :: (report.pushIdentityUnder ++
      (Report.pushElapsed (Report.freeSlot types) ++
      ([thrown.call report.receiver] ++ [.plain Opcode.athrow])))) (by
        rw [← hbody, hinstructions]
        simp [Report.catching])
  have hopening : 2 ≤ (Report.opening types).length := by simp [Report.opening]
  have hcaught : body.step world resultKind ⟨(Report.opening types).length, before⟩ =
      some (.next ⟨front.length, { memory with stack := [exception] }⟩) := by
    have hhandler : body.catching? world (Report.opening types).length exception = _ :=
      (catching?_forwarderBody hthrowable hopening).trans (if_pos le_rfl)
    exact Body.step_of_caught _ _ rfl hturn hhandler hcatcher
  let told : Memory := { memory with
    stack := [exception]
    calls := memory.calls ++ [clock, report.told thrown [exception, .long (time - start)]] }
  have hreport : straightRun world resultKind (report.catching types)
      { memory with stack := [exception] } = some told := by
    have hfirst : straightRun world resultKind [.label ⟨3⟩, .plain Opcode.dup]
        { memory with stack := [exception] } =
          some { memory with stack := [exception, exception] } := by
      have hdup : Turn.ofPlain { memory with stack := [exception] } Opcode.dup =
          some (.proceed { memory with stack := [exception, exception] }) :=
        if_pos (by rw [Value.width, hkind]; rfl)
      simp only [straightRun, Instruction.turn]
      rw [if_neg (by decide), hdup]
    have helapsed : straightRun world resultKind (Report.pushElapsed (Report.freeSlot types))
        { memory with
          stack := exception :: ((report.identity.map Value.text).reverse ++ [exception]) } =
        some { memory with
          stack := .long (time - start) :: exception ::
            ((report.identity.map Value.text).reverse ++ [exception])
          calls := memory.calls ++ [clock] } :=
      straightRun_pushElapsed hstart hclock
    have hlast : (thrown.call report.receiver).turn world resultKind { memory with
          stack := .long (time - start) :: exception ::
            ((report.identity.map Value.text).reverse ++ [exception])
          calls := memory.calls ++ [clock] } = some (.proceed { memory with
            stack := [exception]
            calls := memory.calls ++ [clock] ++
              [report.told thrown [exception, .long (time - start)]] }) :=
      turn_callback (show MethodDescriptor.parse thrown.descriptor = .ok ⟨[.object Name.string,
          .object Name.string, .object Name.string, .object Name.throwable, .base .long], none⟩ from rfl)
        (by simp [Report.told, hkind]; rfl) (by simp [Report.told]) hquiet
    have hcatching : report.catching types = [.label ⟨3⟩, .plain Opcode.dup] ++
        (report.pushIdentityUnder ++ (Report.pushElapsed (Report.freeSlot types) ++
          [thrown.call report.receiver])) := by
      simp [Report.catching]
    rw [hcatching, straightRun_append, hfirst, Option.bind_some, straightRun_append,
      straightRun_pushIdentityUnder hkind rfl, Option.bind_some, straightRun_append, helapsed,
      Option.bind_some, straightRun, hlast]
    simp [straightRun, told]
  have hthrow : (Instruction.plain Opcode.athrow).turn world resultKind told =
      some (.raise exception told) := by
    have hplain : Turn.ofPlain told Opcode.athrow = some (.raise exception told) := if_pos ⟨hkind, hnull⟩
    exact hplain
  have hbehind : (Report.opening types).length < (front ++ report.catching types).length := by
    simp [front]
  have hleads : body.Leads world resultKind ⟨(Report.opening types).length, before⟩
      ⟨(front ++ report.catching types).length, told⟩ :=
    .head hcaught (Body.leads_of_straight _ _ hinstructions hreport)
  rw [Body.Leads.ends_iff hleads,
    Body.ends_iff_of_stop (Body.step_of_uncaught _ _ hinstructions hthrow ?_)]
  rw [catching?_forwarderBody hthrowable (by omega), if_neg (by omega)]

/-- A run reads the clock, keeps the time behind the arguments, and puts the arguments on the stack. -/
theorem straightRun_opening {arguments : List Value}
    (hkinds : arguments.map Value.kind = types.map FieldType.kind)
    (hslots : (types.map FieldType.width).sum + 2 ≤ 65536)
    (hclock : world.respond [] clock = .returned (some (.long start))) :
    ∃ locals : Locals, locals (Report.freeSlot types).toNat = some (.long start) ∧
      straightRun world resultKind (Report.opening types) (Run.start arguments).memory =
        some { stack := arguments.reverse, locals, calls := [clock] } := by
  have hwidths : (arguments.map Value.width).sum = (types.map FieldType.width).sum := by
    have hmap : (arguments.map Value.kind).map Kind.width = (types.map FieldType.kind).map Kind.width := by
      rw [hkinds]
    simp only [List.map_map] at hmap
    have hvalue : Kind.width ∘ Value.kind = Value.width := rfl
    have htype : Kind.width ∘ FieldType.kind = FieldType.width := funext FieldType.width_kind
    rw [← hvalue, hmap, htype]
  have hfree : (Report.freeSlot types).toNat = (types.map FieldType.width).sum := by
    rw [Report.freeSlot, UInt16.toNat_ofNat']
    omega
  set stored : Locals := (Locals.ofArguments 0 arguments).store (Report.freeSlot types).toNat
    (.long start) with hstored
  refine ⟨stored, by simp [hstored], ?_⟩
  have hread : readClock.turn world resultKind (Run.start arguments).memory =
      some (.proceed { stack := [.long start], locals := .ofArguments 0 arguments, calls := [clock] }) :=
    turn_readClock hclock
  have hstore : (Instruction.var Opcode.lstore (Report.freeSlot types)).turn world resultKind
      { stack := [.long start], locals := .ofArguments 0 arguments, calls := [clock] } =
        some (.proceed { stack := [], locals := stored, calls := [clock] }) := by
    have hlong : Turn.ofVariable
        { stack := [.long start], locals := .ofArguments 0 arguments, calls := [clock] }
        Opcode.lstore (Report.freeSlot types).toNat =
          some (.proceed { stack := [], locals := stored, calls := [clock] }) :=
      if_pos ⟨rfl, by rw [hfree]; exact hslots⟩
    exact hlong
  have hlabel : (Instruction.label ⟨0⟩).turn world resultKind
      { stack := [], locals := stored, calls := [clock] } =
        some (.proceed { stack := [], locals := stored, calls := [clock] }) := rfl
  have hholds : stored.Holds 0 arguments :=
    Locals.Holds.store (Locals.holds_of_eq fun _ _ => rfl) (by rw [hfree, hwidths]; omega) _
  rw [Report.opening, straightRun_append]
  simp only [straightRun, hread, hstore, hlabel, Option.bind_some]
  rw [straightRun_loadFrom hkinds hholds (by simp; omega)]
  simp

end Endings

/-- A forwarder calls the moved body once, with the arguments that it got.  If the moved body returns, the
time between two readings of the clock is reported once, as `verdict` says, and the result is returned,
exactly if the return instruction fits the type of the result; it does whenever that type holds no closing
parenthesis.  If the moved body throws an object, that is reported once, and the object is thrown again.
Nothing else is called, and there is no other end. -/
theorem forwarder_dispatches {report : Report} {parsed : MethodDescriptor}
    (hparse : MethodDescriptor.parse report.descriptor = .ok parsed)
    (hslots : parsed.parameterSlots (!report.isStatic) + 2 ≤ 65536) (moved : String)
    (thresholds : Thresholds) :
    let resultKind := parsed.result.map FieldType.kind
    (')' ∉ (MethodDescriptor.renderResult parsed.result).toList →
      Editing.returnOpcode report.descriptor = Opcode.returning resultKind) ∧
    ∃ body, report.forwarder moved [] thresholds = .ok body ∧
      ∀ (world : World) (arguments : List Value) (start time : Int64),
        arguments.map Value.kind = (report.argumentTypes parsed).map FieldType.kind →
        (report.isStatic = false → arguments.head? ≠ some .null) →
        let call := report.movedCall moved arguments
        world.respond [] clock = .returned (some (.long start)) →
        world.respond [clock, call] clock = .returned (some (.long time)) →
        (∀ told exception, told.callee.owner = report.receiver →
          world.respond [clock, call, clock] told ≠ .thrown exception) →
        match world.respond [clock] call with
        | .returned result => ∀ ending, body.Ends world resultKind (.start arguments) ending ↔
            Editing.returnOpcode report.descriptor = Opcode.returning resultKind ∧
              ending = { calls := [clock, call, clock, report.toldTime thresholds (time - start)]
                         answer := .returned result }
        | .thrown exception => ∀ ending, body.Ends world resultKind (.start arguments) ending ↔
            ending = { calls := [clock, call, clock,
                         report.told thrown [exception, .long (time - start)]]
                       answer := .thrown exception } := by
  intro resultKind
  refine ⟨Editing.returnOpcode_of_parse hparse, _, Report.forwarder_eq hparse moved thresholds, ?_⟩
  intro world arguments start time hkinds hreceiver call hstart htime hquiet
  rw [Report.parameterSlots_eq] at hslots
  set types := report.argumentTypes parsed
  set body := report.forwarderBody moved types (Limit.ofThresholds thresholds 4) with hbody
  obtain ⟨locals, hlocals, hopening⟩ :=
    @straightRun_opening world resultKind types start arguments hkinds hslots hstart
  have hleads : body.Leads world resultKind (.start arguments)
      ⟨(Report.opening types).length, { stack := arguments.reverse, locals, calls := [clock] }⟩ :=
    Body.leads_of_straight [] _ rfl hopening
  have hcall : (report.calling moved).turn world resultKind
      { stack := arguments.reverse, locals, calls := [clock] } =
        some (Turn.ofAnswer { stack := [], locals, calls := [clock, call] }
          (world.respond [clock] call)) :=
    turn_callMoved hparse hkinds hreceiver rfl
  split
  · next result hanswer =>
    intro ending
    rw [hanswer] at hcall
    have hstep : body.step world resultKind
        ⟨(Report.opening types).length, { stack := arguments.reverse, locals, calls := [clock] }⟩ =
          some (.next ⟨(Report.opening types).length + 1,
            { stack := result.toList ++ [], locals, calls := [clock, call] }⟩) :=
      Body.step_of_proceed _ _ rfl hcall
    rw [Body.Leads.ends_iff (hleads.tail hstep)]
    exact ends_iff_of_returned (List.append_nil _) (world.kind_of_returned hanswer hparse) hlocals htime
      (fun exception => hquiet _ exception rfl) ending
  · next exception hanswer =>
    intro ending
    rw [hanswer] at hcall
    obtain ⟨hkind, hnull, hthrowable⟩ := world.isInstance_of_thrown hanswer
    have hthrown : ∀ other, world.respond [clock, call, clock]
        (report.told thrown [exception, .long (time - start)]) ≠ .thrown other :=
      fun other => hquiet _ other rfl
    rw [Body.Leads.ends_iff hleads]
    exact ends_iff_of_thrown hcall hkind hnull hthrowable hlocals htime hthrown ending

/-- A world in which four milliseconds pass with each call, one method at most throws, and all others return
zero or nothing. -/
def tickingWorld (failing : Option Member) : World where
  respond made call :=
    if failing = some call.callee then .thrown (.object 13)
    else
      match MethodDescriptor.parse call.callee.descriptor with
      | .ok parsed => .returned (parsed.result.map fun type =>
          match type.kind with
          | .int => .int 0
          | .long => .long (Int64.ofNat (4000000 * made.length))
          | .float => .float 0
          | .double => .double 0
          | .reference => .null)
      | .error _ => .returned none
  isInstance _ _ := true
  kind_of_returned := by
    intro made call result parsed hanswer hparse
    rw [hparse] at hanswer
    dsimp only at hanswer
    split at hanswer
    · cases hanswer
    · obtain rfl := Answer.returned.inj hanswer
      cases parsed.result with
      | none => rfl
      | some type =>
        rw [Option.map_some, Option.map_some, Option.map_some]
        cases type.kind <;> rfl
  isInstance_of_thrown := by
    intro made call exception hanswer
    split at hanswer
    · obtain rfl := Answer.thrown.inj hanswer
      exact ⟨rfl, by decide, rfl⟩
    · split at hanswer <;> cases hanswer

/-- A report on a method with a descriptor. -/
def sampleReport (descriptor : String) : Report where
  owner := "a/A"
  name := "f"
  descriptor
  isStatic := false
  receiver := "r/R"

/-- Only the failing method throws. -/
theorem respond_tickingWorld_ne_thrown {failing : Option Member} {made : List Call} {call : Call}
    (h : failing ≠ some call.callee) (exception : Value) :
    (tickingWorld failing).respond made call ≠ .thrown exception := by
  simp only [tickingWorld, if_neg h]
  split <;> simp

/-- After eight milliseconds, a limit of nine is not exceeded and one of five is; what is thrown is told with
the time; and no run ends that has to return an object of a class named `a)I`. -/
theorem forwarder_dispatches_ticking :
    (∃ body, (sampleReport "(IJ)Ljava/lang/Object;").forwarder "moved" [] ⟨5, 9⟩ = .ok body ∧
      ∀ ending, body.Ends (tickingWorld none) (some .reference) (.start [.object 7, .int 1, .long 2])
          ending ↔
        ending = {
          calls := [clock,
            (sampleReport "(IJ)Ljava/lang/Object;").movedCall "moved" [.object 7, .int 1, .long 2],
            clock,
            (sampleReport "(IJ)Ljava/lang/Object;").told executedWithWarning
              [.long 8000000, .long 5000000]]
          answer := .returned (some .null) }) ∧
    (∃ body, (sampleReport "()V").forwarder "moved" [] ⟨5, 9⟩ = .ok body ∧
      ∀ ending, body.Ends (tickingWorld (some ⟨"a/A", "moved", "()V", false⟩)) none (.start [.object 7])
          ending ↔
        ending = {
          calls := [clock, (sampleReport "()V").movedCall "moved" [.object 7], clock,
            (sampleReport "()V").told thrown [.object 13, .long 8000000]]
          answer := .thrown (.object 13) }) ∧
    ∃ body, (sampleReport "()La)I;").forwarder "moved" [] ⟨5, 9⟩ = .ok body ∧
      ∀ ending, ¬ body.Ends (tickingWorld none) (some .reference) (.start [.object 7]) ending := by
  refine ⟨?_, ?_, ?_⟩
  · obtain ⟨hreturns, body, hbody, hends⟩ := @forwarder_dispatches
      (sampleReport "(IJ)Ljava/lang/Object;")
      ⟨[.base .int, .base .long], some (.object "java/lang/Object")⟩ rfl (by decide) "moved" ⟨5, 9⟩
    refine ⟨body, hbody, fun ending => ?_⟩
    have hrun := hends (tickingWorld none) [.object 7, .int 1, .long 2] 0 8000000 rfl (by simp) rfl rfl
      fun _ _ _ => respond_tickingWorld_ne_thrown (by simp) _
    exact (hrun ending).trans (and_iff_right (hreturns (by decide)))
  · obtain ⟨-, body, hbody, hends⟩ := @forwarder_dispatches (sampleReport "()V") ⟨[], none⟩ rfl
      (by decide) "moved" ⟨5, 9⟩
    refine ⟨body, hbody, ?_⟩
    exact hends (tickingWorld (some ⟨"a/A", "moved", "()V", false⟩)) [.object 7] 0 8000000 rfl (by simp)
      rfl rfl fun told _ howner => respond_tickingWorld_ne_thrown (fun h => by
        rw [← Option.some.inj h] at howner
        exact absurd howner (by decide)) _
  · obtain ⟨-, body, hbody, hends⟩ := @forwarder_dispatches (sampleReport "()La)I;")
      ⟨[], some (.object "a)I")⟩ rfl (by decide) "moved" ⟨5, 9⟩
    refine ⟨body, hbody, fun ending hending => ?_⟩
    have hrun := hends (tickingWorld none) [.object 7] 0 8000000 rfl (by simp) rfl rfl
      fun _ _ _ => respond_tickingWorld_ne_thrown (by simp) _
    exact absurd ((hrun ending).mp hending).1 (by decide)

end Benchmark

end ClassInstrument
