import Mathlib
import ClassInstrument.Code.Body
import ClassInstrument.Descriptor

/-!
# Running a body

The machine that runs the body of a method has an operand stack, local variables and a position in the
list of instructions.  What happens outside of the body is the business of a `World`: it answers every
call with a value or with something thrown, and it knows all calls that were made before.  So a clock is
a method whose answer depends on those, and two runs in one world make the same calls.

What an instruction does to the stack and the variables is the `Turn` that the run takes at it, which does
not depend on the position; `step` adds where the run goes on.  There are turns for loads, stores,
constants, jumps and calls, and for the arithmetic that injected code does; all other instructions, and
operands of wrong kinds, leave the machine without a next step.  A run `Ends` in one way at most.
-/

namespace ClassInstrument

/-! ## Values -/

/-- The kinds of values that instructions distinguish, in the order of the opcodes that load, store and
return them. -/
inductive Kind where
  | int | long | float | double | reference
deriving DecidableEq, Repr

namespace Kind

/-- The kind at a place in the order of the kinds. -/
def ofIndex? : Nat → Option Kind
  | 0 => some int
  | 1 => some long
  | 2 => some float
  | 3 => some double
  | 4 => some reference
  | _ => none

/-- The number of slots a value takes. -/
def width : Kind → Nat
  | long | double => 2
  | _ => 1

end Kind

/-- The kind of the values of a type: small numbers are computed with as numbers of type `int`. -/
def FieldType.kind : FieldType → Kind
  | base .long => .long
  | base .float => .float
  | base .double => .double
  | base _ => .int
  | _ => .reference

namespace Opcode

/-- The kind that an opcode loads. -/
def loads? (opcode : Opcode) : Option Kind :=
  if opcode.isLoad then Kind.ofIndex? (opcode.toNat - iload.toNat) else none

/-- The kind that an opcode stores. -/
def stores? (opcode : Opcode) : Option Kind :=
  if opcode.isStore then Kind.ofIndex? (opcode.toNat - istore.toNat) else none

/-- The opcode that returns from a method with a result of some kind, or without one. -/
def returning : Option Kind → Opcode
  | none => returnVoid
  | some .int => ireturn
  | some .long => lreturn
  | some .float => freturn
  | some .double => dreturn
  | some .reference => areturn

end Opcode

/-- A value that a body computes with. -/
inductive Value where
  /-- A number of type `int`. -/
  | int (value : Int32)
  /-- A number of type `long`. -/
  | long (value : Int64)
  /-- A number of type `float`, as its bits. -/
  | float (bits : UInt32)
  /-- A number of type `double`, as its bits. -/
  | double (bits : UInt64)
  /-- The object that a text constant stands for. -/
  | text (text : String)
  /-- Any other object. -/
  | object (address : Nat)
  /-- The reference to no object. -/
  | null
deriving DecidableEq, Repr

namespace Value

/-- The kind of a value. -/
def kind : Value → Kind
  | int _ => .int
  | long _ => .long
  | float _ => .float
  | double _ => .double
  | text _ | object _ | null => .reference

/-- The number of slots a value takes. -/
def width (value : Value) : Nat := value.kind.width

/-- The value of a constant, as far as the constant alone tells it. -/
def ofConstant? : Loadable → Option Value
  | .int value => some (int value)
  | .long value => some (long value)
  | .float bits => some (float bits)
  | .double bits => some (double bits)
  | .string content => some (text content)
  | _ => none

end Value

/-! ## Local variables -/

/-- The values of local variables; the second slot of a wide value has none. -/
abbrev Locals := Nat → Option Value

namespace Locals

/-- Stores a value.  It takes the second slot of a wide value with it, and if it hits the second slot of
another value, that value is gone. -/
def store (locals : Locals) (slot : Nat) (value : Value) (place : Nat) : Option Value :=
  if place = slot then some value
  else if place = slot + 1 ∧ value.width = 2 then none
  else if place + 1 = slot ∧ (locals place).any (fun old => old.width = 2) then none
  else locals place

/-- The arguments of a call, one behind the other from a slot on. -/
def ofArguments : Nat → List Value → Locals
  | _, [], _ => none
  | slot, value :: rest, place =>
    if place = slot then some value else ofArguments (slot + value.width) rest place

/-- Values stand one behind the other from a slot on. -/
def Holds (locals : Locals) : Nat → List Value → Prop
  | _, [] => True
  | slot, value :: rest => locals slot = some value ∧ Holds locals (slot + value.width) rest

/-- A value takes a slot at least. -/
theorem width_pos (value : Value) : 0 < value.width := by
  cases value <;> exact Nat.zero_lt_succ _

/-- Variables that are those of arguments from a slot on hold them. -/
theorem holds_of_eq {locals : Locals} {slot : Nat} {values : List Value}
    (h : ∀ place, slot ≤ place → locals place = ofArguments slot values place) :
    locals.Holds slot values := by
  induction values generalizing slot with
  | nil => trivial
  | cons value rest ih =>
    have hpos := width_pos value
    refine ⟨by rw [h slot le_rfl, ofArguments, if_pos rfl], ih fun place hplace => ?_⟩
    rw [h place (by omega), ofArguments, if_neg (by omega)]

/-- A value that is stored behind others leaves them where they are. -/
theorem Holds.store {locals : Locals} {slot free : Nat} {values : List Value}
    (h : locals.Holds slot values) (hfree : slot + (values.map Value.width).sum ≤ free)
    (value : Value) : Holds (locals.store free value) slot values := by
  induction values generalizing slot with
  | nil => trivial
  | cons first rest ih =>
    obtain ⟨hfirst, hrest⟩ := h
    have hpos := width_pos first
    rw [List.map_cons, List.sum_cons] at hfree
    refine ⟨?_, ih hrest (by omega)⟩
    rw [Locals.store, if_neg (by omega), if_neg (by omega), if_neg, hfirst]
    -- A wide value does not end in front of the slot behind its first one.
    rintro ⟨hnext, hwide⟩
    rw [hfirst, Option.any_some, decide_eq_true_eq] at hwide
    omega

/-- A stored value is found where it was stored. -/
@[simp] theorem store_self (locals : Locals) (slot : Nat) (value : Value) :
    locals.store slot value slot = some value :=
  if_pos rfl

end Locals

/-! ## Calls and answers -/

/-- A call with its arguments, the receiver first. -/
structure Call where
  /-- The instruction that makes the call. -/
  opcode : Opcode
  /-- What is called. -/
  callee : Member
  /-- The arguments. -/
  arguments : List Value
deriving DecidableEq, Repr

/-- How a call ends. -/
inductive Answer where
  /-- It returns, with a value unless the method has no result. -/
  | returned (result : Option Value)
  /-- It throws an object. -/
  | thrown (exception : Value)
deriving DecidableEq, Repr

/-- Everything outside of a body. -/
structure World where
  /-- Answers a call, given the calls made before. -/
  respond : List Call → Call → Answer
  /-- Is an object an instance of a class? -/
  isInstance : Value → String → Bool
  /-- What a method returns is of the kind that its descriptor tells. -/
  kind_of_returned : ∀ {made call result parsed}, respond made call = .returned result →
    MethodDescriptor.parse call.callee.descriptor = .ok parsed →
    result.map Value.kind = parsed.result.map FieldType.kind
  /-- Only objects are thrown, and only instances of the root of what can be thrown. -/
  isInstance_of_thrown : ∀ {made call exception}, respond made call = .thrown exception →
    exception.kind = .reference ∧ exception ≠ .null ∧ isInstance exception Name.throwable

/-! ## Turns -/

/-- What a run remembers apart from its position. -/
structure Memory where
  /-- The operand stack, last value first. -/
  stack : List Value
  /-- The local variables. -/
  locals : Locals
  /-- The calls that were made so far. -/
  calls : List Call

namespace Memory

/-- Pushes a value. -/
def push (memory : Memory) (value : Value) : Memory :=
  { memory with stack := value :: memory.stack }

@[simp] theorem stack_push (memory : Memory) (value : Value) :
    (memory.push value).stack = value :: memory.stack := rfl

@[simp] theorem locals_push (memory : Memory) (value : Value) :
    (memory.push value).locals = memory.locals := rfl

@[simp] theorem calls_push (memory : Memory) (value : Value) :
    (memory.push value).calls = memory.calls := rfl

end Memory

/-- What an instruction does. -/
inductive Turn where
  /-- The run goes on with the next instruction. -/
  | proceed (memory : Memory)
  /-- The run goes on at a label. -/
  | jump (target : Label) (memory : Memory)
  /-- An object is thrown. -/
  | raise (exception : Value) (memory : Memory)
  /-- The method returns. -/
  | finish (result : Option Value) (memory : Memory)

namespace Turn

/-- What an instruction does that returns from a method with a result of some kind, or without one. -/
def ofReturn (resultKind : Option Kind) (memory : Memory) (opcode : Opcode) : Option Turn :=
  if opcode ≠ Opcode.returning resultKind then none
  else
    match resultKind, memory.stack with
    | none, _ => some (finish none memory)
    | some kind, value :: _ => if value.kind = kind then some (finish (some value) memory) else none
    | some _, [] => none

/-- The comparison of two numbers as a number. -/
def compareLong (first second : Int64) : Int32 :=
  if first < second then -1 else if first = second then 0 else 1

/-- What any other instruction without operands does. -/
def ofPlain (memory : Memory) (opcode : Opcode) : Option Turn :=
  match opcode, memory.stack with
  | Opcode.lconst0, _ => some (proceed (memory.push (.long 0)))
  | Opcode.lconst1, _ => some (proceed (memory.push (.long 1)))
  | Opcode.dup, value :: _ => if value.width = 1 then some (proceed (memory.push value)) else none
  | Opcode.dup2, value :: second :: _ =>
    if value.width = 2 then some (proceed (memory.push value))
    else if second.width = 1 then some (proceed ((memory.push second).push value))
    else none
  | Opcode.dup2, [value] => if value.width = 2 then some (proceed (memory.push value)) else none
  | Opcode.swap, value :: second :: rest =>
    if value.width = 1 ∧ second.width = 1 then
      some (proceed { memory with stack := second :: value :: rest })
    else none
  | Opcode.lsub, .long second :: .long first :: rest =>
    some (proceed { memory with stack := .long (first - second) :: rest })
  | Opcode.lneg, .long value :: rest => some (proceed { memory with stack := .long (-value) :: rest })
  | Opcode.lcmp, .long second :: .long first :: rest =>
    some (proceed { memory with stack := .int (compareLong first second) :: rest })
  | Opcode.athrow, exception :: _ =>
    if exception.kind = .reference ∧ exception ≠ .null then some (raise exception memory) else none
  | _, _ => none

/-- What a load or a store of a variable does. -/
def ofVariable (memory : Memory) (opcode : Opcode) (slot : Nat) : Option Turn :=
  match opcode.loads?, opcode.stores?, memory.stack with
  | some kind, _, _ =>
    match memory.locals slot with
    | some value => if value.kind = kind then some (proceed (memory.push value)) else none
    | none => none
  | none, some kind, value :: rest =>
    if value.kind = kind ∧ slot + value.width ≤ 65536 then
      some (proceed { memory with stack := rest, locals := memory.locals.store slot value })
    else none
  | _, _, _ => none

/-- What a jump does. -/
def ofJump (memory : Memory) (opcode : Opcode) (target : Label) : Option Turn :=
  match opcode, memory.stack with
  | Opcode.goto, _ => some (jump target memory)
  | Opcode.ifge, .int value :: rest =>
    let popped := { memory with stack := rest }
    some (if 0 ≤ value then jump target popped else proceed popped)
  | _, _ => none

/-- Takes arguments of given kinds off a stack. -/
def popArguments? (kinds : List Kind) (stack : List Value) : Option (List Value × List Value) :=
  let arguments := (stack.take kinds.length).reverse
  if arguments.map Value.kind = kinds then some (arguments, stack.drop kinds.length) else none

/-- The kinds of the arguments of a call, the receiver first. -/
def argumentKinds (hasReceiver : Bool) (parsed : MethodDescriptor) : List Kind :=
  (if hasReceiver then [Kind.reference] else []) ++ parsed.parameters.map FieldType.kind

/-- What an answer does to the memory of the caller. -/
def ofAnswer (memory : Memory) : Answer → Turn
  | .returned result => proceed { memory with stack := result.toList ++ memory.stack }
  | .thrown exception => raise exception memory

/-- What a call does. -/
def ofCall (world : World) (memory : Memory) (opcode : Opcode) (callee : Member) : Option Turn :=
  match MethodDescriptor.parse callee.descriptor with
  | .error _ => none
  | .ok parsed =>
    let hasReceiver := opcode != Opcode.invokestatic
    match popArguments? (argumentKinds hasReceiver parsed) memory.stack with
    | none => none
    | some (arguments, rest) =>
      if hasReceiver ∧ arguments.head? = some .null then none
      else
        let call : Call := { opcode, callee, arguments }
        some (ofAnswer { memory with stack := rest, calls := memory.calls ++ [call] }
          (world.respond memory.calls call))

/-- Arguments that were pushed in their order are taken off again. -/
theorem popArguments?_append {kinds : List Kind} {arguments : List Value}
    (h : arguments.map Value.kind = kinds) (rest : List Value) :
    popArguments? kinds (arguments.reverse ++ rest) = some (arguments, rest) := by
  subst h
  simp [popArguments?, List.take_left', List.drop_left']

/-- A call of a method with its arguments on the stack does what the answer to it does. -/
theorem ofCall_eq {world : World} {memory : Memory} {opcode : Opcode} {callee : Member}
    {parsed : MethodDescriptor} {arguments rest : List Value}
    (hparse : MethodDescriptor.parse callee.descriptor = .ok parsed)
    (hkinds : arguments.map Value.kind = argumentKinds (opcode != Opcode.invokestatic) parsed)
    (hreceiver : opcode ≠ Opcode.invokestatic → arguments.head? ≠ some .null)
    (hstack : memory.stack = arguments.reverse ++ rest) :
    ofCall world memory opcode callee =
      some (ofAnswer { memory with stack := rest, calls := memory.calls ++ [⟨opcode, callee, arguments⟩] }
        (world.respond memory.calls ⟨opcode, callee, arguments⟩)) := by
  simp only [ofCall, hparse, hstack, popArguments?_append hkinds]
  rw [if_neg]
  rintro ⟨hopcode, hnull⟩
  exact hreceiver (by simpa using hopcode) hnull

end Turn

/-- What an instruction does in the body of a method with a result of some kind. -/
def Instruction.turn (world : World) (resultKind : Option Kind) (memory : Memory) :
    Instruction → Option Turn
  | label _ | line _ => some (.proceed memory)
  | plain opcode =>
    if opcode.isReturn then Turn.ofReturn resultKind memory opcode else Turn.ofPlain memory opcode
  | var opcode slot => Turn.ofVariable memory opcode slot.toNat
  | load constant => (Value.ofConstant? constant).map fun value => .proceed (memory.push value)
  | jump opcode target => Turn.ofJump memory opcode target
  | method opcode callee => Turn.ofCall world memory opcode callee
  | _ => none

/-! ## Runs -/

/-- A run in progress. -/
structure Run where
  /-- The position of the next instruction. -/
  position : Nat
  /-- What it remembers. -/
  memory : Memory

/-- A run at the start of a method that is called with arguments. -/
def Run.start (arguments : List Value) : Run where
  position := 0
  memory := { stack := [], locals := .ofArguments 0 arguments, calls := [] }

/-- How a run ends. -/
structure Ending where
  /-- All calls that it made. -/
  calls : List Call
  /-- What it returns or throws. -/
  answer : Answer
deriving DecidableEq, Repr

/-- One step of a run: another one, or the last one. -/
inductive Move where
  /-- The run goes on. -/
  | next (run : Run)
  /-- The run is over. -/
  | stop (ending : Ending)

namespace Body

/-- Does a handler protect a position of a body? -/
def isProtectedBy (body : Body) (position : Nat) (handler : Handler) : Bool :=
  match body.labelPosition? handler.start, body.labelPosition? handler.stop with
  | some start, some stop => start ≤ position && position < stop
  | _, _ => false

/-- The first handler that catches an object thrown at a position. -/
def catching? (body : Body) (world : World) (position : Nat) (exception : Value) : Option Handler :=
  body.handlers.find? fun handler => body.isProtectedBy position handler &&
    handler.caught.all (world.isInstance exception)

variable (world : World) (resultKind : Option Kind) (body : Body)

/-- One step of a run of the body of a method with a result of some kind. -/
def step (run : Run) : Option Move :=
  match body.instructions[run.position]? with
  | none => none
  | some instruction =>
    match instruction.turn world resultKind run.memory with
    | none => none
    | some (.proceed memory) => some (.next ⟨run.position + 1, memory⟩)
    | some (.jump target memory) =>
      (body.labelPosition? target).map fun position => .next ⟨position, memory⟩
    | some (.raise exception memory) =>
      match body.catching? world run.position exception with
      | none => some (.stop ⟨memory.calls, .thrown exception⟩)
      | some handler =>
        (body.labelPosition? handler.handler).map fun position =>
          .next ⟨position, { memory with stack := [exception] }⟩
    | some (.finish result memory) => some (.stop ⟨memory.calls, .returned result⟩)

/-- A run comes to an end. -/
inductive Ends : Run → Ending → Prop where
  /-- With its next step. -/
  | stop {run : Run} {ending : Ending} :
    body.step world resultKind run = some (.stop ending) → Ends run ending
  /-- After its next step. -/
  | next {run later : Run} {ending : Ending} :
    body.step world resultKind run = some (.next later) → Ends later ending → Ends run ending

/-- A run leads to another one in some steps. -/
abbrev Leads : Run → Run → Prop :=
  Relation.ReflTransGen fun run later => body.step world resultKind run = some (.next later)

variable {world resultKind body}

/-- The end of a run is the one of where it leads. -/
theorem Leads.ends_iff {run later : Run} (h : body.Leads world resultKind run later)
    (ending : Ending) :
    body.Ends world resultKind run ending ↔ body.Ends world resultKind later ending := by
  induction h using Relation.ReflTransGen.head_induction_on with
  | refl => rfl
  | head hstep _ ih =>
    refine ⟨fun hends => ?_, fun hends => .next hstep (ih.mpr hends)⟩
    cases hends with
    | stop hstop => simp [hstep] at hstop
    | next hnext hends =>
      obtain rfl : _ = _ := by simpa [hstep] using hnext
      exact ih.mp hends

/-- A run at its last step ends in this way and no other. -/
theorem ends_iff_of_stop {run : Run} {last : Ending}
    (h : body.step world resultKind run = some (.stop last)) (ending : Ending) :
    body.Ends world resultKind run ending ↔ ending = last := by
  constructor
  · intro hends
    cases hends with
    | stop hstop => simpa [h] using hstop.symm
    | next hnext _ => simp [h] at hnext
  · rintro rfl
    exact .stop h

/-- A run without a next step does not end. -/
theorem not_ends_of_step_eq_none {run : Run} (h : body.step world resultKind run = none)
    (ending : Ending) : ¬ body.Ends world resultKind run ending := by
  intro hends
  cases hends with
  | stop hstop => simp [h] at hstop
  | next hnext _ => simp [h] at hnext

/-- A run ends in one way at most. -/
theorem Ends.unique {run : Run} {ending other : Ending} (h : body.Ends world resultKind run ending)
    (h' : body.Ends world resultKind run other) : ending = other := by
  induction h with
  | stop hstop => exact ((ends_iff_of_stop hstop other).mp h').symm
  | next hnext _ ih => exact ih (((Leads.ends_iff (.single hnext)) other).mp h')

/-! ## Straight code -/

end Body

/-- What instructions do that are run one after the other and that all go on with the next one. -/
def straightRun (world : World) (resultKind : Option Kind) :
    List Instruction → Memory → Option Memory
  | [], memory => some memory
  | instruction :: rest, memory =>
    match instruction.turn world resultKind memory with
    | some (.proceed after) => straightRun world resultKind rest after
    | _ => none

variable {world : World} {resultKind : Option Kind} {body : Body}

/-- Straight code behind straight code is straight. -/
theorem straightRun_append (first second : List Instruction) (memory : Memory) :
    straightRun world resultKind (first ++ second) memory =
      (straightRun world resultKind first memory).bind (straightRun world resultKind second) := by
  induction first generalizing memory with
  | nil => rfl
  | cons instruction rest ih =>
    rw [List.cons_append, straightRun, straightRun]
    split
    · exact ih _
    · rfl

namespace Body

variable (front back : List Instruction) {instruction : Instruction} {memory after : Memory}

/-- What stands behind a front part of a body. -/
theorem getElem?_of_eq_append (h : body.instructions = front ++ instruction :: back) :
    body.instructions[front.length]? = some instruction := by
  simp [h]

/-- A step goes on with the next instruction. -/
theorem step_of_proceed (hbody : body.instructions = front ++ instruction :: back)
    (h : instruction.turn world resultKind memory = some (.proceed after)) :
    body.step world resultKind ⟨front.length, memory⟩ = some (.next ⟨front.length + 1, after⟩) := by
  simp only [step, getElem?_of_eq_append _ _ hbody, h]

/-- A step goes on at a label. -/
theorem step_of_jump {target : Label} {position : Nat}
    (hbody : body.instructions = front ++ instruction :: back)
    (h : instruction.turn world resultKind memory = some (.jump target after))
    (htarget : body.labelPosition? target = some position) :
    body.step world resultKind ⟨front.length, memory⟩ = some (.next ⟨position, after⟩) := by
  simp only [step, getElem?_of_eq_append _ _ hbody, h, htarget, Option.map_some]

/-- A step throws an object that a handler catches. -/
theorem step_of_caught {exception : Value} {handler : Handler} {position : Nat}
    (hbody : body.instructions = front ++ instruction :: back)
    (h : instruction.turn world resultKind memory = some (.raise exception after))
    (hhandler : body.catching? world front.length exception = some handler)
    (htarget : body.labelPosition? handler.handler = some position) :
    body.step world resultKind ⟨front.length, memory⟩ =
      some (.next ⟨position, { after with stack := [exception] }⟩) := by
  simp only [step, getElem?_of_eq_append _ _ hbody, h, hhandler, htarget, Option.map_some]

/-- A step throws an object that no handler catches. -/
theorem step_of_uncaught {exception : Value}
    (hbody : body.instructions = front ++ instruction :: back)
    (h : instruction.turn world resultKind memory = some (.raise exception after))
    (hhandler : body.catching? world front.length exception = none) :
    body.step world resultKind ⟨front.length, memory⟩ =
      some (.stop ⟨after.calls, .thrown exception⟩) := by
  simp only [step, getElem?_of_eq_append _ _ hbody, h, hhandler]

/-- A step returns from the method. -/
theorem step_of_finish {result : Option Value}
    (hbody : body.instructions = front ++ instruction :: back)
    (h : instruction.turn world resultKind memory = some (.finish result after)) :
    body.step world resultKind ⟨front.length, memory⟩ =
      some (.stop ⟨after.calls, .returned result⟩) := by
  simp only [step, getElem?_of_eq_append _ _ hbody, h]

/-- An instruction at which the run takes no turn leaves no next step. -/
theorem step_of_turn_eq_none (hbody : body.instructions = front ++ instruction :: back)
    (h : instruction.turn world resultKind memory = none) :
    body.step world resultKind ⟨front.length, memory⟩ = none := by
  simp only [step, getElem?_of_eq_append _ _ hbody, h]

/-- A run leads through straight code. -/
theorem leads_of_straight {code : List Instruction} {before : Memory}
    (hbody : body.instructions = front ++ code ++ back)
    (h : straightRun world resultKind code before = some after) :
    body.Leads world resultKind ⟨front.length, before⟩ ⟨(front ++ code).length, after⟩ := by
  induction code generalizing front before with
  | nil =>
    obtain rfl : before = after := by simpa [straightRun] using h
    rw [List.append_nil]
  | cons instruction rest ih =>
    rw [straightRun] at h
    split at h
    · next memory hturn =>
      have hnext := ih (front ++ [instruction]) (by simp [hbody]) h
      refine .head (step_of_proceed front (rest ++ back) (by simp [hbody]) hturn) ?_
      simpa using hnext
    · simp at h

/-- A label that is placed once is found where it is placed. -/
theorem labelPosition?_of_eq_append {label : Label}
    (hbody : body.instructions = front ++ .label label :: back) (h : .label label ∉ front) :
    body.labelPosition? label = some front.length := by
  rw [labelPosition?, hbody, List.findIdx?_append, List.findIdx?_eq_none_iff.mpr]
  · simp [List.findIdx?_cons]
  · intro other hother
    simpa using ne_of_mem_of_not_mem hother h

end Body

end ClassInstrument
