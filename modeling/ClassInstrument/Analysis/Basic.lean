import ClassInstrument.Analysis.Merge

/-!
# Computing the frames of a body

`analyze` computes the frame before every reachable instruction of a body.  It starts with the frame
on entry, and carries the frame after each instruction to whatever may run next: the following
instruction, the targets of jumps, and the handlers that cover it.  A handler is entered with the
variables from before or after the instruction, and the caught object alone on the stack.

Positions whose frame has changed wait in a queue, first come first served, until none is left.  A
change moves some type up the hierarchy, makes a variable unusable, or drops it, so the frames settle
as long as no type can move up for ever.
-/

namespace ClassInstrument

/-- An exception handler with its labels turned into positions. -/
structure PlacedHandler where
  /-- The first protected position. -/
  start : Nat
  /-- The position behind the last protected one. -/
  stop : Nat
  /-- Where the handler starts. -/
  handler : Nat
  /-- The class of the caught object. -/
  caught : String
deriving DecidableEq, Repr

namespace PlacedHandler

/-- Is a position protected? -/
def covers (handler : PlacedHandler) (position : Nat) : Bool :=
  handler.start ≤ position && position < handler.stop

/-- The frame on entry to the handler, from the local variables at the place of the exception. -/
def entryFrame (handler : PlacedHandler) (locals : List FlowType) : FlowFrame :=
  Frame.push ⟨locals, Slots.empty⟩ (.object handler.caught)

end PlacedHandler

namespace Body

/-- The positions of the labels in a body. -/
def labelPositions (body : Body) : Placements := Placements.ofList body.instructions.zipIdx

/-- The exception handlers with their labels turned into positions. -/
def placedHandlers (body : Body) : Except Fault (List PlacedHandler) :=
  let positions := body.labelPositions
  body.handlers.mapM fun handler => do
    return {
      start := ← positions.find handler.start
      stop := ← positions.find handler.stop
      handler := ← positions.find handler.handler
      caught := handler.caught.getD Name.throwable }

end Body

/-- A position known to be entered with a frame. -/
abbrev Root := Nat × FlowFrame

/-- What an analysis finds out. -/
structure Analysis where
  /-- The frame before each entry of the instruction list, `none` if it is never reached. -/
  frames : Array (Option FlowFrame)
  /-- The most stack slots in use at once. -/
  maxStack : Nat
  /-- The most slots of local variables in use at once. -/
  maxLocals : Nat

namespace Analysis

/-- Is a position reached? -/
def reaches (analysis : Analysis) (position : Nat) : Bool :=
  match analysis.frames[position]? with
  | some (some _) => true
  | _ => false

/-- The positions of the real instructions that are never reached. -/
def unreachable (analysis : Analysis) (body : Body) : List Nat :=
  body.realPositions.filter fun position => !analysis.reaches position

end Analysis

/-- What stays the same while a body is analyzed. -/
structure FlowProblem where
  /-- The method of the body. -/
  method : MethodContext
  /-- Where classes are looked up. -/
  hierarchy : Hierarchy
  /-- The instruction list. -/
  code : Array Instruction
  /-- The positions of the labels. -/
  positions : Placements
  /-- The exception handlers. -/
  handlers : List PlacedHandler

/-- What stays the same while the frames of a body are computed. -/
def Body.flowProblem (body : Body) (method : MethodContext) (hierarchy : Hierarchy)
    (handlers : List PlacedHandler) : FlowProblem :=
  { method, hierarchy, code := body.instructions.toArray, positions := body.labelPositions, handlers }

/-- The frames found so far, and the positions that wait for their successors to be updated. -/
structure Worklist where
  /-- The frame before each entry of the instruction list. -/
  frames : Array (Option FlowFrame)
  /-- Does each position wait? -/
  waiting : Array Bool
  /-- The waiting positions that were there when the queue was last turned round. -/
  front : List Nat
  /-- The waiting positions that came later, last one first. -/
  back : List Nat
  /-- The most stack slots seen. -/
  maxStack : Nat
  /-- The most slots of local variables seen. -/
  maxLocals : Nat

namespace Worklist

/-- No frames for a code of some size, and the size of the variables on entry. -/
def start (size : Nat) (initial : FlowFrame) : Worklist where
  frames := Array.replicate size none
  waiting := Array.replicate size false
  front := []
  back := []
  maxStack := 0
  maxLocals := initial.locals.length

/-- The frame before a position. -/
def frame? (work : Worklist) (position : Nat) : Option FlowFrame :=
  (work.frames[position]?).join

/-- Turns the queue round if no position is left from the last time. -/
def turned (work : Worklist) : Worklist :=
  if work.front.isEmpty then { work with front := work.back.reverse, back := [] } else work

/-- Takes the first position off the queue, which leaves the others. -/
def leave (work : Worklist) (position : Nat) (others : List Nat) : Worklist :=
  { work with front := others, waiting := work.waiting.setIfInBounds position false }

/-- Makes a position wait, unless it does already. -/
def enqueue (work : Worklist) (position : Nat) : Worklist :=
  if work.waiting.getD position true then work
  else
    { work with
      back := position :: work.back
      waiting := work.waiting.setIfInBounds position true }

/-- Sets the frame before a position, which then waits. -/
def update (work : Worklist) (position : Nat) (frame : FlowFrame) : Worklist :=
  enqueue { work with frames := work.frames.setIfInBounds position (some frame) } position

/-- Brings a frame to a position. -/
def bring (hierarchy : Hierarchy) (work : Worklist) (position : Nat) (incoming : FlowFrame) :
    Except Fault Worklist := do
  match work.frame? position with
  | none => return work.update position incoming
  | some existing =>
    match ← mergeFrames hierarchy position existing incoming with
    | none => return work
    | some merged => return work.update position merged

/-- Takes the sizes of the frames before and after an instruction into account. -/
def noteSizes (work : Worklist) (before after : FlowFrame) : Worklist :=
  { work with
    maxStack := max (max work.maxStack before.stack.used) after.stack.used
    maxLocals := max work.maxLocals after.locals.length }

end Worklist

namespace FlowProblem

/-- Carries the variables around an instruction to a handler that covers it. -/
def bringToHandler (problem : FlowProblem) (before after : FlowFrame) (work : Worklist)
    (handler : PlacedHandler) : Except Fault Worklist := do
  let work ←
    work.bring problem.hierarchy handler.handler (handler.entryFrame before.locals)
  work.bring problem.hierarchy handler.handler (handler.entryFrame after.locals)

/-- Carries a frame to the target of a jump. -/
def bringToTarget (problem : FlowProblem) (after : FlowFrame) (work : Worklist) (target : Label) :
    Except Fault Worklist := do
  work.bring problem.hierarchy (← problem.positions.find target) after

/-- Carries the frame before a real instruction to everything that may run next. -/
def flow (problem : FlowProblem) (position : Nat) (instruction : Instruction)
    (before : FlowFrame) (work : Worklist) : Except Fault Worklist := do
  let after ← Transfer.execute problem.method problem.code position instruction before
  let covering := problem.handlers.filter (·.covers position)
  let work ← covering.foldlM (problem.bringToHandler before after) (work.noteSizes before after)
  let work ← instruction.targets.foldlM (problem.bringToTarget after) work
  if instruction.fallsThrough then
    if position + 1 < problem.code.size then
      work.bring problem.hierarchy (position + 1) after
    else throw (.invalidFrame position .fallsOffEnd)
  else return work

/-- Updates the successors of a position that has waited. -/
def visit (problem : FlowProblem) (position : Nat) (work : Worklist) :
    Except Fault Worklist := do
  match problem.code[position]?, work.frame? position with
  | some instruction, some before =>
    if instruction.isReal then problem.flow position instruction before work
    else if position + 1 < problem.code.size then
      work.bring problem.hierarchy (position + 1) before
    else return work
  | _, _ => return work

/-- Visits waiting positions, the one that has waited longest first, until none is left; `none` if
that never happens. -/
def settle (problem : FlowProblem) (work : Worklist) : Option (Except Fault Worklist) :=
  match work.turned.front with
  | [] => some (.ok work.turned)
  | position :: others =>
    match problem.visit position (work.turned.leave position others) with
    | .error fault => some (.error fault)
    | .ok work => problem |>.settle work
partial_fixpoint

end FlowProblem

/-- Computes the frames of a body that is entered at its start, and at further positions with given
frames. -/
def analyze (body : Body) (method : MethodContext) (hierarchy : Hierarchy)
    (roots : List Root) : Except Fault Analysis := do
  let initial ← method.initialFrame
  let handlers ← body.placedHandlers
  if body.instructions.isEmpty then throw (.invalidFrame 0 .emptyBody)
  let entered ← ((0, initial) :: roots).foldlM
    (fun work (position, frame) => work.bring hierarchy position frame)
    (Worklist.start body.instructions.length initial)
  let problem := body.flowProblem method hierarchy handlers
  let settled ← (problem.settle entered).getD (.error .unsettledFrames)
  return {
    frames := settled.frames
    maxStack := settled.maxStack
    maxLocals := settled.maxLocals }

end ClassInstrument
