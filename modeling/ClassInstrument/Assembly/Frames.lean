import ClassInstrument.Analysis.Basic
import ClassInstrument.Assembly.Layout
import ClassInstrument.Frame.StackMap

/-!
# Writing frames

A class file lists a frame for each instruction that starts a basic block: one that a jump or a
handler leads to, or one behind an instruction that does not continue with the next.  The frames of
an analysis name classes by text and creation sites by position; here they get the indices and
offsets of the class file.
-/

namespace ClassInstrument

namespace BlockFrames

/-- The labels that jumps, switches and handlers lead to. -/
def targets (body : Body) : Std.HashMap Label Unit :=
  let noteAll := fun (labels : Std.HashMap Label Unit) (more : List Label) =>
    more.foldl (fun labels label => labels.insert label ()) labels
  noteAll
    (body.instructions.foldl (fun labels instruction => noteAll labels instruction.targets) ∅)
    (body.handlers.map Handler.handler)

/-- The written form of a type, with the offsets of the instruction list. -/
def writeType (offsets : Array Nat) : FlowType → Interning WrittenType
  | .top => return .top
  | .int => return .int
  | .float => return .float
  | .double => return .double
  | .long => return .long
  | .null => return .null
  | .uninitThis => return .uninitThis
  | .object name => return .object (← Pool.internClass name)
  | .uninit site => return .uninit (UInt16.ofNat (offsets.getD site 0))

/-- The written form of a frame; the classes of variables are asked for before those of the
stack. -/
def writeFrame (offsets : Array Nat) (frame : FlowFrame) : Interning WrittenFrame := do
  let locals ← frame.locals.mapM (writeType offsets)
  let stack ← frame.stack.toList.mapM (writeType offsets)
  return ⟨locals, Slots.ofList stack⟩

/-- How far the frames of a body have been listed. -/
structure State where
  /-- The frames so far, last one first. -/
  done : List StackMapFrame
  /-- The last frame, at first the one on entry. -/
  previous : WrittenFrame
  /-- The offset of the last frame. -/
  previousOffset : Option Nat
  /-- Can the last instruction not continue with the next? -/
  afterJump : Bool
  /-- Has a target been placed since the last instruction? -/
  labelled : Bool

/-- The distance of a frame at an offset from the one before. -/
def delta (previousOffset : Option Nat) (offset : Nat) : UInt16 :=
  match previousOffset with
  | none => UInt16.ofNat offset
  | some previous => UInt16.ofNat (offset - previous - 1)

/-- Adds the frame of the instruction at a position to the list. -/
def add (analysis : Analysis) (offsets : Array Nat) (position : Nat) (state : State) :
    Interning State := do
  match (analysis.frames[position]?).join with
  | none => throw (.invalidFrame position .missingFrame)
  | some frame =>
    let frame ← writeFrame offsets frame
    let offset := offsets.getD position 0
    let written := StackMapFrame.between (delta state.previousOffset offset) state.previous frame
    return { state with
      done := written :: state.done
      previous := frame
      previousOffset := some offset }

/-- Passes one entry of the instruction list. -/
def step (analysis : Analysis) (offsets : Array Nat) (targets : Std.HashMap Label Unit)
    (state : State) : Instruction × Nat → Interning State
  | (.label label, _) =>
    return { state with labelled := state.labelled || targets.contains label }
  | (.line _, _) => return state
  | (instruction, position) => do
    let state ←
      if state.labelled || state.afterJump then add analysis offsets position state
      else pure state
    return { state with labelled := false, afterJump := !instruction.fallsThrough }

/-- The frames of a body that a class file lists. -/
def list (body : Body) (method : MethodContext) (analysis : Analysis) (offsets : Array Nat) :
    Interning (List StackMapFrame) := do
  let initial ← method.initialFrame
  let entry ← writeFrame offsets initial
  let state ← body.instructions.zipIdx.foldlM (step analysis offsets (targets body))
    { done := [], previous := entry, previousOffset := none, afterJump := false, labelled := false }
  return state.done.reverse

end BlockFrames

end ClassInstrument
