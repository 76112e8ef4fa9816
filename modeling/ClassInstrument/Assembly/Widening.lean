import ClassInstrument.Assembly.Layout

/-!
# Widening jumps

Most jumps hold their distance in two bytes.  One that leads farther is widened: a `goto` takes
its form with four bytes, and a conditional jump becomes the inverse jump over such a `goto`.

A widened jump makes the code longer and may push other jumps out of range, so the code is laid
out again until all jumps fit.  A jump is widened at most once, and the short jumps that are added
lead over one instruction, so there are no more rounds than short jumps at the start.
-/

namespace ClassInstrument

namespace Widening

/-- Is an instruction a jump with two bytes for its distance? -/
def isShortJump : Instruction → Bool
  | .jump opcode _ => !opcode.isWideJump
  | _ => false

/-- Does a distance fit into two bytes? -/
def fits (distance : Int) : Bool := -32768 ≤ distance && distance ≤ 32767

/-- How far an instruction list has been gone through. -/
structure State where
  /-- The new instructions, last one first. -/
  done : List Instruction
  /-- Has any jump been widened? -/
  changed : Bool
  /-- The number of the next fresh label. -/
  nextLabel : Nat

/-- Puts what stands for a jump that is out of range behind the new instructions. -/
def widen (state : State) (opcode : Opcode) (target : Label) : Except Fault State :=
  if opcode = Opcode.goto then
    .ok { state with done := .jump Opcode.gotoWide target :: state.done, changed := true }
  else
    match opcode.inverse? with
    | some inverse =>
      let skip : Label := ⟨state.nextLabel⟩
      .ok {
        done := .label skip :: .jump Opcode.gotoWide target :: .jump inverse skip :: state.done
        changed := true
        nextLabel := state.nextLabel + 1 }
    | none => .error (.unsupported "jsr")

/-- Keeps or widens one entry of the instruction list, which stands at an offset. -/
def step (labels : Placements) (state : State) :
    Instruction × Nat → Except Fault State
  | (.jump opcode target, offset) =>
    if opcode.isWideJump then .ok { state with done := .jump opcode target :: state.done }
    else do
      let place ← labels.find target
      if fits ((place : Int) - (offset : Int)) then
        return { state with done := .jump opcode target :: state.done }
      else widen state opcode target
  | (instruction, _) => .ok { state with done := instruction :: state.done }

/-- Widens the jumps of a body that are out of range when it is laid out at given offsets. -/
def widenAt (body : Body) (offsets : Layout.Offsets) : Except Fault State :=
  (offsets.locate body.instructions).foldlM (step (offsets.labels body.instructions))
    { done := [], changed := false, nextLabel := body.nextLabel }

/-- Lays a body out and widens the jumps that are out of range. -/
def round (body : Body) : Interning (Body × Bool) := do
  let offsets ← Layout.offsets body.instructions
  let state ← widenAt body offsets
  return (
    { body with instructions := state.done.reverse, nextLabel := state.nextLabel },
    state.changed)

/-- Widens jumps until all are in range, and tells whether any was widened. -/
def rounds : Nat → Body → Bool → Interning (Body × Bool)
  | 0, body, changed => return (body, changed)
  | count + 1, body, changed => do
    let (body, again) ← round body
    if again then rounds count body true else return (body, changed)

end Widening

namespace Body

/-- A body in which all jumps are in range, and whether any had to be widened. -/
def widenJumps (body : Body) : Interning (Body × Bool) :=
  Widening.rounds (body.instructions.countP Widening.isShortJump + 1) body false

end Body

end ClassInstrument
