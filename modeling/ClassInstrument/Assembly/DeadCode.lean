import ClassInstrument.Analysis.Basic

/-!
# Replacing dead code

No frame can be computed for code that is never reached, so before a body is written each run of
unreachable instructions is replaced by a single `athrow` between two fresh labels; labels and line
numbers stay.  The frame there is known, because nothing is on the stack but what is thrown.  The
exception handlers are cut so that none covers a replacement, and those that are left without
instructions are dropped.
-/

namespace ClassInstrument

/-- A run of unreachable instructions, by the labels before and behind its replacement. -/
structure DeadRun where
  /-- The label before the replacement. -/
  start : Label
  /-- The label behind the replacement. -/
  stop : Label
deriving DecidableEq, Repr

namespace DeadCode

/-- How far an instruction list has been gone through. -/
structure State where
  /-- The new instructions, last one first. -/
  done : List Instruction
  /-- The runs replaced so far, last one first. -/
  runs : List DeadRun
  /-- Was the last real instruction unreachable? -/
  inRun : Bool
  /-- The number of the next fresh label. -/
  nextLabel : Nat

/-- Keeps or replaces one entry of the instruction list. -/
def step (analysis : Analysis) (state : State) : Instruction × Nat → State
  | (instruction, position) =>
    if !instruction.isReal then { state with done := instruction :: state.done }
    else if analysis.reaches position then
      { state with done := instruction :: state.done, inRun := false }
    else if state.inRun then state
    else
      let start : Label := ⟨state.nextLabel⟩
      let stop : Label := ⟨state.nextLabel + 1⟩
      { done := .label stop :: .plain Opcode.athrow :: .label start :: state.done
        runs := ⟨start, stop⟩ :: state.runs
        inRun := true
        nextLabel := state.nextLabel + 2 }

/-- A protected range as a pair of labels. -/
abbrev Segment := Label × Label

/-- Cuts a run out of a protected range. -/
def cut (positions : Placements) (run : DeadRun) (segment : Segment) :
    Except Fault (List Segment) := do
  let runStart ← positions.find run.start
  let runStop ← positions.find run.stop
  let start ← positions.find segment.1
  let stop ← positions.find segment.2
  if start < runStop ∧ runStart < stop then
    let before := if start < runStart then [(segment.1, run.start)] else []
    let behind := if runStop < stop then [(run.stop, segment.2)] else []
    return before ++ behind
  else return [segment]

/-- Cuts a run out of protected ranges. -/
def cutAll (positions : Placements) (segments : List Segment) (run : DeadRun) :
    Except Fault (List Segment) := do
  return (← segments.mapM (cut positions run)).flatten

/-- Does a protected range contain a real instruction? -/
def coversCode (positions : Placements) (instructions : List Instruction) (segment : Segment) :
    Except Fault Bool := do
  let start ← positions.find segment.1
  let stop ← positions.find segment.2
  return ((instructions.drop start).take (stop - start)).any Instruction.isReal

/-- A handler over what is left of its range after the runs are cut out. -/
def cutHandler (positions : Placements) (instructions : List Instruction) (runs : List DeadRun)
    (handler : Handler) : Except Fault (List Handler) := do
  let segments ← runs.foldlM (cutAll positions) [(handler.start, handler.stop)]
  let kept ← segments.filterM (coversCode positions instructions)
  return kept.map fun (start, stop) => { handler with start, stop }

end DeadCode

namespace Placements

/-- The first places of the labels in an instruction list. -/
def firstPositions (instructions : List Instruction) : Placements :=
  instructions.zipIdx.foldl
    (fun positions (instruction, position) =>
      match instruction with
      | .label label => positions.insertIfNew label position
      | _ => positions)
    ∅

end Placements

namespace Body

/-- Replaces the unreachable instructions of a body, and gives the labels before the
replacements. -/
def replaceDeadCode (body : Body) (analysis : Analysis) : Except Fault (Body × List Label) := do
  let state := body.instructions.zipIdx.foldl (DeadCode.step analysis)
    { done := [], runs := [], inRun := false, nextLabel := body.nextLabel }
  let runs := state.runs.reverse
  if runs.isEmpty then return (body, [])
  else
    let instructions := state.done.reverse
    let positions := Placements.firstPositions instructions
    let handlers ← body.handlers.mapM (DeadCode.cutHandler positions instructions runs)
    return (
      { body with instructions, handlers := handlers.flatten, nextLabel := state.nextLabel },
      runs.map DeadRun.start)

end Body

end ClassInstrument
