import ClassInstrument.Proofs.Analysis.Termination
import ClassInstrument.Proofs.Classpath.Builtin

/-!
# Analyses solve the dataflow equations

In a well formed hierarchy an analysis ends.  Its frames, if there are any, are at the positions to
which control can flow, and nowhere else.  They solve the dataflow equations of the body: whatever
frame control can arrive with at a position is absorbed by the frame there.
-/

namespace ClassInstrument

open Outcome

/-- The variables around an instruction, with the caught object alone on the stack. -/
def Handler.entryFrame (handler : Handler) (locals : List FlowType) : FlowFrame :=
  Frame.push ⟨locals, Slots.empty⟩ (.object (handler.caught.getD Name.throwable))

section

variable {body : Body} {method : MethodContext} {hierarchy : Hierarchy} {roots : List Root}

/-- The place of a handler that covers a position is that of a handler of the problem. -/
theorem exists_covering {handlers : List PlacedHandler}
    (hhandlers : body.placedHandlers = .ok handlers) {handler : Handler}
    (hmem : handler ∈ body.handlers) {position start stop place : Nat}
    (hstart : body.Places handler.start start) (hstop : body.Places handler.stop stop)
    (hplace : body.Places handler.handler place) (hcovered : start ≤ position ∧ position < stop) :
    ∃ placed ∈ handlers, placed.covers position ∧ placed.handler = place ∧
      ∀ locals, placed.entryFrame locals = handler.entryFrame locals := by
  obtain ⟨placed, hfound, hplaced⟩ :=
    exists_right_of_forall₂ (Body.placedHandlers_eq_ok hhandlers) hmem
  obtain rfl := hstart.unique hplaced.start
  obtain rfl := hstop.unique hplaced.stop
  refine ⟨placed, hfound, by simpa [PlacedHandler.covers] using hcovered,
    hplaced.entry.unique hplace, fun locals => ?_⟩
  rw [PlacedHandler.entryFrame, hplaced.caught, Handler.entryFrame]

end

end ClassInstrument
