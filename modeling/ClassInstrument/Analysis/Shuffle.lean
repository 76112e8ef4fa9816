import ClassInstrument.Frame.Basic
import ClassInstrument.Fault

/-!
# Rearranging the stack

The instructions that drop, double and exchange stack values act on slots, but never split a value
of two slots; which values they take depends on the widths of the values on top.  A shuffle is
described by the number of values it takes off the stack and the list of values it puts there
instead.
-/

namespace ClassInstrument

/-- A type during analysis: classes by name, creation sites by position in the body. -/
abbrev FlowType := ValueType String Nat

/-- A frame during analysis. -/
abbrev FlowFrame := Frame String Nat

/-- The instructions that only rearrange the stack. -/
inductive Shuffle where
  | pop | pop2 | dup | dupX1 | dupX2 | dup2 | dup2X1 | dup2X2 | swap
deriving DecidableEq, Repr

namespace Shuffle

/-- The shuffle of an opcode. -/
def ofOpcode? : UInt8 → Option Shuffle
  | 87 => some pop
  | 88 => some pop2
  | 89 => some dup
  | 90 => some dupX1
  | 91 => some dupX2
  | 92 => some dup2
  | 93 => some dup2X1
  | 94 => some dup2X2
  | 95 => some swap
  | _ => none

/-- How many values a shuffle takes off a stack (last value first) and what it pushes instead
(first value first). -/
def plan : Shuffle → List FlowType → Except FrameDefect (Nat × List FlowType)
  | pop, _ :: _ => .ok (1, [])
  | pop, [] => .error .popFromEmpty
  | pop2, [] => .error .emptyStack
  | pop2, v :: rest =>
    if v.isWide then .ok (1, [])
    else
      match rest with
      | _ :: _ => .ok (2, [])
      | [] => .error .popFromEmpty
  | dup, v :: _ => .ok (1, [v, v])
  | dup, [] => .error .popFromEmpty
  | dupX1, v :: w :: _ => .ok (2, [v, w, v])
  | dupX1, _ => .error .popFromEmpty
  | dupX2, [] => .error .popFromEmpty
  | dupX2, [_] => .error .emptyStack
  | dupX2, v :: w :: rest =>
    if w.isWide then .ok (2, [v, w, v])
    else
      match rest with
      | x :: _ => .ok (3, [v, x, w, v])
      | [] => .error .popFromEmpty
  | dup2, [] => .error .emptyStack
  | dup2, v :: rest =>
    if v.isWide then .ok (1, [v, v])
    else
      match rest with
      | w :: _ => .ok (2, [w, v, w, v])
      | [] => .error .popFromEmpty
  | dup2X1, [] => .error .emptyStack
  | dup2X1, v :: rest =>
    if v.isWide then
      match rest with
      | w :: _ => .ok (2, [v, w, v])
      | [] => .error .popFromEmpty
    else
      match rest with
      | w :: x :: _ => .ok (3, [w, v, x, w, v])
      | _ => .error .popFromEmpty
  | dup2X2, [] => .error .emptyStack
  | dup2X2, v :: rest =>
    if v.isWide then
      match rest with
      | [] => .error .emptyStack
      | w :: rest =>
        if w.isWide then .ok (2, [v, w, v])
        else
          match rest with
          | x :: _ => .ok (3, [v, x, w, v])
          | [] => .error .popFromEmpty
    else
      match rest with
      | [] => .error .popFromEmpty
      | [_] => .error .emptyStack
      | w :: x :: rest =>
        if x.isWide then .ok (3, [w, v, x, w, v])
        else
          match rest with
          | y :: _ => .ok (4, [w, v, y, x, w, v])
          | [] => .error .popFromEmpty
  | swap, v :: w :: _ => .ok (2, [v, w])
  | swap, _ => .error .popFromEmpty

end Shuffle

namespace Frame

/-- Takes the last value off the stack. -/
def pop (frame : FlowFrame) : Except FrameDefect (FlowType × FlowFrame) :=
  match frame.stack.pop? with
  | some ((_, type), stack) => .ok (type, { frame with stack })
  | none => .error .popFromEmpty

/-- Takes a number of values off the stack. -/
def drop : Nat → FlowFrame → Except FrameDefect FlowFrame
  | 0, frame => .ok frame
  | count + 1, frame => do
    let (_, frame) ← frame.pop
    drop count frame

/-- Rearranges the stack. -/
def shuffle (frame : FlowFrame) (shuffle : Shuffle) : Except FrameDefect FlowFrame := do
  let (taken, pushed) ← shuffle.plan (frame.stack.entries.map Prod.snd)
  let frame ← frame.drop taken
  return { frame with stack := frame.stack.pushAll pushed }

end Frame

end ClassInstrument
