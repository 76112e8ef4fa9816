import ClassInstrument.Frame.Basic

/-!
# Stack map frames

A class file lists the frames at the starts of basic blocks.  Each is written as its difference to
the one before: the same variables with an empty stack or one value on it, up to three variables
fewer or more with an empty stack, or everything in full.  `StackMapFrame.between` chooses the
first of these that fits, and `StackMapFrame.restore?` gives back the variables and the stack.
-/

namespace ClassInstrument

/-- A type whose class and creation site are the numbers of a class file. -/
abbrev WrittenType := ValueType UInt16 UInt16

/-- A frame whose classes and creation sites are the numbers of a class file. -/
abbrev WrittenFrame := Frame UInt16 UInt16

/-- A frame as its difference to the one before. -/
inductive StackMapFrame where
  /-- The same variables and an empty stack. -/
  | same (delta : UInt16)
  /-- The same variables and one stack value. -/
  | oneStack (delta : UInt16) (value : WrittenType)
  /-- Some variables fewer at the end and an empty stack. -/
  | chop (delta : UInt16) (count : Nat)
  /-- More variables at the end and an empty stack. -/
  | append (delta : UInt16) (more : List WrittenType)
  /-- All variables and stack values. -/
  | full (delta : UInt16) (locals stack : List WrittenType)
deriving DecidableEq, Repr

namespace StackMapFrame

/-- The written form of a frame.  Small distances share the byte of the tag. -/
def write : StackMapFrame → Bytes
  | same delta => if delta ≤ 63 then [delta.toUInt8] else 251 :: Bytes.u2 delta
  | oneStack delta value =>
    (if delta ≤ 63 then [delta.toUInt8 + 64] else 247 :: Bytes.u2 delta) ++ value.write
  | chop delta count => UInt8.ofNat (251 - count) :: Bytes.u2 delta
  | append delta more =>
    UInt8.ofNat (251 + more.length) :: Bytes.u2 delta ++ more.flatMap ValueType.write
  | full delta locals stack =>
    255 :: Bytes.u2 delta ++ Bytes.list ValueType.write locals ++
      Bytes.list ValueType.write stack

/-- The name of the attribute that lists frames. -/
def attributeName : String := "StackMapTable"

/-- The written form of a list of frames. -/
def writeTable (frames : List StackMapFrame) : Bytes := Bytes.list write frames

/-- A frame with everything in it. -/
def inFull (delta : UInt16) (frame : WrittenFrame) : StackMapFrame :=
  full delta frame.localEntries frame.stack.toList

/-- A frame as its difference to the frame before it. -/
def between (delta : UInt16) (previous frame : WrittenFrame) : StackMapFrame :=
  let old := previous.localEntries
  let new := frame.localEntries
  match frame.stack.toList with
  | [] =>
    if new.length ≤ old.length then
      let fewer := old.length - new.length
      if fewer < 4 ∧ new.isPrefixOf old then
        if fewer = 0 then same delta else chop delta fewer
      else inFull delta frame
    else if new.length - old.length < 4 ∧ old.isPrefixOf new then
      append delta (new.drop old.length)
    else inFull delta frame
  | [value] => if new = old then oneStack delta value else inFull delta frame
  | _ => inFull delta frame

/-- The variables and the stack that a difference to a list of variables stands for. -/
def restore? (previous : List WrittenType) :
    StackMapFrame → Option (List WrittenType × List WrittenType)
  | same _ => some (previous, [])
  | oneStack _ value => some (previous, [value])
  | chop _ count =>
    if count ≤ previous.length then some (previous.take (previous.length - count), []) else none
  | append _ more => some (previous ++ more, [])
  | full _ locals stack => some (locals, stack)

end StackMapFrame

end ClassInstrument
