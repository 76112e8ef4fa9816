import ClassInstrument.Frame.ValueType

/-!
# Frames

A frame describes the local variables and the operand stack at a point of a method body.  Local
variables are listed slot by slot, so a wide one is followed by the unusable second half of it; the
stack is a sequence of values of one or two slots.

`Frame.setLocal` makes unusable whatever the new value overlaps, and `Frame.localEntries` lists the
variables as stack map frames do, with one entry for each wide variable and no unusable ones at the
end.
-/

namespace ClassInstrument

/-- The types of the local variables and stack values at a point of a method body. -/
structure Frame (Cls Site : Type) where
  /-- The local variables, one entry for each slot. -/
  locals : List (ValueType Cls Site)
  /-- The stack. -/
  stack : Slots (ValueType Cls Site)
deriving Repr

namespace Frame

variable {Cls Site : Type}

/-- A frame without variables and values. -/
def empty : Frame Cls Site := ⟨[], Slots.empty⟩

/-- Is a type the one of unusable slots? -/
def isTop : ValueType Cls Site → Bool
  | .top => true
  | _ => false

/-- A list of slots made long enough to hold `length` of them. -/
def padTo (length : Nat) (slots : List (ValueType Cls Site)) : List (ValueType Cls Site) :=
  slots ++ List.replicate (length - slots.length) .top

/-- A list of slots in which no wide variable starts at a slot. -/
def clearWideAt (slot : Nat) (slots : List (ValueType Cls Site)) : List (ValueType Cls Site) :=
  match slots[slot]? with
  | some type => if type.isWide then slots.set slot .top else slots
  | none => slots

/-- Writes a local variable. -/
def setLocal (frame : Frame Cls Site) (slot : Nat) (type : ValueType Cls Site) :
    Frame Cls Site :=
  let padded := padTo (slot + width type) frame.locals
  let cleared := if slot = 0 then padded else clearWideAt (slot - 1) padded
  let written := cleared.set slot type
  { frame with locals := if type.isWide then written.set (slot + 1) .top else written }

/-- Pushes a value on the stack. -/
def push (frame : Frame Cls Site) (type : ValueType Cls Site) : Frame Cls Site :=
  { frame with stack := frame.stack.push type }

/-- The frame with variables one after the other, and with values pushed in order. -/
def ofTypes (locals values : List (ValueType Cls Site)) : Frame Cls Site :=
  let (frame, _) := locals.foldl
    (fun (frame, slot) type => (frame.setLocal slot type, slot + width type))
    ((empty : Frame Cls Site), 0)
  values.foldl push frame

/-- A list of slots with one entry for each variable; the slot after a wide one is skipped. -/
def entriesOfSlots : List (ValueType Cls Site) → List (ValueType Cls Site)
  | [] => []
  | [type] => [type]
  | type :: next :: rest =>
    if type.isWide then type :: entriesOfSlots rest else type :: entriesOfSlots (next :: rest)

/-- A list of slots with two entries for each wide variable. -/
def slotsOfEntries (entries : List (ValueType Cls Site)) : List (ValueType Cls Site) :=
  entries.flatMap fun type => if type.isWide then [type, .top] else [type]

/-- A list without the unusable entries at its end. -/
def dropTrailingTops (entries : List (ValueType Cls Site)) : List (ValueType Cls Site) :=
  (entries.reverse.dropWhile isTop).reverse

/-- The local variables as a stack map frame lists them. -/
def localEntries (frame : Frame Cls Site) : List (ValueType Cls Site) :=
  dropTrailingTops (entriesOfSlots frame.locals)

/-- Puts another type in the place of each occurrence of a type. -/
def replaceAll [DecidableEq Cls] [DecidableEq Site] (frame : Frame Cls Site)
    (old new : ValueType Cls Site) : Frame Cls Site where
  locals := frame.locals.map fun type => if type = old then new else type
  stack := frame.stack.replaceAll (fun type => decide (type = old)) new

end Frame

end ClassInstrument
