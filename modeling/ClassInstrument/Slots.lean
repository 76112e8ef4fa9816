/-!
# Sequences of entries of different widths

Operand stacks hold values of one or two slots.  `Slots` is a stack of such entries in which every
entry remembers its offset: the number of slots below it when it was pushed.  The number of slots
in use is kept beside the entries, and popping sets it back to the offset of the popped entry.
-/

namespace ClassInstrument

/-- Values that take up a number of slots. -/
class HasWidth (α : Type) where
  /-- The number of slots a value takes. -/
  width : α → Nat

export HasWidth (width)

/-- A stack of entries, each with its offset. -/
structure Slots (α : Type) where
  /-- The entries with their offsets, the last one first. -/
  entries : List (Nat × α)
  /-- The offset of the next entry. -/
  used : Nat
deriving Repr

namespace Slots

variable {α : Type}

/-- No entries. -/
def empty : Slots α := ⟨[], 0⟩

/-- The number of entries. -/
def length (slots : Slots α) : Nat := slots.entries.length

/-- Adds an entry at the end. -/
def push [HasWidth α] (slots : Slots α) (entry : α) : Slots α :=
  ⟨(slots.used, entry) :: slots.entries, slots.used + width entry⟩

/-- Adds entries at the end, one after the other. -/
def pushAll [HasWidth α] (slots : Slots α) (entries : List α) : Slots α :=
  entries.foldl push slots

/-- The entries of a list at their offsets. -/
def ofList [HasWidth α] (entries : List α) : Slots α := empty.pushAll entries

/-- Takes the last entry off, with its offset. -/
def pop? (slots : Slots α) : Option ((Nat × α) × Slots α) :=
  match slots.entries with
  | [] => none
  | (offset, entry) :: rest => some ((offset, entry), ⟨rest, offset⟩)

/-- The entries in the order they were pushed. -/
def toList (slots : Slots α) : List α := (slots.entries.map Prod.snd).reverse

/-- The entries with their offsets in the order they were pushed. -/
def located (slots : Slots α) : List (Nat × α) := slots.entries.reverse

/-- The last entry. -/
def last? (slots : Slots α) : Option α := slots.entries.head?.map Prod.snd

/-- The entry at a depth below the last one, which is at depth `0`. -/
def peek? (slots : Slots α) (depth : Nat) : Option α := slots.entries[depth]?.map Prod.snd

/-- The entry at a position counted from the first one, with its offset. -/
def get? (slots : Slots α) (position : Nat) : Option (Nat × α) := slots.located[position]?

/-- Puts another entry in the place of each one that matches; no offset changes. -/
def replaceAll (slots : Slots α) (isMatch : α → Bool) (entry : α) : Slots α :=
  ⟨slots.entries.map fun (offset, old) => (offset, if isMatch old then entry else old), slots.used⟩

@[simp] theorem toList_empty : (empty : Slots α).toList = [] := rfl

@[simp] theorem toList_push [HasWidth α] (slots : Slots α) (entry : α) :
    (slots.push entry).toList = slots.toList ++ [entry] := by
  simp [push, toList]

@[simp] theorem toList_pushAll [HasWidth α] (slots : Slots α) (entries : List α) :
    (slots.pushAll entries).toList = slots.toList ++ entries := by
  induction entries generalizing slots with
  | nil => simp [pushAll]
  | cons entry rest ih =>
    have := ih (slots.push entry)
    simp only [pushAll, List.foldl_cons] at this ⊢
    simp [this]

@[simp] theorem toList_ofList [HasWidth α] (entries : List α) :
    (ofList entries).toList = entries := by
  simp [ofList]

@[simp] theorem toList_replaceAll (slots : Slots α) (isMatch : α → Bool) (entry : α) :
    (slots.replaceAll isMatch entry).toList =
      slots.toList.map fun old => if isMatch old then entry else old := by
  simp [replaceAll, toList, Function.comp_def]

end Slots

end ClassInstrument
