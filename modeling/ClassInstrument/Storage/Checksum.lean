import ClassInstrument.Bytes

/-!
# Checksums

The checksum that an archive keeps of each entry: the remainder of its bits modulo a polynomial of
degree 32 over the field with two elements, with the bits of every byte taken from the lowest on,
and with the remainder inverted at the start and at the end.
-/

namespace ClassInstrument

namespace Checksum

/-- The polynomial without its leading term, lowest power in the highest bit. -/
def polynomial : UInt32 := 0xEDB88320

/-- Takes one bit into a remainder. -/
def shift (remainder : UInt32) : UInt32 :=
  if remainder &&& 1 = 1 then (remainder >>> 1) ^^^ polynomial else remainder >>> 1

/-- Takes a number of bits into a remainder. -/
def shifts : Nat → UInt32 → UInt32
  | 0, remainder => remainder
  | count + 1, remainder => shifts count (shift remainder)

/-- Takes a byte into a remainder. -/
def step (remainder : UInt32) (byte : UInt8) : UInt32 := shifts 8 (remainder ^^^ byte.toUInt32)

/-- The checksum of a string of bytes. -/
def ofBytes (bytes : Bytes) : UInt32 := ~~~(bytes.foldl step 0xFFFFFFFF)

@[simp] theorem ofBytes_nil : ofBytes [] = 0 := by decide

end Checksum

end ClassInstrument
