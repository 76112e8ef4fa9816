/-!
# Big-endian byte strings

Class files are read and written as lists of bytes.  Every number in them is unsigned, of a fixed
width, with its most significant byte first.  `Bytes.ofNat` writes the last digits of a number in
base 256, so a number that does not fit its width is written modulo `256 ^ width`; `Bytes.toNat` is
the number that a list of digits denotes.

A `Reader` consumes the front of a byte string.  Reading stops for two reasons only: the bytes run
out, or a constant carries a tag that no constant has.
-/

namespace ClassInstrument

/-- A string of bytes. -/
abbrev Bytes := List UInt8

/-- Why a byte string is not the written form of anything. -/
inductive ReadFault where
  /-- The bytes end before the value does. -/
  | endOfInput
  /-- A constant starts with a tag that no kind of constant has. -/
  | unknownConstantTag (tag : UInt8)
deriving DecidableEq, Repr

/-- The text shown for a reading failure. -/
def ReadFault.message : ReadFault → String
  | .endOfInput => "failed to fill whole buffer"
  | .unknownConstantTag tag => s!"Unknown constant pool tag {tag.toNat}"

namespace Bytes

/-- The last `width` digits of a number in base 256, most significant first. -/
def ofNat : Nat → Nat → Bytes
  | 0, _ => []
  | width + 1, n => ofNat width (n / 256) ++ [UInt8.ofNat n]

/-- The number that a list of base-256 digits denotes. -/
def toNat (bytes : Bytes) : Nat :=
  bytes.foldl (fun n byte => n * 256 + byte.toNat) 0

@[simp] theorem length_ofNat (width n : Nat) : (ofNat width n).length = width := by
  induction width generalizing n with
  | zero => rfl
  | succ width ih => simp [ofNat, ih]

@[simp] theorem toNat_nil : toNat [] = 0 := rfl

/-- A number below `65536` as two bytes. -/
def u2 (n : UInt16) : Bytes := ofNat 2 n.toNat

/-- A number below `2 ^ 32` as four bytes. -/
def u4 (n : UInt32) : Bytes := ofNat 4 n.toNat

/-- A number below `2 ^ 64` as eight bytes. -/
def u8 (n : UInt64) : Bytes := ofNat 8 n.toNat

/-- A length as two bytes, kept modulo `65536`. -/
def length2 (n : Nat) : Bytes := ofNat 2 n

/-- A length as four bytes, kept modulo `2 ^ 32`. -/
def length4 (n : Nat) : Bytes := ofNat 4 n

@[simp] theorem length_u2 (n : UInt16) : (u2 n).length = 2 := length_ofNat 2 _

@[simp] theorem length_u4 (n : UInt32) : (u4 n).length = 4 := length_ofNat 4 _

@[simp] theorem length_u8 (n : UInt64) : (u8 n).length = 8 := length_ofNat 8 _

/-- The written forms of the elements one after the other, after their number in two bytes. -/
def list {α : Type} (write : α → Bytes) (items : List α) : Bytes :=
  length2 items.length ++ items.flatMap write

end Bytes

/-- A reader takes a value off the front of a byte string. -/
abbrev Reader := StateT Bytes (Except ReadFault)

namespace Reader

/-- Exactly `count` bytes off the front. -/
def take (count : Nat) : Reader Bytes := fun bytes =>
  let (front, rest) := bytes.splitAt count
  if front.length = count then .ok (front, rest) else .error .endOfInput

/-- One byte. -/
def u1 : Reader UInt8
  | [] => .error .endOfInput
  | byte :: rest => .ok (byte, rest)

/-- A two-byte number. -/
def u2 : Reader UInt16 := return UInt16.ofNat (← take 2).toNat

/-- A four-byte number. -/
def u4 : Reader UInt32 := return UInt32.ofNat (← take 4).toNat

/-- An eight-byte number. -/
def u8 : Reader UInt64 := return UInt64.ofNat (← take 8).toNat

/-- The results of `count` runs of an action, behind results that are held last first. -/
def repeatAfter {m : Type → Type} [Monad m] {α : Type} (action : m α) :
    Nat → List α → m (List α)
  | 0, done => return done.reverse
  | count + 1, done => do
    let value ← action
    repeatAfter action count (value :: done)

/-- The results of `count` runs of an action. -/
def many {m : Type → Type} [Monad m] {α : Type} (action : m α) (count : Nat) : m (List α) :=
  repeatAfter action count []

/-- A list of values after their number in two bytes. -/
def list {α : Type} (read : Reader α) : Reader (List α) := do
  let count ← u2
  many read count.toNat

end Reader

end ClassInstrument
