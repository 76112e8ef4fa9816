import ClassInstrument.Bytes

/-!
# Hexadecimal text

A string of bytes as text, two lower-case hexadecimal digits for each byte.  Reading takes the digits
in pairs and gives back the bytes that were written.
-/

namespace ClassInstrument

namespace Hexadecimal

/-- The digit for a number below sixteen. -/
def digit (n : Nat) : Char := Char.ofNat (if n < 10 then 48 + n else 87 + n)

/-- The number that a digit stands for. -/
def value (c : Char) : Nat := if c.toNat < 58 then c.toNat - 48 else c.toNat - 87

/-- The two digits of a byte. -/
def digits (byte : UInt8) : List Char := [digit (byte.toNat / 16), digit (byte.toNat % 16)]

/-- The bytes that pairs of digits stand for. -/
def pairs : List Char → Bytes
  | high :: low :: rest => UInt8.ofNat (value high * 16 + value low) :: pairs rest
  | _ => []

/-- The text of a string of bytes. -/
def write (bytes : Bytes) : String := String.ofList (bytes.flatMap digits)

/-- The bytes that a text stands for. -/
def read (text : String) : Bytes := pairs text.toList

theorem value_digit {n : Nat} (h : n < 16) : value (digit n) = n := by
  revert n
  decide

theorem pairs_digits (byte : UInt8) (rest : List Char) :
    pairs (digits byte ++ rest) = byte :: pairs rest := by
  have high : byte.toNat / 16 < 16 := by have := byte.toNat_lt; omega
  have low : byte.toNat % 16 < 16 := Nat.mod_lt _ (by decide)
  have whole : byte.toNat / 16 * 16 + byte.toNat % 16 = byte.toNat := by omega
  simp [digits, pairs, value_digit high, value_digit low, whole]

@[simp] theorem read_write (bytes : Bytes) : read (write bytes) = bytes := by
  simp only [read, write, String.toList_ofList]
  induction bytes with
  | nil => rfl
  | cons byte rest ih => rw [List.flatMap_cons, pairs_digits, ih]

end Hexadecimal

end ClassInstrument
