import ClassInstrument.Bytes

/-!
# UTF-8 with errors

Reads bytes as text in UTF-8 even if some of them are not.  Bytes that begin a character and do not go
on with it stand for one replacement character, and so does every byte that begins none.
-/

namespace ClassInstrument

namespace Utf8

/-- The character that stands for what cannot be read. -/
def replacement : Char := '\uFFFD'

/-- A character of which some bytes have been read. -/
structure Begun where
  /-- The number that the bytes so far stand for. -/
  value : Nat
  /-- How many bytes are missing. -/
  missing : Nat
  /-- The least next byte with which the character goes on. -/
  least : Nat := 0x80
  /-- The greatest next byte with which the character goes on. -/
  greatest : Nat := 0xBF

/-- What has been read: the characters, last one first, and one that has begun. -/
structure Progress where
  /-- The characters, last one first. -/
  done : List Char := []
  /-- The character that has begun. -/
  begun : Option Begun := none

/-- Reads a byte at the beginning of a character.  The second byte is restricted where it would
make a number that takes fewer bytes, a surrogate, or one that is too large. -/
def first (done : List Char) (byte : UInt8) : Progress :=
  let n := byte.toNat
  if n < 0x80 then { done := Char.ofNat n :: done }
  else if 0xC2 ≤ n ∧ n < 0xE0 then { done, begun := some ⟨n - 0xC0, 1, 0x80, 0xBF⟩ }
  else if 0xE0 ≤ n ∧ n < 0xF0 then
    let least := if n = 0xE0 then 0xA0 else 0x80
    let greatest := if n = 0xED then 0x9F else 0xBF
    { done, begun := some ⟨n - 0xE0, 2, least, greatest⟩ }
  else if 0xF0 ≤ n ∧ n < 0xF5 then
    let least := if n = 0xF0 then 0x90 else 0x80
    let greatest := if n = 0xF4 then 0x8F else 0xBF
    { done, begun := some ⟨n - 0xF0, 3, least, greatest⟩ }
  else { done := replacement :: done }

/-- Reads a byte. -/
def next (progress : Progress) (byte : UInt8) : Progress :=
  match progress.begun with
  | none => first progress.done byte
  | some begun =>
    if begun.least ≤ byte.toNat ∧ byte.toNat ≤ begun.greatest then
      let value := begun.value * 0x40 + byte.toNat % 0x40
      if begun.missing ≤ 1 then { done := Char.ofNat value :: progress.done }
      else { progress with begun := some { value, missing := begun.missing - 1 } }
    else first (replacement :: progress.done) byte

/-- The text that a string of bytes is read as. -/
def decode (bytes : Bytes) : String :=
  let progress := bytes.foldl next {}
  let rest := if progress.begun.isSome then [replacement] else []
  String.ofList (progress.done.reverse ++ rest)

end Utf8

end ClassInstrument
