import ClassInstrument.Text.Unprintable

/-!
# Quoted text

A quoted text stands between double quotes.  Quotes, backslashes and the common control characters
have short escapes, and every other character without a visible form is written by its number in
hexadecimal digits between braces.
-/

namespace ClassInstrument

namespace Quoted

/-- A number in lower-case hexadecimal digits. -/
def hex (n : Nat) : String := String.ofList (Nat.toDigits 16 n)

/-- The escape that names a character by its number. -/
def numbered (c : Char) : String := "\\u\x7b" ++ hex c.toNat ++ "\x7d"

/-- One character inside a quoted text. -/
def escape (c : Char) : String :=
  match c with
  | '\x00' => "\\0"
  | '\t' => "\\t"
  | '\r' => "\\r"
  | '\n' => "\\n"
  | '\"' => "\\\""
  | '\\' => "\\\\"
  | c => if isUnprintable c then numbered c else String.singleton c

/-- A text between quotes. -/
def render (text : String) : String :=
  "\"" ++ String.join (text.toList.map escape) ++ "\""

end Quoted

end ClassInstrument
