/-!
# Blank characters

The characters that Unicode calls white space, and texts trimmed or split at them.
-/

namespace ClassInstrument

/-- The characters with the property `White_Space`, as ranges of their numbers. -/
def blankRanges : List (Nat × Nat) :=
  [(0x0009, 0x000D), (0x0020, 0x0020), (0x0085, 0x0085), (0x00A0, 0x00A0), (0x1680, 0x1680),
    (0x2000, 0x200A), (0x2028, 0x2029), (0x202F, 0x202F), (0x205F, 0x205F), (0x3000, 0x3000)]

/-- Is a character white space? -/
def isBlank (c : Char) : Bool :=
  blankRanges.any fun (first, last) => first ≤ c.toNat && c.toNat ≤ last

/-- The white space of ASCII is white space. -/
theorem isBlank_of_isWhitespace (c : Char) (h : c.isWhitespace = true) : isBlank c = true := by
  simp only [Char.isWhitespace, Bool.or_eq_true, decide_eq_true_eq] at h
  rcases h with ((h | h) | h) | h <;> subst h <;> decide

namespace Text

/-- A text without the blanks at its start. -/
def dropBlanks (chars : List Char) : List Char := chars.dropWhile isBlank

/-- A text without the blanks at its ends. -/
def trim (chars : List Char) : List Char :=
  (dropBlanks (dropBlanks chars).reverse).reverse

/-- The pieces of a text between blanks, behind a piece that has been begun (last character
first). -/
def wordsAfter : List Char → List Char → List (List Char)
  | word, [] => if word.isEmpty then [] else [word.reverse]
  | word, c :: rest =>
    if isBlank c then
      if word.isEmpty then wordsAfter [] rest else word.reverse :: wordsAfter [] rest
    else wordsAfter (c :: word) rest

/-- The pieces of a text between blanks. -/
def words (chars : List Char) : List (List Char) := wordsAfter [] chars

/-- The lines of a text, behind one that has been begun (last character first).  A line ends with a
line feed, and a carriage return in front of it belongs to the end; so does the end of the text,
unless it comes right after the end of a line. -/
def linesAfter : List Char → List Char → List (List Char)
  | line, [] => if line.isEmpty then [] else [line.reverse]
  | line, '\n' :: rest =>
    (match line with
      | '\r' :: before => before
      | _ => line).reverse :: linesAfter [] rest
  | line, c :: rest => linesAfter (c :: line) rest

/-- The lines of a text. -/
def lines (chars : List Char) : List (List Char) := linesAfter [] chars

end Text

end ClassInstrument
