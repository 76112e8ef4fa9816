import ClassInstrument.Bytes

/-!
# Code page 437

A character for each byte: the bytes below `0x80` stand for the characters of that number, the others
for accented letters, lines and boxes, and signs of mathematics.
-/

namespace ClassInstrument

namespace CodePage437

/-- The characters of the bytes from `0x80` on. -/
def upper : Array Char :=
  #[
    'Ç', 'ü', 'é', 'â', 'ä', 'à', 'å', 'ç',
    'ê', 'ë', 'è', 'ï', 'î', 'ì', 'Ä', 'Å',
    'É', 'æ', 'Æ', 'ô', 'ö', 'ò', 'û', 'ù',
    'ÿ', 'Ö', 'Ü', '¢', '£', '¥', '₧', 'ƒ',
    'á', 'í', 'ó', 'ú', 'ñ', 'Ñ', 'ª', 'º',
    '¿', '⌐', '¬', '½', '¼', '¡', '«', '»',
    '░', '▒', '▓', '│', '┤', '╡', '╢', '╖',
    '╕', '╣', '║', '╗', '╝', '╜', '╛', '┐',
    '└', '┴', '┬', '├', '─', '┼', '╞', '╟',
    '╚', '╔', '╩', '╦', '╠', '═', '╬', '╧',
    '╨', '╤', '╥', '╙', '╘', '╒', '╓', '╫',
    '╪', '┘', '┌', '█', '▄', '▌', '▐', '▀',
    'α', 'ß', 'Γ', 'π', 'Σ', 'σ', 'µ', 'τ',
    'Φ', 'Θ', 'Ω', 'δ', '∞', 'φ', 'ε', '∩',
    '≡', '±', '≥', '≤', '⌠', '⌡', '÷', '≈',
    '°', '∙', '·', '√', 'ⁿ', '²', '■', '\u00A0'
  ]

/-- The character of a byte. -/
def charOf (byte : UInt8) : Char :=
  if byte.toNat < 0x80 then Char.ofNat byte.toNat else upper.getD (byte.toNat - 0x80) ' '

/-- The text of a string of bytes. -/
def decode (bytes : Bytes) : String := String.ofList (bytes.map charOf)

end CodePage437

end ClassInstrument
