import ClassInstrument.Bytes

/-!
# Modified UTF-8

Class files store text as a sequence of UTF-16 code units, each in one to three bytes.  A unit below
`0x80` other than zero takes one byte, zero and the units below `0x800` take two, the others three;
so an encoding holds no zero byte, and a supplementary character takes six bytes, three for each of
its surrogates.

Decoding accepts every byte string.  A byte that starts no complete unit stands for the replacement
character and is skipped alone, and so does a surrogate without its partner.  Units written in more
bytes than they need are accepted.
-/

namespace ClassInstrument

namespace ModifiedUtf8

/-- The code unit that stands for what cannot be decoded. -/
def replacement : UInt16 := 0xFFFD

/-- The bytes of a character.  They are those of UTF-8, but zero takes two bytes, and a supplementary
character takes three for each of its surrogates. -/
def encodeChar (c : Char) : Bytes :=
  let code := c.val
  match if c = '\x00' then 2 else c.utf8Size with
  | 1 => [code.toUInt8]
  | 2 => [(code >>> 6 &&& 0x1F).toUInt8 ||| 0xC0, (code &&& 0x3F).toUInt8 ||| 0x80]
  | 3 =>
    [(code >>> 12 &&& 0x0F).toUInt8 ||| 0xE0, (code >>> 6 &&& 0x3F).toUInt8 ||| 0x80,
      (code &&& 0x3F).toUInt8 ||| 0x80]
  | _ =>
    -- A surrogate spells the code less `0x10000`, and the subtraction wraps in the topmost four bits.
    [0xED, ((code >>> 16 &&& 0x0F).toUInt8 - 1) &&& 0x0F ||| 0xA0,
      (code >>> 10 &&& 0x3F).toUInt8 ||| 0x80,
      0xED, (code >>> 6 &&& 0x1F).toUInt8 ||| 0xB0, (code &&& 0x3F).toUInt8 ||| 0x80]

/-- The encoding of a list of characters. -/
def encodeChars (chars : List Char) : Bytes := chars.flatMap encodeChar

/-- The encoding of a text. -/
def encode (text : String) : Bytes := encodeChars text.toList

/-- Does a byte continue a unit of several bytes? -/
def isContinuation (byte : UInt8) : Bool := byte.toNat / 0x40 == 2

/-- The six bits that a continuation byte carries. -/
def payload (byte : UInt8) : Nat := byte.toNat % 0x40

/-- The unit that starts with a byte, and how many of the bytes after it belong to the unit. -/
def unitAt (first : UInt8) (rest : Bytes) : UInt16 × Nat :=
  let n := first.toNat
  if n < 0x80 then (UInt16.ofNat n, 0)
  else if n / 0x20 = 6 then
    match rest with
    | second :: _ =>
      if isContinuation second then (UInt16.ofNat (n % 0x20 * 0x40 + payload second), 1)
      else (replacement, 0)
    | [] => (replacement, 0)
  else if n / 0x10 = 14 then
    match rest with
    | second :: third :: _ =>
      if isContinuation second && isContinuation third then
        (UInt16.ofNat (n % 0x10 * 0x1000 + payload second * 0x40 + payload third), 2)
      else (replacement, 0)
    | _ => (replacement, 0)
  else (replacement, 0)

/-- The code units of a byte string whose first bytes belong to a unit already read. -/
def decodeUnitsAfter : Nat → Bytes → List UInt16
  | _, [] => []
  | skipped + 1, _ :: rest => decodeUnitsAfter skipped rest
  | 0, first :: rest => (unitAt first rest).1 :: decodeUnitsAfter (unitAt first rest).2 rest

/-- The code units of a byte string. -/
def decodeUnits (bytes : Bytes) : List UInt16 := decodeUnitsAfter 0 bytes

/-- Is a unit the first of a surrogate pair? -/
def isHighSurrogate (unit : UInt16) : Bool := unit.toNat / 0x400 == 0x36

/-- Is a unit the second of a surrogate pair? -/
def isLowSurrogate (unit : UInt16) : Bool := unit.toNat / 0x400 == 0x37

/-- The character of a unit that is not part of a pair. -/
def charOfUnit (unit : UInt16) : Char :=
  if isHighSurrogate unit || isLowSurrogate unit then Char.ofNat replacement.toNat
  else Char.ofNat unit.toNat

/-- The character of a surrogate pair. -/
def charOfPair (high low : UInt16) : Char :=
  Char.ofNat (0x10000 + high.toNat % 0x400 * 0x400 + low.toNat % 0x400)

/-- The characters of a sequence of code units. -/
def charsOfUnits : List UInt16 → List Char
  | [] => []
  | [unit] => [charOfUnit unit]
  | unit :: next :: rest =>
    if isHighSurrogate unit && isLowSurrogate next then charOfPair unit next :: charsOfUnits rest
    else charOfUnit unit :: charsOfUnits (next :: rest)

/-- The characters that a byte string is read as. -/
def decodeChars (bytes : Bytes) : List Char := charsOfUnits (decodeUnits bytes)

/-- Does a byte stand for a character of ASCII other than zero? -/
def isPlain (byte : UInt8) : Bool := byte != 0 && byte < 0x80

/-- The text that a byte string is read as.  Plain bytes are taken as they are. -/
def decode (bytes : Bytes) : String :=
  if bytes.all isPlain then String.ofList (bytes.map fun byte => Char.ofNat byte.toNat)
  else String.ofList (decodeChars bytes)

end ModifiedUtf8

end ClassInstrument
