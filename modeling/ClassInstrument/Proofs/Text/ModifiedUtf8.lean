import Mathlib
import ClassInstrument.Text.ModifiedUtf8

/-!
# Texts are read back

The bytes of a character are those of its UTF-16 code units, each in one to three bytes.  A text that
was encoded is read back: each code unit is read back from its bytes whatever follows, and each
character from its units, since no character is a surrogate and a supplementary one is a pair.

Bytes are not always written back: reading them and writing what was read spells them anew, and changes
all bytes but those that are the encoding of some text.  These are the sequences of a few shapes, one
for each range of characters.
-/

namespace ClassInstrument

namespace ModifiedUtf8

/-! ## Characters as code units -/

/-- The UTF-16 code units of a character. -/
def unitsOfChar (c : Char) : List UInt16 :=
  if c.toNat < 0x10000 then [UInt16.ofNat c.toNat]
  else
    let offset := c.toNat - 0x10000
    [UInt16.ofNat (0xD800 + offset / 0x400), UInt16.ofNat (0xDC00 + offset % 0x400)]

/-- The bytes of one code unit. -/
def encodeUnit (unit : UInt16) : Bytes :=
  let n := unit.toNat
  if 0 < n ∧ n < 0x80 then [UInt8.ofNat n]
  else if n < 0x800 then [UInt8.ofNat (0xC0 + n / 0x40), UInt8.ofNat (0x80 + n % 0x40)]
  else
    [UInt8.ofNat (0xE0 + n / 0x1000), UInt8.ofNat (0x80 + n / 0x40 % 0x40),
      UInt8.ofNat (0x80 + n % 0x40)]

/-- A mask keeps the low bits of a number. -/
theorem toUInt8_and (width : Nat) (x mask : UInt32) (hwidth : width ≤ 8)
    (hmask : mask.toNat = 2 ^ width - 1) :
    (x &&& mask).toUInt8 = UInt8.ofNat (x.toNat % 2 ^ width) := by
  have hlt : x.toNat % 2 ^ width < 2 ^ 8 :=
    (Nat.mod_lt _ (Nat.two_pow_pos width)).trans_le (Nat.pow_le_pow_right (by decide) hwidth)
  refine UInt8.toNat_inj.mp ?_
  rw [UInt32.toNat_toUInt8, UInt32.toNat_and, hmask, Nat.and_two_pow_sub_one_eq_mod,
    UInt8.toNat_ofNat']

/-- Bits below a tag that leaves them free add to it. -/
theorem or_tag (width : Nat) {low : Nat} (tag : UInt8) (hlow : low < 2 ^ width)
    (hwidth : width ≤ 8) (htag : 2 ^ width ∣ tag.toNat) :
    UInt8.ofNat low ||| tag = UInt8.ofNat (tag.toNat + low) := by
  obtain ⟨high, hhigh⟩ := htag
  have hsmall : low < 2 ^ 8 := hlow.trans_le (Nat.pow_le_pow_right (by decide) hwidth)
  have hor : 2 ^ width * high + low = 2 ^ width * high ||| low :=
    Nat.two_pow_add_eq_or_of_lt hlow high
  rw [← UInt8.ofNat_toNat (x := UInt8.ofNat low ||| tag), UInt8.toNat_or, UInt8.toNat_ofNat',
    Nat.mod_eq_of_lt hsmall, hhigh, Nat.or_comm, hor]

/-- Shifting drops the low bits of a number. -/
theorem toNat_shiftRight_of_lt (x : UInt32) {bits : UInt32} (hbits : bits.toNat < 32) :
    (x >>> bits).toNat = x.toNat / 2 ^ bits.toNat := by
  rw [UInt32.toNat_shiftRight, Nat.mod_eq_of_lt hbits, Nat.shiftRight_eq_div_pow]

/-- Six bits of a character in a continuation byte. -/
theorem continuation_byte (x : UInt32) :
    (x &&& 0x3F).toUInt8 ||| 0x80 = UInt8.ofNat (0x80 + x.toNat % 0x40) := by
  rw [toUInt8_and 6 x 0x3F (by decide) rfl]
  exact or_tag 6 0x80 (Nat.mod_lt _ (by decide)) (by decide) (by decide)

/-- The number of bytes, by the range that a character is in. -/
theorem size_eq (c : Char) :
    (if c = '\x00' then 2 else c.utf8Size) =
      if 0 < c.toNat ∧ c.toNat < 0x80 then 1 else if c.toNat < 0x800 then 2
      else if c.toNat < 0x10000 then 3 else 4 := by
  have hzero : c = '\x00' ↔ c.toNat = 0 := by rw [← Char.toNat_inj]; rfl
  have hval : c.val.toNat = c.toNat := rfl
  simp only [Char.utf8Size, UInt32.le_iff_toNat_le, hzero, hval,
    UInt32.toNat_ofNatLT]
  split_ifs <;> omega

/-- The bytes of a character, by the range that it is in. -/
theorem encodeChar_eq_bytes (c : Char) :
    encodeChar c =
      if 0 < c.toNat ∧ c.toNat < 0x80 then [UInt8.ofNat c.toNat]
      else if c.toNat < 0x800 then
        [UInt8.ofNat (0xC0 + c.toNat / 0x40), UInt8.ofNat (0x80 + c.toNat % 0x40)]
      else if c.toNat < 0x10000 then
        [UInt8.ofNat (0xE0 + c.toNat / 0x1000), UInt8.ofNat (0x80 + c.toNat / 0x40 % 0x40),
          UInt8.ofNat (0x80 + c.toNat % 0x40)]
      else
        [0xED, UInt8.ofNat (0xA0 + (c.toNat - 0x10000) / 0x10000),
          UInt8.ofNat (0x80 + c.toNat / 0x400 % 0x40), 0xED,
          UInt8.ofNat (0xB0 + c.toNat / 0x40 % 0x10), UInt8.ofNat (0x80 + c.toNat % 0x40)] := by
  have hnat : c.toNat < 0xD800 ∨ 0xDFFF < c.toNat ∧ c.toNat < 0x110000 := c.valid
  have hval : c.val.toNat = c.toNat := rfl
  have hsix : (c.val >>> 6).toNat = c.toNat / 0x40 := toNat_shiftRight_of_lt _ (by decide)
  have hten : (c.val >>> 10).toNat = c.toNat / 0x400 := toNat_shiftRight_of_lt _ (by decide)
  have htwelve : (c.val >>> 12).toNat = c.toNat / 0x1000 := toNat_shiftRight_of_lt _ (by decide)
  have hsixteen : (c.val >>> 16).toNat = c.toNat / 0x10000 := toNat_shiftRight_of_lt _ (by decide)
  unfold encodeChar
  rw [size_eq]
  split_ifs with hone htwo hthree
  · have hbyte : c.val.toUInt8 = UInt8.ofNat c.toNat :=
      UInt8.toNat_inj.mp (by rw [UInt32.toNat_toUInt8, hval, UInt8.toNat_ofNat'])
    simp only [hbyte]
  · have hfirst : (c.val >>> 6 &&& 0x1F).toUInt8 ||| 0xC0 =
        UInt8.ofNat (0xC0 + c.toNat / 0x40) := by
      rw [toUInt8_and 5 _ _ (by decide) rfl, hsix, Nat.mod_eq_of_lt (by omega)]
      exact or_tag 5 0xC0 (by omega) (by decide) (by decide)
    simp only [hfirst, continuation_byte, hval]
  · have hfirst : (c.val >>> 12 &&& 0x0F).toUInt8 ||| 0xE0 =
        UInt8.ofNat (0xE0 + c.toNat / 0x1000) := by
      rw [toUInt8_and 4 _ _ (by decide) rfl, htwelve, Nat.mod_eq_of_lt (by omega)]
      exact or_tag 4 0xE0 (by omega) (by decide) (by decide)
    simp only [hfirst, continuation_byte, hsix, hval]
  · -- Of `0x10000` only the topmost bits know, so subtracting it from them wraps at most once; the
    -- tag of a low surrogate covers the fifth bit, which belongs to the high one.
    have hwrapped : ∀ top < 16, (UInt8.ofNat top - 1) &&& 0x0F ||| 0xA0 =
        UInt8.ofNat (0xA0 + (top + 15) % 16) := by decide
    have hcovered : ∀ bits < 32, UInt8.ofNat bits ||| 0xB0 = UInt8.ofNat (0xB0 + bits % 16) := by
      decide
    have hhigh : ((c.val >>> 16 &&& 0x0F).toUInt8 - 1) &&& 0x0F ||| 0xA0 =
        UInt8.ofNat (0xA0 + (c.toNat - 0x10000) / 0x10000) := by
      rw [toUInt8_and 4 _ _ (by decide) rfl, hsixteen, hwrapped _ (by omega)]
      congr 2
      omega
    have hlow : (c.val >>> 6 &&& 0x1F).toUInt8 ||| 0xB0 =
        UInt8.ofNat (0xB0 + c.toNat / 0x40 % 0x10) := by
      rw [toUInt8_and 5 _ _ (by decide) rfl, hsix, hcovered _ (by omega)]
      congr 2
      omega
    simp only [hhigh, hlow, continuation_byte, hten, hval]

/-- The bytes of a character are those of its units. -/
theorem encodeChar_eq (c : Char) : encodeChar c = (unitsOfChar c).flatMap encodeUnit := by
  have hnat : c.toNat < 0xD800 ∨ 0xDFFF < c.toNat ∧ c.toNat < 0x110000 := c.valid
  rw [encodeChar_eq_bytes]
  unfold unitsOfChar
  by_cases hsmall : c.toNat < 0x10000
  · have hunit : (UInt16.ofNat c.toNat).toNat = c.toNat := by simp; omega
    rw [if_pos hsmall, if_pos hsmall, List.flatMap_singleton]
    simp only [encodeUnit, hunit]
  · have hhigh : (UInt16.ofNat (0xD800 + (c.toNat - 0x10000) / 0x400)).toNat =
        0xD800 + (c.toNat - 0x10000) / 0x400 := by
      simp; omega
    have hlow : (UInt16.ofNat (0xDC00 + (c.toNat - 0x10000) % 0x400)).toNat =
        0xDC00 + (c.toNat - 0x10000) % 0x400 := by
      simp; omega
    have htagged : 0xE0 + (0xD800 + (c.toNat - 0x10000) / 0x400) / 0x1000 = 0xED ∧
        0xE0 + (0xDC00 + (c.toNat - 0x10000) % 0x400) / 0x1000 = 0xED := by omega
    have hsecond : 0x80 + (0xD800 + (c.toNat - 0x10000) / 0x400) / 0x40 % 0x40 =
        0xA0 + (c.toNat - 0x10000) / 0x10000 := by omega
    have hthird : 0x80 + (0xD800 + (c.toNat - 0x10000) / 0x400) % 0x40 =
        0x80 + c.toNat / 0x400 % 0x40 := by omega
    have hfifth : 0x80 + (0xDC00 + (c.toNat - 0x10000) % 0x400) / 0x40 % 0x40 =
        0xB0 + c.toNat / 0x40 % 0x10 := by omega
    have hsixth : 0x80 + (0xDC00 + (c.toNat - 0x10000) % 0x400) % 0x40 =
        0x80 + c.toNat % 0x40 := by omega
    rw [if_neg (by omega), if_neg (by omega), if_neg hsmall, if_neg hsmall, List.flatMap_cons,
      List.flatMap_singleton]
    simp only [encodeUnit, hhigh, hlow]
    rw [if_neg (by omega), if_neg (by omega), if_neg (by omega), if_neg (by omega), htagged.1,
      htagged.2, hsecond, hthird, hfifth, hsixth]
    rfl

/-! ## Reading back -/

/-- The bytes of a unit are read as the unit, and no byte behind them belongs to it. -/
theorem decodeUnits_encodeUnit (unit : UInt16) (rest : Bytes) :
    decodeUnits (encodeUnit unit ++ rest) = unit :: decodeUnits rest := by
  have hlt := unit.toNat_lt
  unfold encodeUnit
  dsimp only
  split
  · next hsmall =>
    have hbyte : (UInt8.ofNat unit.toNat).toNat = unit.toNat := by simp; omega
    simp only [decodeUnits, List.cons_append, List.nil_append, decodeUnitsAfter, unitAt, hbyte,
      if_pos hsmall.2, UInt16.ofNat_toNat]
  split
  · next hsmall hmiddle =>
    have hfirst : (UInt8.ofNat (0xC0 + unit.toNat / 0x40)).toNat = 0xC0 + unit.toNat / 0x40 := by
      simp; omega
    have hsecond : (UInt8.ofNat (0x80 + unit.toNat % 0x40)).toNat = 0x80 + unit.toNat % 0x40 := by
      simp; omega
    have hcontinues : isContinuation (UInt8.ofNat (0x80 + unit.toNat % 0x40)) = true := by
      simp only [isContinuation, hsecond, beq_iff_eq]
      omega
    have hunit : (0xC0 + unit.toNat / 0x40) % 0x20 * 0x40 + (0x80 + unit.toNat % 0x40) % 0x40 =
        unit.toNat := by omega
    have hat : unitAt (UInt8.ofNat (0xC0 + unit.toNat / 0x40))
        (UInt8.ofNat (0x80 + unit.toNat % 0x40) :: rest) = (unit, 1) := by
      simp only [unitAt, hfirst, payload, hsecond, hcontinues, if_true, hunit, UInt16.ofNat_toNat]
      rw [if_neg (by omega), if_pos (by omega)]
    simp only [decodeUnits, List.cons_append, List.nil_append, decodeUnitsAfter, hat]
  · next hsmall hmiddle =>
    have hfirst : (UInt8.ofNat (0xE0 + unit.toNat / 0x1000)).toNat =
        0xE0 + unit.toNat / 0x1000 := by
      simp; omega
    have hsecond : (UInt8.ofNat (0x80 + unit.toNat / 0x40 % 0x40)).toNat =
        0x80 + unit.toNat / 0x40 % 0x40 := by
      simp; omega
    have hthird : (UInt8.ofNat (0x80 + unit.toNat % 0x40)).toNat = 0x80 + unit.toNat % 0x40 := by
      simp; omega
    have hcontinues : isContinuation (UInt8.ofNat (0x80 + unit.toNat / 0x40 % 0x40)) = true := by
      simp only [isContinuation, hsecond, beq_iff_eq]
      omega
    have hcontinues' : isContinuation (UInt8.ofNat (0x80 + unit.toNat % 0x40)) = true := by
      simp only [isContinuation, hthird, beq_iff_eq]
      omega
    have hunit : (0xE0 + unit.toNat / 0x1000) % 0x10 * 0x1000 +
        (0x80 + unit.toNat / 0x40 % 0x40) % 0x40 * 0x40 + (0x80 + unit.toNat % 0x40) % 0x40 =
          unit.toNat := by omega
    have hat : unitAt (UInt8.ofNat (0xE0 + unit.toNat / 0x1000))
        (UInt8.ofNat (0x80 + unit.toNat / 0x40 % 0x40) ::
          UInt8.ofNat (0x80 + unit.toNat % 0x40) :: rest) = (unit, 2) := by
      simp only [unitAt, hfirst, payload, hsecond, hthird, hcontinues, hcontinues', Bool.and_self,
        if_true, hunit, UInt16.ofNat_toNat]
      rw [if_neg (by omega), if_neg (by omega), if_pos (by omega)]
    simp only [decodeUnits, List.cons_append, List.nil_append, decodeUnitsAfter, hat]

/-- Units are read back. -/
theorem decodeUnits_flatMap (units : List UInt16) :
    decodeUnits (units.flatMap encodeUnit) = units := by
  induction units with
  | nil => rfl
  | cons unit units ih => rw [List.flatMap_cons, decodeUnits_encodeUnit, ih]

/-- The units of a character are read as the character, whatever follows. -/
theorem charsOfUnits_unitsOfChar (c : Char) (rest : List UInt16) :
    charsOfUnits (unitsOfChar c ++ rest) = c :: charsOfUnits rest := by
  have hnat : c.toNat < 0xD800 ∨ 0xDFFF < c.toNat ∧ c.toNat < 0x110000 := c.valid
  unfold unitsOfChar
  split
  · next hsmall =>
    have hunit : (UInt16.ofNat c.toNat).toNat = c.toNat := by simp; omega
    have hhigh : isHighSurrogate (UInt16.ofNat c.toNat) = false := by
      simp only [isHighSurrogate, hunit, beq_eq_false_iff_ne]
      omega
    have hlow : isLowSurrogate (UInt16.ofNat c.toNat) = false := by
      simp only [isLowSurrogate, hunit, beq_eq_false_iff_ne]
      omega
    have hchar : charOfUnit (UInt16.ofNat c.toNat) = c := by
      simp only [charOfUnit, hhigh, hlow, Bool.or_self, Bool.false_eq_true, if_false, hunit,
        Char.ofNat_toNat]
    cases rest with
    | nil => simp [charsOfUnits, hchar]
    | cons next rest => simp [charsOfUnits, hhigh, hchar]
  · next hlarge =>
    have hhighNat : (UInt16.ofNat (0xD800 + (c.toNat - 0x10000) / 0x400)).toNat =
        0xD800 + (c.toNat - 0x10000) / 0x400 := by
      simp; omega
    have hlowNat : (UInt16.ofNat (0xDC00 + (c.toNat - 0x10000) % 0x400)).toNat =
        0xDC00 + (c.toNat - 0x10000) % 0x400 := by
      simp; omega
    have hhigh : isHighSurrogate (UInt16.ofNat (0xD800 + (c.toNat - 0x10000) / 0x400)) = true := by
      simp only [isHighSurrogate, hhighNat, beq_iff_eq]
      omega
    have hlow : isLowSurrogate (UInt16.ofNat (0xDC00 + (c.toNat - 0x10000) % 0x400)) = true := by
      simp only [isLowSurrogate, hlowNat, beq_iff_eq]
      omega
    have hsum : 0x10000 + (0xD800 + (c.toNat - 0x10000) / 0x400) % 0x400 * 0x400 +
        (0xDC00 + (c.toNat - 0x10000) % 0x400) % 0x400 = c.toNat := by omega
    simp only [List.cons_append, List.nil_append, charsOfUnits, hhigh, hlow, Bool.and_self, if_true,
      charOfPair, hhighNat, hlowNat, hsum, Char.ofNat_toNat]

/-! ## Plain bytes -/

/-- A unit that is no high surrogate is a character of its own. -/
theorem charsOfUnits_cons {unit : UInt16} (h : isHighSurrogate unit = false) (rest : List UInt16) :
    charsOfUnits (unit :: rest) = charOfUnit unit :: charsOfUnits rest := by
  cases rest with
  | nil => rfl
  | cons next rest => simp [charsOfUnits, h]

/-- Plain bytes are characters by themselves. -/
theorem decodeChars_of_plain {bytes : Bytes} (h : ∀ byte ∈ bytes, isPlain byte) :
    decodeChars bytes = bytes.map fun byte => Char.ofNat byte.toNat := by
  induction bytes with
  | nil => rfl
  | cons byte bytes ih =>
    obtain ⟨hbyte, hbytes⟩ := List.forall_mem_cons.mp h
    have hlt : byte.toNat < 0x80 := by
      simp only [isPlain, Bool.and_eq_true, decide_eq_true_eq, UInt8.lt_iff_toNat_lt] at hbyte
      exact hbyte.2
    have hunit : (UInt16.ofNat byte.toNat).toNat = byte.toNat := by simp
    have hat : unitAt byte bytes = (UInt16.ofNat byte.toNat, 0) := by
      simp only [unitAt, if_pos hlt]
    have hhigh : isHighSurrogate (UInt16.ofNat byte.toNat) = false := by
      simp only [isHighSurrogate, hunit, beq_eq_false_iff_ne]
      omega
    have hlow : isLowSurrogate (UInt16.ofNat byte.toNat) = false := by
      simp only [isLowSurrogate, hunit, beq_eq_false_iff_ne]
      omega
    have hchar : charOfUnit (UInt16.ofNat byte.toNat) = Char.ofNat byte.toNat := by
      simp only [charOfUnit, hhigh, hlow, Bool.or_self, Bool.false_eq_true, if_false, hunit]
    rw [decodeChars, decodeUnits, decodeUnitsAfter, hat, charsOfUnits_cons hhigh, hchar]
    exact congrArg _ (ih hbytes)

/-- Bytes are read unit by unit, whether they are plain or not. -/
theorem decode_eq (bytes : Bytes) : decode bytes = String.ofList (decodeChars bytes) := by
  unfold decode
  split
  · next hplain => rw [decodeChars_of_plain (List.all_eq_true.mp hplain)]
  · rfl

/-- Texts are read back. -/
theorem decode_encode (text : String) : decode (encode text) = text := by
  have hchars : ∀ chars : List Char, charsOfUnits (chars.flatMap unitsOfChar) = chars := by
    intro chars
    induction chars with
    | nil => rfl
    | cons c chars ih => rw [List.flatMap_cons, charsOfUnits_unitsOfChar, ih]
  have hunits : encode text = (text.toList.flatMap unitsOfChar).flatMap encodeUnit := by
    rw [encode, encodeChars, List.flatMap_assoc]
    exact congrArg text.toList.flatMap (funext encodeChar_eq)
  rw [decode_eq, decodeChars, hunits, decodeUnits_flatMap, hchars, String.ofList_toList]

/-- The encoding of the text that bytes are read as. -/
def respell (bytes : Bytes) : Bytes := encode (decode bytes)

/-- Bytes are spelled anew as they are if and only if they encode some text. -/
theorem respell_eq_iff {bytes : Bytes} : respell bytes = bytes ↔ ∃ text, encode text = bytes := by
  constructor
  · exact fun h => ⟨decode bytes, h⟩
  · rintro ⟨text, rfl⟩
    rw [respell, decode_encode]

/-- A surrogate without a partner is spelled anew as the replacement character. -/
example : respell [0xED, 0xA0, 0x80] = [0xEF, 0xBF, 0xBD] := by decide +kernel

/-! ## The bytes that encode a text -/

/-- The shapes of the bytes of one character, one for each range of characters. -/
inductive IsCharShape : Bytes → Prop where
  /-- `01` to `7F`. -/
  | one (byte : UInt8) (hlow : 0x01 ≤ byte.toNat) (hhigh : byte.toNat ≤ 0x7F) : IsCharShape [byte]
  /-- Zero. -/
  | zero : IsCharShape [0xC0, 0x80]
  /-- Two bytes for what one cannot spell. -/
  | two (first second : UInt8) (hlow : 0xC2 ≤ first.toNat) (hhigh : first.toNat ≤ 0xDF)
      (hsecond : isContinuation second) : IsCharShape [first, second]
  /-- Three bytes for what two cannot spell, without the surrogates `D800` to `DFFF`. -/
  | three (first second third : UInt8) (hlow : 0xE0 ≤ first.toNat) (hhigh : first.toNat ≤ 0xEF)
      (hsecond : isContinuation second) (hthird : isContinuation third)
      (hshortest : first.toNat = 0xE0 → 0xA0 ≤ second.toNat)
      (hsurrogate : first.toNat = 0xED → second.toNat < 0xA0) : IsCharShape [first, second, third]
  /-- A high surrogate and a low one. -/
  | pair (second third fifth sixth : UInt8)
      (hsecondLow : 0xA0 ≤ second.toNat) (hsecondHigh : second.toNat ≤ 0xAF)
      (hthird : isContinuation third)
      (hfifthLow : 0xB0 ≤ fifth.toNat) (hfifthHigh : fifth.toNat ≤ 0xBF)
      (hsixth : isContinuation sixth) : IsCharShape [0xED, second, third, 0xED, fifth, sixth]

/-- A continuation byte carries six bits. -/
theorem isContinuation_iff {byte : UInt8} :
    isContinuation byte ↔ 0x80 ≤ byte.toNat ∧ byte.toNat ≤ 0xBF := by
  simp only [isContinuation, beq_iff_eq]
  omega

/-- The bytes of a character have one of the shapes. -/
theorem isCharShape_encodeChar (c : Char) : IsCharShape (encodeChar c) := by
  have hnat : c.toNat < 0xD800 ∨ 0xDFFF < c.toNat ∧ c.toNat < 0x110000 := c.valid
  have hbyte {n : Nat} (h : n < 0x100) : (UInt8.ofNat n).toNat = n := by simp; omega
  rw [encodeChar_eq_bytes]
  split_ifs with hone htwo hthree
  · exact .one _ (by rw [hbyte (by omega)]; omega) (by rw [hbyte (by omega)]; omega)
  · rcases Nat.eq_zero_or_pos c.toNat with hzero | hpos
    · rw [hzero]
      exact .zero
    · refine .two _ _ ?_ ?_ (isContinuation_iff.mpr ?_) <;> rw [hbyte (by omega)] <;> omega
  · refine .three _ _ _ ?_ ?_ (isContinuation_iff.mpr ?_) (isContinuation_iff.mpr ?_) ?_ ?_ <;>
      (repeat rw [hbyte (by omega)]) <;> omega
  · refine .pair _ _ _ _ ?_ ?_ (isContinuation_iff.mpr ?_) ?_ ?_ (isContinuation_iff.mpr ?_) <;>
      rw [hbyte (by omega)] <;> omega

/-- The number of a character. -/
theorem exists_toNat_eq {n : Nat} (h : n < 0xD800 ∨ 0xDFFF < n ∧ n < 0x110000) :
    ∃ c : Char, c.toNat = n := by
  refine ⟨Char.ofNat n, ?_⟩
  rw [Char.ofNat, dif_pos h]
  rfl

/-- Bytes of one of the shapes are those of a character. -/
theorem exists_encodeChar_of_isCharShape {bytes : Bytes} (h : IsCharShape bytes) :
    ∃ c, encodeChar c = bytes := by
  have hbyte {n : Nat} (byte : UInt8) (h : n = byte.toNat) : UInt8.ofNat n = byte := by
    rw [h, UInt8.ofNat_toNat]
  cases h with
  | one byte hlow hhigh =>
    obtain ⟨c, hc⟩ := exists_toNat_eq (n := byte.toNat) (by omega)
    refine ⟨c, ?_⟩
    rw [encodeChar_eq_bytes, hc, if_pos (by omega), hbyte byte rfl]
  | zero => exact ⟨'\x00', by decide⟩
  | two first second hlow hhigh hsecond =>
    rw [isContinuation_iff] at hsecond
    obtain ⟨c, hc⟩ := exists_toNat_eq (n := first.toNat % 0x20 * 0x40 + second.toNat % 0x40)
      (by omega)
    refine ⟨c, ?_⟩
    rw [encodeChar_eq_bytes, hc, if_neg (by omega), if_pos (by omega), hbyte first (by omega),
      hbyte second (by omega)]
  | three first second third hlow hhigh hsecond hthird hshortest hsurrogate =>
    rw [isContinuation_iff] at hsecond hthird
    obtain ⟨c, hc⟩ := exists_toNat_eq
      (n := first.toNat % 0x10 * 0x1000 + second.toNat % 0x40 * 0x40 + third.toNat % 0x40) (by omega)
    refine ⟨c, ?_⟩
    rw [encodeChar_eq_bytes, hc, if_neg (by omega), if_neg (by omega), if_pos (by omega),
      hbyte first (by omega), hbyte second (by omega), hbyte third (by omega)]
  | pair second third fifth sixth hsecondLow hsecondHigh hthird hfifthLow hfifthHigh hsixth =>
    rw [isContinuation_iff] at hthird hsixth
    obtain ⟨c, hc⟩ := exists_toNat_eq
      (n := 0x10000 + second.toNat % 0x10 * 0x10000 + third.toNat % 0x40 * 0x400 +
        fifth.toNat % 0x10 * 0x40 + sixth.toNat % 0x40) (by omega)
    refine ⟨c, ?_⟩
    rw [encodeChar_eq_bytes, hc, if_neg (by omega), if_neg (by omega), if_neg (by omega),
      hbyte second (by omega), hbyte third (by omega), hbyte fifth (by omega),
      hbyte sixth (by omega)]

/-- Bytes encode a text if and only if they are a sequence of the shapes. -/
theorem exists_encode_iff {bytes : Bytes} :
    (∃ text, encode text = bytes) ↔
      ∃ shapes : List Bytes, (∀ shape ∈ shapes, IsCharShape shape) ∧ bytes = shapes.flatten := by
  constructor
  · rintro ⟨text, rfl⟩
    refine ⟨text.toList.map encodeChar, fun shape hshape => ?_, List.flatMap_def⟩
    obtain ⟨c, _, rfl⟩ := List.mem_map.mp hshape
    exact isCharShape_encodeChar c
  · rintro ⟨shapes, hshapes, rfl⟩
    induction shapes with
    | nil => exact ⟨"", rfl⟩
    | cons shape shapes ih =>
      obtain ⟨hshape, hrest⟩ := List.forall_mem_cons.mp hshapes
      obtain ⟨c, rfl⟩ := exists_encodeChar_of_isCharShape hshape
      obtain ⟨text, htext⟩ := ih hrest
      refine ⟨String.ofList (c :: text.toList), ?_⟩
      rw [List.flatten_cons, ← htext, encode, encode, String.toList_ofList, encodeChars,
        List.flatMap_cons, encodeChars]

/-- No byte of a character is zero or starts a unit of four bytes. -/
theorem IsCharShape.bounds {bytes : Bytes} (h : IsCharShape bytes) :
    ∀ byte ∈ bytes, byte ≠ 0 ∧ byte < 0xF0 := by
  have hbounds (byte : UInt8) (hlow : 0 < byte.toNat) (hhigh : byte.toNat < 0xF0) :
      byte ≠ 0 ∧ byte < 0xF0 :=
    ⟨fun hzero => by simp [hzero] at hlow, UInt8.lt_iff_toNat_lt.mpr hhigh⟩
  have hcontinuation {byte : UInt8} (h : isContinuation byte) : byte ≠ 0 ∧ byte < 0xF0 := by
    rw [isContinuation_iff] at h
    exact hbounds byte (by omega) (by omega)
  cases h with
  | one byte hlow hhigh => exact List.forall_mem_singleton.mpr (hbounds byte (by omega) (by omega))
  | zero =>
    exact List.forall_mem_cons.mpr ⟨by decide, List.forall_mem_singleton.mpr (by decide)⟩
  | two first second hlow hhigh hsecond =>
    exact List.forall_mem_cons.mpr ⟨hbounds first (by omega) (by omega),
      List.forall_mem_singleton.mpr (hcontinuation hsecond)⟩
  | three first second third hlow hhigh hsecond hthird =>
    exact List.forall_mem_cons.mpr ⟨hbounds first (by omega) (by omega), List.forall_mem_cons.mpr
      ⟨hcontinuation hsecond, List.forall_mem_singleton.mpr (hcontinuation hthird)⟩⟩
  | pair second third fifth sixth hsecondLow hsecondHigh hthird hfifthLow hfifthHigh hsixth =>
    have hsecond := hbounds second (by omega) (by omega)
    have hfifth := hbounds fifth (by omega) (by omega)
    rintro byte hbyte
    simp only [List.mem_cons, List.not_mem_nil, or_false] at hbyte
    rcases hbyte with rfl | rfl | rfl | rfl | rfl | rfl
    exacts [by decide, hsecond, hcontinuation hthird, by decide, hfifth, hcontinuation hsixth]

/-- **Modified UTF-8 is read back and recognised.**  A text that was encoded is read back; its bytes
are neither zero nor from `F0` up; and bytes that are read and encoded again are as they were if and
only if they are a sequence of the shapes of characters. -/
theorem encoding_read_back_and_recognised :
    (∀ text, decode (encode text) = text ∧ ∀ byte ∈ encode text, byte ≠ 0 ∧ byte < 0xF0) ∧
      ∀ bytes, encode (decode bytes) = bytes ↔
        ∃ shapes : List Bytes, (∀ shape ∈ shapes, IsCharShape shape) ∧ bytes = shapes.flatten := by
  refine ⟨fun text => ⟨decode_encode text, fun byte hbyte => ?_⟩, fun bytes => ?_⟩
  · obtain ⟨c, _, hmem⟩ := List.mem_flatMap.mp hbyte
    exact (isCharShape_encodeChar c).bounds byte hmem
  · rw [← exists_encode_iff]
    exact respell_eq_iff

end ModifiedUtf8

end ClassInstrument
