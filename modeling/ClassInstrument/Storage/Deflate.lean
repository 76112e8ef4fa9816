import ClassInstrument.Bytes

/-!
# Compressed bytes

Entries of an archive may be compressed.  The compressed form is a string of bits in blocks.  A
block holds bytes as they are, or symbols in a prefix code, which is either a fixed one or given in
front of the block by the lengths of its code words.  A symbol is a byte, the end of the block, or
the length of a piece that is copied from a distance behind in what has been unpacked so far.

Every symbol takes a bit at least, so the number of bits bounds all rounds.
-/

namespace ClassInstrument

namespace Deflate

/-! ## Bits -/

/-- A place in a string of bits; the bits of every byte count from the lowest on. -/
structure BitCursor where
  /-- The bytes. -/
  bytes : ByteArray
  /-- The number of bits before the place. -/
  place : Nat

/-- Takes a value off the front of a string of bits. -/
abbrev BitReader := StateT BitCursor Option

namespace BitReader

/-- One bit. -/
def bit : BitReader Bool := fun cursor =>
  if h : cursor.place / 8 < cursor.bytes.size then
    some (cursor.bytes[cursor.place / 8].toNat.testBit (cursor.place % 8),
      { cursor with place := cursor.place + 1 })
  else none

/-- A number of so many bits, lowest bit first. -/
def number : Nat → BitReader Nat
  | 0 => return 0
  | count + 1 => do
    let low ← bit
    return low.toNat + 2 * (← number count)

/-- Passes over the rest of a byte. -/
def skipToByte : BitReader Unit :=
  modify fun cursor => { cursor with place := (cursor.place + 7) / 8 * 8 }

end BitReader

/-! ## Prefix codes -/

/-- A prefix code as a tree of bits. -/
inductive PrefixCode where
  /-- No code word goes on here. -/
  | unused
  /-- A code word ends here, and stands for a symbol. -/
  | symbol (number : Nat)
  /-- The code words that go on with a zero, and those that go on with a one. -/
  | fork (zero one : PrefixCode)

namespace PrefixCode

/-- Gives a meaning to a code word. -/
def insert (number : Nat) : List Bool → PrefixCode → PrefixCode
  | [], _ => symbol number
  | false :: rest, fork zero one => fork (insert number rest zero) one
  | true :: rest, fork zero one => fork zero (insert number rest one)
  | false :: rest, _ => fork (insert number rest unused) unused
  | true :: rest, _ => fork unused (insert number rest unused)

/-- The bits of a number, highest first. -/
def word (value : Nat) : Nat → List Bool
  | 0 => []
  | width + 1 => value.testBit width :: word value width

/-- How far the code words have been given out. -/
structure Assignment where
  /-- The code so far. -/
  code : PrefixCode
  /-- The next code word as a number. -/
  next : Nat
  /-- The number of bits of the next code word. -/
  width : Nat

/-- Gives the next code word, made as long as asked for, to a symbol. -/
def Assignment.assign (assignment : Assignment) (width number : Nat) : Assignment :=
  let value := assignment.next <<< (width - assignment.width)
  { code := insert number (word value width) assignment.code, next := value + 1, width }

/-- The code whose words have given lengths, by symbol; a symbol of length zero has none.  Shorter
words come first, and words of one length are in the order of their symbols. -/
def ofLengths (lengths : List Nat) : PrefixCode :=
  let used := lengths.zipIdx.filter fun entry => entry.1 != 0
  let ordered := used.mergeSort fun left right => left.1 ≤ right.1
  let start : Assignment := ⟨unused, 0, 0⟩
  (ordered.foldl (fun assignment entry => assignment.assign entry.1 entry.2) start).code

/-- Do code words of given lengths make up a code?  Every string of bits has to go on with exactly one
of them, unless there is one code word at most. -/
def isCode (lengths : List Nat) : Bool :=
  let used := lengths.filter (· != 0)
  used.length ≤ 1 || used.foldr (fun length total => (1 <<< (15 - length)) + total) 0 == 1 <<< 15

/-- Takes a code word off and gives its symbol. -/
def read : PrefixCode → BitReader Nat
  | unused => failure
  | symbol number => return number
  | fork zero one => do if ← BitReader.bit then one.read else zero.read

end PrefixCode

/-! ## Symbols -/

/-- A range of numbers that share a symbol: the least of them, and the number of bits that tell the
others. -/
abbrev NumberRange := Nat × Nat

/-- The lengths of copied pieces, from symbol 257 on. -/
def lengthRanges : List NumberRange :=
  [(3, 0), (4, 0), (5, 0), (6, 0), (7, 0), (8, 0), (9, 0), (10, 0), (11, 1), (13, 1), (15, 1),
    (17, 1), (19, 2), (23, 2), (27, 2), (31, 2), (35, 3), (43, 3), (51, 3), (59, 3), (67, 4),
    (83, 4), (99, 4), (115, 4), (131, 5), (163, 5), (195, 5), (227, 5), (258, 0)]

/-- The distances of copied pieces, by symbol. -/
def distanceRanges : List NumberRange :=
  [(1, 0), (2, 0), (3, 0), (4, 0), (5, 1), (7, 1), (9, 2), (13, 2), (17, 3), (25, 3), (33, 4),
    (49, 4), (65, 5), (97, 5), (129, 6), (193, 6), (257, 7), (385, 7), (513, 8), (769, 8),
    (1025, 9), (1537, 9), (2049, 10), (3073, 10), (4097, 11), (6145, 11), (8193, 12), (12289, 12),
    (16385, 13), (24577, 13)]

/-- The number that a symbol begins. -/
def numberIn (ranges : List NumberRange) (symbol : Nat) : BitReader Nat :=
  match ranges[symbol]? with
  | some (least, width) => do return least + (← BitReader.number width)
  | none => failure

/-- Copies bytes one after the other from a distance behind, which may lie within the copy. -/
def copyBack (distance : Nat) : Nat → ByteArray → Option ByteArray
  | 0, done => some done
  | count + 1, done =>
    if near : 0 < distance ∧ distance ≤ done.size then
      have inside : done.size - distance < done.size := by omega
      copyBack distance count (done.push done[done.size - distance])
    else none

/-- Unpacks the symbols of a block. -/
def symbols (literals distances : PrefixCode) : Nat → ByteArray → BitReader ByteArray
  | 0, _ => failure
  | rounds + 1, done => do
    let symbol ← literals.read
    if symbol < 256 then symbols literals distances rounds (done.push (UInt8.ofNat symbol))
    else if symbol = 256 then return done
    else
      let length ← numberIn lengthRanges (symbol - 257)
      let distance ← numberIn distanceRanges (← distances.read)
      match copyBack distance length done with
      | some done => symbols literals distances rounds done
      | none => failure

/-! ## Blocks -/

/-- The code of bytes and lengths that is used if none is given. -/
def fixedLiterals : PrefixCode :=
  .ofLengths (List.replicate 144 8 ++ List.replicate 112 9 ++ List.replicate 24 7 ++
    List.replicate 8 8)

/-- The code of distances that is used if none is given. -/
def fixedDistances : PrefixCode := .ofLengths (List.replicate 30 5)

/-- The order in which the lengths of the code words for lengths are given. -/
def lengthOrder : List Nat :=
  [16, 17, 18, 0, 8, 7, 9, 6, 10, 5, 11, 4, 12, 3, 13, 2, 14, 1, 15]

/-- The lengths of code words, up to a total: each is given itself, or as one that is repeated. -/
def wordLengths (code : PrefixCode) (total : Nat) : Nat → Array Nat → BitReader (List Nat)
  | 0, done => if done.size = total then return done.toList else failure
  | rounds + 1, done => do
    if done.size ≥ total then wordLengths code total 0 done
    else
      match ← code.read with
      | 16 =>
        match done.back? with
        | some last =>
          let count := 3 + (← BitReader.number 2)
          wordLengths code total rounds (done ++ Array.replicate count last)
        | none => failure
      | 17 =>
        let count := 3 + (← BitReader.number 3)
        wordLengths code total rounds (done ++ Array.replicate count 0)
      | 18 =>
        let count := 11 + (← BitReader.number 7)
        wordLengths code total rounds (done ++ Array.replicate count 0)
      | length => wordLengths code total rounds (done.push length)

/-- The code whose words have given lengths, if they make up one. -/
def givenCode (lengths : List Nat) : BitReader PrefixCode :=
  if PrefixCode.isCode lengths then return .ofLengths lengths else failure

/-- The codes that stand in front of a block, for bytes and lengths and for distances. -/
def givenCodes : BitReader (PrefixCode × PrefixCode) := do
  let literals := 257 + (← BitReader.number 5)
  let distances := 1 + (← BitReader.number 5)
  let given := 4 + (← BitReader.number 4)
  let widths ← (lengthOrder.take given).mapM fun symbol => do
    return (symbol, ← BitReader.number 3)
  let code ← givenCode ((List.range 19).map fun symbol => (widths.lookup symbol).getD 0)
  let total := literals + distances
  if literals ≤ 286 ∧ distances ≤ 30 then
    let lengths ← wordLengths code total total #[]
    return (← givenCode (lengths.take literals), ← givenCode (lengths.drop literals))
  else failure

/-- Unpacks a block whose bytes stand as they are, after their number and its complement. -/
def plainBlock (done : ByteArray) : BitReader ByteArray := do
  BitReader.skipToByte
  let length ← BitReader.number 16
  let complement ← BitReader.number 16
  let cursor ← get
  let start := cursor.place / 8
  if length + complement = 65535 ∧ start + length ≤ cursor.bytes.size then
    set { cursor with place := cursor.place + 8 * length }
    return done ++ cursor.bytes.extract start (start + length)
  else failure

/-- Unpacks a block of a kind. -/
def block (rounds kind : Nat) (done : ByteArray) : BitReader ByteArray :=
  match kind with
  | 0 => plainBlock done
  | 1 => symbols fixedLiterals fixedDistances rounds done
  | 2 => do
    let (literals, distances) ← givenCodes
    symbols literals distances rounds done
  | _ => failure

/-- Unpacks blocks up to the one that says that it is the last. -/
def blocks (bits : Nat) : Nat → ByteArray → BitReader ByteArray
  | 0, _ => failure
  | rounds + 1, done => do
    let isLast ← BitReader.bit
    let kind ← BitReader.number 2
    let done ← block bits kind done
    if isLast then return done else blocks bits rounds done

end Deflate

/-- The bytes that have a compressed form. -/
def Deflate.unpack (packed : ByteArray) : Option ByteArray :=
  let bits := 8 * packed.size
  ((Deflate.blocks bits bits ByteArray.empty).run ⟨packed, 0⟩).map Prod.fst

end ClassInstrument
