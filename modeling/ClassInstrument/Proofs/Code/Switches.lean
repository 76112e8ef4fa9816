import ClassInstrument.Proofs.Assembly.Encoding
import ClassInstrument.Proofs.Code.Operands
import ClassInstrument.Proofs.Code.Taking

/-!
# Switches that are written again

A dense table is read with its first and its last key, and kept with the first key and the targets only.
When it is written again, the last key is computed from the number of targets in 32 bits.  It comes out as
it was read; but the sum on the way to it leaves the 32 bits if the last key is the highest number there is.
-/

namespace ClassInstrument

open Outcome

namespace Encoding

/-! ## Tables and their numbers -/

/-- Bytes start with a dense table for an offset that has targets from one key to another. -/
def StartsDense (bytes : Bytes) (offset : ℕ) (low high : Int32) : Prop :=
  ∃ front rest, bytes = Opcode.tableswitch ::
      (front ++ (Bytes.u4 low.toUInt32 ++ (Bytes.u4 high.toUInt32 ++ rest))) ∧
    front.length = Layout.switchPadding offset + 4

/-- Bytes start with a sparse table for an offset that has some number of pairs. -/
def StartsSparse (bytes : Bytes) (offset : ℕ) (count : Int32) : Prop :=
  ∃ front rest, bytes = Opcode.lookupswitch :: (front ++ (Bytes.u4 count.toUInt32 ++ rest)) ∧
    front.length = Layout.switchPadding offset + 4

/-- A number has a signed form of 32 bits. -/
def FitsInt32 (number : ℤ) : Prop := -2147483648 ≤ number ∧ number ≤ 2147483647

/-- The numbers that the computation of a last key goes through: the number of targets, what it adds up to
with the first key, and one less. -/
def lastKeySteps (low : Int32) (targets : List Label) : List ℤ :=
  [targets.length, low.toInt + targets.length, low.toInt + targets.length - 1]

/-- What is known of a dense table that was read at an offset of bytecode. -/
structure RestoresDense (code : Bytes) (offset : ℕ) (low high : Int32) (targets : List Label) : Prop where
  /-- The keys stand in the bytecode. -/
  stands : StartsDense (code.drop offset) offset low high
  /-- There is a target for each key. -/
  count : (targets.length : ℤ) = high.toInt - low.toInt + 1
  /-- There is at least one key. -/
  ordered : low.toInt ≤ high.toInt
  /-- Each target takes four bytes. -/
  room : 4 * targets.length ≤ code.length
  /-- The sum of the first key and the number of targets is one more than the last key, and comes out as the
  lowest number if that is more than the highest. -/
  sum : (low + Int32.ofNat targets.length).toInt =
    if high.toInt = 2147483647 then -2147483648 else high.toInt + 1
  /-- The last key is computed as it was read. -/
  last : lastKey low targets = high
  /-- The way to it stays within 32 bits exactly if it is not the highest number. -/
  steps_fit : (∀ number ∈ lastKeySteps low targets, FitsInt32 number) ↔
    targets.length ≤ 2147483647 ∧ high.toInt < 2147483647
  /-- The keys are written as they were read. -/
  written : ∀ {labels place default bytes}, denseTable labels place low default targets = .ok bytes →
    StartsDense bytes place low high

/-- What is known of a sparse table that was read at an offset of bytecode. -/
structure RestoresSparse (code : Bytes) (offset : ℕ) (count : Int32) (pairs : List (Int32 × Label)) :
    Prop where
  /-- The number of pairs stands in the bytecode. -/
  stands : StartsSparse (code.drop offset) offset count
  /-- There are as many pairs; a negative number is none. -/
  length_eq : pairs.length = count.toInt.toNat
  /-- The number of pairs stays within 32 bits. -/
  fits : FitsInt32 pairs.length
  /-- The number of pairs is written, as it was read unless that was negative. -/
  written : ∀ {labels place default bytes}, sparseTable labels place default pairs = .ok bytes →
    StartsSparse bytes place (if count.toInt < 0 then 0 else count)

/-! ## Writing -/

theorem startsDense_of_denseTable {labels : Placements} {offset : ℕ} {low : Int32} {default : Label}
    {targets : List Label} {bytes : Bytes} (h : denseTable labels offset low default targets = .ok bytes) :
    StartsDense bytes offset low (lastKey low targets) := by
  obtain ⟨first, table, hfirst, -, rfl⟩ := denseTable_eq_ok.mp h
  refine ⟨padding offset ++ first, table.flatten, by simp, ?_⟩
  rw [List.length_append, length_wideDistance hfirst, padding, List.length_replicate]

theorem startsSparse_of_sparseTable {labels : Placements} {offset : ℕ} {default : Label}
    {pairs : List (Int32 × Label)} {bytes : Bytes} (hcount : pairs.length < 2147483648)
    (h : sparseTable labels offset default pairs = .ok bytes) :
    StartsSparse bytes offset (Int32.ofNat pairs.length) := by
  obtain ⟨first, table, hfirst, -, rfl⟩ := sparseTable_eq_ok.mp h
  refine ⟨padding offset ++ first, table.flatten, ?_, ?_⟩
  · rw [(Operand.count_of_length4 hcount).1]
    simp only [List.cons_append, List.append_assoc]
    rfl
  · rw [List.length_append, length_wideDistance hfirst, padding, List.length_replicate]

end Encoding

/-! ## Reading -/

namespace CodeReader

variable {α : Type} {state state' : DecodeState} {instruction : Instruction} {pool : Pool}

namespace Takes

/-- No bytes are taken when a distance gets a label. -/
theorem relative_nil (distance : ℤ) : Takes (CodeReader.relative distance) fun _ front => front = [] := by
  unfold CodeReader.relative
  refine .get fun state => ?_
  dsimp only
  split
  · exact .fail
  · intro state state' result hrun
    obtain rfl := (Prod.mk.inj (Except.ok.inj hrun)).2
    exact ⟨rfl, [], rfl, rfl, rfl⟩

theorem wideRelative_length : Takes CodeReader.wideRelative fun _ front => front.length = 4 :=
  u4.bind fun _ _ hfront => (relative_nil _).mono fun _ _ hnil => by
    rw [hfront, hnil, List.append_nil, Bytes.length_u4]

/-- Values of one size take as many bytes as that size times their number. -/
theorem many_length {item : CodeReader α} {size : ℕ}
    (h : Takes item fun _ front => front.length = size) (count : ℕ) :
    Takes (Reader.many item count) fun items front =>
      items.length = count ∧ front.length = size * count := by
  have hafter : ∀ (count : ℕ) (done : List α), Takes (Reader.repeatAfter item count done)
      fun items front => items.length = done.length + count ∧ front.length = size * count := by
    intro count
    induction count with
    | zero => exact fun done => .pure (by simp)
    | succ count ih =>
      refine fun done => h.bind fun value front hfront => (ih (value :: done)).mono ?_
      rintro items more ⟨hitems, hmore⟩
      refine ⟨by rw [hitems, List.length_cons]; omega, ?_⟩
      rw [List.length_append, hfront, hmore]
      ring
  exact (hafter count []).mono fun _ _ h => by simpa using h

end Takes

/-- Padding reaches up to the next multiple of four. -/
theorem exists_of_skipPadding (h : skipPadding state = .ok ((), state')) : ∃ front,
    state.rest = front ++ state'.rest ∧ front.length = (4 - state.offset % 4) % 4 := by
  obtain ⟨same, middle, hget, h⟩ := bind_eq_ok.mp h
  obtain ⟨rfl, rfl⟩ := get_eq_ok.mp hget
  have htake : Takes (operand ((4 - state.offset % 4) % 4) (Reader.take ((4 - state.offset % 4) % 4)))
      fun _ front => front.length = (4 - state.offset % 4) % 4 := by
    refine .operand (fun bytes rest taken htaken => ?_) fun _ _ => id
    obtain ⟨rfl, hlength⟩ := Reader.eq_of_take htaken
    exact ⟨taken, rfl, hlength⟩
  obtain ⟨taken, last, htaken, h⟩ := bind_eq_ok.mp h
  obtain ⟨-, rfl⟩ := pure_eq_ok.mp h
  obtain ⟨-, front, hrest, -, hlength⟩ := htake _ _ _ htaken
  exact ⟨front, hrest, hlength⟩

/-- A dense table is read from its keys, with a target of four bytes for each of them. -/
theorem exists_of_denseTable (h : denseTable state = .ok (instruction, state')) :
    ∃ low high default targets front rest, instruction = .tableSwitch low default targets ∧
      state.rest = front ++ (Bytes.u4 low.toUInt32 ++ (Bytes.u4 (high : Int32).toUInt32 ++ rest)) ∧
      front.length = (4 - state.offset % 4) % 4 + 4 ∧ low.toInt ≤ high.toInt ∧
      targets.length = (high.toInt - low.toInt + 1).toNat ∧ 4 * targets.length ≤ rest.length := by
  obtain ⟨_, padded, hpadding, h⟩ := bind_eq_ok.mp h
  obtain ⟨padding, hrest, hlength⟩ := exists_of_skipPadding hpadding
  obtain ⟨distance, first, hdistance, h⟩ := bind_eq_ok.mp h
  obtain ⟨-, _, hdefaultAt, -, rfl⟩ := Takes.u4 _ _ _ hdistance
  obtain ⟨low, second, hlow, h⟩ := bind_eq_ok.mp h
  obtain ⟨-, _, hlowAt, -, rfl⟩ := Takes.u4 _ _ _ hlow
  obtain ⟨high, third, hhigh, h⟩ := bind_eq_ok.mp h
  obtain ⟨-, _, hhighAt, -, rfl⟩ := Takes.u4 _ _ _ hhigh
  dsimp only at h
  split at h
  · cases h
  · next hordered =>
    obtain ⟨default, fourth, hdefault, h⟩ := bind_eq_ok.mp h
    obtain ⟨-, _, hsame, -, rfl⟩ := Takes.relative_nil _ _ _ _ hdefault
    obtain ⟨targets, fifth, htargets, h⟩ := bind_eq_ok.mp h
    obtain ⟨rfl, rfl⟩ := pure_eq_ok.mp h
    obtain ⟨-, table, htable, -, hcount, hroom⟩ :=
      Takes.wideRelative_length.many_length _ _ _ _ htargets
    refine ⟨low.toInt32, high.toInt32, default, targets, padding ++ Bytes.u4 distance, third.rest, rfl,
      ?_, ?_, ?_, hcount, ?_⟩
    · rw [hrest, hdefaultAt, hlowAt, hhighAt, List.append_assoc]
      rfl
    · rw [List.length_append, hlength, Bytes.length_u4]
    · simpa [Int32.lt_iff_toInt_lt] using hordered
    · rw [hsame, List.nil_append, htable, List.length_append, hroom, hcount]
      omega

/-- A sparse table is read from the number of its pairs. -/
theorem exists_of_sparseTable (h : sparseTable state = .ok (instruction, state')) :
    ∃ count default pairs front rest, instruction = .lookupSwitch default pairs ∧
      state.rest = front ++ (Bytes.u4 (count : Int32).toUInt32 ++ rest) ∧
      front.length = (4 - state.offset % 4) % 4 + 4 ∧ pairs.length = count.toInt.toNat := by
  have hpair : Takes CodeReader.pair fun _ _ => True :=
    Takes.u4.bind fun _ _ _ => Takes.wideRelative.bind fun _ _ _ => .pure trivial
  obtain ⟨_, padded, hpadding, h⟩ := bind_eq_ok.mp h
  obtain ⟨padding, hrest, hlength⟩ := exists_of_skipPadding hpadding
  obtain ⟨default, first, hdefault, h⟩ := bind_eq_ok.mp h
  obtain ⟨-, distance, hdefaultAt, -, hfour⟩ := Takes.wideRelative_length _ _ _ hdefault
  obtain ⟨count, second, hcount, h⟩ := bind_eq_ok.mp h
  obtain ⟨-, _, hcountAt, -, rfl⟩ := Takes.u4 _ _ _ hcount
  obtain ⟨pairs, third, hpairs, h⟩ := bind_eq_ok.mp h
  obtain ⟨rfl, rfl⟩ := pure_eq_ok.mp h
  obtain ⟨-, -, -, -, hlength'⟩ := hpair.many _ _ _ _ hpairs
  refine ⟨count.toInt32, default, pairs, padding ++ distance, second.rest, rfl, ?_, ?_, hlength'⟩
  · rw [hrest, hdefaultAt, hcountAt, List.append_assoc]
    rfl
  · rw [List.length_append, hlength, hfour]

end CodeReader

/-! ## Instructions and bodies -/

/-- The form of the operands of a switch. -/
def Instruction.tableForm? : Instruction → Option Opcode.Form
  | .tableSwitch _ _ _ => some .denseTable
  | .lookupSwitch _ _ => some .sparseTable
  | _ => none

/-- The two opcodes of switches. -/
theorem Opcode.eq_of_tableForm : ∀ opcode : Opcode,
    (opcode.form = .denseTable → opcode = tableswitch) ∧ (opcode.form = .sparseTable → opcode = lookupswitch) :=
  forall_of_fin (by decide +kernel)

namespace CodeReader

variable {state state' : DecodeState} {pool : Pool} {code : Bytes} {entry : ℕ × Instruction}

/-- Switches are read behind the opcodes of switches only. -/
theorem takes_tableForm (pool : Pool) (opcode : Opcode) : Takes (CodeReader.operands pool opcode)
    fun instruction _ => ∀ form, instruction.tableForm? = some form → opcode.form = form := by
  unfold CodeReader.operands
  cases hform : opcode.form with
  | denseTable =>
    refine Takes.skipPadding.bind fun _ _ _ => Takes.u4.bind fun _ _ _ => Takes.u4.bind fun _ _ _ =>
      Takes.u4.bind fun _ _ _ => ?_
    dsimp only
    split
    · exact .fail_bind
    · exact (Takes.relative _).bind fun _ _ _ => (Takes.wideRelative.many _).bind fun _ _ _ =>
        .pure fun _ => Option.some.inj
  | sparseTable =>
    have hpair : Takes CodeReader.pair fun _ _ => True :=
      Takes.u4.bind fun _ _ _ => Takes.wideRelative.bind fun _ _ _ => .pure trivial
    exact Takes.skipPadding.bind fun _ _ _ => Takes.wideRelative.bind fun _ _ _ =>
      Takes.u4.bind fun _ _ _ => (hpair.many _).bind fun _ _ _ => .pure fun _ => Option.some.inj
  | plain | impliedSlot => exact .pure nofun
  | signedByte | unsignedByte | slot => exact Takes.u1.bind fun _ _ _ => .pure nofun
  | signedShort => exact Takes.u2.bind fun _ _ _ => .pure nofun
  | shortConstant =>
    exact Takes.u1.bind fun _ _ _ => (takes_loadable pool _).bind fun _ _ _ => .pure nofun
  | longConstant =>
    exact Takes.u2.bind fun _ _ _ => (takes_loadable pool _).bind fun _ _ _ => .pure nofun
  | increment => exact Takes.u1.bind fun _ _ _ => Takes.u1.bind fun _ _ _ => .pure nofun
  | jump => exact Takes.u2.bind fun _ _ _ => (Takes.relative _).bind fun _ _ _ => .pure nofun
  | wideJump => exact Takes.wideRelative.bind fun _ _ _ => .pure nofun
  | field | method | type => exact Takes.u2.bind fun _ _ _ => .lift fun _ _ => .pure nofun
  | interfaceMethod =>
    exact Takes.u2.bind fun _ _ _ => Takes.u1.bind fun _ _ _ => Takes.u1.bind fun _ _ _ =>
      .lift fun _ _ => .pure nofun
  | callSite =>
    exact Takes.u2.bind fun index _ _ => Takes.u2.bind fun _ _ _ => (takes_callSite pool index).bind
      fun _ _ _ => .pure nofun
  | wide =>
    refine Takes.u1.bind fun _ _ _ => Takes.u2.bind fun _ _ _ => ?_
    split
    · exact Takes.u2.bind fun _ _ _ => .pure nofun
    · split
      · exact .pure nofun
      · exact .fail
  | dimensions =>
    exact Takes.u2.bind fun _ _ _ => Takes.u1.bind fun _ _ _ => .lift fun _ _ => .pure nofun
  | unknown => exact .fail

/-- What is known of a switch that was read at an offset. -/
def RestoresTable (code : Bytes) : ℕ × Instruction → Prop
  | (offset, .tableSwitch low _ targets) => ∃ high, Encoding.RestoresDense code offset low high targets
  | (offset, .lookupSwitch _ pairs) => ∃ count, Encoding.RestoresSparse code offset count pairs
  | _ => True

/-- The numbers of a dense table with a target for each key. -/
theorem restoresDense_of_startsDense {offset : ℕ} {low high : Int32} {targets : List Label}
    (hstands : Encoding.StartsDense (code.drop offset) offset low high) (hordered : low.toInt ≤ high.toInt)
    (hcount : targets.length = (high.toInt - low.toInt + 1).toNat)
    (hroom : 4 * targets.length ≤ code.length) : Encoding.RestoresDense code offset low high targets := by
  have hlow := low.le_toInt
  have hhigh := high.toInt_lt
  have hlength : (targets.length : ℤ) = high.toInt - low.toInt + 1 := by omega
  have hlast : Encoding.lastKey low targets = high := by
    rw [← Int32.toInt_inj, Operand.toInt_lastKey (by rintro rfl; simp at hlength; omega) (by omega)]
    omega
  exact {
    stands := hstands
    count := hlength
    ordered := hordered
    room := hroom
    sum := by
      rw [Int32.toInt_add, Int32.toInt_ofNat', Int.add_bmod_bmod, hlength, ← Int.add_assoc,
        add_sub_cancel]
      split
      · next hhighest =>
        rw [hhighest]
        rfl
      · rw [Int.bmod_eq_of_le] <;> simp only [Int32.size] <;> omega
    last := hlast
    steps_fit := by
      simp only [Encoding.lastKeySteps, Encoding.FitsInt32, List.forall_mem_cons, List.not_mem_nil,
        false_implies, implies_true, and_true]
      omega
    written := fun h => hlast ▸ Encoding.startsDense_of_denseTable h }

/-- The number of pairs of a sparse table. -/
theorem restoresSparse_of_startsSparse {offset : ℕ} {count : Int32} {pairs : List (Int32 × Label)}
    (hstands : Encoding.StartsSparse (code.drop offset) offset count)
    (hlength : pairs.length = count.toInt.toNat) : Encoding.RestoresSparse code offset count pairs := by
  have hlt := count.toInt_lt
  have hwritten : Int32.ofNat pairs.length = if count.toInt < 0 then 0 else count := by
    rw [← Int32.toInt_inj, Int32.toInt_ofNat_of_lt (by omega), hlength]
    split
    · rw [Int32.toInt_zero]
      omega
    · omega
  exact {
    stands := hstands
    length_eq := hlength
    fits := by
      unfold Encoding.FitsInt32
      omega
    written := fun h => hwritten ▸ Encoding.startsSparse_of_sparseTable (by omega) h }

/-- A switch is written again as it was read. -/
theorem restoresTable_of_instruction (hstate : state.rest = code.drop state.offset)
    (h : CodeReader.instruction pool state = .ok (entry, state')) : RestoresTable code entry := by
  obtain ⟨_, middle, hstart, h⟩ := bind_eq_ok.mp h
  obtain rfl := (Prod.mk.inj (Except.ok.inj hstart)).2
  obtain ⟨opcode, behind, hopcode, h⟩ := bind_eq_ok.mp h
  obtain ⟨instruction, last, hoperands, h⟩ := bind_eq_ok.mp h
  obtain ⟨_, same, hget, h⟩ := bind_eq_ok.mp h
  obtain ⟨rfl, rfl⟩ := get_eq_ok.mp hget
  obtain ⟨rfl, rfl⟩ := pure_eq_ok.mp h
  obtain ⟨hstart, _, hrest, hoffset, rfl⟩ := Takes.u1 _ _ _ hopcode
  obtain ⟨hstart', -, -, -, hform⟩ := takes_tableForm pool opcode _ _ _ hoperands
  have hplace := hstart'.trans hstart
  have hcode : code.drop state.offset = opcode :: behind.rest := hstate.symm.trans hrest
  have hroom : behind.rest.length ≤ code.length := by
    have := congrArg List.length hcode
    rw [List.length_drop, List.length_cons] at this
    omega
  have hpadding : (4 - behind.offset % 4) % 4 = Layout.switchPadding state.offset := by
    rw [hoffset, Layout.switchPadding, List.length_singleton]
  rw [hplace]
  cases instruction with
  | tableSwitch low default targets =>
    have hdense := hform _ rfl
    have hread : CodeReader.operands pool opcode = denseTable := by
      unfold CodeReader.operands
      rw [hdense]
    obtain ⟨low', high, default', targets', front, rest, heq, hbytes, hfront, hordered, hcount, htargets⟩ :=
      exists_of_denseTable (hread ▸ hoperands)
    obtain ⟨rfl, rfl, rfl⟩ := Instruction.tableSwitch.inj heq
    rw [hpadding] at hfront
    obtain rfl := (Opcode.eq_of_tableForm opcode).1 hdense
    refine ⟨high, restoresDense_of_startsDense ⟨front, rest, hbytes ▸ hcode, hfront⟩ hordered hcount ?_⟩
    have := congrArg List.length hbytes
    simp only [List.length_append] at this
    omega
  | lookupSwitch default pairs =>
    have hsparse := hform _ rfl
    have hread : CodeReader.operands pool opcode = sparseTable := by
      unfold CodeReader.operands
      rw [hsparse]
    obtain ⟨count, default', pairs', front, rest, heq, hbytes, hfront, hlength⟩ :=
      exists_of_sparseTable (hread ▸ hoperands)
    obtain ⟨rfl, rfl⟩ := Instruction.lookupSwitch.inj heq
    rw [hpadding] at hfront
    obtain rfl := (Opcode.eq_of_tableForm opcode).2 hsparse
    exact ⟨count, restoresSparse_of_startsSparse ⟨front, rest, hbytes ▸ hcode, hfront⟩ hlength⟩
  | _ => trivial

theorem restoresTable_of_instructionsAfter {rounds : ℕ} {entries : List (ℕ × Instruction)}
    (hstate : state.rest = code.drop state.offset)
    (h : instructionsAfter pool rounds [] state = .ok (entries, state')) :
    ∀ entry ∈ entries, RestoresTable code entry := by
  have hread := invariant_instructionsAfter
    (motive := fun state done => state.rest = code.drop state.offset ∧ ∀ entry ∈ done, RestoresTable code entry)
    ?step ⟨hstate, by simp⟩ h
  case step =>
    rintro state state' done entry ⟨hstate, hdone⟩ hnext
    exact ⟨(standsAt_of_instruction hstate hnext).1,
      List.forall_mem_cons.mpr ⟨restoresTable_of_instruction hstate hnext, hdone⟩⟩
  simpa using hread.2

end CodeReader

/-- What is known of the switches among the instructions of a body as it is written. -/
theorem CodeAttribute.restoresTable_of_listing {code : CodeAttribute} {pool : Pool}
    {entries : List (ℕ × Instruction)} (h : code.listing pool = .ok entries) :
    ∀ entry ∈ entries, CodeReader.RestoresTable code.code entry := by
  obtain ⟨⟨found, state⟩, hfound, h⟩ := Outcome.bind_eq_ok.mp h
  obtain rfl := Outcome.pure_eq_ok.mp h
  exact CodeReader.restoresTable_of_instructionsAfter rfl hfound

/-- Switches that were decoded are written with the keys and numbers of pairs that they were read with.  The number
of pairs stays within 32 bits, and so does all that is computed for the last key of a dense table, exactly if that
key is not the highest number. -/
theorem switches_of_decode {code : CodeAttribute} {pool : Pool} {body : Body}
    (h : Body.decode code pool = .ok body) : ∃ entries, code.listing pool = .ok entries ∧
      body.instructions.filter Instruction.isReal = entries.map Prod.snd ∧
      (∀ offset low default targets, (offset, .tableSwitch low default targets) ∈ entries →
        ∃ high, Encoding.RestoresDense code.code offset low high targets) ∧
      ∀ offset default pairs, (offset, .lookupSwitch default pairs) ∈ entries →
        ∃ count, Encoding.RestoresSparse code.code offset count pairs := by
  obtain ⟨entries, hlisting, hsame⟩ := Body.listing_of_decode h
  have hrestores := CodeAttribute.restoresTable_of_listing hlisting
  exact ⟨entries, hlisting, hsame, fun _ _ _ _ hmem => hrestores _ hmem, fun _ _ _ hmem => hrestores _ hmem⟩

/-- A body that is nothing but a switch on the highest number and a return. -/
def highestSwitchCode : CodeAttribute :=
  ⟨1, 1, [3, 170, 0, 0, 0, 0, 0, 19, 127, 255, 255, 255, 127, 255, 255, 255, 0, 0, 0, 19, 177], [], []⟩

/-- The body with the switch. -/
def Body.highestSwitch : Body where
  instructions := [.plain Opcode.iconst0, .tableSwitch 2147483647 ⟨0⟩ [⟨0⟩], .label ⟨0⟩,
    .plain Opcode.returnVoid]
  nextLabel := 1

/-- The switch on the highest number is written as it was read, over a sum that leaves the 32 bits. -/
theorem switches_of_decode_highest : Body.decode highestSwitchCode Pool.empty = .ok Body.highestSwitch ∧
    Encoding.lastKey 2147483647 [⟨0⟩] = 2147483647 ∧
    ¬ ∀ number ∈ Encoding.lastKeySteps 2147483647 [⟨0⟩], Encoding.FitsInt32 number := by
  have hdecode : Body.decode highestSwitchCode Pool.empty = .ok Body.highestSwitch := by
    unfold highestSwitchCode Body.highestSwitch
    cbv
  obtain ⟨entries, -, hsame, hdense, -⟩ := switches_of_decode hdecode
  have hread : Instruction.tableSwitch 2147483647 ⟨0⟩ [⟨0⟩] ∈ entries.map Prod.snd := by
    rw [← hsame]
    exact List.mem_filter.mpr ⟨by simp [Body.highestSwitch], rfl⟩
  obtain ⟨⟨offset, _⟩, hentry, rfl⟩ := List.mem_map.mp hread
  obtain ⟨high, hrestores⟩ := hdense _ _ _ _ hentry
  have hhigh : high.toInt = 2147483647 := by
    have hcount := hrestores.count
    have hlow : (2147483647 : Int32).toInt = 2147483647 := by decide
    simp only [hlow, List.length_singleton] at hcount
    omega
  refine ⟨hdecode, hrestores.last.trans (Int32.toInt_inj.mp hhigh), fun hfit => ?_⟩
  have := (hrestores.steps_fit.mp hfit).2
  omega

end ClassInstrument
