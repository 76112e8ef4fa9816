import ClassInstrument.Assembly.Encoding
import ClassInstrument.Proofs.Assembly.Encoding
import ClassInstrument.Proofs.Code.Reading

/-!
# Reading back operands

Operands are numbers that were cut to the width of their bytes.  Those in range are read back unchanged,
and so are distances, padding and the tables of switches.
-/

namespace ClassInstrument

open Outcome

/-! ## Numbers -/

namespace Operand

/-- A number in the range of a signed byte is read back from one. -/
theorem int_of_signedByte {value : Int32} (h : -128 ≤ value.toInt ∧ value.toInt ≤ 127) :
    value.toInt8.toUInt8.toInt8.toInt32 = value := by
  rw [← Int32.toInt_inj, Int8.toInt8_toUInt8, Int8.toInt_toInt32, Int32.toInt_toInt8,
    Int.bmod_eq_of_le] <;> omega

/-- A number in the range of two signed bytes is read back from them. -/
theorem int_of_signedShort {value : Int32} (h : -32768 ≤ value.toInt ∧ value.toInt ≤ 32767) :
    value.toInt16.toUInt16.toInt16.toInt32 = value := by
  rw [← Int32.toInt_inj, Int16.toInt16_toUInt16, Int16.toInt_toInt32, Int32.toInt_toInt16,
    Int.bmod_eq_of_le] <;> omega

/-- A number in the range of an unsigned byte is read back from one. -/
theorem int_of_unsignedByte {value : Int32} (h : 0 ≤ value.toInt ∧ value.toInt ≤ 255) :
    value.toInt8.toUInt8.toUInt32.toInt32 = value := by
  obtain ⟨n, hn⟩ := Int.eq_ofNat_of_zero_le h.1
  have hlt : n < 256 := by omega
  have hvalue : value = Int32.ofNat n := by
    rw [← Int32.toInt_inj, hn, Int32.toInt_ofNat_of_lt (by omega)]
  have hwide : (UInt8.ofNat n).toUInt32 = UInt32.ofNat n := by
    rw [← UInt32.toNat_inj, UInt8.toNat_toUInt32, UInt8.toNat_ofNat', UInt32.toNat_ofNat']
    omega
  rw [hvalue, Int32.toInt8_ofNat', Int8.toUInt8_ofNat', hwide]
  rfl

/-- A small addend is read back from a byte. -/
theorem addend_of_signedByte {delta : Int16} (h : -128 ≤ delta ∧ delta ≤ 127) :
    delta.toInt8.toUInt8.toInt8.toInt16 = delta := by
  have hrange : -128 ≤ delta.toInt ∧ delta.toInt ≤ 127 := by
    simpa [Int16.le_iff_toInt_le] using h
  rw [← Int16.toInt_inj, Int8.toInt8_toUInt8, Int8.toInt_toInt16, Int16.toInt_toInt8,
    Int.bmod_eq_of_le] <;> omega

/-- A small number is read back from a byte. -/
theorem short_of_byte {number : UInt16} (h : number ≤ 255) : number.toUInt8.toUInt16 = number := by
  have hlt : number.toNat ≤ 255 := UInt16.le_iff_toNat_le.mp h
  rw [← UInt16.toNat_inj, UInt8.toNat_toUInt16, UInt16.toNat_toUInt8]
  omega

/-- A distance is read back from two bytes. -/
theorem distance_of_short {n : ℤ} (h : -32768 ≤ n ∧ n ≤ 32767) :
    (Int16.ofInt n).toUInt16.toInt16.toInt = n := by
  rw [Int16.toInt16_toUInt16, Int16.toInt_ofInt_of_le h.1 (by omega)]

/-- A distance is read back from four bytes. -/
theorem distance_of_int {n : ℤ} (h : -2147483648 ≤ n ∧ n ≤ 2147483647) :
    (Int32.ofInt n).toUInt32.toInt32.toInt = n := by
  rw [Int32.toInt32_toUInt32, Int32.toInt_ofInt_of_le h.1 (by omega)]

/-- A number of pairs is four bytes. -/
theorem count_of_length4 {n : ℕ} (h : n < 2147483648) :
    Bytes.length4 n = Bytes.u4 (UInt32.ofNat n) ∧ (UInt32.ofNat n).toInt32.toInt.toNat = n := by
  constructor
  · rw [Bytes.u4, UInt32.toNat_ofNat_of_lt' (by simp [UInt32.size]; omega), Bytes.length4]
  · have hsigned : (UInt32.ofNat n).toInt32 = Int32.ofNat n := rfl
    rw [hsigned, Int32.toInt_ofNat_of_lt h, Int.toNat_natCast]

/-- The last key of a dense table with targets comes as many keys behind the first. -/
theorem toInt_lastKey {low : Int32} {targets : List Label} (hsome : targets ≠ [])
    (h : low.toInt + targets.length - 1 ≤ 2147483647) :
    (Encoding.lastKey low targets).toInt = low.toInt + targets.length - 1 := by
  have hlow := low.le_toInt
  have hpos := List.length_pos_iff.mpr hsome
  unfold Encoding.lastKey
  simp only [Int32.toInt_sub, Int32.toInt_add, Int32.toInt_ofNat', Int32.toInt_one,
    Int.bmod_sub_bmod, Int.add_bmod_bmod]
  rw [Int.bmod_eq_of_le] <;> simp only [Int32.size] <;> omega

end Operand

namespace CodeReader

namespace Reads

variable {α β γ : Type} {labels : Placements} {start offset : ℕ} {bytes : Bytes}

/-! ## Repetition and padding -/

/-- Items that are read back one by one are read back together. -/
theorem many {action : CodeReader α} {writes : γ → Bytes → Prop}
    {related : OffsetLabels → α → γ → Prop} {items : List γ} {table : List Bytes}
    (hitem : ∀ item bytes, writes item bytes → ∀ offset,
      Reads labels start offset action bytes fun later value => related later value item)
    (h : List.Forall₂ writes items table) :
    Reads labels start offset (Reader.many action items.length) table.flatten
      fun later values => List.Forall₂ (related later) values items := by
  have hafter : ∀ (offset : ℕ) (done : List α),
      Reads labels start offset (Reader.repeatAfter action items.length done) table.flatten
        fun later values => ∃ others, values = done.reverse ++ others ∧
          List.Forall₂ (related later) others items := by
    induction h with
    | nil =>
      intro offset done
      exact .pure fun later => ⟨[], (List.append_nil _).symm, .nil⟩
    | cons hfirst _ ih =>
      intro offset done
      refine (hitem _ _ hfirst offset).bind fun value => (ih _ (value :: done)).mono ?_
      rintro later values ⟨others, rfl, hothers⟩ hvalue
      exact ⟨value :: others, by simp, .cons hvalue hothers⟩
  refine (hafter offset []).mono ?_
  rintro later values ⟨others, rfl, hothers⟩
  exact hothers

/-- Padding is skipped. -/
theorem padding {next : CodeReader β} {post : OffsetLabels → β → Prop} {front : Bytes}
    (hsize : front.length = (4 - offset % 4) % 4)
    (hnext : Reads labels start (offset + front.length) next bytes post) :
    Reads labels start offset (skipPadding >>= fun _ => next) (front ++ bytes) post := by
  have hskip : ∀ (rest : Bytes) (given : OffsetLabels),
      skipPadding ⟨start, offset, front ++ rest, given⟩ =
        .ok ((), ⟨start, offset + front.length, rest, given⟩) := by
    intro rest given
    unfold skipPadding
    rw [bind_apply rfl, hsize]
    exact bind_apply (operand_append (Reader.take_append hsize rest) given)
  intro rest given hfollows
  obtain ⟨value, given', hrun, hprops⟩ := hnext rest given hfollows
  refine ⟨value, given', ?_, hprops⟩
  rw [List.append_assoc, bind_apply (hskip _ _), List.length_append, ← Nat.add_assoc]
  exact hrun

/-! ## Distances -/

/-- A label at a distance of two bytes is read back. -/
theorem shortDistance {target : Label} {operand : Bytes}
    (h : Encoding.shortDistance labels start target = .ok operand)
    {next : Label → CodeReader β} {post : OffsetLabels → β → Prop}
    (hnext : ∀ label, Reads labels start (offset + 2) (next label) bytes fun later value =>
      Agrees later labels label target → post later value) :
    Reads labels start offset
      (CodeReader.u2 >>= fun distance => CodeReader.relative distance.toInt16.toInt >>= next)
      (operand ++ bytes) post := by
  obtain ⟨place, hplace, hrange, rfl⟩ := Encoding.shortDistance_eq_ok.mp h
  exact .u2 (.relative hplace (Operand.distance_of_short hrange) hnext)

/-- A label at a distance of four bytes is read back. -/
theorem wideRelative {target : Label} {operand : Bytes}
    (h : Encoding.wideDistance labels start target = .ok operand) (offset : ℕ) :
    Reads labels start offset CodeReader.wideRelative operand
      fun later label => Agrees later labels label target := by
  obtain ⟨place, hplace, hrange, rfl⟩ := Encoding.wideDistance_eq_ok.mp h
  rw [← List.append_nil (Bytes.u4 _)]
  refine .u4 ?_
  rw [← bind_pure (CodeReader.relative _)]
  exact .relative hplace (Operand.distance_of_int hrange) fun label => .pure fun _ => id

/-- A key with its label is read back. -/
theorem pair {item : Int32 × Label} {bytes : Bytes} (h : Encoding.WritesPair labels start item bytes)
    (offset : ℕ) :
    Reads labels start offset CodeReader.pair bytes
      fun later value => value.1 = item.1 ∧ Agrees later labels value.2 item.2 := by
  obtain ⟨operand, hoperand, rfl⟩ := h
  refine .u4 ?_
  rw [← List.append_nil operand, Int32.toInt32_toUInt32]
  exact (wideRelative hoperand _).bind fun label => .pure fun _ hlabel => ⟨rfl, hlabel⟩

end Reads

end CodeReader

end ClassInstrument
