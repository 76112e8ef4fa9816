import ClassInstrument.Proofs.Code.Decodable
import ClassInstrument.Proofs.Code.Operands

/-!
# Reading back instructions

What is written for a decodable instruction is read back as that instruction, with the pairs of a sparse
table in order, and with labels that stand for the original ones.  There is one lemma for each shape of
operands; short and wide forms of an instruction are read back as the same.
-/

namespace ClassInstrument

open Interning Outcome Encoding

namespace CodeReader

variable {labels : Placements} {pool : Pool} {offset start : ℕ} {bytes : Bytes}

/-! ## Constants -/

/-- A pushed constant is looked up where it was put. -/
theorem reads_loadable {constant : Loadable} {index : PoolIndex}
    (h : constant.intern.Settled pool index) (hdecodable : constant.Decodable pool) :
    Reads labels start offset (loadable pool index) [] fun _ value => value = constant := by
  unfold loadable
  cases constant with
  | int value => exact .lift (Pool.get_of_settled h) (.pure fun _ => rfl)
  | float bits => exact .lift (Pool.get_of_settled h) (.pure fun _ => rfl)
  | long value => exact .lift (Pool.get_of_settled h) (.pure fun _ => rfl)
  | double bits => exact .lift (Pool.get_of_settled h) (.pure fun _ => rfl)
  | string text =>
    obtain ⟨utf8, hutf8, hindex⟩ := ((Pool.repeats_internUtf8 text).settled_bind fun _ =>
      .intern _).mp h
    exact .lift (Pool.get_of_settled hindex) (.lift (Pool.utf8_of_settled hutf8) (.pure fun _ => rfl))
  | cls name =>
    obtain ⟨utf8, hutf8, hindex⟩ := ((Pool.repeats_internUtf8 name).settled_bind fun _ =>
      .intern _).mp h
    exact .lift (Pool.get_of_settled hindex) (.lift (Pool.utf8_of_settled hutf8) (.pure fun _ => rfl))
  | methodType descriptor =>
    obtain ⟨utf8, hutf8, hindex⟩ := ((Pool.repeats_internUtf8 descriptor).settled_bind fun _ =>
      .intern _).mp h
    exact .lift (Pool.get_of_settled hindex) (.lift (Pool.utf8_of_settled hutf8) (.pure fun _ => rfl))
  | pooled original descriptor =>
    obtain rfl := settled_pure.mp h
    rcases hdecodable with ⟨kind, member, hget, rfl⟩ | ⟨bootstrap, member, name, hget, hname⟩
    · exact .lift hget (.pure fun _ => rfl)
    · exact .lift hget (.lift hname (.pure fun _ => rfl))

/-- The descriptor of a call site is the one in its constant. -/
theorem reads_callSite {site : PoolIndex} {descriptor : String}
    (h : (Instruction.invokeDynamic site descriptor).Decodable pool) :
    Reads labels start offset (callSite pool site) [] fun _ value => value = descriptor := by
  obtain ⟨bootstrap, member, name, hget, hname⟩ := h
  exact .lift hget (.lift hname (.pure fun _ => rfl))

/-! ## Shapes of operands -/

/-- An instruction is read back from an opcode and operands. -/
def ReadsBack (labels : Placements) (pool : Pool) (offset : ℕ) (instruction : Instruction)
    (bytes : Bytes) : Prop :=
  ∃ opcode rest, bytes = opcode :: rest ∧ Reads labels offset (offset + 1) (operands pool opcode) rest
    fun later value => value.Matches (Agrees later labels) instruction

theorem readsBack_int {opcode : Opcode} {value : Int32}
    (h : (Instruction.int opcode value).Decodable pool) :
    ReadsBack labels pool offset (.int opcode value) (opcode :: number opcode value) := by
  refine ⟨opcode, _, rfl, ?_⟩
  unfold operands number
  rcases h with ⟨hform, hrange⟩ | ⟨hform, hrange⟩ | ⟨hform, hrange⟩
  · have hother : opcode ≠ Opcode.sipush := by
      rintro rfl
      cases hform
    rw [hform, if_neg hother]
    refine .u1 (.pure fun later => ?_)
    rw [Operand.int_of_signedByte hrange]
    exact .same rfl
  · rw [hform, if_pos ((Opcode.of_form_signedShort opcode).mp hform), ← List.append_nil (Bytes.u2 _)]
    refine .u2 (.pure fun later => ?_)
    rw [Operand.int_of_signedShort hrange]
    exact .same rfl
  · have hother : opcode ≠ Opcode.sipush := by
      rintro rfl
      cases hform
    rw [hform, if_neg hother]
    refine .u1 (.pure fun later => ?_)
    rw [Operand.int_of_unsignedByte hrange]
    exact .same rfl

/-- A small slot is read back from the opcode. -/
theorem readsBack_impliedSlot {opcode short : Opcode} {slot : UInt16}
    (hform : short.form = .impliedSlot opcode slot) :
    ReadsBack labels pool offset (.var opcode slot) [short] := by
  refine ⟨short, [], rfl, ?_⟩
  unfold operands
  rw [hform]
  exact .pure fun later => .same rfl

theorem readsBack_var {opcode : Opcode} {slot : UInt16}
    (h : (Instruction.var opcode slot).Decodable pool) :
    ReadsBack labels pool offset (.var opcode slot) (variableAccess opcode slot) := by
  have hform : opcode.form = .slot := h
  obtain ⟨hother, hwidenable⟩ := Opcode.of_form_slot opcode hform
  unfold variableAccess
  split
  · next himplied =>
    obtain ⟨haccess, hsmall⟩ := by simpa [Layout.hasImpliedSlot] using himplied
    have hlt : slot.toNat < 4 := Nat.lt_succ_of_le (UInt16.le_iff_toNat_le.mp hsmall)
    split
    · next hload =>
      refine readsBack_impliedSlot ((Opcode.form_shortLoad opcode hload ⟨slot.toNat, hlt⟩).trans ?_)
      rw [UInt16.ofNat_toNat]
    · next hload =>
      refine readsBack_impliedSlot ((Opcode.form_shortStore opcode (haccess.resolve_left hload)
        ⟨slot.toNat, hlt⟩).trans ?_)
      rw [UInt16.ofNat_toNat]
  · split
    · next hshort =>
      refine ⟨opcode, _, rfl, ?_⟩
      unfold operands
      rw [hform]
      refine .u1 (.pure fun later => ?_)
      rw [Operand.short_of_byte hshort]
      exact .same rfl
    · refine ⟨Opcode.wide, _, rfl, ?_⟩
      change Reads labels offset (offset + 1) widened _ _
      unfold widened
      rw [← List.append_nil (Bytes.u2 _)]
      refine .u1 (.u2 ?_)
      rw [if_neg hother, if_pos hwidenable]
      exact .pure fun later => .same rfl

theorem readsBack_increment (slot : UInt16) (delta : Int16) :
    ReadsBack labels pool offset (.increment slot delta) (increment slot delta) := by
  unfold increment
  split
  · next hshort =>
    obtain ⟨hslot, hdelta⟩ := by simpa [Layout.isShortIncrement] using hshort
    refine ⟨Opcode.iinc, _, rfl, .u1 (.u1 (.pure fun later => ?_))⟩
    rw [Operand.short_of_byte hslot, Operand.addend_of_signedByte hdelta]
    exact .same rfl
  · refine ⟨Opcode.wide, _, rfl, ?_⟩
    change Reads labels offset (offset + 1) widened _ _
    unfold widened
    rw [← List.append_nil (Bytes.u2 delta.toUInt16)]
    refine .u1 (.u2 ?_)
    rw [if_pos rfl]
    refine .u2 (.pure fun later => ?_)
    rw [Int16.toInt16_toUInt16]
    exact .same rfl

theorem readsBack_type {opcode : Opcode} {name : String} {index : PoolIndex}
    (h : (Instruction.type opcode name).Decodable pool)
    (hasked : (Pool.internClass name).Settled pool index) :
    ReadsBack labels pool offset (.type opcode name) (opcode :: Bytes.u2 index) := by
  have hform : opcode.form = .type := h
  refine ⟨opcode, _, rfl, ?_⟩
  unfold operands
  rw [hform, ← List.append_nil (Bytes.u2 index)]
  exact .u2 (.lift (Pool.className_of_settled hasked) (.pure fun later => .same rfl))

theorem readsBack_field {opcode : Opcode} {field : Member} {index : PoolIndex}
    (h : (Instruction.field opcode field).Decodable pool)
    (hasked : (Pool.internField field).Settled pool index) :
    ReadsBack labels pool offset (.field opcode field) (opcode :: Bytes.u2 index) := by
  obtain ⟨hform, hclass⟩ := h
  have hfield : { field with ofInterface := false } = field := by rw [← hclass]
  refine ⟨opcode, _, rfl, ?_⟩
  unfold operands
  rw [hform, ← List.append_nil (Bytes.u2 index)]
  refine .u2 (.lift (Pool.member_of_settled_field hasked) (.pure fun later => ?_))
  rw [hfield]
  exact .same rfl

theorem readsBack_method {opcode : Opcode} {callee : Member} {index : PoolIndex} {counts : Bytes}
    (h : (Instruction.method opcode callee).Decodable pool)
    (hasked : (Pool.internMethod callee).Settled pool index)
    (hcounted : callOperands opcode callee = .ok counts) :
    ReadsBack labels pool offset (.method opcode callee) (opcode :: Bytes.u2 index ++ counts) := by
  refine ⟨opcode, _, rfl, ?_⟩
  have hsize := length_callOperands hcounted
  unfold operands
  rcases h with hform | hform
  · have hother : opcode ≠ Opcode.invokeinterface := by
      rintro rfl
      cases hform
    rw [if_neg hother, List.length_eq_zero_iff] at hsize
    rw [hform, hsize]
    exact .u2 (.lift (Pool.member_of_settled_method hasked) (.pure fun later => .same rfl))
  · rw [if_pos ((Opcode.of_form_interfaceMethod opcode).mp hform), List.length_eq_two] at hsize
    obtain ⟨count, zero, rfl⟩ := hsize
    rw [hform]
    exact .u2 (.u1 (.u1 (.lift (Pool.member_of_settled_method hasked)
      (.pure fun later => .same rfl))))

theorem readsBack_invokeDynamic {site : PoolIndex} {descriptor : String}
    (h : (Instruction.invokeDynamic site descriptor).Decodable pool) :
    ReadsBack labels pool offset (.invokeDynamic site descriptor)
      (Opcode.invokedynamic :: Bytes.u2 site ++ [0, 0]) := by
  refine ⟨Opcode.invokedynamic, _, rfl, .u2 ?_⟩
  have hzeros : ([0, 0] : Bytes) = Bytes.u2 0 ++ ([] ++ []) := rfl
  rw [hzeros]
  refine .u2 ((reads_callSite h).bind fun value => .pure fun later hvalue => ?_)
  rw [hvalue]
  exact .same rfl

theorem readsBack_jump {opcode : Opcode} {target : Label} {operand : Bytes}
    (h : (Instruction.jump opcode target).Decodable pool) (hshort : opcode.isWideJump = false)
    (hleads : shortDistance labels offset target = .ok operand) :
    ReadsBack labels pool offset (.jump opcode target) (opcode :: operand) := by
  have hform : opcode.form = .jump := by
    refine h.resolve_right fun hwide => ?_
    rw [Opcode.isWideJump_of_form opcode hwide] at hshort
    cases hshort
  refine ⟨opcode, _, rfl, ?_⟩
  unfold operands
  rw [hform, ← List.append_nil operand]
  exact .shortDistance hleads fun label => .pure fun later hlabel => .jump opcode hlabel

theorem readsBack_wideJump {opcode : Opcode} {target : Label} {operand : Bytes}
    (h : (Instruction.jump opcode target).Decodable pool) (hwide : opcode.isWideJump)
    (hleads : wideDistance labels offset target = .ok operand) :
    ReadsBack labels pool offset (.jump opcode target) (opcode :: operand) := by
  have hform : opcode.form = .wideJump := by
    refine h.resolve_left fun hshort => ?_
    rw [Opcode.not_isWideJump_of_form opcode hshort] at hwide
    cases hwide
  refine ⟨opcode, _, rfl, ?_⟩
  unfold operands
  rw [hform, ← List.append_nil operand]
  exact (Reads.wideRelative hleads _).bind fun label =>
    .pure fun later hlabel => .jump opcode hlabel

theorem readsBack_load {constant : Loadable} {index : PoolIndex}
    (h : (Instruction.load constant).Decodable pool) (hasked : constant.intern.Settled pool index) :
    ReadsBack labels pool offset (.load constant) (push constant index) := by
  have hread : ∀ start offset, Reads labels start offset (loadable pool index >>= fun value =>
      pure (Instruction.load value)) ([] ++ []) fun later value =>
        value.Matches (Agrees later labels) (.load constant) := by
    intro start offset
    refine (reads_loadable hasked h).bind fun value => .pure fun later hvalue => ?_
    rw [hvalue]
    exact .same rfl
  unfold push
  split
  · refine ⟨Opcode.ldc2Wide, _, rfl, ?_⟩
    rw [← List.append_nil (Bytes.u2 index)]
    exact .u2 (hread _ _)
  · split
    · next hshort =>
      refine ⟨Opcode.ldc, _, rfl, .u1 ?_⟩
      rw [Operand.short_of_byte hshort]
      exact hread _ _
    · refine ⟨Opcode.ldcWide, _, rfl, ?_⟩
      rw [← List.append_nil (Bytes.u2 index)]
      exact .u2 (hread _ _)

theorem length_padding (offset : ℕ) : (padding offset).length = (4 - (offset + 1) % 4) % 4 :=
  List.length_replicate

theorem readsBack_tableSwitch {low : Int32} {default : Label} {targets : List Label}
    (h : (Instruction.tableSwitch low default targets).Decodable pool)
    (hleads : Encoding.denseTable labels offset low default targets = .ok bytes) :
    ReadsBack labels pool offset (.tableSwitch low default targets) bytes := by
  obtain ⟨hsome, hrange⟩ := h
  obtain ⟨first, table, hfirst, htable, rfl⟩ := denseTable_eq_ok.mp hleads
  have hlast := Operand.toInt_lastKey hsome hrange
  have hpos := List.length_pos_iff.mpr hsome
  have hcount : ((lastKey low targets).toInt - low.toInt + 1).toNat = targets.length := by omega
  have hordered : ¬ lastKey low targets < low := by
    rw [Int32.lt_iff_toInt_lt]
    omega
  obtain ⟨place, hplace, hdistance, rfl⟩ := wideDistance_eq_ok.mp hfirst
  refine ⟨Opcode.tableswitch, padding offset ++ (_ ++ (_ ++ (_ ++ table.flatten))),
    by simp only [List.cons_append, List.append_assoc]; rfl, ?_⟩
  change Reads labels offset (offset + 1) CodeReader.denseTable _ _
  unfold CodeReader.denseTable
  refine .padding (length_padding offset) (.u4 (.u4 (.u4 ?_)))
  simp only [Int32.toInt32_toUInt32]
  rw [if_neg hordered, hcount]
  refine .relative hplace (Operand.distance_of_int hdistance) fun label => ?_
  have hmany : ∀ start', Reads labels offset start'
      (Reader.many CodeReader.wideRelative targets.length) table.flatten
      fun later others => List.Forall₂ (Agrees later labels) others targets :=
    fun start' => .many (fun _ _ => .wideRelative) htable
  rw [← List.append_nil table.flatten]
  exact (hmany _).bind fun others =>
    .pure fun later hothers hlabel => .tableSwitch low hlabel hothers

theorem readsBack_lookupSwitch {default : Label} {pairs : List (Int32 × Label)}
    (hcount : pairs.length < 2147483648)
    (hleads : Encoding.sparseTable labels offset default pairs = .ok bytes) :
    ReadsBack labels pool offset (.lookupSwitch default (sortedPairs pairs)) bytes := by
  obtain ⟨first, table, hfirst, htable, rfl⟩ := sparseTable_eq_ok.mp hleads
  have hsorted : (sortedPairs pairs).length = pairs.length := List.length_mergeSort _
  obtain ⟨hbytes, hread⟩ := Operand.count_of_length4 hcount
  refine ⟨Opcode.lookupswitch, padding offset ++ (first ++ (_ ++ table.flatten)),
    by simp only [List.cons_append, List.append_assoc]; rfl, ?_⟩
  change Reads labels offset (offset + 1) CodeReader.sparseTable _ _
  unfold CodeReader.sparseTable
  refine .padding (length_padding offset) ((Reads.wideRelative hfirst _).bind fun label => ?_)
  rw [hbytes]
  refine .u4 ?_
  have hmany : ∀ start', Reads labels offset start'
      (Reader.many CodeReader.pair (sortedPairs pairs).length) table.flatten
      fun later others => List.Forall₂ (fun pair original => pair.1 = original.1 ∧
        Agrees later labels pair.2 original.2) others (sortedPairs pairs) :=
    fun start' => .many (fun _ _ => .pair) htable
  rw [hread, ← hsorted, ← List.append_nil table.flatten]
  exact (hmany _).bind fun others =>
    .pure fun later hothers hlabel => .lookupSwitch hlabel hothers

theorem readsBack_multiArray {name : String} {index : PoolIndex} (dimensions : UInt8)
    (hasked : (Pool.internClass name).Settled pool index) :
    ReadsBack labels pool offset (.multiArray name dimensions)
      (Opcode.multianewarray :: Bytes.u2 index ++ [dimensions]) :=
  ⟨Opcode.multianewarray, _, rfl, .u2 (.u1 (.lift (Pool.className_of_settled hasked)
    (.pure fun _ => .same rfl)))⟩

/-! ## All instructions -/

/-- What is written for a decodable instruction is read back. -/
theorem readsBack_of_writes {instruction : Instruction}
    (h : Writes labels pool offset instruction bytes) (hreal : instruction.isReal)
    (hdecodable : instruction.Decodable pool) (hlength : bytes.length ≤ 65535) :
    ReadsBack labels pool offset instruction.sortKeys bytes := by
  cases h with
  | label _ | line _ => cases hreal
  | plain opcode =>
    have hform : opcode.form = .plain := hdecodable
    refine ⟨opcode, [], rfl, ?_⟩
    unfold operands
    rw [hform]
    exact .pure fun later => .same rfl
  | int opcode value => exact readsBack_int hdecodable
  | var opcode slot => exact readsBack_var hdecodable
  | increment slot delta => exact readsBack_increment slot delta
  | type opcode asked => exact readsBack_type hdecodable asked
  | field opcode asked => exact readsBack_field hdecodable asked
  | method asked counted => exact readsBack_method hdecodable asked counted
  | invokeDynamic site descriptor => exact readsBack_invokeDynamic hdecodable
  | jump short leads => exact readsBack_jump hdecodable short leads
  | wideJump wide leads => exact readsBack_wideJump hdecodable wide leads
  | load asked => exact readsBack_load hdecodable asked
  | tableSwitch leads => exact readsBack_tableSwitch hdecodable leads
  | @lookupSwitch default pairs _ leads =>
    have hsize := (Writes.lookupSwitch leads : Writes labels pool offset _ _).length_eq
      (settled_pure.mpr rfl)
    exact readsBack_lookupSwitch (by omega) leads
  | multiArray dimensions asked => exact readsBack_multiArray dimensions asked

end CodeReader

end ClassInstrument
