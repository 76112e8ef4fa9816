import ClassInstrument.Proofs.Assembly.Requests
import ClassInstrument.Proofs.Bytes

/-!
# What is written for an instruction

`Encoding.Writes` lists the bytes of each shape of instruction over a pool in which all requests are
settled.  They are as many as were laid out for the instruction, so the offsets of a layout are the
places at which the instructions stand in the bytecode: `Encoding.Spells` says so for a whole list.
-/

namespace ClassInstrument

open Interning Outcome

namespace Encoding

variable {labels : Placements} {pool : Pool} {offset : Nat}

/-! ## One instruction -/

/-- The bytes of an instruction at an offset, with the constants of a pool. -/
inductive Writes (labels : Placements) (pool : Pool) (offset : Nat) : Instruction → Bytes → Prop
  | label (placed : Label) : Writes labels pool offset (.label placed) []
  | line (number : UInt16) : Writes labels pool offset (.line number) []
  | plain (opcode : Opcode) : Writes labels pool offset (.plain opcode) [opcode]
  | int (opcode : Opcode) (value : Int32) :
      Writes labels pool offset (.int opcode value) (opcode :: number opcode value)
  | var (opcode : Opcode) (slot : UInt16) :
      Writes labels pool offset (.var opcode slot) (variableAccess opcode slot)
  | increment (slot : UInt16) (delta : Int16) :
      Writes labels pool offset (.increment slot delta) (increment slot delta)
  | type {name index} (opcode : Opcode) (asked : (Pool.internClass name).Settled pool index) :
      Writes labels pool offset (.type opcode name) (opcode :: Bytes.u2 index)
  | field {field index} (opcode : Opcode) (asked : (Pool.internField field).Settled pool index) :
      Writes labels pool offset (.field opcode field) (opcode :: Bytes.u2 index)
  | method {opcode callee index operands} (asked : (Pool.internMethod callee).Settled pool index)
      (counted : callOperands opcode callee = .ok operands) :
      Writes labels pool offset (.method opcode callee) (opcode :: Bytes.u2 index ++ operands)
  | invokeDynamic (site : PoolIndex) (descriptor : String) :
      Writes labels pool offset (.invokeDynamic site descriptor)
        (Opcode.invokedynamic :: Bytes.u2 site ++ [0, 0])
  | jump {opcode target operand} (short : opcode.isWideJump = false)
      (leads : shortDistance labels offset target = .ok operand) :
      Writes labels pool offset (.jump opcode target) (opcode :: operand)
  | wideJump {opcode target operand} (wide : opcode.isWideJump)
      (leads : wideDistance labels offset target = .ok operand) :
      Writes labels pool offset (.jump opcode target) (opcode :: operand)
  | load {constant index} (asked : constant.intern.Settled pool index) :
      Writes labels pool offset (.load constant) (push constant index)
  | tableSwitch {low default targets bytes}
      (leads : denseTable labels offset low default targets = .ok bytes) :
      Writes labels pool offset (.tableSwitch low default targets) bytes
  | lookupSwitch {default pairs bytes}
      (leads : sparseTable labels offset default pairs = .ok bytes) :
      Writes labels pool offset (.lookupSwitch default pairs) bytes
  | multiArray {name index} (dimensions : UInt8)
      (asked : (Pool.internClass name).Settled pool index) :
      Writes labels pool offset (.multiArray name dimensions)
        (Opcode.multianewarray :: Bytes.u2 index ++ [dimensions])

/-- What is written when all requests are settled. -/
theorem writes_of_settled {instruction : Instruction} {bytes : Bytes}
    (h : (write labels offset instruction).Settled pool bytes) :
    Writes labels pool offset instruction bytes := by
  cases instruction with
  | label placed => exact settled_pure.mp h ▸ .label placed
  | line number => exact settled_pure.mp h ▸ .line number
  | plain opcode => exact settled_pure.mp h ▸ .plain opcode
  | int opcode value => exact settled_pure.mp h ▸ .int opcode value
  | var opcode slot => exact settled_pure.mp h ▸ .var opcode slot
  | increment slot delta => exact settled_pure.mp h ▸ .increment slot delta
  | invokeDynamic site descriptor => exact settled_pure.mp h ▸ .invokeDynamic site descriptor
  | type opcode name =>
    obtain ⟨index, hasked, h⟩ :=
      ((Pool.repeats_internClass name).settled_bind fun _ => .pure _).mp h
    exact settled_pure.mp h ▸ .type opcode hasked
  | field opcode field =>
    obtain ⟨index, hasked, h⟩ :=
      ((Pool.repeats_internField field).settled_bind fun _ => .pure _).mp h
    exact settled_pure.mp h ▸ .field opcode hasked
  | method opcode callee =>
    obtain ⟨index, hasked, h⟩ := ((Pool.repeats_internMethod callee).settled_bind fun _ =>
      (Repeats.lift _).bind fun _ => .pure _).mp h
    obtain ⟨operands, hcounted, h⟩ := ((Repeats.lift _).settled_bind fun _ => .pure _).mp h
    exact settled_pure.mp h ▸ .method hasked (settled_lift.mp hcounted)
  | jump opcode target =>
    unfold write at h
    dsimp only at h
    split at h
    · next hwide =>
      obtain ⟨operand, hleads, h⟩ := ((Repeats.lift _).settled_bind fun _ => .pure _).mp h
      exact settled_pure.mp h ▸ .wideJump hwide (settled_lift.mp hleads)
    · next hshort =>
      obtain ⟨operand, hleads, h⟩ := ((Repeats.lift _).settled_bind fun _ => .pure _).mp h
      exact settled_pure.mp h ▸ .jump (by simpa using hshort) (settled_lift.mp hleads)
  | load constant =>
    obtain ⟨index, hasked, h⟩ := (constant.repeats_intern.settled_bind fun _ => .pure _).mp h
    exact settled_pure.mp h ▸ .load hasked
  | tableSwitch low default targets => exact .tableSwitch (settled_lift.mp h)
  | lookupSwitch default pairs => exact .lookupSwitch (settled_lift.mp h)
  | multiArray name dimensions =>
    obtain ⟨index, hasked, h⟩ :=
      ((Pool.repeats_internClass name).settled_bind fun _ => .pure _).mp h
    exact settled_pure.mp h ▸ .multiArray dimensions hasked

/-- A distance in two bytes leads from the offset to the place of the label. -/
theorem shortDistance_eq_ok {target : Label} {operand : Bytes} :
    shortDistance labels offset target = .ok operand ↔ ∃ place, labels.find target = .ok place ∧
      (-32768 ≤ (place : Int) - offset ∧ (place : Int) - offset ≤ 32767) ∧
        operand = Bytes.u2 (Int16.ofInt ((place : Int) - offset)).toUInt16 := by
  unfold shortDistance distance
  cases hfind : labels.find target with
  | error fault => simp [bind, Except.bind]
  | ok place =>
    simp only [bind, Except.bind, pure, Except.pure, Except.ok.injEq, exists_eq_left', throw,
      throwThe, MonadExceptOf.throw]
    split <;> simp_all [eq_comm]

/-- A distance in four bytes leads from the offset to the place of the label. -/
theorem wideDistance_eq_ok {target : Label} {operand : Bytes} :
    wideDistance labels offset target = .ok operand ↔ ∃ place, labels.find target = .ok place ∧
      (-2147483648 ≤ (place : Int) - offset ∧ (place : Int) - offset ≤ 2147483647) ∧
        operand = Bytes.u4 (Int32.ofInt ((place : Int) - offset)).toUInt32 := by
  unfold wideDistance distance
  cases hfind : labels.find target with
  | error fault => simp [bind, Except.bind]
  | ok place =>
    simp only [bind, Except.bind, pure, Except.pure, Except.ok.injEq, exists_eq_left', throw,
      throwThe, MonadExceptOf.throw]
    split <;> simp_all [eq_comm]

/-- A dense table holds the default and the targets one after the other. -/
theorem denseTable_eq_ok {low : Int32} {default : Label} {targets : List Label} {bytes : Bytes} :
    denseTable labels offset low default targets = .ok bytes ↔ ∃ first table,
      wideDistance labels offset default = .ok first ∧
      List.Forall₂ (fun target operand => wideDistance labels offset target = .ok operand)
        targets table ∧
      bytes = Opcode.tableswitch :: padding offset ++ first ++ Bytes.u4 low.toUInt32 ++
        Bytes.u4 (lastKey low targets).toUInt32 ++ table.flatten := by
  unfold denseTable
  constructor
  · intro h
    obtain ⟨first, hfirst, h⟩ := bind_eq_ok.mp h
    obtain ⟨table, htable, h⟩ := bind_eq_ok.mp h
    exact ⟨first, table, hfirst, mapM_eq_ok.mp htable, (pure_eq_ok.mp h).symm⟩
  · rintro ⟨first, table, hfirst, htable, rfl⟩
    exact bind_eq_ok.mpr ⟨first, hfirst, bind_eq_ok.mpr ⟨table, mapM_eq_ok.mpr htable, rfl⟩⟩

/-- The written form of a key with its target. -/
def WritesPair (labels : Placements) (offset : Nat) (pair : Int32 × Label) (bytes : Bytes) : Prop :=
  ∃ operand, wideDistance labels offset pair.2 = .ok operand ∧
    bytes = Bytes.u4 pair.1.toUInt32 ++ operand

/-- A sparse table holds the default and the sorted keys with their targets one after the other. -/
theorem sparseTable_eq_ok {default : Label} {pairs : List (Int32 × Label)} {bytes : Bytes} :
    sparseTable labels offset default pairs = .ok bytes ↔ ∃ first table,
      wideDistance labels offset default = .ok first ∧
      List.Forall₂ (WritesPair labels offset) (sortedPairs pairs) table ∧
      bytes = Opcode.lookupswitch :: padding offset ++ first ++ Bytes.length4 pairs.length ++
        table.flatten := by
  have hpair : ∀ (pair : Int32 × Label) (written : Bytes),
      (do return Bytes.u4 pair.1.toUInt32 ++ (← wideDistance labels offset pair.2) :
        Except Fault Bytes) = .ok written ↔ WritesPair labels offset pair written := by
    intro pair written
    rw [bind_eq_ok]
    exact exists_congr fun operand => and_congr_right fun _ => pure_eq_ok.trans eq_comm
  unfold sparseTable
  constructor
  · intro h
    obtain ⟨first, hfirst, h⟩ := bind_eq_ok.mp h
    obtain ⟨table, htable, h⟩ := bind_eq_ok.mp h
    exact ⟨first, table, hfirst,
      (mapM_eq_ok.mp htable).imp fun pair written => (hpair pair written).mp,
      (pure_eq_ok.mp h).symm⟩
  · rintro ⟨first, table, hfirst, htable, rfl⟩
    refine bind_eq_ok.mpr ⟨first, hfirst, bind_eq_ok.mpr ⟨table, mapM_eq_ok.mpr ?_, rfl⟩⟩
    exact htable.imp fun pair written => (hpair pair written).mpr

/-! ## Sizes -/

theorem length_shortDistance {target : Label} {operand : Bytes}
    (h : shortDistance labels offset target = .ok operand) : operand.length = 2 := by
  obtain ⟨place, -, -, rfl⟩ := shortDistance_eq_ok.mp h
  exact Bytes.length_u2 _

theorem length_wideDistance {target : Label} {operand : Bytes}
    (h : wideDistance labels offset target = .ok operand) : operand.length = 4 := by
  obtain ⟨place, -, -, rfl⟩ := wideDistance_eq_ok.mp h
  exact Bytes.length_u4 _

/-- The pieces of a table have the same length. -/
theorem length_flatten {α : Type} {writes : α → Bytes → Prop} {length : Nat} {items : List α}
    {table : List Bytes} (hlength : ∀ {item piece}, writes item piece → piece.length = length)
    (h : List.Forall₂ writes items table) : table.flatten.length = length * items.length := by
  induction h with
  | nil => simp
  | cons hfirst _ ih =>
    rw [List.flatten_cons, List.length_append, hlength hfirst, ih, List.length_cons]
    ring

theorem length_variableAccess (opcode : Opcode) (slot : UInt16) :
    (variableAccess opcode slot).length =
      if Layout.hasImpliedSlot opcode slot then 1 else if slot ≤ 255 then 2 else 4 := by
  unfold variableAccess
  split
  · split <;> rfl
  · split
    · rfl
    · simp

theorem length_increment (slot : UInt16) (delta : Int16) :
    (increment slot delta).length = if Layout.isShortIncrement slot delta then 3 else 6 := by
  unfold increment
  split <;> simp

theorem length_callOperands {opcode : Opcode} {callee : Member} {operands : Bytes}
    (h : callOperands opcode callee = .ok operands) :
    operands.length = if opcode = Opcode.invokeinterface then 2 else 0 := by
  unfold callOperands at h
  split at h
  · split at h
    · obtain rfl := pure_eq_ok.mp h
      rw [if_pos ‹_›]
      rfl
    · simp [throw, throwThe, MonadExceptOf.throw] at h
  · obtain rfl := pure_eq_ok.mp h
    rw [if_neg ‹_›]
    rfl

/-- As many bytes are written for an instruction as were laid out for it. -/
theorem Writes.length_eq {instruction : Instruction} {bytes : Bytes} {size : Nat}
    (h : Writes labels pool offset instruction bytes)
    (hsize : (Layout.size offset instruction).Settled pool size) : bytes.length = size := by
  cases h with
  | label _ | line _ | plain _ | type _ _ | field _ _ | invokeDynamic _ _ | multiArray _ _ =>
    obtain rfl := settled_pure.mp hsize
    simp
  | int opcode value =>
    obtain rfl := settled_pure.mp hsize
    unfold number
    split <;> simp
  | var opcode slot =>
    obtain rfl := settled_pure.mp hsize
    exact length_variableAccess opcode slot
  | increment slot delta =>
    obtain rfl := settled_pure.mp hsize
    exact length_increment slot delta
  | method _ counted =>
    obtain rfl := settled_pure.mp hsize
    simp only [List.length_append, List.length_cons, Bytes.length_u2, length_callOperands counted]
    split <;> rfl
  | jump short leads =>
    obtain rfl := settled_pure.mp hsize
    simp [short, length_shortDistance leads]
  | wideJump wide leads =>
    obtain rfl := settled_pure.mp hsize
    simp [wide, length_wideDistance leads]
  | @load constant index asked =>
    unfold Layout.size at hsize
    dsimp only at hsize
    unfold push
    split at hsize
    · next hwide =>
      obtain rfl := settled_pure.mp hsize
      simp [hwide]
    · next hnarrow =>
      obtain ⟨again, hagain, hsize⟩ :=
        (constant.repeats_intern.settled_bind fun _ => .pure _).mp hsize
      obtain rfl : again = index := by
        have := hagain.symm.trans asked
        simpa using this
      obtain rfl := settled_pure.mp hsize
      rw [if_neg hnarrow]
      split <;> simp
  | @tableSwitch low default targets bytes leads =>
    obtain rfl := settled_pure.mp hsize
    obtain ⟨first, table, hfirst, htable, rfl⟩ := denseTable_eq_ok.mp leads
    simp only [List.length_append, List.length_cons, padding, List.length_replicate,
      length_wideDistance hfirst, Bytes.length_u4, length_flatten length_wideDistance htable]
    omega
  | @lookupSwitch default pairs bytes leads =>
    obtain rfl := settled_pure.mp hsize
    obtain ⟨first, table, hfirst, htable, rfl⟩ := sparseTable_eq_ok.mp leads
    have hpair : ∀ {pair written}, WritesPair labels offset pair written → written.length = 8 := by
      rintro pair _ ⟨operand, hoperand, rfl⟩
      simp [length_wideDistance hoperand]
    have hsorted : (sortedPairs pairs).length = pairs.length := List.length_mergeSort _
    simp only [List.length_append, List.length_cons, padding, List.length_replicate,
      length_wideDistance hfirst, Bytes.length4, Bytes.length_ofNat, length_flatten hpair htable,
      hsorted]
    omega

/-- Bytes are written for instructions, and only for them. -/
theorem Writes.length_pos {instruction : Instruction} {bytes : Bytes}
    (h : Writes labels pool offset instruction bytes) : 0 < bytes.length ↔ instruction.isReal := by
  cases h with
  | label _ | line _ => simp [Instruction.isReal]
  | tableSwitch leads =>
    obtain ⟨first, table, -, -, rfl⟩ := denseTable_eq_ok.mp leads
    simp [Instruction.isReal]
  | lookupSwitch leads =>
    obtain ⟨first, table, -, -, rfl⟩ := sparseTable_eq_ok.mp leads
    simp [Instruction.isReal]
  | var opcode slot =>
    rw [length_variableAccess]
    split <;> [simp [Instruction.isReal]; split <;> simp [Instruction.isReal]]
  | increment slot delta =>
    rw [length_increment]
    split <;> simp [Instruction.isReal]
  | load _ =>
    unfold push
    split <;> [simp [Instruction.isReal]; split <;> simp [Instruction.isReal]]
  | _ => simp [Instruction.isReal]

/-! ## Bytecode -/

/-- Bytecode from an offset on is made of what is written for the instructions of a list, each of which
comes with the offset at which its bytes stand. -/
inductive Spells (labels : Placements) (pool : Pool) : Nat → List (Instruction × Nat) → Bytes → Prop
  | nil (offset : Nat) : Spells labels pool offset [] []
  | cons {offset instruction bytes located code} (first : Writes labels pool offset instruction bytes)
      (others : Spells labels pool (offset + bytes.length) located code) :
      Spells labels pool offset ((instruction, offset) :: located) (bytes ++ code)

end Encoding

namespace Layout

variable {pool : Pool}

/-- Instructions are laid out one after the other between two offsets. -/
inductive Lays (pool : Pool) : Nat → List (Instruction × Nat) → Nat → Prop
  | nil (offset : Nat) : Lays pool offset [] offset
  | cons {offset instruction bytes located stop}
      (first : (size offset instruction).Settled pool bytes)
      (others : Lays pool (offset + bytes) located stop) :
      Lays pool offset ((instruction, offset) :: located) stop

/-- What is laid out comes behind what was laid out before. -/
theorem lays_of_foldlM {instructions : List Instruction} {start stop : Offsets}
    (h : (instructions.foldlM place start).Settled pool stop) : ∃ located : List (Instruction × Nat),
      located.map Prod.fst = instructions ∧
        stop.starts.toList = start.starts.toList ++ located.map Prod.snd ∧
        Lays pool start.length located stop.length := by
  induction instructions generalizing start with
  | nil =>
    rw [List.foldlM_nil] at h
    obtain rfl := settled_pure.mp h
    exact ⟨[], rfl, by simp, .nil _⟩
  | cons instruction instructions ih =>
    rw [List.foldlM_cons] at h
    obtain ⟨next, hnext, h⟩ := ((repeats_place start instruction).settled_bind fun _ =>
      .foldlM repeats_place _ _).mp h
    obtain ⟨bytes, hbytes, hnext⟩ := ((repeats_size _ _).settled_bind fun _ => .pure _).mp hnext
    obtain rfl := settled_pure.mp hnext
    obtain ⟨located, rfl, hstarts, hlays⟩ := ih h
    exact ⟨(instruction, start.length) :: located, rfl, by simpa using hstarts,
      .cons hbytes hlays⟩

/-- The offsets of a list of instructions lay it out. -/
theorem lays_of_offsets {instructions : List Instruction} {offsets : Offsets}
    (h : (Layout.offsets instructions).Settled pool offsets) :
    (offsets.locate instructions).map Prod.fst = instructions ∧
      offsets.starts.toList = (offsets.locate instructions).map Prod.snd ∧
      Lays pool 0 (offsets.locate instructions) offsets.length := by
  obtain ⟨located, rfl, hstarts, hlays⟩ := lays_of_foldlM h
  have hlocate : offsets.locate (located.map Prod.fst) = located := by
    rw [Offsets.locate, hstarts]
    simpa using (List.zip_of_prod rfl rfl : located = _).symm
  rw [hlocate]
  exact ⟨rfl, by simpa using hstarts, hlays⟩

end Layout

namespace Encoding

variable {labels : Placements} {pool : Pool} {offset : Nat}

/-- What is written for instructions that are laid out makes up the bytecode between the offsets. -/
theorem spells_of_lays {located : List (Instruction × Nat)} {pieces : List Bytes} {stop : Nat}
    (hlays : Layout.Lays pool offset located stop)
    (hpieces : List.Forall₂ (fun entry piece => (write labels entry.2 entry.1).Settled pool piece)
      located pieces) :
    Spells labels pool offset located pieces.flatten ∧ stop = offset + pieces.flatten.length := by
  induction hlays generalizing pieces with
  | nil offset =>
    obtain rfl := List.forall₂_nil_left_iff.mp hpieces
    exact ⟨.nil offset, by simp⟩
  | @cons offset instruction bytes located stop first others ih =>
    obtain ⟨piece, others, hpiece, hothers, rfl⟩ := List.forall₂_cons_left_iff.mp hpieces
    have hwrites := writes_of_settled hpiece
    obtain rfl := hwrites.length_eq first
    obtain ⟨hspells, rfl⟩ := ih hothers
    exact ⟨.cons hwrites hspells, by simp [Nat.add_assoc]⟩

/-- What is written for a list of instructions at its offsets is its bytecode. -/
theorem spells_of_settled {instructions : List Instruction} {offsets : Layout.Offsets} {code : Bytes}
    (hoffsets : (Layout.offsets instructions).Settled pool offsets)
    (hcode : (writeAll labels (offsets.locate instructions)).Settled pool code) :
    Spells labels pool 0 (offsets.locate instructions) code ∧ offsets.length = code.length := by
  unfold writeAll at hcode
  have hrepeats : ∀ entry : Instruction × Nat, (write labels entry.2 entry.1).Repeats :=
    fun entry => repeats_write labels entry.2 entry.1
  obtain ⟨pieces, hpieces, hcode⟩ :=
    ((Repeats.mapM hrepeats _).settled_bind fun _ => .pure _).mp hcode
  obtain rfl := settled_pure.mp hcode
  obtain ⟨-, -, hlays⟩ := Layout.lays_of_offsets hoffsets
  obtain ⟨hspells, hlength⟩ := spells_of_lays hlays ((Repeats.settled_mapM hrepeats).mp hpieces)
  exact ⟨hspells, by simpa using hlength⟩

end Encoding

end ClassInstrument
