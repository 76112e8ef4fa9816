import ClassInstrument.Proofs.ClassFile.Taking
import ClassInstrument.Proofs.Code.Decodable

/-!
# What instructions are read from

Reading an instruction takes bytes off the front of the bytecode, and gives an instruction that bytecode can
be decoded to; only the flag of a field that is said to belong to an interface gets lost when the
instruction is written.  `CodeReader.Takes` follows the bytes from left to right.

A text is pushed by an instruction that holds the index of a text object.  `stringAt?` finds the bytes of that
text from the bytecode and the pool alone; the instruction that is read there pushes the text that they are
read as.
-/

namespace ClassInstrument

open Outcome

/-! ## Texts in bytecode -/

/-- The text that an instruction pushes. -/
def Instruction.string? : Instruction → Option String
  | .load (.string text) => some text
  | _ => none

/-- The instruction with a field of a class in the place of a field of an interface. -/
def Instruction.onClass : Instruction → Instruction
  | .field opcode accessed => .field opcode { accessed with ofInterface := false }
  | instruction => instruction

/-- The bytes of the text object at an index. -/
def Pool.stringBytes? (pool : Pool) (index : PoolIndex) : Option Bytes :=
  match pool.get index with
  | .ok (.string text) =>
    match pool.get text with
    | .ok (.utf8 bytes) => some bytes
    | _ => none
  | _ => none

/-- The index of the constant that is pushed by the instruction at the front of some bytecode. -/
def loadedIndex? : Bytes → Option PoolIndex
  | [] => none
  | opcode :: operands =>
    match Opcode.form opcode with
    | .shortConstant => operands.head?.map UInt8.toUInt16
    | .longConstant =>
      match Reader.u2 operands with
      | .ok (index, _) => some index
      | .error _ => none
    | _ => none

/-- The bytes of the text that is pushed by the instruction at an offset. -/
def stringAt? (pool : Pool) (code : Bytes) (offset : ℕ) : Option Bytes :=
  (loadedIndex? (code.drop offset)).bind pool.stringBytes?

namespace CodeReader

variable {α β : Type} {state state' : DecodeState}

/-! ## Actions -/

/-- A sequence of two actions succeeds if both do, the second one from where the first one ends. -/
theorem bind_eq_ok {first : CodeReader α} {next : α → CodeReader β} {result : β} :
    (first >>= next) state = .ok (result, state') ↔
      ∃ value middle, first state = .ok (value, middle) ∧ next value middle = .ok (result, state') := by
  change (first state >>= fun item => next item.1 item.2) = _ ↔ _
  rw [Outcome.bind_eq_ok, Prod.exists]

/-- A plain value leaves the bytecode as it is. -/
theorem pure_eq_ok {value result : α} :
    (pure value : CodeReader α) state = .ok (result, state') ↔ value = result ∧ state = state' := by
  change Except.ok (value, state) = _ ↔ _
  simp

/-- A lookup leaves the bytecode as it is. -/
theorem lift_eq_ok {action : Except Fault α} {result : α} :
    (liftM action : CodeReader α) state = .ok (result, state') ↔
      action = .ok result ∧ state = state' := by
  cases action with
  | ok value =>
    change Except.ok (value, state) = _ ↔ _
    simp
  | error fault =>
    change Except.error fault = _ ↔ _
    simp

/-- Asking for the state leaves it as it is. -/
theorem get_eq_ok {value : DecodeState} :
    (MonadState.get : CodeReader DecodeState) state = .ok (value, state') ↔
      state = value ∧ state = state' := by
  change Except.ok (state, state) = _ ↔ _
  simp

/-- What an action takes off the front of the bytecode is a written form of the value that it gives. -/
def Takes (action : CodeReader α) (written : α → Bytes → Prop) : Prop :=
  ∀ (state state' : DecodeState) (value : α), action state = .ok (value, state') →
    state'.start = state.start ∧ ∃ front, state.rest = front ++ state'.rest ∧
      state'.offset = state.offset + front.length ∧ written value front

namespace Takes

variable {first : CodeReader α} {next : α → CodeReader β} {taken : α → Bytes → Prop}
  {written : β → Bytes → Prop}

theorem pure {value : α} (h : taken value []) : Takes (Pure.pure value) taken := by
  intro state state' result hrun
  obtain ⟨rfl, rfl⟩ := pure_eq_ok.mp hrun
  exact ⟨rfl, [], rfl, rfl, h⟩

theorem throw {fault : Fault} : Takes (MonadExcept.throw fault : CodeReader α) taken := by
  intro state state' result hrun
  cases hrun

theorem fail {defect : CodeDefect} : Takes (CodeReader.fail defect : CodeReader α) taken := by
  intro state state' result hrun
  cases hrun

theorem fail_bind {defect : CodeDefect} : Takes (CodeReader.fail defect >>= next) written := by
  intro state state' result hrun
  cases hrun

/-- Bytes are taken by one action after the other. -/
theorem bind (h : Takes first taken) (hnext : ∀ value front, taken value front →
      Takes (next value) fun result more => written result (front ++ more)) :
    Takes (first >>= next) written := by
  intro state state' result hrun
  obtain ⟨value, middle, hfirst, hsecond⟩ := bind_eq_ok.mp hrun
  obtain ⟨hstart, front, hrest, hoffset, hvalue⟩ := h _ _ _ hfirst
  obtain ⟨hstart', more, hrest', hoffset', hresult⟩ := hnext value front hvalue _ _ _ hsecond
  refine ⟨hstart'.trans hstart, front ++ more, ?_, ?_, hresult⟩
  · rw [hrest, hrest', List.append_assoc]
  · rw [hoffset', hoffset, List.length_append, Nat.add_assoc]

theorem lift {action : Except Fault α} (hnext : ∀ value, action = .ok value → Takes (next value) written) :
    Takes (liftM action >>= next) written := by
  intro state state' result hrun
  obtain ⟨value, middle, hlookup, hsecond⟩ := bind_eq_ok.mp hrun
  obtain ⟨hvalue, rfl⟩ := lift_eq_ok.mp hlookup
  exact hnext value hvalue _ _ _ hsecond

/-- What a reader takes off the front is taken off the bytecode. -/
theorem operand {size : ℕ} {reader : Reader α} (h : Reader.Takes reader taken)
    (hsize : ∀ value front, taken value front → front.length = size) :
    Takes (CodeReader.operand size reader) taken := by
  intro state state' result hrun
  unfold CodeReader.operand at hrun
  obtain ⟨same, middle, hget, hrun⟩ := bind_eq_ok.mp hrun
  cases hget
  cases hread : reader state.rest with
  | error cause =>
    rw [hread] at hrun
    cases hrun
  | ok taken =>
    rw [hread] at hrun
    cases hrun
    obtain ⟨front, hrest, hvalue⟩ := h _ _ _ hread
    exact ⟨rfl, front, hrest, by rw [hsize _ _ hvalue], hvalue⟩

theorem u1 : Takes CodeReader.u1 fun byte front => front = [byte] :=
  operand Reader.takes_u1 fun _ front (h : front = _) => congrArg List.length h

theorem u2 : Takes CodeReader.u2 fun number front => front = Bytes.u2 number :=
  operand Reader.takes_u2 fun number front (h : front = _) =>
    (congrArg List.length h).trans (Bytes.length_u2 number)

theorem u4 : Takes CodeReader.u4 fun number front => front = Bytes.u4 number :=
  operand Reader.takes_u4 fun number front (h : front = _) =>
    (congrArg List.length h).trans (Bytes.length_u4 number)

/-- Less may be known of what was taken. -/
theorem mono {taken' : α → Bytes → Prop} (h : Takes first taken)
    (himp : ∀ value front, taken value front → taken' value front) : Takes first taken' := by
  intro state state' result hrun
  obtain ⟨hstart, front, hrest, hoffset, hvalue⟩ := h _ _ _ hrun
  exact ⟨hstart, front, hrest, hoffset, himp _ _ hvalue⟩

/-- Nothing is taken when an offset gets a label. -/
theorem label (offset : ℕ) : Takes (CodeReader.label offset) fun _ _ => True := by
  intro state state' result hrun
  obtain rfl := (Prod.mk.inj (Except.ok.inj hrun)).2
  exact ⟨rfl, [], rfl, rfl, trivial⟩

/-- What is known of the state does not matter for what is taken. -/
theorem get {next : DecodeState → CodeReader β} (hnext : ∀ state, Takes (next state) written) :
    Takes (MonadState.get >>= next) written := by
  intro state state' result hrun
  obtain ⟨same, middle, hsame, hsecond⟩ := bind_eq_ok.mp hrun
  obtain ⟨rfl, rfl⟩ := get_eq_ok.mp hsame
  exact hnext state _ _ _ hsecond

theorem relative (distance : ℤ) : Takes (CodeReader.relative distance) fun _ _ => True := by
  unfold CodeReader.relative
  refine .get fun state => ?_
  dsimp only
  split
  · exact .fail
  · exact .label _

theorem wideRelative : Takes CodeReader.wideRelative fun _ _ => True :=
  u4.bind fun _ _ _ => relative _

theorem skipPadding : Takes CodeReader.skipPadding fun _ _ => True := by
  unfold CodeReader.skipPadding
  refine .get fun state => ?_
  have htake : Reader.Takes (Reader.take ((4 - state.offset % 4) % 4)) fun _ front =>
      front.length = (4 - state.offset % 4) % 4 := by
    intro bytes rest taken h
    obtain ⟨rfl, hlength⟩ := Reader.eq_of_take h
    exact ⟨taken, rfl, hlength⟩
  exact (operand htake fun _ _ => id).bind fun _ _ _ => .pure trivial

/-- Values are taken one after the other. -/
theorem many (h : Takes first taken) (count : ℕ) :
    Takes (Reader.many first count) fun items _ => items.length = count := by
  have hafter : ∀ (count : ℕ) (done : List α), Takes (Reader.repeatAfter first count done)
      fun items _ => items.length = done.length + count := by
    intro count
    induction count with
    | zero => exact fun done => .pure (by simp)
    | succ count ih =>
      exact fun done => h.bind fun value _ _ => (ih (value :: done)).mono fun _ _ h => by
        rw [h, List.length_cons]
        omega
  exact (hafter count []).mono fun _ _ h => by simpa using h

end Takes

/-! ## Operands -/

/-- What is read behind an opcode is an instruction that can be written, and pushes a text exactly if it was
read from the index of one. -/
structure TakenFrom (pool : Pool) (opcode : Opcode) (instruction : Instruction) (operands : Bytes) :
    Prop where
  decodable : instruction.onClass.Decodable pool
  real : instruction.isReal
  string : ∀ rest, ((loadedIndex? (opcode :: (operands ++ rest))).bind pool.stringBytes?).map
    ModifiedUtf8.decode = instruction.string?

variable {pool : Pool} {opcode : Opcode} {instruction : Instruction} {operands : Bytes}

/-- Only two forms of operands have the index of a constant that is pushed. -/
theorem TakenFrom.of_form {form : Opcode.Form} (hform : opcode.form = form)
    (hshort : form ≠ .shortConstant) (hlong : form ≠ .longConstant) (hdecodable :
      instruction.onClass.Decodable pool) (hother : instruction.isReal ∧ instruction.string? = none) :
    TakenFrom pool opcode instruction operands where
  decodable := hdecodable
  real := hother.1
  string rest := by
    have hnone : loadedIndex? (opcode :: (operands ++ rest)) = none := by
      change (match opcode.form with | .shortConstant => _ | .longConstant => _ | _ => none) = none
      rw [hform]
      split
      · exact absurd rfl hshort
      · exact absurd rfl hlong
      · rfl
    rw [hnone, hother.2]
    rfl

/-- A constant that is looked up can be pushed, and is a text exactly if a text object is there. -/
theorem takes_loadable (pool : Pool) (index : PoolIndex) :
    Takes (loadable pool index) fun constant front => front = [] ∧ constant.Decodable pool ∧
      (pool.stringBytes? index).map ModifiedUtf8.decode = (Instruction.load constant).string? := by
  have hnone : ∀ {constant : Constant}, pool.get index = .ok constant →
      (∀ text, constant ≠ .string text) → pool.stringBytes? index = none := by
    intro constant hget hother
    unfold Pool.stringBytes?
    rw [hget]
    cases constant with
    | string text => exact absurd rfl (hother text)
    | _ => rfl
  unfold loadable
  refine .lift fun constant hget => ?_
  cases constant with
  | integer | float | long | double =>
    exact .pure ⟨rfl, trivial, by rw [hnone hget (by simp)]; rfl⟩
  | string text =>
    refine .lift fun value hvalue => .pure ⟨rfl, trivial, ?_⟩
    obtain ⟨held, hheld, hvalue⟩ := Outcome.bind_eq_ok.mp hvalue
    cases held with
    | utf8 bytes =>
      obtain rfl := Outcome.pure_eq_ok.mp hvalue
      simp [Pool.stringBytes?, hget, hheld, Instruction.string?]
    | _ => cases hvalue
  | classRef | methodType =>
    exact .lift fun value _ => .pure ⟨rfl, trivial, by rw [hnone hget (by simp)]; rfl⟩
  | methodHandle kind member =>
    exact .pure ⟨rfl, Or.inl ⟨kind, member, hget, rfl⟩, by rw [hnone hget (by simp)]; rfl⟩
  | dynamic bootstrap member =>
    refine .lift fun both hboth => .pure ⟨rfl, Or.inr ⟨bootstrap, member, both.1, hget, hboth⟩, ?_⟩
    rw [hnone hget (by simp)]
    rfl
  | _ => exact .throw

/-- The opcodes of implied slots have a slot in their plain form. -/
theorem form_of_impliedSlot : ∀ opcode : Opcode, ∀ plain slot, opcode.form = .impliedSlot plain slot →
    plain.form = .slot := by
  have h : ∀ opcode : Opcode, (match opcode.form with
      | .impliedSlot plain _ => plain.form == .slot
      | _ => true) = true := Opcode.forall_of_fin (by decide +kernel)
  intro opcode plain slot hform
  have hthis := h opcode
  rw [hform] at hthis
  simpa using hthis

/-- The opcodes that can be widened have a slot. -/
theorem form_of_widenable : ∀ opcode : Opcode,
    (opcode.isLoad || opcode.isStore || opcode == Opcode.ret) = true → opcode.form = .slot :=
  Opcode.forall_of_fin (by decide +kernel)

theorem takes_widened (hform : opcode.form = .wide) : Takes widened (TakenFrom pool opcode) := by
  unfold widened
  refine Takes.u1.bind fun inner _ _ => Takes.u2.bind fun slot _ _ => ?_
  split
  · exact Takes.u2.bind fun delta _ _ => .pure (.of_form hform nofun nofun trivial ⟨rfl, rfl⟩)
  · split
    · next hwide => exact .pure (.of_form hform nofun nofun (form_of_widenable inner hwide) ⟨rfl, rfl⟩)
    · exact .fail

theorem takes_denseTable (hform : opcode.form = .denseTable) :
    Takes denseTable (TakenFrom pool opcode) := by
  unfold denseTable
  refine Takes.skipPadding.bind fun _ _ _ => Takes.u4.bind fun distance _ _ =>
    Takes.u4.bind fun low _ _ => Takes.u4.bind fun high _ _ => ?_
  dsimp only
  split
  · exact .fail_bind
  · next hordered =>
    refine (Takes.relative _).bind fun default _ _ =>
      (Takes.wideRelative.many _).bind fun targets _ hcount => .pure (.of_form hform nofun nofun ?_ ⟨rfl, rfl⟩)
    have hle : low.toInt32.toInt ≤ high.toInt32.toInt := by
      simpa [Int32.lt_iff_toInt_lt] using hordered
    have hbound := Int32.toInt_lt high.toInt32
    refine ⟨fun hnil => ?_, ?_⟩
    · rw [hnil, List.length_nil] at hcount
      omega
    · rw [hcount]
      omega

theorem takes_sparseTable (hform : opcode.form = .sparseTable) :
    Takes sparseTable (TakenFrom pool opcode) := by
  have hpair : Takes CodeReader.pair fun _ _ => True :=
    Takes.u4.bind fun _ _ _ => Takes.wideRelative.bind fun _ _ _ => .pure trivial
  unfold sparseTable
  exact Takes.skipPadding.bind fun _ _ _ => Takes.wideRelative.bind fun _ _ _ =>
    Takes.u4.bind fun _ _ _ => (hpair.many _).bind fun _ _ _ =>
      .pure (.of_form hform nofun nofun trivial ⟨rfl, rfl⟩)

/-- A call site that is looked up can be written. -/
theorem takes_callSite (pool : Pool) (index : PoolIndex) : Takes (callSite pool index)
    fun descriptor _ => (Instruction.invokeDynamic index descriptor).Decodable pool := by
  unfold callSite
  refine .lift fun constant hget => ?_
  cases constant with
  | invokeDynamic bootstrap member =>
    exact .lift fun both hboth => .pure ⟨bootstrap, member, both.1, hget, hboth⟩
  | _ => exact .throw

/-- The number of a signed byte is in its range. -/
theorem bounds_of_signedByte (byte : UInt8) :
    -128 ≤ byte.toInt8.toInt32.toInt ∧ byte.toInt8.toInt32.toInt ≤ 127 := by
  have hlow := Int8.le_toInt byte.toInt8
  have hhigh := Int8.toInt_lt byte.toInt8
  rw [Int8.toInt_toInt32]
  omega

/-- The number of two signed bytes is in their range. -/
theorem bounds_of_signedShort (number : UInt16) :
    -32768 ≤ number.toInt16.toInt32.toInt ∧ number.toInt16.toInt32.toInt ≤ 32767 := by
  have hlow := Int16.le_toInt number.toInt16
  have hhigh := Int16.toInt_lt number.toInt16
  rw [Int16.toInt_toInt32]
  omega

/-- The number of an unsigned byte is in its range. -/
theorem bounds_of_unsignedByte (byte : UInt8) :
    0 ≤ byte.toUInt32.toInt32.toInt ∧ byte.toUInt32.toInt32.toInt ≤ 255 := by
  have hlt := byte.toNat_lt
  have hwide : byte.toUInt32 = UInt32.ofNat byte.toNat := by
    rw [← UInt32.toNat_inj, UInt8.toNat_toUInt32, UInt32.toNat_ofNat']
    omega
  have hsigned : (UInt32.ofNat byte.toNat).toInt32 = Int32.ofNat byte.toNat := rfl
  rw [hwide, hsigned, Int32.toInt_ofNat_of_lt (by omega)]
  omega

/-- What is taken behind an opcode. -/
theorem takes_operands (pool : Pool) (opcode : Opcode) :
    Takes (CodeReader.operands pool opcode) (TakenFrom pool opcode) := by
  unfold CodeReader.operands
  cases hform : opcode.form with
  | shortConstant =>
    refine Takes.u1.bind fun index _ hindex => (takes_loadable pool _).bind fun constant _ h => .pure ?_
    obtain ⟨rfl, hdecodable, hstring⟩ := h
    refine ⟨hdecodable, rfl, fun rest => ?_⟩
    subst hindex
    rw [← hstring]
    simp [loadedIndex?, hform]
  | longConstant =>
    refine Takes.u2.bind fun index _ hindex => (takes_loadable pool _).bind fun constant _ h => .pure ?_
    obtain ⟨rfl, hdecodable, hstring⟩ := h
    refine ⟨hdecodable, rfl, fun rest => ?_⟩
    subst hindex
    rw [← hstring]
    simp [loadedIndex?, hform, Reader.u2_append]
  | plain => exact .pure (.of_form hform nofun nofun hform ⟨rfl, rfl⟩)
  | signedByte =>
    exact Takes.u1.bind fun byte _ _ => .pure (.of_form hform nofun nofun
      (.inl ⟨hform, bounds_of_signedByte byte⟩) ⟨rfl, rfl⟩)
  | signedShort =>
    exact Takes.u2.bind fun number _ _ => .pure (.of_form hform nofun nofun
      (.inr (.inl ⟨hform, bounds_of_signedShort number⟩)) ⟨rfl, rfl⟩)
  | unsignedByte =>
    exact Takes.u1.bind fun byte _ _ => .pure (.of_form hform nofun nofun
      (.inr (.inr ⟨hform, bounds_of_unsignedByte byte⟩)) ⟨rfl, rfl⟩)
  | slot => exact Takes.u1.bind fun _ _ _ => .pure (.of_form hform nofun nofun hform ⟨rfl, rfl⟩)
  | impliedSlot plain slot =>
    exact .pure (.of_form hform nofun nofun (form_of_impliedSlot _ _ _ hform) ⟨rfl, rfl⟩)
  | increment =>
    exact Takes.u1.bind fun _ _ _ => Takes.u1.bind fun _ _ _ =>
      .pure (.of_form hform nofun nofun trivial ⟨rfl, rfl⟩)
  | jump =>
    exact Takes.u2.bind fun _ _ _ => (Takes.relative _).bind fun _ _ _ =>
      .pure (.of_form hform nofun nofun (.inl hform) ⟨rfl, rfl⟩)
  | wideJump =>
    exact Takes.wideRelative.bind fun _ _ _ =>
      .pure (.of_form hform nofun nofun (.inr hform) ⟨rfl, rfl⟩)
  | denseTable => exact takes_denseTable hform
  | sparseTable => exact takes_sparseTable hform
  | field =>
    exact Takes.u2.bind fun _ _ _ => .lift fun _ _ =>
      .pure (.of_form hform nofun nofun ⟨hform, rfl⟩ ⟨rfl, rfl⟩)
  | method =>
    exact Takes.u2.bind fun _ _ _ => .lift fun _ _ =>
      .pure (.of_form hform nofun nofun (.inl hform) ⟨rfl, rfl⟩)
  | interfaceMethod =>
    exact Takes.u2.bind fun _ _ _ => Takes.u1.bind fun _ _ _ => Takes.u1.bind fun _ _ _ =>
      .lift fun _ _ => .pure (.of_form hform nofun nofun (.inr hform) ⟨rfl, rfl⟩)
  | callSite =>
    exact Takes.u2.bind fun index _ _ => Takes.u2.bind fun _ _ _ => (takes_callSite pool index).bind
      fun _ _ h => .pure (.of_form hform nofun nofun h ⟨rfl, rfl⟩)
  | type =>
    exact Takes.u2.bind fun _ _ _ => .lift fun _ _ =>
      .pure (.of_form hform nofun nofun hform ⟨rfl, rfl⟩)
  | wide => exact takes_widened hform
  | dimensions =>
    exact Takes.u2.bind fun _ _ _ => Takes.u1.bind fun _ _ _ => .lift fun _ _ =>
      .pure (.of_form hform nofun nofun trivial ⟨rfl, rfl⟩)
  | unknown => exact .fail

/-! ## Lists of instructions -/

/-- An instruction that was read at an offset of some bytecode can be written, and pushes a text exactly if
one is pushed there. -/
structure StandsAt (pool : Pool) (code : Bytes) (entry : ℕ × Instruction) : Prop where
  decodable : entry.2.onClass.Decodable pool
  real : entry.2.isReal
  string : (stringAt? pool code entry.1).map ModifiedUtf8.decode = entry.2.string?

variable {code : Bytes} {entry : ℕ × Instruction}

/-- An instruction is read at an offset, from its opcode and the operands behind it. -/
theorem exists_of_instruction (h : CodeReader.instruction pool state = .ok (entry, state')) :
    entry.1 = state.offset ∧ ∃ opcode operands, state.rest = opcode :: (operands ++ state'.rest) ∧
      state'.offset = state.offset + (1 + operands.length) ∧ TakenFrom pool opcode entry.2 operands := by
  obtain ⟨_, middle, hstart, h⟩ := bind_eq_ok.mp h
  obtain rfl := (Prod.mk.inj (Except.ok.inj hstart)).2
  obtain ⟨opcode, behind, hopcode, h⟩ := bind_eq_ok.mp h
  obtain ⟨instruction, last, hoperands, h⟩ := bind_eq_ok.mp h
  obtain ⟨last', same, hget, h⟩ := bind_eq_ok.mp h
  obtain ⟨rfl, rfl⟩ := get_eq_ok.mp hget
  obtain ⟨rfl, rfl⟩ := pure_eq_ok.mp h
  obtain ⟨hstart, front, hfront, hoffset, rfl⟩ := Takes.u1 _ _ _ hopcode
  obtain ⟨hstart', operands, hrest, hoffset', htaken⟩ := takes_operands pool opcode _ _ _ hoperands
  refine ⟨hstart'.trans hstart, opcode, operands, hrest ▸ hfront, ?_, htaken⟩
  rw [hoffset', hoffset, List.length_singleton, Nat.add_assoc]

theorem standsAt_of_instruction (hstate : state.rest = code.drop state.offset)
    (h : CodeReader.instruction pool state = .ok (entry, state')) :
    state'.rest = code.drop state'.offset ∧ StandsAt pool code entry := by
  obtain ⟨hplace, opcode, operands, hrest, hoffset, htaken⟩ := exists_of_instruction h
  rw [hstate] at hrest
  refine ⟨?_, htaken.decodable, htaken.real, ?_⟩
  · rw [hoffset, ← List.drop_drop, hrest, Nat.add_comm, List.drop_succ_cons, List.drop_left]
  · have hstring := htaken.string state'.rest
    rwa [← hrest, ← hplace] at hstring

/-- What is kept by reading an instruction holds when all of them are read. -/
theorem invariant_instructionsAfter {motive : DecodeState → List (ℕ × Instruction) → Prop} {rounds : ℕ}
    {done entries : List (ℕ × Instruction)}
    (hstep : ∀ {state state' : DecodeState} {done : List (ℕ × Instruction)} {entry : ℕ × Instruction},
      motive state done → CodeReader.instruction pool state = .ok (entry, state') →
        motive state' (entry :: done))
    (hdone : motive state done) (h : instructionsAfter pool rounds done state = .ok (entries, state')) :
    motive state' entries.reverse := by
  induction rounds generalizing state done with
  | zero =>
    obtain ⟨rfl, rfl⟩ := pure_eq_ok.mp h
    rwa [List.reverse_reverse]
  | succ rounds ih =>
    obtain ⟨same, middle, hget, h⟩ := bind_eq_ok.mp h
    obtain ⟨rfl, rfl⟩ := get_eq_ok.mp hget
    split at h
    · obtain ⟨rfl, rfl⟩ := pure_eq_ok.mp h
      rwa [List.reverse_reverse]
    · obtain ⟨next, last, hnext, h⟩ := bind_eq_ok.mp h
      exact ih (hstep hdone hnext) h

theorem standsAt_of_instructionsAfter {rounds : ℕ} {entries : List (ℕ × Instruction)}
    (hstate : state.rest = code.drop state.offset)
    (h : instructionsAfter pool rounds [] state = .ok (entries, state')) :
    ∀ entry ∈ entries, StandsAt pool code entry := by
  have hread := invariant_instructionsAfter
    (motive := fun state done => state.rest = code.drop state.offset ∧
      ∀ entry ∈ done, StandsAt pool code entry) ?step ⟨hstate, by simp⟩ h
  case step =>
    rintro state state' done entry ⟨hstate, hdone⟩ hnext
    exact (standsAt_of_instruction hstate hnext).imp_right fun hstands =>
      List.forall_mem_cons.mpr ⟨hstands, hdone⟩
  simpa using hread.2

end CodeReader

/-- The instructions of a body as it is written, each behind the offset at which it stands. -/
def CodeAttribute.listing (code : CodeAttribute) (pool : Pool) : Except Fault (List (ℕ × Instruction)) := do
  let (entries, _) ← (CodeReader.instructionsAfter pool code.code.length []).run { rest := code.code }
  return entries

/-- What is known of the instructions of a body as it is written. -/
theorem CodeAttribute.standsAt_of_listing {code : CodeAttribute} {pool : Pool}
    {entries : List (ℕ × Instruction)} (h : code.listing pool = .ok entries) :
    ∀ entry ∈ entries, CodeReader.StandsAt pool code.code entry := by
  obtain ⟨⟨found, state⟩, hfound, h⟩ := bind_eq_ok.mp h
  obtain rfl := pure_eq_ok.mp h
  exact CodeReader.standsAt_of_instructionsAfter rfl hfound

/-- The instructions of an editable body are those of the written one, in their order. -/
theorem Body.listing_of_decode {code : CodeAttribute} {pool : Pool} {body : Body}
    (h : decode code pool = .ok body) : ∃ entries, code.listing pool = .ok entries ∧
      body.instructions.filter Instruction.isReal = entries.map Prod.snd := by
  obtain ⟨⟨⟨instructions, handlers, tables⟩, state⟩, hparts, h⟩ := bind_eq_ok.mp h
  obtain ⟨entries, middle, hentries, hparts⟩ := CodeReader.bind_eq_ok.mp hparts
  obtain ⟨entered, middle', hhandlers, hparts⟩ := CodeReader.bind_eq_ok.mp hparts
  obtain ⟨noted, last, htables, hparts⟩ := CodeReader.bind_eq_ok.mp hparts
  obtain ⟨hsame, rfl⟩ := CodeReader.pure_eq_ok.mp hparts
  simp only [Prod.mk.injEq] at hsame
  obtain ⟨rfl, rfl, rfl⟩ := hsame
  have hlisting : code.listing pool = .ok entries := Outcome.bind_eq_ok.mpr ⟨_, hentries, rfl⟩
  refine ⟨entries, hlisting, ?_⟩
  have hstands := CodeAttribute.standsAt_of_listing hlisting
  dsimp only at h
  split at h
  · cases h
  · obtain rfl := Outcome.pure_eq_ok.mp h
    have hlabel : ∀ offset, (placedLabel last.labels offset).filter Instruction.isReal = [] := by
      intro offset
      unfold placedLabel
      split <;> rfl
    have hplaced : ∀ entry ∈ entries,
        (placed last.labels noted entry).filter Instruction.isReal = [entry.2] := by
      rintro ⟨offset, instruction⟩ hmem
      have hlines : ((noted.lines.getD offset #[]).toList.map Instruction.line).filter
          Instruction.isReal = [] := by
        refine List.filter_eq_nil_iff.mpr fun line hline => ?_
        obtain ⟨number, -, rfl⟩ := List.mem_map.mp hline
        simp [Instruction.isReal]
      have hreal : instruction.isReal := (hstands _ hmem).real
      simp [placed, hlabel, hlines, hreal]
    rw [List.filter_append, hlabel, List.append_nil, List.filter_flatMap, List.flatMap_congr hplaced]
    exact List.map_eq_flatMap.symm

end ClassInstrument
