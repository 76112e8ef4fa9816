import Mathlib
import ClassInstrument.Assembly.Encoding
import ClassInstrument.Code.Decoding
import ClassInstrument.Code.Relabeling
import ClassInstrument.Proofs.Outcome
import ClassInstrument.Proofs.Pool.Interning

/-!
# Decodable instructions

Not every value of the type `Instruction` is the decoded form of bytecode: an opcode goes with one shape of
operands only, and an operand has to fit into its bytes.  `Instruction.Decodable` says which instructions
are.  The opcodes are checked one by one, once and for all.
-/

namespace ClassInstrument

/-! ## Opcodes -/

namespace Opcode

/-- What holds of the first `256` numbers holds of all opcodes. -/
theorem forall_of_fin {p : Opcode → Prop} (h : ∀ n : Fin 256, p (UInt8.ofNat n)) (opcode : Opcode) :
    p opcode := by
  simpa using h ⟨opcode.toNat, opcode.toNat_lt⟩

/-- The table of opcodes, checked once for all of them: what the forms tell about opcodes with a slot, short loads
and stores, numbers, interface calls and jumps. -/
theorem checked : ∀ opcode : Opcode,
    (opcode.form = .slot → opcode ≠ iinc ∧ (opcode.isLoad || opcode.isStore || opcode == ret)) ∧
    (opcode.isLoad → ∀ slot : Fin 4,
      form (iload0 + (opcode - iload) * 4 + UInt8.ofNat slot) = .impliedSlot opcode (UInt16.ofNat slot)) ∧
    (opcode.isStore → ∀ slot : Fin 4,
      form (istore0 + (opcode - istore) * 4 + UInt8.ofNat slot) = .impliedSlot opcode (UInt16.ofNat slot)) ∧
    (opcode.form = .signedShort ↔ opcode = sipush) ∧
    (opcode.form = .interfaceMethod ↔ opcode = invokeinterface) ∧
    (opcode.form = .jump → opcode.isWideJump = false) ∧
    (opcode.form = .wideJump → opcode.isWideJump) ∧
    opcode.inverse?.all (fun inverse => inverse.form == .jump) :=
  forall_of_fin (by decide +kernel)

/-- An opcode with a slot loads, stores or returns from a subroutine. -/
theorem of_form_slot (opcode : Opcode) (h : opcode.form = .slot) :
    opcode ≠ iinc ∧ (opcode.isLoad || opcode.isStore || opcode == ret) :=
  (checked opcode).1 h

/-- The opcodes of short loads imply the slot. -/
theorem form_shortLoad (opcode : Opcode) (h : opcode.isLoad) (slot : Fin 4) :
    form (iload0 + (opcode - iload) * 4 + UInt8.ofNat slot) = .impliedSlot opcode (UInt16.ofNat slot) :=
  (checked opcode).2.1 h slot

/-- The opcodes of short stores imply the slot. -/
theorem form_shortStore (opcode : Opcode) (h : opcode.isStore) (slot : Fin 4) :
    form (istore0 + (opcode - istore) * 4 + UInt8.ofNat slot) = .impliedSlot opcode (UInt16.ofNat slot) :=
  (checked opcode).2.2.1 h slot

/-- One opcode pushes two bytes. -/
theorem of_form_signedShort (opcode : Opcode) : opcode.form = .signedShort ↔ opcode = sipush :=
  (checked opcode).2.2.2.1

/-- One opcode calls a method of an interface. -/
theorem of_form_interfaceMethod (opcode : Opcode) :
    opcode.form = .interfaceMethod ↔ opcode = invokeinterface :=
  (checked opcode).2.2.2.2.1

/-- Jumps of two bytes are not wide. -/
theorem not_isWideJump_of_form (opcode : Opcode) (h : opcode.form = .jump) : opcode.isWideJump = false :=
  (checked opcode).2.2.2.2.2.1 h

/-- Jumps of four bytes are wide. -/
theorem isWideJump_of_form (opcode : Opcode) (h : opcode.form = .wideJump) : opcode.isWideJump :=
  (checked opcode).2.2.2.2.2.2.1 h

/-- The inverse of a jump of two bytes is one. -/
theorem form_inverse (opcode : Opcode) : ∀ inverse ∈ opcode.inverse?, inverse.form = .jump := by
  have hform := (checked opcode).2.2.2.2.2.2.2
  intro inverse hmem
  rw [Option.mem_def.mp hmem, Option.all_some] at hform
  exact eq_of_beq hform

end Opcode

/-! ## Instructions -/

/-- A constant that is left in the pool is one that can be pushed, of the descriptor. -/
def Loadable.Decodable (pool : Pool) : Loadable → Prop
  | .pooled index descriptor =>
    (∃ kind member, pool.get index = .ok (.methodHandle kind member) ∧
      descriptor = "Ljava/lang/invoke/MethodHandle;") ∨
    ∃ bootstrap member name, pool.get index = .ok (.dynamic bootstrap member) ∧
      pool.nameAndType member = .ok (name, descriptor)
  | _ => True

/-- An entry of an instruction list has a shape that bytecode is decoded to: its opcode goes with its
operands, and these are in range. -/
def Instruction.Decodable (pool : Pool) : Instruction → Prop
  | .plain opcode => opcode.form = .plain
  | .int opcode value =>
    (opcode.form = .signedByte ∧ -128 ≤ value.toInt ∧ value.toInt ≤ 127) ∨
    (opcode.form = .signedShort ∧ -32768 ≤ value.toInt ∧ value.toInt ≤ 32767) ∨
    (opcode.form = .unsignedByte ∧ 0 ≤ value.toInt ∧ value.toInt ≤ 255)
  | .var opcode _ => opcode.form = .slot
  | .type opcode _ => opcode.form = .type
  | .field opcode accessed => opcode.form = .field ∧ accessed.ofInterface = false
  | .method opcode _ => opcode.form = .method ∨ opcode.form = .interfaceMethod
  | .invokeDynamic site descriptor => ∃ bootstrap member name,
    pool.get site = .ok (.invokeDynamic bootstrap member) ∧
      pool.nameAndType member = .ok (name, descriptor)
  | .jump opcode _ => opcode.form = .jump ∨ opcode.form = .wideJump
  | .load constant => constant.Decodable pool
  | .tableSwitch low _ targets =>
    targets ≠ [] ∧ low.toInt + targets.length - 1 ≤ 2147483647
  | _ => True

/-- The entry with the pairs of a sparse table in ascending order of keys. -/
def Instruction.sortKeys : Instruction → Instruction
  | .lookupSwitch default pairs => .lookupSwitch default (Encoding.sortedPairs pairs)
  | instruction => instruction

/-- An instruction is another one but for its labels, which are related. -/
inductive Instruction.Matches (related : Label → Label → Prop) : Instruction → Instruction → Prop
  /-- Instructions without labels are the same. -/
  | same {instruction : Instruction} (plain : instruction.labels = []) :
      Matches related instruction instruction
  /-- Jumps lead to related labels. -/
  | jump {target original} (opcode : Opcode) (leads : related target original) :
      Matches related (.jump opcode target) (.jump opcode original)
  /-- Dense tables have related labels. -/
  | tableSwitch {default original targets originals} (low : Int32) (leads : related default original)
      (others : List.Forall₂ related targets originals) :
      Matches related (.tableSwitch low default targets) (.tableSwitch low original originals)
  /-- Sparse tables have the same keys and related labels. -/
  | lookupSwitch {default original pairs originals} (leads : related default original)
      (others : List.Forall₂ (fun pair original => pair.1 = original.1 ∧ related pair.2 original.2)
        pairs originals) :
      Matches related (.lookupSwitch default pairs) (.lookupSwitch original originals)

namespace Instruction

open Outcome

variable {related related' : Label → Label → Prop} {instruction original : Instruction}

/-- Instructions match if their labels are related in any wider sense. -/
theorem Matches.mono (h : Matches related instruction original)
    (himp : ∀ label original, related label original → related' label original) :
    Matches related' instruction original := by
  cases h with
  | same plain => exact .same plain
  | jump opcode leads => exact .jump opcode (himp _ _ leads)
  | tableSwitch low leads others => exact .tableSwitch low (himp _ _ leads) (others.imp himp)
  | lookupSwitch leads others =>
    exact .lookupSwitch (himp _ _ leads) (others.imp fun _ _ h => ⟨h.1, himp _ _ h.2⟩)

/-- An instruction that can be written can be written with more constants. -/
theorem Decodable.mono {pool later : Pool} {instruction : Instruction} (h : instruction.Decodable pool)
    (hextends : pool.Extends later) : instruction.Decodable later := by
  cases instruction with
  | invokeDynamic site descriptor =>
    obtain ⟨bootstrap, member, name, hget, hname⟩ := h
    exact ⟨bootstrap, member, name, hextends.get hget, hextends.nameAndType hname⟩
  | load constant =>
    cases constant with
    | pooled index descriptor =>
      rcases h with ⟨kind, member, hget, hdescriptor⟩ | ⟨bootstrap, member, name, hget, hname⟩
      · exact .inl ⟨kind, member, hextends.get hget, hdescriptor⟩
      · exact .inr ⟨bootstrap, member, name, hextends.get hget, hextends.nameAndType hname⟩
    | _ => trivial
  | _ => exact h

/-- Entries that match are both instructions, or neither is. -/
theorem Matches.isReal_eq (h : Matches related instruction original) :
    instruction.isReal = original.isReal := by
  cases h <;> rfl

@[simp] theorem isReal_sortKeys (instruction : Instruction) :
    instruction.sortKeys.isReal = instruction.isReal := by
  cases instruction <;> rfl

end Instruction

end ClassInstrument
