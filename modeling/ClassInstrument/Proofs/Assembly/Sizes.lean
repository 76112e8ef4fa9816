import ClassInstrument.Proofs.Assembly.Offsets

/-!
# Sizes announced and sizes written

The size of an instruction is told before it is written, by a case analysis of its own, and telling it may
already ask for a constant.  What is written later, over the pool that was left or any later one, takes
as many bytes.  So the offsets of a list of instructions do not change when they are computed again, and
each instruction is written where its offset says.
-/

namespace ClassInstrument

open Interning

namespace Encoding

variable {labels : Placements} {pool pool' later later' : Pool}

/-- As many bytes are written for an instruction as were announced before. -/
theorem length_eq_of_finish {instruction : Instruction} {offset size : Nat} {bytes : Bytes}
    (hsize : (Layout.size offset instruction).finish pool = .ok (size, pool'))
    (hextends : pool'.Extends later)
    (hwrite : (write labels offset instruction).finish later = .ok (bytes, later')) :
    bytes.length = size := by
  have hrepeats := repeats_write labels offset instruction
  have hlater : pool'.Extends later' := hextends.trans (hrepeats.extends_of_finish hwrite)
  have hasked := (Layout.repeats_size offset instruction).again hsize hlater
  exact (writes_of_settled (hrepeats.settled hwrite)).length_eq hasked

/-- The pieces of a bytecode stand at the offsets of its instructions. -/
structure StandsAt (labels : Placements) (pool : Pool) (instructions : List Instruction)
    (offsets : Layout.Offsets) (code : Bytes) : Prop where
  /-- Every instruction has an offset. -/
  count : offsets.starts.size = instructions.length
  /-- Nothing is written behind the last instruction. -/
  length_eq : code.length = offsets.length
  /-- An instruction is written at its offset, with what is written for it there. -/
  piece : ∀ {i : Nat} {instruction : Instruction}, instructions[i]? = some instruction →
    ∃ front bytes rest, offsets.starts[i]? = some front.length ∧
      (write labels front.length instruction).Settled pool bytes ∧ code = front ++ bytes ++ rest

/-- What is written for a list is written for each of its instructions. -/
theorem exists_settled_write {located : List (Instruction × Nat)} {code : Bytes}
    (h : (writeAll labels located).Settled pool code) {instruction : Instruction} {offset : Nat}
    (hmem : (instruction, offset) ∈ located) :
    ∃ bytes, (write labels offset instruction).Settled pool bytes := by
  have hrepeats : ∀ entry : Instruction × Nat, (write labels entry.2 entry.1).Repeats :=
    fun entry => repeats_write labels entry.2 entry.1
  obtain ⟨pieces, hpieces, -⟩ := ((Repeats.mapM hrepeats _).settled_bind fun _ => .pure _).mp h
  obtain ⟨bytes, -, hbytes⟩ :=
    Outcome.exists_right_of_forall₂ ((Repeats.settled_mapM hrepeats).mp hpieces) hmem
  exact ⟨bytes, hbytes⟩

/-- Instructions that are written one after the other stand at their offsets. -/
theorem standsAt_of_settled {instructions : List Instruction} {offsets : Layout.Offsets} {code : Bytes}
    (hoffsets : (Layout.offsets instructions).Settled pool offsets)
    (hcode : (writeAll labels (offsets.locate instructions)).Settled pool code) :
    StandsAt labels pool instructions offsets code := by
  obtain ⟨hfst, hstarts, -⟩ := Layout.lays_of_offsets hoffsets
  obtain ⟨hspells, hlength⟩ := spells_of_settled hoffsets hcode
  refine ⟨?_, hlength.symm, fun {i instruction} here => ?_⟩
  · rw [← Array.length_toList, hstarts, List.length_map]
    simpa using congrArg List.length hfst
  · obtain ⟨offset, hlocated⟩ := (Layout.getElem?_locate hoffsets).mp here
    obtain ⟨front, bytes, rest, rfl, hfront, hwrites, -⟩ := hspells.split hlocated
    obtain rfl : offset = front.length := by simpa using hfront
    obtain ⟨written, hwritten⟩ := exists_settled_write hcode (List.mem_of_getElem? hlocated)
    obtain rfl := hwrites.unique (writes_of_settled hwritten)
    refine ⟨front, bytes, rest, ?_, hwritten, (List.append_assoc _ _ _).symm⟩
    rw [← Array.getElem?_toList, hstarts, List.getElem?_map, hlocated]
    rfl

/-- The sizes that are announced are those that are written, whatever is asked for in between; so a list of
instructions has the same offsets again, and each instruction is written at its own. -/
theorem written_as_announced :
    (∀ (instruction : Instruction) (offset size : Nat) (pool pool' later later' : Pool)
      (labels : Placements) (bytes : Bytes),
      (Layout.size offset instruction).finish pool = .ok (size, pool') → pool'.Extends later →
      (write labels offset instruction).finish later = .ok (bytes, later') → bytes.length = size) ∧
    ∀ (instructions : List Instruction) (pool pool' later : Pool) (offsets : Layout.Offsets),
      (Layout.offsets instructions).finish pool = .ok (offsets, pool') → pool'.Extends later →
      (Layout.offsets instructions).finish later = .ok (offsets, later) ∧
      ∀ (labels : Placements) (code : Bytes) (later' : Pool),
        (writeAll labels (offsets.locate instructions)).finish later = .ok (code, later') →
          StandsAt labels later' instructions offsets code := by
  refine ⟨fun _ _ _ _ _ _ _ _ _ => length_eq_of_finish, fun instructions pool pool' later offsets
    hoffsets hextends => ?_⟩
  have hagain : ∀ {left : Pool}, pool'.Extends left → (Layout.offsets instructions).Settled left offsets :=
    (Layout.repeats_offsets instructions).again hoffsets
  refine ⟨hagain hextends, fun labels code later' hcode => ?_⟩
  have hwriteAll := repeats_writeAll labels (offsets.locate instructions)
  exact standsAt_of_settled (hagain (hextends.trans (hwriteAll.extends_of_finish hcode)))
    (hwriteAll.settled hcode)

/-- A push of a number that is not in the pool yet, a padded switch and a return. -/
def pushAndSwitch : List Instruction :=
  [.load (.int 100000), .tableSwitch 0 ⟨0⟩ [⟨0⟩], .label ⟨0⟩, .plain Opcode.returnVoid]

/-- The pool in which the number is. -/
def pushedPool : Pool := Pool.empty.append (.integer 100000) (by decide)

/-- Where its instructions stand. -/
def pushAndSwitchOffsets : Layout.Offsets := ⟨#[0, 2, 20, 20], 21⟩

/-- The switch comes behind a short push, and is written where it was laid out. -/
theorem written_as_announced_pushAndSwitch : ∃ labels pushed code,
    (Layout.size 0 (.load (.int 100000))).finish Pool.empty = .ok (2, pushedPool) ∧
      (write labels 0 (.load (.int 100000))).finish pushedPool = .ok (pushed, pushedPool) ∧
      pushed.length = 2 ∧
    (Layout.offsets pushAndSwitch).finish Pool.empty = .ok (pushAndSwitchOffsets, pushedPool) ∧
      (writeAll labels (pushAndSwitchOffsets.locate pushAndSwitch)).finish pushedPool =
        .ok (code, pushedPool) ∧
      StandsAt labels pushedPool pushAndSwitch pushAndSwitchOffsets code := by
  have hasked : (Pool.intern (.integer 100000)).finish Pool.empty = .ok (1, pushedPool) :=
    Pool.finish_intern.mpr (Pool.request_of_not_mem (by simp [Pool.empty]) (by decide))
  have hsize : (Layout.size 0 (.load (.int 100000))).finish Pool.empty = .ok (2, pushedPool) :=
    finish_bind.mpr ⟨1, pushedPool, hasked, rfl⟩
  have hoffsets : (Layout.offsets pushAndSwitch).finish Pool.empty =
      .ok (pushAndSwitchOffsets, pushedPool) :=
    finish_bind.mpr ⟨_, _, finish_bind.mpr ⟨2, pushedPool, hsize, rfl⟩, rfl⟩
  let labels := pushAndSwitchOffsets.labels pushAndSwitch
  have hfind : labels.find ⟨0⟩ = .ok 20 := by
    refine Placements.find_eq_ok.mpr (Placements.getElem?_ofList_eq_some.mpr ⟨2, rfl, ?_⟩)
    intro later entry hlt hentry
    obtain ⟨hlater, -⟩ := List.getElem?_eq_some_iff.mp hentry
    obtain rfl : later = 3 := by
      change later < 4 at hlater
      omega
    obtain rfl := Option.some.inj hentry
    simp
  have hload : (write labels 0 (.load (.int 100000))).Settled pushedPool [Opcode.ldc, 1] :=
    Settled.bind ((Repeats.intern _).settled hasked) (settled_pure.mpr rfl)
  have hleads : wideDistance labels 2 ⟨0⟩ = .ok (Bytes.u4 18) :=
    wideDistance_eq_ok.mpr ⟨20, hfind, by decide, rfl⟩
  have hswitch : (write labels 2 (.tableSwitch 0 ⟨0⟩ [⟨0⟩])).Settled pushedPool
      (Opcode.tableswitch :: 0 :: Bytes.u4 18 ++ Bytes.u4 0 ++ Bytes.u4 0 ++ Bytes.u4 18) :=
    settled_lift.mpr (denseTable_eq_ok.mpr ⟨_, _, hleads, .cons hleads .nil, by decide⟩)
  have hpieces := (Repeats.settled_mapM fun entry : Instruction × Nat =>
    repeats_write labels entry.2 entry.1).mpr (.cons (a := (_, _)) hload (.cons (a := (_, _)) hswitch
      (.cons (a := (.label ⟨0⟩, 20)) (settled_pure.mpr rfl)
        (.cons (a := (.plain Opcode.returnVoid, 20)) (settled_pure.mpr rfl) .nil))))
  have hcode : (writeAll labels (pushAndSwitchOffsets.locate pushAndSwitch)).finish pushedPool =
    .ok (_, pushedPool) := hpieces.bind (settled_pure.mpr rfl)
  exact ⟨labels, _, _, hsize, hload, written_as_announced.1 _ _ _ _ _ _ _ _ _ hsize (.refl _) hload,
    hoffsets, hcode, (written_as_announced.2 _ _ _ _ _ hoffsets (.refl _)).2 _ _ _ hcode⟩

end Encoding

end ClassInstrument
