import ClassInstrument.Proofs.Assembly.Offsets
import ClassInstrument.Proofs.Code.ReadBack

/-!
# Reading back instruction lists

The bytecode that spells out a list of instructions is read back as the instructions of the list, each at
the offset at which it was written.  Labels and line numbers have no bytes, so they are not read back
from the bytecode.
-/

namespace ClassInstrument

open Interning Outcome Encoding

/-! ## Instructions and their offsets -/

namespace Encoding

/-- The instructions of a list with offsets, without labels and line numbers. -/
def reals (located : List (Instruction × ℕ)) : List (Instruction × ℕ) :=
  located.filter (·.1.isReal)

theorem reals_cons_of_real {entry : Instruction × ℕ} (real : entry.1.isReal)
    (located : List (Instruction × ℕ)) : reals (entry :: located) = entry :: reals located :=
  List.filter_cons_of_pos real

theorem reals_cons_of_unreal {entry : Instruction × ℕ} (unreal : ¬ entry.1.isReal)
    (located : List (Instruction × ℕ)) : reals (entry :: located) = reals located :=
  List.filter_cons_of_neg unreal

variable {labels : Placements} {pool : Pool} {start : ℕ} {located : List (Instruction × ℕ)}
  {code : Bytes}

namespace Spells

/-- All entries stand at or behind the start, and instructions at increasing offsets. -/
theorem pairwise_reals (h : Spells labels pool start located code) :
    (reals located).Pairwise (·.2 < ·.2) := by
  induction h with
  | nil => exact .nil
  | @cons start first bytes located code writes others ih =>
    by_cases real : first.isReal
    · rw [reals_cons_of_real real]
      refine .cons (fun entry hmem => ?_) ih
      have hpos := writes.length_pos.mpr real
      have hbound := (others.bounds (List.mem_of_mem_filter hmem)).1
      dsimp only
      omega
    · rw [reals_cons_of_unreal real]
      exact ih

/-- The first instruction stands at the start. -/
theorem offset_of_reals_eq_cons (h : Spells labels pool start located code)
    {entry : Instruction × ℕ} {others : List (Instruction × ℕ)}
    (hreals : reals located = entry :: others) : entry.2 = start := by
  induction h with
  | nil => simp [reals] at hreals
  | @cons start first bytes located code writes _ ih =>
    by_cases real : first.isReal
    · rw [reals_cons_of_real real] at hreals
      rw [← (List.cons.inj hreals).1]
    · rw [reals_cons_of_unreal real] at hreals
      rw [ih hreals, writes.eq_nil real]
      rfl

end Spells

end Encoding

/-! ## Reading -/

namespace CodeReader

variable {labels : Placements} {pool : Pool} {start offset : ℕ} {located : List (Instruction × ℕ)}
  {code : Bytes}

/-- An instruction that was read at an offset stands for the one that was written there. -/
def ReadAs (later : OffsetLabels) (labels : Placements) (entry : ℕ × Instruction)
    (original : Instruction × ℕ) : Prop :=
  entry.1 = original.2 ∧ entry.2.Matches (Agrees later labels) original.1.sortKeys

/-- An instruction is read with the offset at which it starts, wherever the one before it started. -/
theorem instruction_of_readsBack {original : Instruction} {bytes : Bytes}
    (h : ReadsBack labels pool offset original bytes) (rest : Bytes) {given : OffsetLabels}
    (hfollows : given.Follows labels) : ∃ value given',
      instruction pool ⟨start, offset, bytes ++ rest, given⟩ =
        .ok ((offset, value), ⟨offset, offset + bytes.length, rest, given'⟩) ∧
      given'.Follows labels ∧ given.Grows given' ∧
        ∀ later, given'.Grows later → value.Matches (Agrees later labels) original := by
  obtain ⟨opcode, operands, rfl, hreads⟩ := h
  have hopcode : Reads labels offset offset (do
      let opcode ← CodeReader.u1
      let value ← CodeReader.operands pool opcode
      return ((← get).start, value)) (opcode :: operands)
      fun later entry => entry.1 = offset ∧ entry.2.Matches (Agrees later labels) original := by
    refine .u1 ?_
    rw [← List.append_nil operands]
    refine hreads.bind fun value => ?_
    intro rest given hfollows
    exact ⟨(offset, value), given, rfl, hfollows, .refl given, fun later _ h => ⟨rfl, h⟩⟩
  obtain ⟨⟨_, value⟩, given', hrun, hfollows', hgrows, hpost⟩ := hopcode rest given hfollows
  obtain rfl := (hpost given' (.refl given')).1
  exact ⟨value, given', hrun, hfollows', hgrows, fun later hlater => (hpost later hlater).2⟩

/-- The bytecode of a list of decodable instructions is read back to its end. -/
theorem instructionsAfter_of_spells (h : Spells labels pool offset located code)
    (hdecodable : ∀ entry ∈ located, entry.1.Decodable pool) (hlength : code.length ≤ 65535)
    {rounds : ℕ} (hrounds : code.length ≤ rounds) (start : ℕ) (done : List (ℕ × Instruction))
    {given : OffsetLabels} (hfollows : given.Follows labels) : ∃ entries start' given',
      instructionsAfter pool rounds done ⟨start, offset, code, given⟩ =
        .ok (done.reverse ++ entries, ⟨start', offset + code.length, [], given'⟩) ∧
      given'.Follows labels ∧ given.Grows given' ∧
        ∀ later, given'.Grows later →
          List.Forall₂ (ReadAs later labels) entries (reals located) := by
  induction h generalizing rounds start done given with
  | nil offset =>
    have hend : instructionsAfter pool rounds done ⟨start, offset, [], given⟩ =
        .ok (done.reverse, ⟨start, offset, [], given⟩) := by
      cases rounds <;> rfl
    exact ⟨[], start, given, by simpa using hend, hfollows, .refl given, fun _ _ => .nil⟩
  | @cons offset original bytes located code writes others ih =>
    simp only [List.length_append] at hlength hrounds
    have hrest : ∀ entry ∈ located, entry.1.Decodable pool := fun entry hmem =>
      hdecodable entry (List.mem_cons_of_mem _ hmem)
    by_cases real : original.isReal
    · have hpos := writes.length_pos.mpr real
      obtain ⟨rounds, rfl⟩ : ∃ fewer, rounds = fewer + 1 := ⟨rounds - 1, by omega⟩
      have hback := readsBack_of_writes writes real (hdecodable _ List.mem_cons_self) (by omega)
      obtain ⟨value, middle, hvalue, hfollows', hgrows, hpost⟩ :=
        instruction_of_readsBack hback code hfollows
      have hfewer : code.length ≤ rounds := by omega
      obtain ⟨entries, start', last, hentries, hfollows'', hgrows', hothers⟩ :=
        ih hrest (by omega) hfewer offset ((offset, value) :: done) hfollows'
      refine ⟨(offset, value) :: entries, start', last, ?_, hfollows'', hgrows.trans hgrows', ?_⟩
      · have hsome : (bytes ++ code).isEmpty = false := by
          cases bytes with
          | nil => simp at hpos
          | cons => rfl
        rw [instructionsAfter, bind_apply rfl]
        dsimp only
        rw [hsome, if_neg Bool.false_ne_true, bind_apply hvalue, hentries]
        simp [Nat.add_assoc]
      · intro later hlater
        rw [reals_cons_of_real real]
        exact .cons ⟨rfl, hpost later (hgrows'.trans hlater)⟩ (hothers later hlater)
    · obtain rfl := writes.eq_nil real
      rw [reals_cons_of_unreal real]
      exact ih hrest (by simpa using hlength) (by simpa using hrounds) start done hfollows

end CodeReader

end ClassInstrument
