import ClassInstrument.Proofs.Analysis.Reach
import ClassInstrument.Proofs.Code.Listing
import ClassInstrument.Proofs.Code.Passes

/-!
# Instructions by number

Labels and line numbers only mark places, so what stands where in a body is best told by the number of
instructions before it.  `Body.realPositions` gives the position of the instruction of each number.  Control that
is at a position gets to the next instruction from there on.
-/

namespace ClassInstrument

namespace Body

/-- The number of instructions before a position. -/
def ordinalAt (body : Body) (position : ℕ) : ℕ :=
  (body.instructions.take position).countP Instruction.isReal

variable {body : Body} {instruction : Instruction} {position later k : ℕ}

@[simp] theorem ordinalAt_zero (body : Body) : body.ordinalAt 0 = 0 := rfl

theorem ordinalAt_succ_of_real (here : body.instructions[position]? = some instruction)
    (real : instruction.isReal) : body.ordinalAt (position + 1) = body.ordinalAt position + 1 := by
  rw [ordinalAt, ordinalAt, List.take_add_one, here, List.countP_append]
  simp [real]

theorem ordinalAt_succ_of_unreal (here : body.instructions[position]? = some instruction)
    (unreal : instruction.isReal = false) : body.ordinalAt (position + 1) = body.ordinalAt position := by
  rw [ordinalAt, ordinalAt, List.take_add_one, here, List.countP_append]
  simp [unreal]

theorem ordinalAt_le (hle : position ≤ later) : body.ordinalAt position ≤ body.ordinalAt later :=
  (List.take_sublist_take_left hle).countP_le

/-- An instruction is counted before all later positions. -/
theorem ordinalAt_lt (here : body.instructions[position]? = some instruction) (real : instruction.isReal)
    (hlt : position < later) : body.ordinalAt position < body.ordinalAt later := by
  have hnext := ordinalAt_succ_of_real here real
  have hle : body.ordinalAt (position + 1) ≤ body.ordinalAt later := ordinalAt_le hlt
  omega

/-- The instructions of a body with their positions, by number. -/
theorem getElem?_reals : (Encoding.reals body.instructions.zipIdx)[k]? = some (instruction, position) ↔
    body.instructions[position]? = some instruction ∧ instruction.isReal ∧ body.ordinalAt position = k := by
  have hall (instructions : List Instruction) (first k : ℕ) :
      (Encoding.reals (instructions.zipIdx first))[k]? = some (instruction, position) ↔
        ∃ i, position = first + i ∧ instructions[i]? = some instruction ∧ instruction.isReal ∧
          (instructions.take i).countP Instruction.isReal = k := by
    induction instructions generalizing first k with
    | nil => simp [Encoding.reals]
    | cons other instructions ih =>
      rw [List.zipIdx_cons]
      by_cases real : other.isReal
      · rw [Encoding.reals_cons_of_real real]
        cases k with
        | zero =>
          rw [List.getElem?_cons_zero, Option.some.injEq, Prod.mk.injEq]
          constructor
          · rintro ⟨rfl, rfl⟩
            exact ⟨0, rfl, rfl, real, rfl⟩
          · rintro ⟨_ | i, rfl, here, -, hcount⟩
            · exact ⟨Option.some.inj here, rfl⟩
            · simp [real] at hcount
        | succ k =>
          rw [List.getElem?_cons_succ, ih]
          constructor
          · rintro ⟨i, rfl, here, hreal, rfl⟩
            exact ⟨i + 1, by omega, here, hreal, by simp [real]⟩
          · rintro ⟨_ | i, rfl, here, hreal, hcount⟩
            · simp at hcount
            · exact ⟨i, by omega, here, hreal, by simpa [real] using hcount⟩
      · rw [Encoding.reals_cons_of_unreal real, ih]
        constructor
        · rintro ⟨i, rfl, here, hreal, rfl⟩
          exact ⟨i + 1, by omega, here, hreal, by simp [real]⟩
        · rintro ⟨_ | i, rfl, here, hreal, hcount⟩
          · exact absurd (Option.some.inj here ▸ hreal) real
          · exact ⟨i, by omega, here, hreal, by simpa [real] using hcount⟩
  simp only [hall, Nat.zero_add, exists_eq_left', ordinalAt]

theorem realPositions_eq : body.realPositions = (Encoding.reals body.instructions.zipIdx).map Prod.snd := by
  rw [realPositions, Encoding.reals, ← List.filterMap_eq_map, List.filterMap_filter]
  rfl

theorem filter_isReal_eq :
    body.instructions.filter Instruction.isReal = (Encoding.reals body.instructions.zipIdx).map Prod.fst := by
  conv_lhs => rw [← List.zipIdx_map_fst 0 body.instructions, List.filter_map]
  rfl

/-- The instruction of a number stands behind as many others. -/
theorem getElem?_realPositions : body.realPositions[k]? = some position ↔
    ∃ instruction, body.instructions[position]? = some instruction ∧ instruction.isReal ∧
      body.ordinalAt position = k := by
  simp only [realPositions_eq, List.getElem?_map, Option.map_eq_some_iff, Prod.exists, exists_eq_right,
    getElem?_reals]

/-- The instruction of a number stands at the position of that number. -/
theorem getElem?_filter_isReal : (body.instructions.filter Instruction.isReal)[k]? = some instruction ↔
    ∃ position, body.realPositions[k]? = some position ∧ body.instructions[position]? = some instruction := by
  rw [filter_isReal_eq, List.getElem?_map, Option.map_eq_some_iff]
  constructor
  · rintro ⟨⟨_, position⟩, hreal, rfl⟩
    obtain ⟨here, real, hordinal⟩ := getElem?_reals.mp hreal
    exact ⟨position, getElem?_realPositions.mpr ⟨_, here, real, hordinal⟩, here⟩
  · rintro ⟨position, hposition, here⟩
    obtain ⟨other, hother, real, hordinal⟩ := getElem?_realPositions.mp hposition
    obtain rfl := Option.some.inj (here.symm.trans hother)
    exact ⟨_, getElem?_reals.mpr ⟨here, real, hordinal⟩, rfl⟩

/-- An instruction has the number of those before it. -/
theorem realPositions_ordinalAt (here : body.instructions[position]? = some instruction)
    (real : instruction.isReal) : body.realPositions[body.ordinalAt position]? = some position :=
  getElem?_realPositions.mpr ⟨instruction, here, real, rfl⟩

/-- The next instruction from a position on is not before it. -/
theorem le_of_realPositions (h : body.realPositions[body.ordinalAt position]? = some later) :
    position ≤ later := by
  obtain ⟨instruction, here, real, hsame⟩ := getElem?_realPositions.mp h
  by_contra hlt
  have := ordinalAt_lt here real (Nat.not_le.mp hlt)
  omega

/-- If there is an instruction from a position on, then there is a first one. -/
theorem exists_realPositions (here : body.instructions[later]? = some instruction) (real : instruction.isReal)
    (hle : position ≤ later) : ∃ place, body.realPositions[body.ordinalAt position]? = some place := by
  obtain ⟨hlt, -⟩ := List.getElem?_eq_some_iff.mp (realPositions_ordinalAt here real)
  exact ⟨_, List.getElem?_eq_getElem ((ordinalAt_le hle).trans_lt hlt)⟩

/-- What holds of a position and goes on behind labels and line numbers holds of the next instruction. -/
theorem pass_induction {motive : ℕ → Prop} (h : motive position)
    (hnext : body.realPositions[body.ordinalAt position]? = some later)
    (hpass : ∀ (place : ℕ) (instruction : Instruction), place < later →
      body.instructions[place]? = some instruction → instruction.isReal = false → motive place →
        motive (place + 1)) : motive later := by
  have hle := le_of_realPositions hnext
  obtain ⟨last, hlast, -, hsame⟩ := getElem?_realPositions.mp hnext
  have hlength := (List.getElem?_eq_some_iff.mp hlast).1
  induction hdistance : later - position generalizing position with
  | zero =>
    obtain rfl : position = later := by omega
    exact h
  | succ distance ih =>
    have here := List.getElem?_eq_getElem (show position < body.instructions.length by omega)
    have unreal : body.instructions[position].isReal = false := by
      by_contra real
      have := ordinalAt_lt here (by simpa using real) (show position < later by omega)
      omega
    rw [← ordinalAt_succ_of_unreal here unreal] at hnext hsame
    exact ih (hpass _ _ (by omega) here unreal h) hnext (by omega) hsame (by omega)

/-- Control that reaches a position reaches the next instruction from there on. -/
theorem Reachable.pass {entries : List ℕ} (h : body.Reachable entries position)
    (hnext : body.realPositions[body.ordinalAt position]? = some later) : body.Reachable entries later := by
  obtain ⟨last, hlast, -, -⟩ := getElem?_realPositions.mp hnext
  have hlength := (List.getElem?_eq_some_iff.mp hlast).1
  exact pass_induction h hnext fun place instruction hlt here unreal hreach =>
    hreach.flows (.next here (Instruction.fallsThrough_of_unreal unreal) (by omega))

end Body

end ClassInstrument
