import ClassInstrument.Proofs.Assembly.Decoded
import ClassInstrument.Proofs.Code.Positions

/-!
# Bodies with the same control

Two bodies may have other labels, at other places among the line numbers, and still have the same instructions
between which control flows in the same way.  A body mirrors another one if each of its instructions is that of
the same number there, and leads, falls or throws only to where that one does (`Body.Mirrors`).  What control
reaches in a body it then reaches in the other one (`Body.Mirrors.reachable`).  A body that was decoded mirrors
the one that was written, and the other way round.
-/

namespace ClassInstrument

open Outcome

namespace Instruction

/-- The instruction without its labels, and without the keys that go with them. -/
def bare : Instruction → Instruction
  | jump opcode _ => jump opcode ⟨0⟩
  | tableSwitch .. => tableSwitch 0 ⟨0⟩ []
  | lookupSwitch .. => lookupSwitch ⟨0⟩ []
  | instruction => instruction

variable {related : Label → Label → Prop} {instruction original : Instruction}

@[simp] theorem isReal_bare (instruction : Instruction) : instruction.bare.isReal = instruction.isReal := by
  cases instruction <;> rfl

@[simp] theorem fallsThrough_bare (instruction : Instruction) :
    instruction.bare.fallsThrough = instruction.fallsThrough := by
  cases instruction <;> rfl

/-- Labels do not matter to what an instruction does to a frame. -/
@[simp] theorem execute_bare (method : MethodContext) (code : Array Instruction) (position : ℕ)
    (instruction : Instruction) (frame : FlowFrame) :
    Transfer.execute method code position instruction.bare frame =
      Transfer.execute method code position instruction frame := by
  cases instruction <;> rfl

/-- Instructions that match are the same but for their labels. -/
theorem Matches.bare_eq (h : instruction.Matches related original.sortKeys) : instruction.bare = original.bare := by
  cases original with
  | lookupSwitch default pairs =>
    simp only [sortKeys] at h
    cases h <;> rfl
  | _ =>
    simp only [sortKeys] at h
    cases h <;> rfl

theorem mem_targets_sortKeys {target : Label} : target ∈ original.sortKeys.targets ↔ target ∈ original.targets := by
  cases original with
  | lookupSwitch default pairs =>
    simp only [sortKeys, targets, List.mem_cons, List.mem_map, Encoding.sortedPairs, List.mem_mergeSort]
  | _ => rfl

/-- Instructions that match lead to related labels. -/
theorem Matches.forall₂_targets (h : instruction.Matches related original) :
    List.Forall₂ related instruction.targets original.targets := by
  cases h with
  | same plain =>
    have hnone : instruction.targets = [] := by
      cases instruction <;> first | rfl | exact plain
    rw [hnone]
    exact .nil
  | jump opcode leads => exact .cons leads .nil
  | tableSwitch low leads others => exact .cons leads others
  | lookupSwitch leads others =>
    refine .cons leads ?_
    rw [List.forall₂_map_left_iff, List.forall₂_map_right_iff]
    exact others.imp fun _ _ h => h.2

end Instruction

namespace Body

variable {body original : Body} {handler : Handler} {label written : Label} {position place k : ℕ}
  {instruction : Instruction}

theorem SamePlace.symm (h : body.SamePlace original label written) : original.SamePlace body written label :=
  ⟨h.written_mem, h.mem, h.ordinal_eq.symm⟩

/-- A label that is placed denotes the same as itself. -/
theorem SamePlace.refl (h : .label label ∈ body.instructions) : body.SamePlace body label label :=
  ⟨h, h, rfl⟩

/-- A label has the number of instructions before its place. -/
theorem WellLabelled.ordinal_eq_ordinalAt (h : body.WellLabelled)
    (here : body.instructions[position]? = some (.label label)) : body.ordinal label = body.ordinalAt position :=
  h.ordinal_eq here

/-- Labels that denote the same are placed behind as many instructions. -/
theorem SamePlace.exists_places (h : body.SamePlace original label written) (hlabelled : body.WellLabelled)
    (hlabelled' : original.WellLabelled) (here : body.instructions[position]? = some (.label label)) :
    ∃ place, original.Places written place ∧ original.ordinalAt place = body.ordinalAt position := by
  obtain ⟨place, hplace⟩ := List.mem_iff_getElem?.mp h.written_mem
  refine ⟨place, hlabelled'.places_iff.mpr hplace, ?_⟩
  rw [← hlabelled'.ordinal_eq_ordinalAt hplace, ← h.ordinal_eq, hlabelled.ordinal_eq_ordinalAt here]

/-- A handler covers the instructions whose numbers are between those of its labels. -/
theorem covers_iff_ordinalAt (hlabelled : body.WellLabelled) (here : body.instructions[position]? = some instruction)
    (real : instruction.isReal) : body.Covers handler position ↔
      .label handler.start ∈ body.instructions ∧ .label handler.stop ∈ body.instructions ∧
        body.ordinal handler.start ≤ body.ordinalAt position ∧
          body.ordinalAt position < body.ordinal handler.stop := by
  constructor
  · rintro ⟨start, stop, hstart, hstop, hle, hlt⟩
    refine ⟨List.mem_of_getElem? hstart, List.mem_of_getElem? hstop, ?_, ?_⟩
    · exact hlabelled.ordinal_eq_ordinalAt hstart ▸ ordinalAt_le hle
    · exact hlabelled.ordinal_eq_ordinalAt hstop ▸ ordinalAt_lt here real hlt
  · rintro ⟨hstart, hstop, hle, hlt⟩
    obtain ⟨start, hstart⟩ := List.mem_iff_getElem?.mp hstart
    obtain ⟨stop, hstop⟩ := List.mem_iff_getElem?.mp hstop
    rw [hlabelled.ordinal_eq_ordinalAt hstart] at hle
    rw [hlabelled.ordinal_eq_ordinalAt hstop] at hlt
    refine ⟨start, stop, hstart, hstop, ?_, ?_⟩
    · by_contra hout
      have := ordinalAt_lt here real (Nat.not_le.mp hout)
      omega
    · by_contra hout
      have hback : body.ordinalAt stop ≤ body.ordinalAt position := ordinalAt_le (Nat.not_lt.mp hout)
      omega

/-- A handler that covers an instruction protects it. -/
theorem protects_of_covers (hlabelled : body.WellLabelled) (here : body.instructions[position]? = some instruction)
    (real : instruction.isReal) (hcovers : body.Covers handler position) : body.protects handler := by
  obtain ⟨-, -, hle, hlt⟩ := (covers_iff_ordinalAt hlabelled here real).mp hcovers
  exact decide_eq_true (hle.trans_lt hlt)

/-- The instructions of a body are those of another one, and control goes from them only where it goes there. -/
structure Mirrors (body original : Body) : Prop where
  /-- Instructions of the same number are the same, and lead to labels that denote the same. -/
  instructions : List.Forall₂ (fun instruction (other : Instruction) => instruction.bare = other.bare ∧
      ∀ target ∈ instruction.targets, ∃ written ∈ other.targets, body.SamePlace original target written)
    (body.instructions.filter Instruction.isReal) (original.instructions.filter Instruction.isReal)
  /-- Handlers that protect an instruction are found again. -/
  handlers : ∀ handler ∈ body.handlers, body.protects handler →
    ∃ other ∈ original.handlers, handler.Matches (body.SamePlace original) other

/-- A body mirrors itself, if its labels are placed. -/
theorem Mirrors.refl (hresolved : body.Resolved) : body.Mirrors body where
  instructions := by
    refine List.forall₂_same.mpr fun instruction hmem => ⟨rfl, fun target htarget => ⟨target, htarget, .refl ?_⟩⟩
    exact hresolved.targets (List.mem_of_mem_filter hmem) target htarget
  handlers handler hmem _ := by
    obtain ⟨hstart, hstop, hhandler⟩ := hresolved.handlers hmem
    exact ⟨handler, hmem, .refl hstart, .refl hstop, .refl hhandler, rfl⟩

/-- The instructions that are left without labels and line numbers match. -/
theorem Restores.forall₂_filter (h : body.Restores original) :
    List.Forall₂ (fun instruction (written : Instruction) =>
        instruction.Matches (body.SamePlace original) written.sortKeys)
      (body.instructions.filter Instruction.isReal) (original.instructions.filter Instruction.isReal) := by
  rw [← filter_unlabelled, ← filter_unlabelled original.instructions]
  exact List.rel_filter (fun _ _ hsame => by simp [hsame.isReal_eq]) h.instructions

/-- A body mirrors one that says the same. -/
theorem Restores.mirrors (h : body.Restores original) : body.Mirrors original where
  instructions := h.forall₂_filter.imp fun instruction written hmatches =>
    ⟨hmatches.bare_eq, fun target htarget => by
      obtain ⟨other, hother, hsame⟩ := exists_right_of_forall₂ hmatches.forall₂_targets htarget
      exact ⟨other, Instruction.mem_targets_sortKeys.mp hother, hsame⟩⟩
  handlers handler hmem _ := by
    obtain ⟨other, hother, hmatches⟩ := exists_right_of_forall₂ h.handlers hmem
    exact ⟨other, List.mem_of_mem_filter hother, hmatches⟩

/-- A body is mirrored by one that says the same. -/
theorem Restores.mirrored (h : body.Restores original) : original.Mirrors body where
  instructions := h.forall₂_filter.flip.imp fun written instruction hmatches =>
    ⟨hmatches.bare_eq.symm, fun target htarget => by
      obtain ⟨other, hother, hsame⟩ := exists_left_of_forall₂ hmatches.forall₂_targets
        (Instruction.mem_targets_sortKeys.mpr htarget)
      exact ⟨other, hother, hsame.symm⟩⟩
  handlers handler hmem hprotects := by
    obtain ⟨other, hother, hmatches⟩ := exists_left_of_forall₂ h.handlers (List.mem_filter.mpr ⟨hmem, hprotects⟩)
    exact ⟨other, hother, hmatches.start.symm, hmatches.stop.symm, hmatches.handler.symm, hmatches.caught.symm⟩

namespace Mirrors

variable (h : body.Mirrors original)
include h

/-- The instruction of the same number. -/
theorem exists_counterpart (here : body.instructions[position]? = some instruction) (real : instruction.isReal) :
    ∃ place other, original.realPositions[body.ordinalAt position]? = some place ∧
      original.instructions[place]? = some other ∧ other.isReal ∧ instruction.bare = other.bare ∧
        ∀ target ∈ instruction.targets, ∃ written ∈ other.targets, body.SamePlace original target written := by
  have hsome := getElem?_filter_isReal.mpr ⟨position, realPositions_ordinalAt here real, here⟩
  obtain ⟨other, hother, hbare, htargets⟩ := getElem?_of_forall₂ h.instructions hsome
  obtain ⟨place, hplace, hthere⟩ := getElem?_filter_isReal.mp hother
  refine ⟨place, other, hplace, hthere, ?_, hbare, htargets⟩
  rw [← Instruction.isReal_bare, ← hbare, Instruction.isReal_bare]
  exact real

/-- There are as many instructions. -/
theorem length_realPositions : body.realPositions.length = original.realPositions.length := by
  have hlength (body : Body) :
      body.realPositions.length = (body.instructions.filter Instruction.isReal).length := by
    rw [realPositions_eq, filter_isReal_eq, List.length_map, List.length_map]
  rw [hlength, hlength, h.instructions.length_eq]

/-- A handler that covers an instruction is found again, and covers the instruction of the same number. -/
theorem exists_handler (hlabelled : body.WellLabelled) (hlabelled' : original.WellLabelled)
    (here : body.instructions[position]? = some instruction) (real : instruction.isReal)
    (hplace : original.realPositions[body.ordinalAt position]? = some place) (hmem : handler ∈ body.handlers)
    (hcovers : body.Covers handler position) : ∃ other ∈ original.handlers,
      handler.Matches (body.SamePlace original) other ∧ original.Covers other place := by
  obtain ⟨other, hother, hmatches⟩ := h.handlers handler hmem (protects_of_covers hlabelled here real hcovers)
  refine ⟨other, hother, hmatches, ?_⟩
  obtain ⟨counterpart, hthere, hreal, hordinal⟩ := getElem?_realPositions.mp hplace
  obtain ⟨-, -, hle, hlt⟩ := (covers_iff_ordinalAt hlabelled here real).mp hcovers
  rw [covers_iff_ordinalAt hlabelled' hthere hreal, hordinal, ← hmatches.start.ordinal_eq,
    ← hmatches.stop.ordinal_eq]
  exact ⟨hmatches.start.written_mem, hmatches.stop.written_mem, hle, hlt⟩

/-- **Control goes the same way.**  If control reaches a position of a body, then it reaches the instruction of the
other body that is next there. -/
theorem reachable (hlabelled : body.WellLabelled) (hlabelled' : original.WellLabelled)
    (hreach : body.Reachable [0] position) (hplace : original.realPositions[body.ordinalAt position]? = some place) :
    original.Reachable [0] place := by
  obtain ⟨entry, hentry, hpath⟩ := hreach
  obtain rfl := List.mem_singleton.mp hentry
  induction hpath generalizing place with
  | refl => exact (reachable_entry (List.mem_singleton.mpr rfl)).pass hplace
  | @tail position next _ hflows ih =>
    have hlead {target : Label} {other : Instruction} {origin : ℕ} (hreach : original.Reachable [0] origin)
        (hthere : original.instructions[origin]? = some other) (htarget : target ∈ other.targets)
        {label : Label} (hsame : body.SamePlace original label target)
        (hlabel : body.instructions[next]? = some (.label label)) : original.Reachable [0] place := by
      obtain ⟨found, hfound, hordinal⟩ := hsame.exists_places hlabelled hlabelled' hlabel
      exact (hreach.flows (.jump hthere htarget hfound)).pass (hordinal ▸ hplace)
    cases hflows with
    | @next instruction here falls room =>
      by_cases real : instruction.isReal
      · obtain ⟨origin, other, horigin, hthere, hreal, hbare, -⟩ := h.exists_counterpart here real
        have hnext := (getElem?_realPositions.mp horigin).choose_spec.2.2
        rw [ordinalAt_succ_of_real here real, ← hnext, ← ordinalAt_succ_of_real hthere hreal] at hplace
        have hle := le_of_realPositions hplace
        obtain ⟨last, hlast, -⟩ := getElem?_realPositions.mp hplace
        have hlength := (List.getElem?_eq_some_iff.mp hlast).1
        have hfalls : other.fallsThrough := by
          rw [← Instruction.fallsThrough_bare, ← hbare, Instruction.fallsThrough_bare]
          exact falls
        exact ((ih horigin).flows (.next hthere hfalls (by omega))).pass hplace
      · exact ih (ordinalAt_succ_of_unreal here (by simpa using real) ▸ hplace)
    | @jump instruction target place' here targeted placed =>
      obtain ⟨origin, other, horigin, hthere, -, -, htargets⟩ :=
        h.exists_counterpart here (Instruction.isReal_of_target targeted)
      obtain ⟨written, hwritten, hsame⟩ := htargets target targeted
      exact hlead (ih horigin) hthere hwritten hsame placed.1
    | @throw instruction handler start stop place' here real listed starts stops covered placed =>
      obtain ⟨origin, other, horigin, hthere, hreal, -, -⟩ := h.exists_counterpart here real
      obtain ⟨caught, hcaught, hmatches, start', stop', hstart', hstop', hcovered⟩ :=
        h.exists_handler hlabelled hlabelled' here real horigin listed ⟨start, stop, starts.1, stops.1, covered⟩
      obtain ⟨found, hfound, hordinal⟩ := hmatches.handler.exists_places hlabelled hlabelled' placed.1
      refine ((ih horigin).flows (.throw hthere hreal hcaught (hlabelled'.places_iff.mpr hstart')
        (hlabelled'.places_iff.mpr hstop') hcovered hfound)).pass (hordinal ▸ hplace)

end Mirrors

end Body

end ClassInstrument
