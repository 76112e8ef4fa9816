import ClassInstrument.Proofs.Code.Listing
import ClassInstrument.Proofs.Code.Passes
import ClassInstrument.Proofs.Code.Tables

/-!
# Placing labels and lines

A line number has the offset of the instruction behind it.  So the lines at the offset of an instruction are
those in front of it in the list of instructions, and these are the ones that the table of lines gives to the
offset.

The instructions that were read from bytecode are put into a list, each behind the label and the lines of its
offset.  If only the offsets of instructions and the end of the bytecode have labels, then each label is placed
once, behind as many instructions as there are below its offset.
-/

namespace ClassInstrument

open Interning Outcome Encoding

/-! ## Lines at offsets -/

/-- The lines at an offset of a list of entries. -/
def linesAt (located : List (Instruction × ℕ)) (offset : ℕ) : List UInt16 :=
  located.filterMap fun entry =>
    match entry.1 with
    | .line number => if entry.2 = offset then some number else none
    | _ => none

theorem linesAt_cons_line (number : UInt16) (place offset : ℕ) (located : List (Instruction × ℕ)) :
    linesAt ((.line number, place) :: located) offset =
      if place = offset then number :: linesAt located offset else linesAt located offset := by
  rw [linesAt, List.filterMap_cons]
  dsimp only
  split <;> split at * <;> simp_all [linesAt]

theorem linesAt_cons {entry : Instruction × ℕ} (h : ∀ number, entry.1 ≠ .line number)
    (offset : ℕ) (located : List (Instruction × ℕ)) :
    linesAt (entry :: located) offset = linesAt located offset := by
  obtain ⟨instruction, place⟩ := entry
  cases instruction with
  | line number => exact absurd rfl (h number)
  | _ => rfl

/-- No lines are at an offset where no entry stands. -/
theorem linesAt_eq_nil {located : List (Instruction × ℕ)} {offset : ℕ}
    (h : ∀ entry ∈ located, entry.2 ≠ offset) : linesAt located offset = [] := by
  refine List.filterMap_eq_nil_iff.mpr fun entry hmem => ?_
  split
  · exact if_neg (h entry hmem)
  · rfl

/-- An instruction behind lines. -/
def withLines (lines : List UInt16) (instruction : Instruction) : List Instruction :=
  lines.map Instruction.line ++ [instruction]

namespace Encoding.Spells

variable {labels : Placements} {pool : Pool} {start : ℕ} {located : List (Instruction × ℕ)}
  {code : Bytes}

/-- Each instruction stands behind the lines of its offset. -/
theorem unlabelled_eq (h : Spells labels pool start located code) :
    unlabelled (located.map Prod.fst) =
      (reals located).flatMap fun entry => withLines (linesAt located entry.2) entry.1 := by
  induction h with
  | nil => rfl
  | @cons start first bytes located code writes others ih =>
    rw [List.map_cons]
    by_cases real : first.isReal
    · have hpos := writes.length_pos.mpr real
      have hkeep : linesAt ((first, start) :: located) = linesAt located :=
        funext fun offset => linesAt_cons (by rintro number rfl; cases real) offset located
      have hnone : linesAt located start = [] := linesAt_eq_nil fun entry hmem => by
        have := (others.bounds hmem).1
        omega
      rw [unlabelled_cons_of_real real, reals_cons_of_real real, List.flatMap_cons, hkeep, hnone, ih]
      rfl
    · obtain rfl := writes.eq_nil real
      rw [reals_cons_of_unreal real]
      cases first with
      | label label =>
        have hkeep : linesAt ((.label label, start) :: located) = linesAt located :=
          funext fun offset => linesAt_cons (by simp) offset located
        rw [hkeep]
        exact ih
      | line number =>
        have hany : (located.map Prod.fst).any Instruction.isReal = !(reals located).isEmpty := by
          rw [List.any_map, reals, Bool.eq_iff_iff]
          simp [List.filter_eq_nil_iff]
        rw [unlabelled, hany, ih]
        cases hreals : reals located with
        | nil => rfl
        | cons entry more =>
          -- The first instruction stands at the place of the line, and the others behind it.
          have hfirst : entry.2 = start := others.offset_of_reals_eq_cons hreals
          have hlater := hreals ▸ others.pairwise_reals
          have hmore : more.flatMap (fun other =>
                withLines (linesAt ((.line number, start) :: located) other.2) other.1) =
              more.flatMap fun other => withLines (linesAt located other.2) other.1 := by
            refine List.flatMap_congr fun other hmem => ?_
            have := List.rel_of_pairwise_cons hlater hmem
            rw [linesAt_cons_line, if_neg (by omega)]
          rw [List.isEmpty_cons, Bool.not_false, if_pos rfl, List.flatMap_cons, List.flatMap_cons,
            linesAt_cons_line, if_pos hfirst.symm, hmore]
          rfl
      | _ => exact absurd rfl real

end Encoding.Spells

/-! ## Tables of lines -/

namespace Assembly

/-- The entry for a line of code that ends at an offset. -/
def lineEntry (length : ℕ) : Instruction × ℕ → Option LineEntry
  | (.line line, offset) => if offset < length then some ⟨UInt16.ofNat offset, line⟩ else none
  | _ => none

theorem lineEntries_eq (body : Body) (offsets : Layout.Offsets) :
    lineEntries body offsets = (offsets.locate body.instructions).filterMap (lineEntry offsets.length) := by
  refine List.filterMap_congr fun entry _ => ?_
  obtain ⟨instruction, offset⟩ := entry
  cases instruction <;> rfl

/-- The entries for an offset are those of its lines. -/
theorem lines_filterMap_lineEntry {length offset : ℕ} (hlt : offset < length) (hlength : length ≤ 65535)
    (located : List (Instruction × ℕ)) :
    ((located.filterMap (lineEntry length)).filter (·.start.toNat = offset)).map LineEntry.line =
      linesAt located offset := by
  induction located with
  | nil => rfl
  | cons entry located ih =>
    obtain ⟨instruction, place⟩ := entry
    cases instruction with
    | line number =>
      rw [linesAt_cons_line, List.filterMap_cons, lineEntry]
      by_cases hplace : place < length
      · have hstart : (UInt16.ofNat place).toNat = place :=
          UInt16.toNat_ofNat_of_lt' (by simp only [UInt16.size]; omega)
        rw [if_pos hplace]
        by_cases hsame : place = offset
        · rw [List.filter_cons_of_pos (by simpa [hstart] using hsame), List.map_cons, ih, if_pos hsame]
        · rw [List.filter_cons_of_neg (by simpa [hstart] using hsame), ih, if_neg hsame]
      · rw [if_neg hplace, if_neg (by omega)]
        exact ih
    | _ =>
      rw [linesAt_cons (by simp), List.filterMap_cons_none rfl]
      exact ih

end Assembly

/-- There are bytes exactly if there is an instruction. -/
theorem Encoding.Spells.any_isReal_iff {labels : Placements} {pool : Pool} {start : ℕ}
    {located : List (Instruction × ℕ)} {code : Bytes} (h : Spells labels pool start located code) :
    (located.map Prod.fst).any Instruction.isReal ↔ 0 < code.length := by
  rw [List.any_map, List.any_eq_true]
  refine ⟨fun ⟨entry, hmem, hreal⟩ => ?_, fun hpos => h.exists_real (List.ne_nil_of_length_pos hpos)⟩
  have := (h.bounds hmem).1
  have := (h.bounds hmem).2.2 hreal
  omega

/-- The entries for the lines of code are as many as the lines in front of its instructions. -/
theorem Encoding.Spells.length_lineEntries {labels : Placements} {pool : Pool} {start : ℕ}
    {located : List (Instruction × ℕ)} {code : Bytes} (h : Spells labels pool start located code) :
    (located.filterMap (Assembly.lineEntry (start + code.length))).length =
      lineCount (located.map Prod.fst) := by
  induction h with
  | nil => rfl
  | @cons start first bytes located code writes others ih =>
    rw [List.length_append, ← Nat.add_assoc, List.map_cons]
    by_cases real : first.isReal
    · rw [lineCount_cons_of_real real, ← ih, List.filterMap_cons_none]
      cases first <;> first | rfl | cases real
    · obtain rfl := writes.eq_nil real
      cases first with
      | label label => exact ih
      | line number =>
        have hany := others.any_isReal_iff
        rw [lineCount_cons_line, ← ih, List.filterMap_cons, Assembly.lineEntry]
        have hroom : start < start + ([] : Bytes).length + code.length ↔ 0 < code.length := by simp
        by_cases hpos : 0 < code.length
        · rw [if_pos (hany.mpr hpos), if_pos (hroom.mpr hpos)]
          rfl
        · rw [if_neg (hany.not.mpr hpos), if_neg (hroom.not.mpr hpos)]
          rfl
      | _ => exact absurd rfl real

namespace BodyTables

/-- The lines of an offset are those of its entries, in their order. -/
theorem getD_foldl_noteLine (entries : List LineEntry) (lines : Std.HashMap ℕ (Array UInt16))
    (offset : ℕ) : ((entries.foldl noteLine lines).getD offset #[]).toList =
      (lines.getD offset #[]).toList ++
        (entries.filter (·.start.toNat = offset)).map LineEntry.line := by
  induction entries generalizing lines with
  | nil => simp
  | cons entry entries ih =>
    rw [List.foldl_cons, ih, noteLine, Std.HashMap.getD_insert]
    by_cases hsame : entry.start.toNat = offset
    · subst hsame
      simp
    · simp [hsame]

end BodyTables

namespace Body

variable {given : OffsetLabels} {tables : BodyTables} {entries : List (ℕ × Instruction)}
  {label : Label} {offset length : ℕ}

/-- Instructions read from bytecode, with the labels and the lines of their offsets. -/
def placedAll (given : OffsetLabels) (tables : BodyTables) (entries : List (ℕ × Instruction))
    (length : ℕ) : List Instruction :=
  entries.flatMap (placed given tables) ++ placedLabel given length

theorem placedAll_cons (entry : ℕ × Instruction) : placedAll given tables (entry :: entries) length =
    placed given tables entry ++ placedAll given tables entries length := by
  rw [placedAll, List.flatMap_cons, List.append_assoc, placedAll]

/-! ## Offsets without instructions -/

/-- An offset is the start of an instruction, or the end of the bytecode. -/
def Starts (entries : List (ℕ × Instruction)) (length offset : ℕ) : Prop :=
  offset = length ∨ ∃ entry ∈ entries, entry.1 = offset

/-- The offsets of a list are noted as starts. -/
theorem contains_starts {starts : Std.HashMap ℕ Unit} : (entries.foldl
      (fun starts (entry : ℕ × Instruction) => starts.insert entry.1 ()) starts).contains offset ↔
    starts.contains offset ∨ ∃ entry ∈ entries, entry.1 = offset := by
  induction entries generalizing starts with
  | nil => simp
  | cons entry entries ih => simp [ih, or_assoc, or_left_comm]

/-- There is no stray offset if all offsets with labels are starts of instructions, or the end. -/
theorem strayOffset?_eq_none (h : ∀ offset ∈ given.offsets.toList,
    Starts entries length offset) :
    strayOffset? given entries length = none := by
  unfold strayOffset?
  rw [← Array.foldl_toList]
  generalize given.offsets.toList = offsets at h
  induction offsets with
  | nil => rfl
  | cons offset offsets ih =>
    have hstart : ({(length, ())} : Std.HashMap ℕ Unit).contains offset ∨
        ∃ entry ∈ entries, entry.1 = offset :=
      (h offset List.mem_cons_self).imp_left fun hend => by simp [hend]
    dsimp only at ih ⊢
    rw [List.foldl_cons, if_pos (contains_starts.mpr hstart)]
    exact ih fun other hmem => h other (List.mem_cons_of_mem _ hmem)

/-! ## Labels -/

theorem placedLabels_placedLabel (given : OffsetLabels) (offset : ℕ) :
    placedLabels (placedLabel given offset) = given.labels[offset]?.toList := by
  unfold placedLabel
  cases given.labels[offset]? <;> rfl

theorem placedLabels_placed {entry : ℕ × Instruction} (real : entry.2.isReal) :
    placedLabels (placed given tables entry) = given.labels[entry.1]?.toList := by
  have hlines : placedLabels ((tables.lines.getD entry.1 #[]).toList.map Instruction.line) = [] := by
    simp [placedLabels, List.filterMap_eq_nil_iff, Instruction.placed?]
  rw [placed, placedLabels_append, placedLabels_append, placedLabels_placedLabel, hlines,
    placedLabels_cons, Instruction.placed?_of_real real]
  simp [placedLabels]

/-- The labels that are placed are those of the offsets, in their order. -/
theorem placedLabels_placedAll (hreal : ∀ entry ∈ entries, entry.2.isReal) :
    placedLabels (placedAll given tables entries length) =
      (entries.map Prod.fst ++ [length]).filterMap fun offset => given.labels[offset]? := by
  induction entries with
  | nil =>
    rw [placedAll, List.flatMap_nil, List.nil_append, placedLabels_placedLabel]
    cases hlabel : given.labels[length]? <;> simp [hlabel]
  | cons entry entries ih =>
    rw [placedAll_cons, placedLabels_append, placedLabels_placed (hreal entry List.mem_cons_self),
      ih fun other hmem => hreal other (List.mem_cons_of_mem _ hmem), List.map_cons, List.cons_append]
    cases hlabel : given.labels[entry.1]? <;> simp [hlabel]

/-- The labels of offsets are placed, each of them once. -/
theorem wellLabelled_placedAll {body : Body}
    (hbody : body.instructions = placedAll given tables entries length)
    (hnext : body.nextLabel = given.offsets.size) (hconsistent : given.Consistent)
    (hreal : ∀ entry ∈ entries, entry.2.isReal) (hsorted : entries.Pairwise (·.1 < ·.1))
    (hbound : ∀ entry ∈ entries, entry.1 < length) : body.WellLabelled where
  handedOut label hmem := by
    rw [hbody, placedLabels_placedAll hreal] at hmem
    obtain ⟨offset, -, hlabel⟩ := List.mem_filterMap.mp hmem
    have hmarks := hconsistent.mp hlabel
    rw [hnext]
    exact (Array.getElem?_eq_some_iff.mp hmarks).1
  placedOnce := by
    rw [hbody, placedLabels_placedAll hreal]
    have hnodup : (entries.map Prod.fst ++ [length]).Nodup := by
      refine List.nodup_append.mpr ⟨?_, List.nodup_singleton _, ?_⟩
      · exact List.pairwise_map.mpr (hsorted.imp fun hlt => Nat.ne_of_lt hlt)
      · rintro offset hmem _ hend rfl
        obtain ⟨entry, hentry, rfl⟩ := List.mem_map.mp hmem
        have := hbound entry hentry
        rw [List.mem_singleton] at hend
        omega
    refine hnodup.filterMap fun offset other label hlabel hother => ?_
    have hmarks := hconsistent.mp hlabel
    have hmarks' := hconsistent.mp hother
    exact Option.some.inj (hmarks.symm.trans hmarks')

/-- The label of an offset is placed. -/
theorem mem_placedAll (hreal : ∀ entry ∈ entries, entry.2.isReal)
    (hlabel : given.labels[offset]? = some label) (hstart : Starts entries length offset) :
    .label label ∈ placedAll given tables entries length := by
  rw [← mem_placedLabels, placedLabels_placedAll hreal]
  refine List.mem_filterMap.mpr ⟨offset, ?_, hlabel⟩
  rcases hstart with rfl | ⟨entry, hmem, rfl⟩
  · simp
  · exact List.mem_append_left _ (List.mem_map_of_mem hmem)

/-- What is placed for an instruction read from bytecode holds no instruction but this one. -/
theorem countP_placed {entry : ℕ × Instruction} (real : entry.2.isReal) :
    (placed given tables entry).countP Instruction.isReal = 1 := by
  have hlabels : (placedLabel given entry.1).countP Instruction.isReal = 0 := by
    unfold placedLabel
    cases given.labels[entry.1]? <;> rfl
  have hlines : ((tables.lines.getD entry.1 #[]).toList.map Instruction.line).countP
      Instruction.isReal = 0 := by
    simp [Instruction.isReal]
  rw [placed, List.countP_append, List.countP_append, hlabels, hlines]
  simp [real]

/-- What is placed for an instruction read from bytecode holds no label but that of its offset. -/
theorem not_mem_placed {entry : ℕ × Instruction} (real : entry.2.isReal)
    (hlabel : given.labels[entry.1]? ≠ some label) : .label label ∉ placed given tables entry := by
  rw [← mem_placedLabels, placedLabels_placed real, Option.mem_toList]
  exact hlabel

/-- The label of an offset is behind as many instructions as there are below the offset. -/
theorem countP_placedAll (hreal : ∀ entry ∈ entries, entry.2.isReal)
    (hsorted : entries.Pairwise (·.1 < ·.1)) (hbound : ∀ entry ∈ entries, entry.1 < length)
    (hlabel : ∀ other, given.labels[other]? = some label ↔ other = offset)
    (hstart : Starts entries length offset) :
    ((placedAll given tables entries length).takeWhile (· != .label label)).countP Instruction.isReal =
      entries.countP (·.1 < offset) := by
  induction entries with
  | nil =>
    obtain rfl : offset = length := by simpa [Starts] using hstart
    simp [placedAll, placedLabel, (hlabel offset).mpr rfl]
  | cons entry entries ih =>
    have hlater : ∀ other ∈ entries, entry.1 < other.1 := fun _ => List.rel_of_pairwise_cons hsorted
    rw [placedAll_cons]
    by_cases hhere : entry.1 = offset
    · have hnone : (entry :: entries).countP (·.1 < offset) = 0 := by
        rw [List.countP_eq_zero]
        intro other hmem
        rcases List.mem_cons.mp hmem with rfl | hmem
        · simp [hhere]
        · have := hlater other hmem
          simp only [decide_eq_true_eq]
          omega
      rw [hnone, placed, placedLabel, (hlabel _).mpr hhere]
      simp
    · have hrest : Starts entries length offset := by
        rcases hstart with rfl | ⟨other, hmem, rfl⟩
        · exact Or.inl rfl
        · rcases List.mem_cons.mp hmem with rfl | hmem
          · exact absurd rfl hhere
          · exact Or.inr ⟨other, hmem, rfl⟩
      have hlt : entry.1 < offset := by
        rcases hrest with rfl | ⟨other, hmem, rfl⟩
        · exact hbound entry List.mem_cons_self
        · exact hlater other hmem
      have real := hreal entry List.mem_cons_self
      have hother : ∀ instruction ∈ placed given tables entry, (instruction != .label label) = true := by
        intro instruction hmem
        simp only [bne_iff_ne, ne_eq]
        rintro rfl
        exact not_mem_placed real (fun hfound => hhere ((hlabel _).mp hfound)) hmem
      rw [List.takeWhile_append_of_pos hother, List.countP_append, countP_placed real,
        ih (fun other hmem => hreal other (List.mem_cons_of_mem _ hmem)) hsorted.of_cons
          (fun other hmem => hbound other (List.mem_cons_of_mem _ hmem)) hrest,
        List.countP_cons_of_pos (by simpa using hlt), Nat.add_comm]

/-! ## Lines -/

/-- An instruction stays behind its lines. -/
theorem unlabelled_lines {instruction : Instruction} (real : instruction.isReal) (lines : List UInt16)
    (rest : List Instruction) : unlabelled (lines.map Instruction.line ++ instruction :: rest) =
      withLines lines instruction ++ unlabelled rest := by
  induction lines with
  | nil => exact unlabelled_cons_of_real real rest
  | cons line lines ih =>
    have hany : (lines.map Instruction.line ++ instruction :: rest).any Instruction.isReal := by
      simp [real]
    rw [List.map_cons, List.cons_append, unlabelled, if_pos hany, ih]
    rfl

/-- Without labels, the instructions stand behind the lines of their offsets. -/
theorem unlabelled_placedAll (hreal : ∀ entry ∈ entries, entry.2.isReal) :
    unlabelled (placedAll given tables entries length) = entries.flatMap fun entry =>
      withLines (tables.lines.getD entry.1 #[]).toList entry.2 := by
  have hlabel : ∀ offset rest, unlabelled (placedLabel given offset ++ rest) = unlabelled rest := by
    intro offset rest
    unfold placedLabel
    cases given.labels[offset]? <;> rfl
  induction entries with
  | nil =>
    have hend := hlabel length []
    rwa [List.append_nil] at hend
  | cons entry entries ih =>
    rw [placedAll_cons, placed, List.append_assoc, List.append_assoc, hlabel, List.singleton_append,
      unlabelled_lines (hreal entry List.mem_cons_self),
      ih fun other hmem => hreal other (List.mem_cons_of_mem _ hmem), List.flatMap_cons]

end Body

end ClassInstrument
