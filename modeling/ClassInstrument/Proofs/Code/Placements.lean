import ClassInstrument.Analysis.Basic
import ClassInstrument.Code.Relabeling
import ClassInstrument.Proofs.Outcome

/-!
# Where labels are placed

A label leads to the last place at which it stands in a list of instructions.  In a well labelled body it
stands at one place at most, and fresh labels are new.
-/

namespace ClassInstrument

open Outcome

namespace Placements

/-- The places of labels in a list with another entry at its end. -/
theorem ofList_append (placed : List (Instruction × Nat)) (entry : Instruction × Nat) :
    ofList (placed ++ [entry]) = (ofList placed).note entry := by
  simp [ofList]

/-- Noting a label changes its own place only. -/
theorem getElem?_note_label (placements : Placements) (label other : Label) (place : Nat) :
    (placements.note (.label label, place))[other]? =
      if label = other then some place else placements[other]? := by
  rw [note, Std.HashMap.getElem?_insert]
  simp

/-- Only labels change places. -/
theorem note_of_ne {placements : Placements} {instruction : Instruction} {place : Nat}
    (h : ∀ label, instruction ≠ .label label) : placements.note (instruction, place) = placements := by
  unfold note
  split
  · next heq => exact absurd (congrArg Prod.fst heq) (h _)
  · rfl

/-- A place is found exactly if it is that of the last entry for the label. -/
theorem getElem?_ofList_eq_some {placed : List (Instruction × Nat)} {label : Label} {place : Nat} :
    (ofList placed)[label]? = some place ↔ ∃ index : Nat,
      placed[index]? = some (.label label, place) ∧ ∀ later entry, index < later →
        placed[later]? = some entry → entry.1 ≠ .label label := by
  induction placed using List.reverseRecOn with
  | nil => simp [ofList]
  | append_singleton placed entry ih =>
    obtain ⟨instruction, other⟩ := entry
    rw [ofList_append]
    by_cases hlabel : instruction = .label label
    · subst hlabel
      rw [getElem?_note_label, if_pos rfl, Option.some.injEq]
      constructor
      · rintro rfl
        exact ⟨placed.length, by simp, fun later entry hlater hentry => by grind⟩
      · rintro ⟨index, hindex, hlater⟩
        have hlast : ¬ index < placed.length := fun hlt =>
          hlater placed.length (.label label, other) hlt (by simp) rfl
        grind
    · have hkeep : (note (ofList placed) (instruction, other))[label]? = (ofList placed)[label]? := by
        by_cases hnoted : ∃ noted, instruction = .label noted
        · obtain ⟨noted, rfl⟩ := hnoted
          rw [getElem?_note_label, if_neg]
          rintro rfl
          exact hlabel rfl
        · rw [note_of_ne fun noted heq => hnoted ⟨noted, heq⟩]
      rw [hkeep, ih]
      constructor
      · rintro ⟨index, hindex, hlater⟩
        refine ⟨index, by grind, fun later entry hlt hentry => ?_⟩
        rw [List.getElem?_append] at hentry
        split at hentry
        · exact hlater later entry hlt hentry
        · grind
      · rintro ⟨index, hindex, hlater⟩
        refine ⟨index, by grind, fun later entry hlt hentry => ?_⟩
        exact hlater later entry hlt (by grind)

/-- A place that is found is known. -/
theorem find_eq_ok {placements : Placements} {label : Label} {place : Nat} :
    placements.find label = .ok place ↔ placements[label]? = some place := by
  unfold find
  split <;> simp [*]

end Placements

/-- A label is placed at a position, and at no later one. -/
def Body.Places (body : Body) (label : Label) (position : Nat) : Prop :=
  body.instructions[position]? = some (.label label) ∧
    ∀ later, position < later → body.instructions[later]? ≠ some (.label label)

/-- The positions of labels are where they are placed. -/
theorem Body.find_labelPositions {body : Body} {label : Label} {position : Nat} :
    body.labelPositions.find label = .ok position ↔ body.Places label position := by
  rw [Placements.find_eq_ok, Body.labelPositions, Placements.getElem?_ofList_eq_some]
  simp only [List.getElem?_zipIdx, Option.map_eq_some_iff, Nat.zero_add]
  constructor
  · rintro ⟨index, ⟨instruction, hinstruction, heq⟩, hlater⟩
    obtain ⟨rfl, rfl⟩ := Prod.mk.inj heq
    exact ⟨hinstruction, fun later hlt hplaced =>
      hlater later (_, later) hlt ⟨_, hplaced, rfl⟩ rfl⟩
  · rintro ⟨hinstruction, hlater⟩
    refine ⟨position, ⟨_, hinstruction, rfl⟩, ?_⟩
    rintro later _ hlt ⟨instruction, hplaced, rfl⟩ rfl
    exact hlater later hlt hplaced

/-- A label is placed at one position only. -/
theorem Body.Places.unique {body : Body} {label : Label} {position other : Nat}
    (h : body.Places label position) (h' : body.Places label other) : position = other := by
  rcases Nat.lt_trichotomy position other with hlt | rfl | hlt
  · exact absurd h'.1 (h.2 other hlt)
  · rfl
  · exact absurd h.1 (h'.2 position hlt)

/-- Labels are placed within a body. -/
theorem Body.Places.lt {body : Body} {label : Label} {position : Nat}
    (h : body.Places label position) : position < body.instructions.length :=
  (List.getElem?_eq_some_iff.mp h.1).1

/-! ## Well labelled bodies -/

/-- The labels that are placed in a list of instructions, in their order. -/
def placedLabels (instructions : List Instruction) : List Label :=
  instructions.filterMap Instruction.placed?

/-- An entry that places a label is that label. -/
theorem Instruction.placed?_eq_some {instruction : Instruction} {label : Label} :
    instruction.placed? = some label ↔ instruction = .label label := by
  cases instruction <;> simp [placed?]

/-- An instruction places no label. -/
theorem Instruction.placed?_of_real {instruction : Instruction} (h : instruction.isReal) :
    instruction.placed? = none := by
  cases instruction <;> first | rfl | simp [isReal] at h

/-- The labels placed in a list are those that stand in it. -/
theorem mem_placedLabels {instructions : List Instruction} {label : Label} :
    label ∈ placedLabels instructions ↔ .label label ∈ instructions := by
  simp [placedLabels, List.mem_filterMap, Instruction.placed?_eq_some]

/-- The labels that are placed in an appended list. -/
theorem placedLabels_append (first second : List Instruction) :
    placedLabels (first ++ second) = placedLabels first ++ placedLabels second :=
  List.filterMap_append

/-- The labels that are placed in a list with a first entry. -/
theorem placedLabels_cons (instruction : Instruction) (rest : List Instruction) :
    placedLabels (instruction :: rest) = instruction.placed?.toList ++ placedLabels rest := by
  rw [placedLabels, List.filterMap_cons]
  cases instruction.placed? <;> rfl

/-- A body places the labels it has handed out, and each of them at most once. -/
structure Body.WellLabelled (body : Body) : Prop where
  /-- The labels were handed out. -/
  handedOut : ∀ label ∈ placedLabels body.instructions, label.number < body.nextLabel
  /-- No label is placed twice. -/
  placedOnce : (placedLabels body.instructions).Nodup

/-- A label that is placed at most once stands at one position only. -/
theorem eq_of_placedLabels {instructions : List Instruction} (h : (placedLabels instructions).Nodup)
    {label : Label} {i j : Nat} (hi : instructions[i]? = some (.label label))
    (hj : instructions[j]? = some (.label label)) : i = j := by
  have hpairs := List.pairwise_iff_getElem.mp (List.pairwise_filterMap.mp h)
  have hne : ∀ {i j : Nat}, i < j → instructions[i]? = some (.label label) →
      instructions[j]? ≠ some (.label label) := by
    intro i j hlt hi hj
    obtain ⟨hilt, hi⟩ := List.getElem?_eq_some_iff.mp hi
    obtain ⟨hjlt, hj⟩ := List.getElem?_eq_some_iff.mp hj
    exact hpairs i j hilt hjlt hlt label (by rw [hi]; rfl) label (by rw [hj]; rfl) rfl
  rcases Nat.lt_trichotomy i j with hlt | rfl | hlt
  · exact absurd hj (hne hlt hi)
  · rfl
  · exact absurd hi (hne hlt hj)

/-- In a well labelled body a label is placed wherever it stands. -/
theorem Body.WellLabelled.places_iff {body : Body} (h : body.WellLabelled) {label : Label}
    {position : Nat} : body.Places label position ↔ body.instructions[position]? = some (.label label) := by
  refine ⟨fun hplaces => hplaces.1, fun hplaced => ⟨hplaced, fun later hlt hlater => ?_⟩⟩
  have := eq_of_placedLabels h.placedOnce hplaced hlater
  omega

end ClassInstrument
