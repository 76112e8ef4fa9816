import ClassInstrument.Proofs.Analysis.TypedInsertion
import ClassInstrument.Proofs.Assembly.Carving
import ClassInstrument.Proofs.Assembly.WidenedControl

/-!
# What insertion leaves as it was

A body owns its labels if it has handed out every label that stands in it, in its instructions or in its
tables, and places none of them twice.  Entries with new labels can be put into such a body at a position, so
that nothing that was there before notices: its labels are placed where they have moved
(`Body.OwnsLabels.labelPosition?_insertAt`), its instructions are protected by the handlers that protected
them (`Body.OwnsLabels.catchers_insertAt`), and its labels denote the instructions that they denoted, unless
an instruction was put in between (`Body.Denotes.insertAt`).  Entries that are put in at either end are
protected by nothing (`Body.OwnsLabels.catchers_insertAt_block`).
-/

namespace ClassInstrument

/-! ## Bodies and their labels -/

namespace Body

/-- A body has handed out all labels that stand in it, and places none of them twice. -/
structure OwnsLabels (body : Body) : Prop where
  /-- The labels were handed out. -/
  handedOut : ∀ label ∈ body.labels, label.number < body.nextLabel
  /-- No label is placed twice. -/
  placedOnce : (placedLabels body.instructions).Nodup

variable {body : Body}

/-- The labels of a body are those in its instructions and those in its tables. -/
theorem mem_labels {label : Label} : label ∈ body.labels ↔
    (∃ instruction ∈ body.instructions, label ∈ instruction.labels) ∨ label ∈ body.tableLabels := by
  have hentry : ∀ instruction : Instruction,
      label ∈ instruction.labels ↔ instruction.placed? = some label ∨ label ∈ instruction.targets := by
    intro instruction
    cases instruction <;> simp [Instruction.labels, Instruction.placed?, Instruction.targets, eq_comm]
  simp only [labels, List.mem_append, List.mem_filterMap, List.mem_flatMap, hentry, and_or_left,
    exists_or]

/-- Placed labels are labels of the body. -/
theorem mem_labels_of_placed {label : Label} (h : label ∈ placedLabels body.instructions) :
    label ∈ body.labels :=
  List.mem_append_left _ (List.mem_append_left _ h)

/-- Targets of jumps are labels of the body. -/
theorem mem_labels_of_target {label : Label} {instruction : Instruction}
    (hmem : instruction ∈ body.instructions) (h : label ∈ instruction.targets) : label ∈ body.labels :=
  List.mem_append_left _ (List.mem_append_right _ (List.mem_flatMap.mpr ⟨instruction, hmem, h⟩))

/-- The labels of handlers are labels of the body. -/
theorem mem_labels_of_handler {label : Label} {handler : Handler} (hmem : handler ∈ body.handlers)
    (h : label ∈ [handler.start, handler.stop, handler.handler]) : label ∈ body.labels :=
  List.mem_append_right _ (List.mem_append_left _ (List.mem_flatMap.mpr ⟨handler, hmem, h⟩))

namespace OwnsLabels

variable (h : body.OwnsLabels)
include h

/-- A body that owns its labels is well labelled. -/
theorem wellLabelled : body.WellLabelled :=
  ⟨fun label hmem => h.handedOut label (mem_labels_of_placed hmem), h.placedOnce⟩

/-- A body that owns its labels refers to own labels only. -/
theorem refersToOwn : body.RefersToOwn where
  targets hmem target htarget := h.handedOut target (mem_labels_of_target hmem htarget)
  handlers hmem := ⟨h.handedOut _ (mem_labels_of_handler hmem (by simp)),
    h.handedOut _ (mem_labels_of_handler hmem (by simp)),
    h.handedOut _ (mem_labels_of_handler hmem (by simp))⟩

/-- A body that owns its labels may hand out more of them. -/
theorem moreLabels {next : ℕ} (hnext : body.nextLabel ≤ next) :
    OwnsLabels { body with nextLabel := next } :=
  ⟨fun label hmem => (h.handedOut label hmem).trans_le hnext, h.placedOnce⟩

/-- A label that was not handed out does not stand in the body. -/
theorem not_mem_of_le {label : Label} (hlabel : body.nextLabel ≤ label.number) : label ∉ body.labels :=
  fun hmem => absurd (h.handedOut label hmem) (by omega)

/-- A body owns its labels if instructions with labels that were handed out are put in, and the labels that
are placed among them are new. -/
theorem insertAt {block : List Instruction} (start : ℕ)
    (hown : ∀ instruction ∈ block, ∀ label ∈ instruction.labels, label.number < body.nextLabel)
    (hnew : ∀ label ∈ placedLabels block, label ∉ body.labels) (honce : (placedLabels block).Nodup) :
    (body.insertAt start block).OwnsLabels where
  handedOut label hmem := by
    rcases mem_labels.mp hmem with ⟨instruction, hinstruction, hlabel⟩ | htable
    · rw [instructions_insertAt, List.mem_append, List.mem_append] at hinstruction
      rcases hinstruction with hfront | hblock | hrest
      · exact h.handedOut label (mem_labels.mpr (Or.inl ⟨_, List.mem_of_mem_take hfront, hlabel⟩))
      · exact hown instruction hblock label hlabel
      · exact h.handedOut label (mem_labels.mpr (Or.inl ⟨_, List.mem_of_mem_drop hrest, hlabel⟩))
    · exact h.handedOut label (mem_labels.mpr (Or.inr htable))
  placedOnce := (placedLabels_insertAt body start block).nodup_iff.mpr (List.nodup_append.mpr
    ⟨honce, h.placedOnce, fun label hmem other hother heq =>
      hnew label hmem (heq ▸ mem_labels_of_placed hother)⟩)

/-- A body owns its labels if a handler with labels that were handed out is added. -/
theorem addHandler {handler : Handler}
    (hown : ∀ label ∈ [handler.start, handler.stop, handler.handler], label.number < body.nextLabel) :
    (body.addHandler handler).OwnsLabels where
  handedOut label hmem := by
    rcases mem_labels.mp hmem with hinstruction | htable
    · exact h.handedOut label (mem_labels.mpr (Or.inl hinstruction))
    · rw [tableLabels, Body.addHandler, List.flatMap_append, List.append_assoc, List.mem_append,
        List.mem_append] at htable
      rcases htable with hold | hnew | hscope
      · exact h.handedOut label (List.mem_append_right _ (List.mem_append_left _ hold))
      · exact hown label (by simpa using hnew)
      · exact h.handedOut label (List.mem_append_right _ (List.mem_append_right _ hscope))
  placedOnce := h.placedOnce

end OwnsLabels

/-! ## Where labels are placed -/

section

variable {start : ℕ} {block : List Instruction} (h : body.OwnsLabels)
  (h' : (body.insertAt start block).OwnsLabels) (hstart : start ≤ body.instructions.length)
  (hnew : ∀ label ∈ placedLabels block, label ∉ body.labels)

include hstart hnew in
/-- The labels of a body stand where they have moved, and nowhere else. -/
theorem getElem?_insertAt_label_iff {label : Label} (hlabel : label ∈ body.labels) {position : ℕ} :
    (body.insertAt start block).instructions[position]? = some (.label label) ↔
      ∃ place, position = shiftBehind start block.length place ∧
        body.instructions[place]? = some (.label label) := by
  constructor
  · intro here
    obtain ⟨place, rfl⟩ | ⟨index, hindex, rfl⟩ := exists_shift_or_block start block position
    · exact ⟨place, rfl, (getElem?_insertAt_shift hstart place).symm.trans here⟩
    · rw [getElem?_insertAt_block hstart hindex] at here
      exact absurd hlabel (hnew label (mem_placedLabels.mpr (List.mem_of_getElem? here)))
  · rintro ⟨place, rfl, here⟩
    rw [getElem?_insertAt_shift hstart, here]

include h h' hstart hnew in
/-- The labels of a body are first placed where they have moved. -/
theorem OwnsLabels.labelPosition?_insertAt {label : Label} (hlabel : label ∈ body.labels) :
    (body.insertAt start block).labelPosition? label =
      (body.labelPosition? label).map (shiftBehind start block.length) := by
  refine Option.ext fun position => ?_
  rw [h'.wellLabelled.labelPosition?_eq_some, getElem?_insertAt_label_iff hstart hnew hlabel,
    Option.map_eq_some_iff]
  simp only [h.wellLabelled.labelPosition?_eq_some, and_comm, eq_comm]

include h h' hstart hnew in
/-- A handler of the body starts and stops to protect where its labels have moved. -/
theorem OwnsLabels.isProtectedBy_insertAt {handler : Handler} (hmem : handler ∈ body.handlers)
    (position : ℕ) : (body.insertAt start block).isProtectedBy position handler = true ↔
      ∃ first last, body.labelPosition? handler.start = some first ∧
        body.labelPosition? handler.stop = some last ∧
        shiftBehind start block.length first ≤ position ∧
        position < shiftBehind start block.length last := by
  have hplaced : ∀ label ∈ [handler.start, handler.stop, handler.handler],
      (body.insertAt start block).labelPosition? label =
        (body.labelPosition? label).map (shiftBehind start block.length) := fun label hlabel =>
    h.labelPosition?_insertAt h' hstart hnew (mem_labels_of_handler hmem hlabel)
  rw [isProtectedBy, hplaced _ (by simp), hplaced handler.stop (by simp)]
  cases body.labelPosition? handler.start <;> cases body.labelPosition? handler.stop <;> simp

include h h' hstart hnew in
/-- **What was there is protected as before.** -/
theorem OwnsLabels.catchers_insertAt (place : ℕ) :
    (body.insertAt start block).catchers (shiftBehind start block.length place) =
      body.catchers place := by
  unfold catchers
  refine congrArg _ (List.filter_congr fun handler hmem => ?_)
  rw [Bool.eq_iff_iff, h.isProtectedBy_insertAt h' hstart hnew hmem]
  simp only [shiftBehind_le_iff, shiftBehind_lt_iff, isProtectedBy]
  cases body.labelPosition? handler.start <;> cases body.labelPosition? handler.stop <;> simp

include h h' hstart hnew in
/-- **What was put in at either end is protected by nothing.** -/
theorem OwnsLabels.catchers_insertAt_block (hend : start = 0 ∨ start = body.instructions.length)
    {index : ℕ} (hindex : index < block.length) :
    (body.insertAt start block).catchers (start + index) = [] := by
  unfold catchers
  rw [List.map_eq_nil_iff, List.filter_eq_nil_iff]
  intro handler hmem hprotected
  obtain ⟨first, last, -, hlast, hfrom, hto⟩ :=
    (h.isProtectedBy_insertAt h' hstart hnew hmem _).mp hprotected
  have hinside := (List.getElem?_eq_some_iff.mp (h.wellLabelled.labelPosition?_eq_some.mp hlast)).1
  rcases hend with rfl | rfl
  · rw [shiftBehind, if_pos (Nat.zero_le _)] at hfrom
    omega
  · rw [shiftBehind, if_neg (Nat.not_le.mpr hinside)] at hto
    omega

end

/-! ## Another handler -/

/-- With another handler, what it covers is also protected by it, after everything else. -/
theorem catchers_addHandler (body : Body) (handler : Handler) (position : ℕ) :
    (body.addHandler handler).catchers position = body.catchers position ++
      if body.isProtectedBy position handler then [(handler.handler, handler.caught)] else [] := by
  have hsame : (body.addHandler handler).isProtectedBy position = body.isProtectedBy position := rfl
  rw [catchers, catchers, hsame]
  split <;> simp [Body.addHandler, *]

/-! ## What labels denote -/

/-- A label denotes the first instruction at its place or behind it. -/
structure Denotes (body : Body) (label : Label) (position : ℕ) : Prop where
  /-- There is an instruction at the position. -/
  real : ∃ instruction, body.instructions[position]? = some instruction ∧ instruction.isReal
  /-- The label is placed in front of it, and there is no other instruction in between. -/
  first : ∃ place ≤ position, body.Places label place ∧ ∀ between instruction, place ≤ between →
    between < position → body.instructions[between]? = some instruction → instruction.isReal = false

/-- What labels denote depends on the instructions alone. -/
theorem Denotes.congr {body' : Body} {label : Label} {position : ℕ} (h : body.Denotes label position)
    (hsame : body'.instructions = body.instructions) : body'.Denotes label position := by
  obtain ⟨hreal, place, hle, hplaces, hfirst⟩ := h
  refine ⟨by rwa [hsame], place, hle, ⟨by rw [hsame]; exact hplaces.1, ?_⟩, by rwa [hsame]⟩
  rw [hsame]
  exact hplaces.2

/-- A label denotes one instruction only. -/
theorem Denotes.unique {label : Label} {position other : ℕ} (h : body.Denotes label position)
    (h' : body.Denotes label other) : position = other := by
  obtain ⟨⟨instruction, here, real⟩, place, hle, hplaces, hfirst⟩ := h
  obtain ⟨⟨instruction', here', real'⟩, place', hle', hplaces', hfirst'⟩ := h'
  obtain rfl := hplaces.unique hplaces'
  rcases Nat.lt_trichotomy position other with hlt | rfl | hlt
  · simp [hfirst' position instruction hle hlt here] at real
  · rfl
  · simp [hfirst other instruction' hle' hlt here'] at real'

/-- A label at the end of a body denotes nothing. -/
theorem not_denotes_of_getLast? {label : Label} {position : ℕ}
    (h : body.instructions.getLast? = some (.label label)) : ¬ body.Denotes label position := by
  rintro ⟨⟨instruction, here, real⟩, place, hle, hplaces, -⟩
  rw [List.getLast?_eq_getElem?] at h
  have hinside := (List.getElem?_eq_some_iff.mp here).1
  rcases Nat.lt_or_ge place (body.instructions.length - 1) with hlt | hge
  · exact hplaces.2 _ hlt h
  · obtain rfl : position = body.instructions.length - 1 := by omega
    obtain rfl := Option.some.inj (h.symm.trans here)
    simp [Instruction.isReal] at real

/-- There is no instruction behind a label that is placed and denotes nothing. -/
theorem unreal_of_not_denotes {label : Label} {place : ℕ} (hplaces : body.Places label place)
    (hnone : ∀ position, ¬ body.Denotes label position) :
    ∀ {position : ℕ} {instruction}, place ≤ position →
      body.instructions[position]? = some instruction → instruction.isReal = false := by
  intro position
  induction position using Nat.strong_induction_on with
  | _ position ih =>
    intro instruction hle here
    by_contra hreal
    refine hnone position ⟨⟨instruction, here, by simpa using hreal⟩, place, hle, hplaces, ?_⟩
    exact fun between other hfrom hto hother => ih between hto hfrom hother

/-- **Labels denote what they denoted**, if no instruction was put in between. -/
theorem Denotes.insertAt {label : Label} {position start : ℕ} {block : List Instruction}
    (h : body.Denotes label position) (hlabelled : body.WellLabelled)
    (hlabelled' : (body.insertAt start block).WellLabelled) (hstart : start ≤ body.instructions.length)
    (hfree : (∀ instruction ∈ block, instruction.isReal = false) ∨ start = 0 ∨
      start = body.instructions.length) :
    (body.insertAt start block).Denotes label (shiftBehind start block.length position) := by
  obtain ⟨⟨instruction, here, real⟩, place, hle, hplaces, hfirst⟩ := h
  have hinside := (List.getElem?_eq_some_iff.mp here).1
  refine ⟨⟨instruction, (getElem?_insertAt_shift hstart position).trans here, real⟩,
    shiftBehind start block.length place, shiftBehind_le_iff.mpr hle,
    (places_insertAt_iff hlabelled hlabelled' hstart).mpr hplaces, ?_⟩
  intro between other hfrom hto hother
  obtain ⟨middle, rfl⟩ | ⟨index, hindex, rfl⟩ := exists_shift_or_block start block between
  · exact hfirst middle other (shiftBehind_le_iff.mp hfrom) (shiftBehind_lt_iff.mp hto)
      ((getElem?_insertAt_shift hstart middle).symm.trans hother)
  · rw [getElem?_insertAt_block hstart hindex] at hother
    rcases hfree with hunreal | rfl | rfl
    · exact hunreal other (List.mem_of_getElem? hother)
    · rw [shiftBehind, if_pos (Nat.zero_le _)] at hfrom
      omega
    · rw [shiftBehind, if_neg (by omega)] at hto
      omega

end Body

end ClassInstrument
