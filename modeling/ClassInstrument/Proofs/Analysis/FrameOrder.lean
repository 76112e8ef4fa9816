import ClassInstrument.Proofs.Analysis.TypeOrder

/-!
# The order of frames

A frame is below another one if its stack values are below the values there, one by one, and if it
has all the variables that are there, with types below theirs.  `mergeFrames` computes an upper bound
of two frames, and gives `none` exactly if the frame that comes in is below the one already there.

Both facts need frames in canonical form, which all operations on frames keep: the offsets of the
stack values are those that pushing the values gives, and no wide variable starts in the last slot.

A merge that changes a frame makes its weight smaller, since it drops variables or moves types up.
-/

namespace ClassInstrument

open Outcome

variable {hierarchy : Hierarchy}

/-! ## Lists of variables and of stack values -/

/-- All variables of the second list are in the first one, with types below theirs. -/
def VariablesBelow (hierarchy : Hierarchy) (lower upper : List FlowType) : Prop :=
  ∀ (slot : ℕ) (type : FlowType), upper[slot]? = some type →
    ∃ old, lower[slot]? = some old ∧ LocalBelow hierarchy old type

/-- Two lists have the same length, and each value of the first is below that of the second. -/
abbrev ValuesBelow (hierarchy : Hierarchy) : List FlowType → List FlowType → Prop :=
  List.Forall₂ (TypeBelow hierarchy)

/-- Variables are below themselves. -/
theorem VariablesBelow.refl (slots : List FlowType) : VariablesBelow hierarchy slots slots :=
  fun _ type h => ⟨type, h, .refl type⟩

/-- The order of variables is transitive. -/
theorem VariablesBelow.trans (hwf : hierarchy.WellFormed) {a b c : List FlowType}
    (hab : VariablesBelow hierarchy a b) (hbc : VariablesBelow hierarchy b c) :
    VariablesBelow hierarchy a c := by
  intro slot type h
  obtain ⟨middle, hmiddle, hupper⟩ := hbc slot type h
  obtain ⟨old, hold, hlower⟩ := hab slot middle hmiddle
  exact ⟨old, hold, hlower.trans hwf hupper⟩

/-- Values are below themselves. -/
theorem ValuesBelow.refl (values : List FlowType) : ValuesBelow hierarchy values values :=
  List.forall₂_same.mpr fun type _ => .refl type

/-- The order of values is transitive. -/
theorem ValuesBelow.trans (hwf : hierarchy.WellFormed) {a b c : List FlowType}
    (hab : ValuesBelow hierarchy a b) (hbc : ValuesBelow hierarchy b c) :
    ValuesBelow hierarchy a c := by
  induction hab generalizing c with
  | nil => exact hbc
  | cons hfirst _ ih =>
    cases hbc with
    | cons hfirst' hrest' => exact .cons (hfirst.trans hwf hfirst') (ih hrest')

/-- Stack values that are below others are so as variables, too. -/
theorem ValuesBelow.variablesBelow {lower upper : List FlowType}
    (h : ValuesBelow hierarchy lower upper) : VariablesBelow hierarchy lower upper := by
  induction h with
  | nil => exact .refl []
  | cons hfirst _ ih =>
    intro slot type hslot
    cases slot with
    | zero =>
      rw [List.getElem?_cons_zero, Option.some.injEq] at hslot
      exact ⟨_, rfl, Or.inr (hslot ▸ hfirst)⟩
    | succ slot => exact ih slot type hslot

/-- A list of variables below which another one stands is no longer. -/
theorem VariablesBelow.length_le {lower upper : List FlowType}
    (h : VariablesBelow hierarchy lower upper) : upper.length ≤ lower.length := by
  by_contra hlt
  obtain ⟨old, hold, -⟩ := h lower.length upper[lower.length]
    (List.getElem?_eq_getElem (by omega))
  simp at hold

/-- The rests of lists of variables are in the same order. -/
theorem VariablesBelow.tail {first first' : FlowType} {lower upper : List FlowType}
    (h : VariablesBelow hierarchy (first :: lower) (first' :: upper)) :
    VariablesBelow hierarchy lower upper :=
  fun slot type hslot => h (slot + 1) type hslot

/-! ## Merging lists -/

/-- Merged variables are above those of both lists. -/
theorem variablesBelow_of_merge (hwf : hierarchy.WellFormed) {left right merged : List FlowType}
    (h : (left.zip right).mapM (Merge.locals hierarchy) = .ok merged) :
    VariablesBelow hierarchy left merged ∧ VariablesBelow hierarchy right merged := by
  rw [mapM_eq_ok] at h
  have hslot : ∀ (slot : ℕ) (type : FlowType), merged[slot]? = some type → ∃ old other, left[slot]? = some old ∧
      right[slot]? = some other ∧ LocalBelow hierarchy old type ∧ LocalBelow hierarchy other type := by
    intro slot type htype
    obtain ⟨hslot, rfl⟩ := List.getElem?_eq_some_iff.mp htype
    have hzip : slot < (left.zip right).length := by rw [h.length_eq]; exact hslot
    have hmerge := h.get hzip hslot
    rw [List.length_zip] at hzip
    simp only [List.get_eq_getElem, List.getElem_zip] at hmerge
    obtain ⟨hold, hother⟩ := below_of_locals hwf hmerge
    exact ⟨_, _, List.getElem?_eq_getElem (by omega), List.getElem?_eq_getElem (by omega),
      hold, hother⟩
  constructor <;> intro slot type htype <;>
    obtain ⟨old, other, hold, hother, hbelow, hbelow'⟩ := hslot slot type htype
  · exact ⟨old, hold, hbelow⟩
  · exact ⟨other, hother, hbelow'⟩

/-- A merge of variables leaves those of a list above the other one. -/
theorem merge_variables_eq_left (hwf : hierarchy.WellFormed) {left right : List FlowType}
    (h : VariablesBelow hierarchy right left) :
    (left.zip right).mapM (Merge.locals hierarchy) = .ok left := by
  rw [mapM_eq_ok]
  induction left generalizing right with
  | nil => exact .nil
  | cons type left ih =>
    cases right with
    | nil =>
      obtain ⟨old, hold, -⟩ := h 0 type rfl
      simp at hold
    | cons other right =>
      obtain ⟨old, hold, hbelow⟩ := h 0 type rfl
      rw [List.getElem?_cons_zero, Option.some.injEq] at hold
      subst hold
      exact .cons ((locals_eq_left_iff hwf).mpr hbelow) (ih h.tail)

/-- A merge of stack values is a merge of types that have something in common. -/
theorem stackValues_eq_ok {position : Nat} {pair : FlowType × FlowType} {merged : FlowType} :
    Merge.stackValues hierarchy position pair = .ok merged ↔
      Merge.types hierarchy pair.1 pair.2 = .ok (some merged) := by
  unfold Merge.stackValues
  cases Merge.types hierarchy pair.1 pair.2 with
  | error _ => simp [bind, Except.bind]
  | ok found => cases found <;> simp [bind, Except.bind, pure, Except.pure, throw, throwThe,
      MonadExceptOf.throw]

/-- Merged stack values are above those of both lists. -/
theorem valuesBelow_of_merge (hwf : hierarchy.WellFormed) {position : Nat}
    {left right merged : List FlowType} (hlength : left.length = right.length)
    (h : (left.zip right).mapM (Merge.stackValues hierarchy position) = .ok merged) :
    ValuesBelow hierarchy left merged ∧ ValuesBelow hierarchy right merged := by
  rw [mapM_eq_ok] at h
  induction left generalizing right merged with
  | nil =>
    cases right with
    | nil =>
      cases h
      exact ⟨.nil, .nil⟩
    | cons _ _ => simp at hlength
  | cons type left ih =>
    cases right with
    | nil => simp at hlength
    | cons other right =>
      cases h with
      | cons hfirst hrest =>
        obtain ⟨hleft, hright⟩ := below_of_types hwf (stackValues_eq_ok.mp hfirst)
        obtain ⟨hlefts, hrights⟩ := ih (Nat.succ.inj hlength) hrest
        exact ⟨.cons hleft hlefts, .cons hright hrights⟩

/-- A merge of stack values leaves those of a list above the other one. -/
theorem merge_values_eq_left (hwf : hierarchy.WellFormed) {position : Nat}
    {left right : List FlowType} (h : ValuesBelow hierarchy right left) :
    (left.zip right).mapM (Merge.stackValues hierarchy position) = .ok left := by
  rw [mapM_eq_ok]
  induction h with
  | nil => exact .nil
  | cons hfirst _ ih => exact .cons (stackValues_eq_ok.mpr ((types_eq_left_iff hwf).mpr hfirst)) ih

/-! ## Frames in canonical form -/

/-- A frame in canonical form. -/
structure Frame.Canonical (frame : FlowFrame) : Prop where
  /-- Each stack value is at the offset at which pushing the values puts it. -/
  stack_eq : Slots.ofList frame.stack.toList = frame.stack
  /-- No wide variable starts in the last slot. -/
  locals_eq : Merge.clearWideLast frame.locals = frame.locals

/-- Clearing a wide variable makes its slot unusable and keeps the others. -/
theorem Frame.getElem?_clearWideAt (slot other : ℕ) (slots : List FlowType) :
    (Frame.clearWideAt slot slots)[other]? =
      (slots[other]?).map fun type => if other = slot ∧ type.isWide then .top else type := by
  unfold Frame.clearWideAt
  by_cases hother : other = slot
  · subst hother
    cases hslot : slots[other]? with
    | none => simp [hslot]
    | some type =>
      obtain ⟨hlt, htype⟩ := List.getElem?_eq_some_iff.mp hslot
      by_cases hwide : type.isWide <;> simp [hwide, hlt, htype]
  · cases slots[slot]? with
    | none => simp [hother]
    | some type =>
      by_cases hwide : type.isWide <;> simp [hwide, hother, Ne.symm hother]

/-- Clearing a wide variable keeps the number of slots. -/
theorem Frame.length_clearWideAt (slot : ℕ) (slots : List FlowType) :
    (Frame.clearWideAt slot slots).length = slots.length := by
  unfold Frame.clearWideAt
  split
  · split
    · exact List.length_set
    · rfl
  · rfl

/-- Clearing a wide variable in the last slot once is enough. -/
theorem clearWideLast_idem (slots : List FlowType) :
    Merge.clearWideLast (Merge.clearWideLast slots) = Merge.clearWideLast slots := by
  refine List.ext_getElem? fun other => ?_
  simp only [Merge.clearWideLast, Frame.length_clearWideAt, Frame.getElem?_clearWideAt,
    Option.map_map]
  congr 1
  funext type
  by_cases hwide : other = slots.length - 1 ∧ type.isWide
  · simp only [Function.comp_apply, if_pos hwide, ite_self]
  · simp only [Function.comp_apply, if_neg hwide]

/-- Clearing a wide variable moves variables up. -/
theorem variablesBelow_clearWideAt (slot : ℕ) (slots : List FlowType) :
    VariablesBelow hierarchy slots (Frame.clearWideAt slot slots) := by
  intro other type h
  rw [Frame.getElem?_clearWideAt, Option.map_eq_some_iff] at h
  obtain ⟨old, hold, rfl⟩ := h
  refine ⟨old, hold, ?_⟩
  split
  · exact Or.inl rfl
  · exact .refl old

/-- Entries that come from a list are those that its values give again. -/
theorem ofList_eq_of_entries {slots : Slots FlowType} {values : List FlowType}
    (h : (Slots.ofList values).entries = slots.entries) : values = slots.toList := by
  rw [← Slots.toList_ofList values, Slots.toList, h, Slots.toList]

/-! ## Merging frames -/

/-- A frame that comes in is below the frame already there. -/
structure FrameBelow (hierarchy : Hierarchy) (lower upper : FlowFrame) : Prop where
  /-- The stack values are in this order. -/
  stack : ValuesBelow hierarchy lower.stack.toList upper.stack.toList
  /-- The variables are in this order. -/
  locals : VariablesBelow hierarchy lower.locals upper.locals

/-- A frame is below itself. -/
theorem FrameBelow.refl (frame : FlowFrame) : FrameBelow hierarchy frame frame :=
  ⟨.refl _, .refl _⟩

/-- The order of frames is transitive. -/
theorem FrameBelow.trans (hwf : hierarchy.WellFormed) {a b c : FlowFrame}
    (hab : FrameBelow hierarchy a b) (hbc : FrameBelow hierarchy b c) :
    FrameBelow hierarchy a c :=
  ⟨hab.stack.trans hwf hbc.stack, hab.locals.trans hwf hbc.locals⟩

/-- The frame to which merged variables and stack values belong. -/
def mergedFrame (locals stack : List FlowType) : FlowFrame :=
  ⟨Merge.clearWideLast locals, Slots.ofList stack⟩

/-- A merge of frames merges their stack values and their variables, and compares the outcome with
the frame already there. -/
theorem mergeFrames_eq_ok {position : Nat} {existing incoming : FlowFrame}
    {found : Option FlowFrame} :
    mergeFrames hierarchy position existing incoming = .ok found ↔
      existing.stack.toList.length = incoming.stack.toList.length ∧ ∃ stack locals,
        (existing.stack.toList.zip incoming.stack.toList).mapM
          (Merge.stackValues hierarchy position) = .ok stack ∧
        (existing.locals.zip incoming.locals).mapM (Merge.locals hierarchy) = .ok locals ∧
        found = if Merge.clearWideLast locals = existing.locals ∧
            (Slots.ofList stack).entries = existing.stack.entries then none
          else some (mergedFrame locals stack) := by
  unfold mergeFrames
  by_cases hlength : existing.stack.toList.length = incoming.stack.toList.length
  · simp only [hlength, ne_eq, not_true_eq_false, if_false, true_and]
    constructor
    · intro h
      obtain ⟨stack, hstack, h⟩ := bind_eq_ok.mp h
      obtain ⟨locals, hlocals, h⟩ := bind_eq_ok.mp h
      refine ⟨stack, locals, hstack, hlocals, ?_⟩
      split at h
      · next hsame => rw [if_pos hsame, pure_eq_ok.mp h]
      · next hdiffer => rw [if_neg hdiffer, ← pure_eq_ok.mp h, mergedFrame]
    · rintro ⟨stack, locals, hstack, hlocals, rfl⟩
      refine bind_eq_ok.mpr ⟨stack, hstack, bind_eq_ok.mpr ⟨locals, hlocals, ?_⟩⟩
      split <;> rfl
  · simp [hlength, throw, throwThe, MonadExceptOf.throw]

/-- A merge leaves a frame as it is exactly if the other one is below it. -/
theorem mergeFrames_eq_none_iff (hwf : hierarchy.WellFormed) {position : Nat}
    {existing incoming : FlowFrame} (hcanonical : existing.Canonical) :
    mergeFrames hierarchy position existing incoming = .ok none ↔
      FrameBelow hierarchy incoming existing := by
  rw [mergeFrames_eq_ok]
  constructor
  · rintro ⟨hlength, stack, locals, hstack, hlocals, h⟩
    obtain ⟨hsame, hentries⟩ : Merge.clearWideLast locals = existing.locals ∧
        (Slots.ofList stack).entries = existing.stack.entries := by
      by_contra hdiffer
      simp [hdiffer] at h
    obtain ⟨-, hvalues⟩ := valuesBelow_of_merge hwf hlength hstack
    obtain ⟨-, hvariables⟩ := variablesBelow_of_merge hwf hlocals
    refine ⟨ofList_eq_of_entries hentries ▸ hvalues, ?_⟩
    rw [← hsame]
    exact hvariables.trans hwf (variablesBelow_clearWideAt _ _)
  · intro h
    refine ⟨h.stack.length_eq.symm, existing.stack.toList, existing.locals,
      merge_values_eq_left hwf h.stack, merge_variables_eq_left hwf h.locals, ?_⟩
    rw [if_pos ⟨hcanonical.locals_eq, congrArg Slots.entries hcanonical.stack_eq⟩]

/-- The merge of two frames is in canonical form, whatever the frames are. -/
theorem canonical_of_mergeFrames {position : Nat} {existing incoming merged : FlowFrame}
    (h : mergeFrames hierarchy position existing incoming = .ok (some merged)) :
    merged.Canonical := by
  obtain ⟨-, stack, locals, -, -, h⟩ := mergeFrames_eq_ok.mp h
  split at h
  · exact absurd h (Option.some_ne_none merged)
  · rw [Option.some.injEq] at h
    subst h
    exact ⟨by rw [mergedFrame, Slots.toList_ofList], clearWideLast_idem locals⟩

/-- The merge of two frames is above both. -/
theorem below_of_mergeFrames (hwf : hierarchy.WellFormed) {position : Nat}
    {existing incoming merged : FlowFrame}
    (h : mergeFrames hierarchy position existing incoming = .ok (some merged)) :
    FrameBelow hierarchy existing merged ∧ FrameBelow hierarchy incoming merged := by
  obtain ⟨hlength, stack, locals, hstack, hlocals, h⟩ := mergeFrames_eq_ok.mp h
  split at h
  · exact absurd h (Option.some_ne_none merged)
  · rw [Option.some.injEq] at h
    subst h
    obtain ⟨hvalues, hvalues'⟩ := valuesBelow_of_merge hwf hlength hstack
    obtain ⟨hvariables, hvariables'⟩ := variablesBelow_of_merge hwf hlocals
    have hclear : VariablesBelow hierarchy locals (mergedFrame locals stack).locals :=
      variablesBelow_clearWideAt _ _
    have hlist : (mergedFrame locals stack).stack.toList = stack := Slots.toList_ofList stack
    exact ⟨⟨hlist.symm ▸ hvalues, hvariables.trans hwf hclear⟩,
      ⟨hlist.symm ▸ hvalues', hvariables'.trans hwf hclear⟩⟩

/-- A merge of frames that fails does not go on for ever. -/
theorem isEndless_of_mergeFrames (hwf : hierarchy.WellFormed) {position : Nat}
    {existing incoming : FlowFrame} {fault : Fault}
    (h : mergeFrames hierarchy position existing incoming = .error fault) :
    fault.isEndless = false := by
  unfold mergeFrames at h
  simp only at h
  split at h
  · cases h
    rfl
  rcases bind_eq_error.mp h with h | ⟨stack, -, h⟩
  · obtain ⟨pair, -, h⟩ := exists_of_mapM_eq_error h
    unfold Merge.stackValues at h
    rcases bind_eq_error.mp h with h | ⟨found, -, h⟩
    · exact isEndless_of_types hwf h
    · cases found with
      | some type => exact absurd h pure_ne_error
      | none =>
        cases h
        rfl
  rcases bind_eq_error.mp h with h | ⟨locals, -, h⟩
  · obtain ⟨pair, -, h⟩ := exists_of_mapM_eq_error h
    unfold Merge.locals at h
    rcases bind_eq_error.mp h with h | ⟨found, -, h⟩
    · exact isEndless_of_types hwf h
    · exact absurd h pure_ne_error
  · split at h <;> exact absurd h pure_ne_error

/-! ## Weights -/

/-- The weight of a list of types: each type counts by itself and by its weight. -/
noncomputable def listWeight (hierarchy : Hierarchy) (types : List FlowType) : ℕ ×ₗ ℕ :=
  (types.map fun type => typeWeight hierarchy type + toLex (0, 1)).sum

/-- Variables that are dropped or move up lose weight. -/
theorem listWeight_lt (hwf : hierarchy.WellFormed) {lower upper : List FlowType}
    (h : VariablesBelow hierarchy lower upper) (hne : upper ≠ lower) :
    listWeight hierarchy upper < listWeight hierarchy lower := by
  induction lower generalizing upper with
  | nil =>
    have hempty := h.length_le
    exact absurd (List.eq_nil_of_length_eq_zero (Nat.le_zero.mp hempty)) hne
  | cons old lower ih =>
    cases upper with
    | nil =>
      have hnonneg : ∀ weight : ℕ ×ₗ ℕ, 0 ≤ weight := fun _ => bot_le
      have hpos : (0 : ℕ ×ₗ ℕ) < toLex (0, 1) := by decide
      simp only [listWeight, List.map_nil, List.sum_nil, List.map_cons, List.sum_cons]
      exact add_pos_of_pos_of_nonneg (add_pos_of_nonneg_of_pos (hnonneg _) hpos) (hnonneg _)
    | cons type upper =>
      have hrest : listWeight hierarchy upper ≤ listWeight hierarchy lower := by
        by_cases hsame : upper = lower
        · rw [hsame]
        · exact (ih h.tail hsame).le
      obtain ⟨_, hold, hbelow⟩ := h 0 type rfl
      rw [List.getElem?_cons_zero, Option.some.injEq] at hold
      subst hold
      by_cases hsame : type = old
      · subst hsame
        have hlt := ih h.tail fun heq => hne (by rw [heq])
        simpa [listWeight] using hlt
      · have hlt := typeWeight_lt hwf hbelow hsame
        simp only [listWeight, List.map_cons, List.sum_cons] at hrest ⊢
        exact add_lt_add_of_lt_of_le (by gcongr) hrest

/-- Variables that are dropped or move up, or stay, do not gain weight. -/
theorem listWeight_le (hwf : hierarchy.WellFormed) {lower upper : List FlowType}
    (h : VariablesBelow hierarchy lower upper) :
    listWeight hierarchy upper ≤ listWeight hierarchy lower := by
  by_cases hsame : upper = lower
  · rw [hsame]
  · exact (listWeight_lt hwf h hsame).le

/-- The weight of a frame is that of its variables and its stack values. -/
noncomputable def frameWeight (hierarchy : Hierarchy) (frame : FlowFrame) : ℕ ×ₗ ℕ :=
  listWeight hierarchy frame.locals + listWeight hierarchy frame.stack.toList

/-- A merge that changes a frame in canonical form takes weight off it. -/
theorem frameWeight_lt (hwf : hierarchy.WellFormed) {position : Nat}
    {existing incoming merged : FlowFrame} (hcanonical : existing.Canonical)
    (h : mergeFrames hierarchy position existing incoming = .ok (some merged)) :
    frameWeight hierarchy merged < frameWeight hierarchy existing := by
  obtain ⟨hbelow, -⟩ := below_of_mergeFrames hwf h
  have hmerged := canonical_of_mergeFrames h
  have hdiffer : ¬ (merged.locals = existing.locals ∧
      merged.stack.toList = existing.stack.toList) := by
    rintro ⟨hlocals, hstack⟩
    obtain ⟨-, stack, locals, -, -, h⟩ := mergeFrames_eq_ok.mp h
    split at h
    · exact absurd h (Option.some_ne_none merged)
    · next hchanged =>
      rw [Option.some.injEq] at h
      subst h
      refine hchanged ⟨hlocals, ?_⟩
      rw [← hcanonical.stack_eq, ← hstack]
      exact congrArg Slots.entries hmerged.stack_eq.symm
  by_cases hlocals : merged.locals = existing.locals
  · have hstack : merged.stack.toList ≠ existing.stack.toList := fun hsame =>
      hdiffer ⟨hlocals, hsame⟩
    exact add_lt_add_of_le_of_lt (listWeight_le hwf hbelow.locals)
      (listWeight_lt hwf hbelow.stack.variablesBelow hstack)
  · exact add_lt_add_of_lt_of_le (listWeight_lt hwf hbelow.locals hlocals)
      (listWeight_le hwf hbelow.stack.variablesBelow)

end ClassInstrument
