import ClassInstrument.Analysis.Transfer
import ClassInstrument.Proofs.Code.Decodable

/-!
# Shuffles as operations on slots

A shuffle takes values off the stack by their widths, but what it is meant to do is told by slots: it drops
some of the top slots, copies some of them below deeper ones, or exchanges two.  Both agree as long as no wide
value is cut in two.  A cut that splits no wide value divides the values as it divides the slots
(`StackSlot.exists_append_iff`), so the pieces between the cuts of a shuffle are one or two slots long, and
there are only few ways for values to make them up.
-/

namespace ClassInstrument

/-! ## Slots -/

/-- A slot of the stack: a value of one slot, or a half of a wide value. -/
inductive StackSlot where
  /-- A value of one slot. -/
  | single (type : FlowType)
  /-- The lower slot of a wide value. -/
  | lower (type : FlowType)
  /-- The upper slot of a wide value. -/
  | upper (type : FlowType)
deriving DecidableEq, Repr

namespace StackSlot

variable {value : FlowType} {values front : List FlowType}

/-- The slots of some values.  Both the values and the slots are listed from the top of the stack. -/
def ofValues (values : List FlowType) : List StackSlot :=
  values.flatMap fun value => if value.isWide then [upper value, lower value] else [single value]

@[simp] theorem ofValues_nil : ofValues [] = [] := rfl

@[simp] theorem ofValues_append (front back : List FlowType) :
    ofValues (front ++ back) = ofValues front ++ ofValues back :=
  List.flatMap_append

theorem ofValues_cons_of_wide (hwide : value.isWide = true) (values : List FlowType) :
    ofValues (value :: values) = upper value :: lower value :: ofValues values := by
  simp [ofValues, hwide]

theorem ofValues_cons_of_narrow (hnarrow : value.isWide = false) (values : List FlowType) :
    ofValues (value :: values) = single value :: ofValues values := by
  simp [ofValues, hnarrow]

/-- Slots tell the values that they belong to. -/
theorem ofValues_injective : Function.Injective ofValues := by
  intro values
  induction values with
  | nil =>
    intro values' h
    cases values' with
    | nil => rfl
    | cons value values' =>
      cases hwide : value.isWide <;>
        simp [ofValues_cons_of_wide, ofValues_cons_of_narrow, hwide] at h
  | cons value values ih =>
    intro values' h
    cases values' with
    | nil =>
      cases hwide : value.isWide <;>
        simp [ofValues_cons_of_wide, ofValues_cons_of_narrow, hwide] at h
    | cons value' values' =>
      cases hwide : value.isWide <;> cases hwide' : value'.isWide <;>
        simp [ofValues_cons_of_wide, ofValues_cons_of_narrow, hwide, hwide'] at h
      · rw [h.1, ih h.2]
      · rw [h.1, ih h.2]

/-- A cut below some of the top slots splits a wide value. -/
def Splits (cut : ℕ) (slots : List StackSlot) : Prop := ∃ type, slots[cut]? = some (lower type)

/-- A cut that splits no wide value divides the values. -/
theorem exists_append_iff (cut : ℕ) (values : List FlowType) :
    cut ≤ (ofValues values).length ∧ ¬ Splits cut (ofValues values) ↔
      ∃ front back, values = front ++ back ∧ (ofValues front).length = cut := by
  constructor
  · induction values generalizing cut with
    | nil =>
      rintro ⟨hle, -⟩
      exact ⟨[], [], rfl, by simpa using (Nat.le_zero.mp hle).symm⟩
    | cons value values ih =>
      rintro ⟨hle, hsplits⟩
      cases cut with
      | zero => exact ⟨[], _, rfl, rfl⟩
      | succ cut =>
        cases hwide : value.isWide with
        | false =>
          rw [ofValues_cons_of_narrow hwide] at hle hsplits
          obtain ⟨front, back, rfl, hfront⟩ := ih cut ⟨Nat.le_of_succ_le_succ hle, hsplits⟩
          exact ⟨value :: front, back, rfl, by simp [ofValues_cons_of_narrow hwide, hfront]⟩
        | true =>
          rw [ofValues_cons_of_wide hwide] at hle hsplits
          cases cut with
          | zero => exact absurd ⟨value, rfl⟩ hsplits
          | succ cut =>
            obtain ⟨front, back, rfl, hfront⟩ :=
              ih cut ⟨Nat.le_of_succ_le_succ (Nat.le_of_succ_le_succ hle), hsplits⟩
            exact ⟨value :: front, back, rfl, by simp [ofValues_cons_of_wide hwide, hfront]⟩
  · rintro ⟨front, back, rfl, rfl⟩
    refine ⟨by simp, ?_⟩
    rintro ⟨type, hlower⟩
    rw [ofValues_append, List.getElem?_append_right le_rfl, Nat.sub_self] at hlower
    -- The slot behind the cut is the first one of a value, which is no lower half.
    cases back with
    | nil => cases hlower
    | cons value back =>
      cases hwide : value.isWide with
      | false => simp [ofValues_cons_of_narrow hwide] at hlower
      | true => simp [ofValues_cons_of_wide hwide] at hlower

/-- No slots are no values. -/
theorem eq_nil_of_length_zero (h : (ofValues front).length = 0) : front = [] :=
  ofValues_injective (List.length_eq_zero_iff.mp h)

/-- One slot is a narrow value. -/
theorem exists_of_length_one (h : (ofValues front).length = 1) :
    ∃ value : FlowType, value.isWide = false ∧ front = [value] := by
  cases front with
  | nil => simp at h
  | cons value front =>
    cases hwide : value.isWide with
    | false =>
      simp only [ofValues_cons_of_narrow hwide, List.length_cons, Nat.add_eq_right] at h
      exact ⟨value, hwide, by rw [eq_nil_of_length_zero h]⟩
    | true => simp [ofValues_cons_of_wide hwide] at h

/-- Two slots are a wide value or two narrow ones. -/
theorem exists_of_length_two (h : (ofValues front).length = 2) :
    (∃ value : FlowType, value.isWide = true ∧ front = [value]) ∨
      ∃ value value' : FlowType, value.isWide = false ∧ value'.isWide = false ∧ front = [value, value'] := by
  cases front with
  | nil => simp at h
  | cons value front =>
    cases hwide : value.isWide with
    | false =>
      simp only [ofValues_cons_of_narrow hwide, List.length_cons, Nat.reduceEqDiff] at h
      obtain ⟨value', hwide', rfl⟩ := exists_of_length_one h
      exact .inr ⟨value, value', hwide, hwide', rfl⟩
    | true =>
      simp only [ofValues_cons_of_wide hwide, List.length_cons, Nat.reduceEqDiff] at h
      exact .inl ⟨value, hwide, by rw [eq_nil_of_length_zero h]⟩

/-- The widths of values that take up a number of slots. -/
def patterns : ℕ → List (List Bool)
  | 0 => [[]]
  | 1 => [[false]]
  | count + 2 => (patterns (count + 1)).map (false :: ·) ++ (patterns count).map (true :: ·)

theorem map_isWide_mem_patterns_iff {count : ℕ} {front : List FlowType} :
    front.map ValueType.isWide ∈ patterns count ↔ (ofValues front).length = count := by
  induction count using patterns.induct generalizing front with
  | case1 => cases front with
    | nil => simp [patterns]
    | cons value front => cases hwide : value.isWide <;>
        simp [patterns, ofValues_cons_of_narrow, ofValues_cons_of_wide, hwide]
  | case2 => cases front with
    | nil => simp [patterns]
    | cons value front => cases hwide : value.isWide with
      | false =>
        have hempty : (ofValues front).length = 0 ↔ front = [] :=
          ⟨eq_nil_of_length_zero, fun h => h ▸ rfl⟩
        simp [patterns, ofValues_cons_of_narrow hwide, hwide, hempty]
      | true => simp [patterns, ofValues_cons_of_wide hwide, hwide]
  | case3 count ih ih' => cases front with
    | nil => simp [patterns]
    | cons value front => cases hwide : value.isWide with
      | false => simp [patterns, ofValues_cons_of_narrow hwide, hwide, ← ih]
      | true => simp [patterns, ofValues_cons_of_wide hwide, hwide, ← ih']

end StackSlot

/-! ## Shuffles -/

namespace Shuffle

open StackSlot

variable {α : Type} {shuffle : Shuffle} {values : List FlowType}

/-- How many of the top slots a shuffle moves, and how many slots below them it moves them over. -/
def span : Shuffle → ℕ × ℕ
  | pop => (1, 0)
  | pop2 => (2, 0)
  | dup => (1, 0)
  | dupX1 => (1, 1)
  | dupX2 => (1, 2)
  | dup2 => (2, 0)
  | dup2X1 => (2, 1)
  | dup2X2 => (2, 2)
  | swap => (1, 1)

/-- How many slots a shuffle reaches. -/
def reach (shuffle : Shuffle) : ℕ := shuffle.span.1 + shuffle.span.2

/-- What comes in the place of the top slots and the slots below them: nothing, or the top slots below the
others, which are left or not left above them. -/
def moved (shuffle : Shuffle) (top below : List α) : List α :=
  match shuffle with
  | pop | pop2 => []
  | swap => below ++ top
  | dup | dupX1 | dupX2 | dup2 | dup2X1 | dup2X2 => top ++ (below ++ top)

/-- What a shuffle is meant to do with the slots of the stack, from the top down. -/
def onSlots (shuffle : Shuffle) (slots : List α) : Option (List α) :=
  if shuffle.reach ≤ slots.length then
    some (shuffle.moved (slots.take shuffle.span.1) ((slots.drop shuffle.span.1).take shuffle.span.2) ++
      slots.drop shuffle.reach)
  else none

/-- A shuffle splits no wide value: neither at the end of the slots that it moves, nor at the end of those
that it moves them over. -/
def Unsplit (shuffle : Shuffle) (slots : List StackSlot) : Prop :=
  ¬ Splits shuffle.span.1 slots ∧ ¬ Splits shuffle.reach slots

/-- The widths of the values on top in the forms of a shuffle. -/
def forms (shuffle : Shuffle) : List (List Bool) :=
  (patterns shuffle.span.1).flatMap fun top => (patterns shuffle.span.2).map (top ++ ·)

example : dup2X2.forms = [[false, false, false, false], [false, false, true], [true, false, false],
    [true, true]] := by decide

/-- The values on top are made up of two pieces with the slots that a shuffle moves and moves them over. -/
def Pieces (shuffle : Shuffle) (values top below rest : List FlowType) : Prop :=
  values = top ++ (below ++ rest) ∧ (ofValues top).length = shuffle.span.1 ∧
    (ofValues below).length = shuffle.span.2

/-- The pieces are there exactly if there are enough slots and no wide value is split. -/
theorem unsplit_iff_exists_pieces :
    shuffle.Unsplit (ofValues values) ∧ shuffle.reach ≤ (ofValues values).length ↔
      ∃ top below rest, shuffle.Pieces values top below rest := by
  constructor
  · rintro ⟨⟨htop, hreach⟩, hle⟩
    obtain ⟨top, back, rfl, hlength⟩ := (exists_append_iff _ _).mp ⟨le_trans (by simp [reach]) hle, htop⟩
    rw [ofValues_append, reach, ← hlength] at hreach hle
    have hback : shuffle.span.2 ≤ (ofValues back).length ∧ ¬ Splits shuffle.span.2 (ofValues back) := by
      refine ⟨by simpa using hle, ?_⟩
      rintro ⟨type, hlower⟩
      exact hreach ⟨type, by rw [List.getElem?_append_right (by omega), Nat.add_sub_cancel_left, hlower]⟩
    obtain ⟨below, rest, rfl, hlength'⟩ := (exists_append_iff _ _).mp hback
    exact ⟨top, below, rest, rfl, hlength, hlength'⟩
  · rintro ⟨top, below, rest, rfl, htop, hbelow⟩
    have hfirst := (exists_append_iff shuffle.span.1 (top ++ (below ++ rest))).mpr ⟨top, _, rfl, htop⟩
    have hsecond := (exists_append_iff shuffle.reach (top ++ (below ++ rest))).mpr
      ⟨top ++ below, rest, (List.append_assoc _ _ _).symm, by simp [htop, hbelow, reach]⟩
    exact ⟨⟨hfirst.2, hsecond.2⟩, hsecond.1⟩

/-- The pieces are there exactly if the values on top have one of the forms. -/
theorem exists_form_iff_exists_pieces :
    (∃ form ∈ shuffle.forms, form <+: values.map ValueType.isWide) ↔
      ∃ top below rest, shuffle.Pieces values top below rest := by
  unfold forms
  constructor
  · rintro ⟨form, hmem, others, hvalues⟩
    obtain ⟨widths, htop, hmem⟩ := List.mem_flatMap.mp hmem
    obtain ⟨widths', hbelow, rfl⟩ := List.mem_map.mp hmem
    rw [List.append_assoc] at hvalues
    obtain ⟨top, back, rfl, rfl, hback⟩ := List.map_eq_append_iff.mp hvalues.symm
    obtain ⟨below, rest, rfl, rfl, -⟩ := List.map_eq_append_iff.mp hback
    exact ⟨top, below, rest, rfl, map_isWide_mem_patterns_iff.mp htop, map_isWide_mem_patterns_iff.mp hbelow⟩
  · rintro ⟨top, below, rest, rfl, htop, hbelow⟩
    refine ⟨top.map ValueType.isWide ++ below.map ValueType.isWide, ?_, rest.map ValueType.isWide, by simp⟩
    exact List.mem_flatMap.mpr ⟨_, map_isWide_mem_patterns_iff.mpr htop,
      List.mem_map_of_mem (map_isWide_mem_patterns_iff.mpr hbelow)⟩

/-- Pieces of values are moved as their slots are. -/
theorem ofValues_moved (top below : List FlowType) :
    ofValues (shuffle.moved top below) = shuffle.moved (ofValues top) (ofValues below) := by
  cases shuffle <;> simp [moved]

/-- What a shuffle is meant to do with the slots is to move the pieces. -/
theorem onSlots_of_pieces {top below rest : List FlowType} (h : shuffle.Pieces values top below rest) :
    shuffle.onSlots (ofValues values) = some (ofValues (shuffle.moved top below ++ rest)) := by
  obtain ⟨rfl, htop, hbelow⟩ := h
  have hdrop : (ofValues (top ++ (below ++ rest))).drop shuffle.reach = ofValues rest := by
    rw [← List.append_assoc, ofValues_append, reach, ← htop, ← hbelow, ← List.length_append, ← ofValues_append,
      List.drop_left]
  unfold onSlots
  rw [hdrop, if_pos (by simp [htop, hbelow, reach, ← Nat.add_assoc]), ofValues_append top, ← htop,
    List.take_left, List.drop_left, ofValues_append below, ← hbelow, List.take_left, ofValues_append,
    ofValues_moved]

/-- The pieces are found by the widths of their values, and moved. -/
theorem plan_of_pieces {top below rest : List FlowType} (h : shuffle.Pieces values top below rest) :
    shuffle.plan values = .ok ((top ++ below).length, (shuffle.moved top below).reverse) := by
  obtain ⟨rfl, htop, hbelow⟩ := h
  cases shuffle with
  | pop =>
    obtain ⟨v, hv, rfl⟩ := exists_of_length_one htop
    obtain rfl := eq_nil_of_length_zero hbelow
    rfl
  | pop2 =>
    obtain rfl := eq_nil_of_length_zero hbelow
    obtain ⟨v, hv, rfl⟩ | ⟨v, w, hv, hw, rfl⟩ := exists_of_length_two htop
    · simp [plan, moved, hv]
    · simp [plan, moved, hv]
  | dup =>
    obtain ⟨v, hv, rfl⟩ := exists_of_length_one htop
    obtain rfl := eq_nil_of_length_zero hbelow
    rfl
  | dupX1 | swap =>
    obtain ⟨v, hv, rfl⟩ := exists_of_length_one htop
    obtain ⟨w, hw, rfl⟩ := exists_of_length_one hbelow
    rfl
  | dupX2 =>
    obtain ⟨v, hv, rfl⟩ := exists_of_length_one htop
    obtain ⟨w, hw, rfl⟩ | ⟨w, x, hw, hx, rfl⟩ := exists_of_length_two hbelow
    · simp [plan, moved, hw]
    · simp [plan, moved, hw]
  | dup2 =>
    obtain rfl := eq_nil_of_length_zero hbelow
    obtain ⟨v, hv, rfl⟩ | ⟨v, w, hv, hw, rfl⟩ := exists_of_length_two htop
    · simp [plan, moved, hv]
    · simp [plan, moved, hv]
  | dup2X1 =>
    obtain ⟨x, hx, rfl⟩ := exists_of_length_one hbelow
    obtain ⟨v, hv, rfl⟩ | ⟨v, w, hv, hw, rfl⟩ := exists_of_length_two htop
    · simp [plan, moved, hv]
    · simp [plan, moved, hv]
  | dup2X2 =>
    obtain ⟨v, hv, rfl⟩ | ⟨v, w, hv, hw, rfl⟩ := exists_of_length_two htop
    · obtain ⟨x, hx, rfl⟩ | ⟨x, y, hx, hy, rfl⟩ := exists_of_length_two hbelow
      · simp [plan, moved, hv, hx]
      · simp [plan, moved, hv, hx]
    · obtain ⟨x, hx, rfl⟩ | ⟨x, y, hx, hy, rfl⟩ := exists_of_length_two hbelow
      · simp [plan, moved, hv, hx]
      · simp [plan, moved, hv, hx]

/-- A value takes one slot at least, and two if it is wide. -/
theorem length_ofValues_cons (value : FlowType) (values : List FlowType) :
    (ofValues (value :: values)).length = (if value.isWide then 2 else 1) + (ofValues values).length := by
  cases hwide : value.isWide with
  | false => simp [ofValues_cons_of_narrow hwide, Nat.add_comm]
  | true =>
    rw [ofValues_cons_of_wide hwide, if_pos rfl, List.length_cons, List.length_cons]
    omega

/-- If values are found, then there are enough slots. -/
theorem reach_le_of_plan {taken : ℕ} {pushed : List FlowType} (h : shuffle.plan values = .ok (taken, pushed)) :
    shuffle.reach ≤ (ofValues values).length := by
  unfold plan at h
  repeat' split at h
  all_goals cases h
  all_goals
    simp only [reach, span, length_ofValues_cons]
    grind

/-- If values are found, then there are enough of them for one of the forms. -/
theorem exists_form_of_plan {taken : ℕ} {pushed : List FlowType}
    (h : shuffle.plan values = .ok (taken, pushed)) : ∃ form ∈ shuffle.forms, form.length ≤ values.length := by
  unfold plan at h
  repeat' split at h
  all_goals cases h
  all_goals simp [forms, span, patterns]

/-- A shuffle that finds too few values finds none, or looks at none. -/
theorem defect_of_plan {defect : FrameDefect} (h : shuffle.plan values = .error defect) :
    defect = .popFromEmpty ∨ defect = .emptyStack := by
  unfold plan at h
  repeat' split at h
  all_goals cases h
  all_goals simp

/-- The effect of the opcode of a shuffle. -/
theorem effect_of_ofOpcode? : ∀ opcode : Opcode, ∀ shuffle, ofOpcode? opcode = some shuffle →
    Effect.ofOpcode? opcode = some (.shuffles shuffle) :=
  Opcode.forall_of_fin (by decide +kernel)

end Shuffle

/-! ## Frames -/

namespace Frame

variable {frame : FlowFrame} {shuffle : Shuffle} {top below rest : List FlowType}

/-- The values on the stack of a frame, the last one first. -/
def values (frame : FlowFrame) : List FlowType := frame.stack.entries.map Prod.snd

/-- The slots of the stack of a frame, the top one first. -/
def stackSlots (frame : FlowFrame) : List StackSlot := StackSlot.ofValues frame.values

/-- Values that are there can be dropped. -/
theorem exists_drop {count : ℕ} (h : count ≤ frame.values.length) :
    ∃ rest, frame.drop count = .ok rest ∧ rest.locals = frame.locals ∧
      rest.values = frame.values.drop count := by
  induction count generalizing frame with
  | zero => exact ⟨frame, rfl, rfl, rfl⟩
  | succ count ih =>
    obtain ⟨locals, ⟨entries, used⟩⟩ := frame
    cases entries with
    | nil => simp [values] at h
    | cons entry entries =>
      have hroom : count ≤ (⟨locals, ⟨entries, entry.1⟩⟩ : FlowFrame).values.length := by
        simpa [values] using h
      obtain ⟨rest, hrest, hlocals, hvalues⟩ := ih hroom
      exact ⟨rest, hrest, hlocals, hvalues.trans (by simp [values])⟩

/-- A shuffle moves the pieces on top of the stack. -/
theorem exists_shuffle (h : shuffle.Pieces frame.values top below rest) :
    ∃ after, frame.shuffle shuffle = .ok after ∧ after.locals = frame.locals ∧
      after.values = shuffle.moved top below ++ rest := by
  have hplan := Shuffle.plan_of_pieces h
  obtain ⟨hvalues, -, -⟩ := h
  have hroom : (top ++ below).length ≤ frame.values.length := by simp [hvalues]
  obtain ⟨dropped, hdrop, hlocals, hrest⟩ := exists_drop hroom
  refine ⟨_, Outcome.bind_eq_ok.mpr ⟨_, hplan, Outcome.bind_eq_ok.mpr ⟨_, hdrop, rfl⟩⟩, hlocals, ?_⟩
  rw [hvalues, ← List.append_assoc, List.drop_left] at hrest
  have htoList : ∀ stack : Slots FlowType, stack.entries.map Prod.snd = stack.toList.reverse := by
    simp [Slots.toList]
  rw [values, htoList, Slots.toList_pushAll, List.reverse_append, List.reverse_reverse, ← htoList]
  exact congrArg _ hrest

end Frame

/-- What a shuffle comes to on a frame. -/
structure Shuffle.ActsOnSlots (shuffle : Shuffle) (position : ℕ) (before : FlowFrame)
    (outcome : Except Fault FlowFrame) : Prop where
  /-- If no wide value is split, then the slots are moved, and the variables stay. -/
  moves : shuffle.Unsplit before.stackSlots → ∀ slots, shuffle.onSlots before.stackSlots = some slots →
    ∃ after, outcome = .ok after ∧ after.stackSlots = slots ∧ after.locals = before.locals
  /-- It is blamed on the instruction if there are fewer slots than are moved, or fewer values than there are in
  any form. -/
  fails : (shuffle.onSlots before.stackSlots = none ∨
      ∀ form ∈ shuffle.forms, before.stack.length < form.length) →
    ∃ defect, outcome = .error (.invalidFrame position defect) ∧
      (defect = .popFromEmpty ∨ defect = .emptyStack)
  /-- The slots are there and no wide value is split exactly if the values on top have one of the forms. -/
  unsplit_iff : shuffle.Unsplit before.stackSlots ∧ (shuffle.onSlots before.stackSlots).isSome ↔
    ∃ form ∈ shuffle.forms, form <+: before.values.map ValueType.isWide

/-- The instructions that rearrange the stack do with its slots what they are meant to do, unless they would split
a wide value. -/
theorem execute_actsOnSlots (method : MethodContext) (code : Array Instruction) (position : ℕ)
    (before : FlowFrame) {opcode : Opcode} {shuffle : Shuffle} (h : Shuffle.ofOpcode? opcode = some shuffle) :
    shuffle.ActsOnSlots position before (Transfer.execute method code position (.plain opcode) before) := by
  have hexecute : Transfer.execute method code position (.plain opcode) before =
      Transfer.blame position (before.shuffle shuffle) := by
    simp only [Transfer.execute, Shuffle.effect_of_ofOpcode? _ _ h]
    rfl
  have hsome : (shuffle.onSlots before.stackSlots).isSome ↔ shuffle.reach ≤ before.stackSlots.length := by
    unfold Shuffle.onSlots
    split <;> simp [*]
  have hpieces : shuffle.Unsplit before.stackSlots ∧ (shuffle.onSlots before.stackSlots).isSome ↔
      ∃ top below rest, shuffle.Pieces before.values top below rest := by
    rw [hsome]
    exact Shuffle.unsplit_iff_exists_pieces
  refine ⟨fun hunsplit slots hslots => ?_, fun hfew => ?_, ?_⟩
  · obtain ⟨top, below, rest, h⟩ := hpieces.mp ⟨hunsplit, Option.isSome_of_mem hslots⟩
    obtain ⟨after, hafter, hlocals, hvalues⟩ := Frame.exists_shuffle h
    refine ⟨after, by rw [hexecute, hafter]; rfl, ?_, hlocals⟩
    rw [Frame.stackSlots, hvalues]
    exact Option.some.inj ((Shuffle.onSlots_of_pieces h).symm.trans hslots)
  · cases hplan : shuffle.plan before.values with
    | ok found =>
      rcases hfew with hnone | hshort
      · have := hsome.mpr (Shuffle.reach_le_of_plan hplan)
        simp [hnone] at this
      · obtain ⟨form, hform, hlength⟩ := Shuffle.exists_form_of_plan hplan
        have hlt := hshort form hform
        rw [Frame.values, List.length_map] at hlength
        exact absurd hlength (Nat.not_le.mpr hlt)
    | error defect =>
      have hshuffle : before.shuffle shuffle = .error defect := by
        unfold Frame.shuffle
        rw [show shuffle.plan (before.stack.entries.map Prod.snd) = .error defect from hplan]
        rfl
      exact ⟨defect, by rw [hexecute, hshuffle]; rfl, Shuffle.defect_of_plan hplan⟩
  · rw [hpieces, Shuffle.exists_form_iff_exists_pieces]

/-- A long value below two narrow ones. -/
def longBelow : FlowFrame := ⟨[], Slots.ofList [.long, .int, .float]⟩

/-- The two narrow values are copied below the long one. -/
theorem execute_actsOnSlots_longBelow : Shuffle.ofOpcode? 94 = some .dup2X2 ∧
    ∃ after, Transfer.execute ⟨"a/A", "f", "()V", true⟩ #[] 0 (.plain 94) longBelow = .ok after ∧
      after.stackSlots =
        [.single .float, .single .int, .upper .long, .lower .long, .single .float, .single .int] := by
  have hunsplit : Shuffle.dup2X2.Unsplit longBelow.stackSlots := by
    constructor
    · rintro ⟨type, hlower⟩
      cases hlower
    · rintro ⟨type, hlower⟩
      cases hlower
  have hopcode : Shuffle.ofOpcode? 94 = some .dup2X2 := rfl
  obtain ⟨after, hafter, hslots, -⟩ :=
    (execute_actsOnSlots ⟨"a/A", "f", "()V", true⟩ #[] 0 longBelow hopcode).moves hunsplit _ rfl
  exact ⟨hopcode, after, hafter, hslots⟩

end ClassInstrument
