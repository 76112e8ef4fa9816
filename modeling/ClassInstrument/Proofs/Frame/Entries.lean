import Mathlib
import ClassInstrument.Frame.Basic

/-!
# Slots and entries

A frame holds local variables slot by slot, and lists of frames show them entry by entry, without the
unusable ones at the end.  Nothing is lost on the way if each wide variable has its second half behind it:
the entries then stand for the slots of the frame, up to unusable ones at the end.
-/

namespace ClassInstrument

namespace Frame

variable {Cls Site Cls' Site' : Type}

/-- Each wide variable has an unusable slot behind it, its second half. -/
def Halved (slots : List (ValueType Cls Site)) : Prop :=
  ∀ (slot : ℕ) (type : ValueType Cls Site), slots[slot]? = some type → type.isWide →
    slots[slot + 1]? = some .top

/-- Entries stand for slots: each wide entry for two of them, behind all others come unusable slots that are
not listed, and no unusable entry is the last one. -/
structure StandFor (entries slots : List (ValueType Cls Site)) : Prop where
  slots_eq : ∃ unlisted, slots = slotsOfEntries entries ++ List.replicate unlisted .top
  getLast_ne : entries.getLast? ≠ some .top

/-! ## Lists without the unusable entries at the end -/

/-- Unusable slots have the unusable type. -/
theorem isTop_iff {type : ValueType Cls Site} : isTop type ↔ type = .top := by
  cases type <;> simp [isTop]

/-- What is dropped at the end of a list are unusable entries. -/
theorem exists_dropTrailingTops (entries : List (ValueType Cls Site)) :
    ∃ dropped, entries = dropTrailingTops entries ++ List.replicate dropped .top := by
  have htops : ∀ type ∈ (entries.reverse.takeWhile isTop).reverse, type = .top := fun type hmem =>
    isTop_iff.mp (List.mem_takeWhile_imp (List.mem_reverse.mp hmem))
  refine ⟨(entries.reverse.takeWhile isTop).reverse.length, ?_⟩
  rw [← List.eq_replicate_of_mem htops, dropTrailingTops, ← List.reverse_append,
    List.takeWhile_append_dropWhile, List.reverse_reverse]

/-- The last entry that is kept is usable. -/
theorem getLast?_dropTrailingTops (entries : List (ValueType Cls Site)) :
    (dropTrailingTops entries).getLast? ≠ some .top := by
  intro h
  rw [dropTrailingTops, List.getLast?_reverse] at h
  have hhead := List.head?_dropWhile_not isTop entries.reverse
  rw [h] at hhead
  simp [isTop] at hhead

/-- Entries that are kept were there. -/
theorem dropTrailingTops_sublist (entries : List (ValueType Cls Site)) :
    (dropTrailingTops entries).Sublist entries := by
  obtain ⟨dropped, hdropped⟩ := exists_dropTrailingTops entries
  conv_rhs => rw [hdropped]
  exact List.sublist_append_left _ _

/-! ## Slots -/

/-- The slots of entries with others behind them. -/
theorem slotsOfEntries_append (entries more : List (ValueType Cls Site)) :
    slotsOfEntries (entries ++ more) = slotsOfEntries entries ++ slotsOfEntries more :=
  List.flatMap_append

/-- An unusable entry stands for one slot. -/
theorem slotsOfEntries_replicate_top (count : ℕ) :
    slotsOfEntries (List.replicate count (.top : ValueType Cls Site)) = List.replicate count .top := by
  induction count with
  | zero => rfl
  | succ count ih =>
    rw [List.replicate_succ, slotsOfEntries, List.flatMap_cons, ← slotsOfEntries, ih]
    rfl

/-- The slots behind the first one are halved if all are. -/
theorem Halved.tail {first : ValueType Cls Site} {slots : List (ValueType Cls Site)}
    (h : Halved (first :: slots)) : Halved slots :=
  fun slot type htype hwide => h (slot + 1) type htype hwide

/-- The entries of slots with halved variables stand for all of them. -/
theorem Halved.slotsOfEntries_entriesOfSlots {slots : List (ValueType Cls Site)} (h : Halved slots) :
    slotsOfEntries (entriesOfSlots slots) = slots := by
  induction slots using entriesOfSlots.induct with
  | case1 => rfl
  | case2 type =>
    have hnarrow : ¬ type.isWide := fun hwide => by simpa using h 0 type rfl hwide
    simp [entriesOfSlots, slotsOfEntries, hnarrow]
  | case3 type next rest hwide ih =>
    obtain rfl : next = .top := by simpa using h 0 type rfl hwide
    rw [entriesOfSlots, if_pos hwide, slotsOfEntries, List.flatMap_cons, ← slotsOfEntries, ih h.tail.tail,
      if_pos hwide]
    rfl
  | case4 type next rest hnarrow ih =>
    rw [entriesOfSlots, if_neg hnarrow, slotsOfEntries, List.flatMap_cons, ← slotsOfEntries, ih h.tail,
      if_neg hnarrow]
    rfl

/-- There are no more entries than slots. -/
theorem entriesOfSlots_sublist (slots : List (ValueType Cls Site)) :
    (entriesOfSlots slots).Sublist slots := by
  induction slots using entriesOfSlots.induct with
  | case1 => exact .refl _
  | case2 type => exact .refl _
  | case3 type next rest hwide ih =>
    rw [entriesOfSlots, if_pos hwide]
    exact (ih.cons next).cons_cons type
  | case4 type next rest hnarrow ih =>
    rw [entriesOfSlots, if_neg hnarrow]
    exact ih.cons_cons type

/-! ## The entries of a frame -/

variable {frame : Frame Cls Site} {other : Frame Cls' Site'}

/-- The entries of a frame are among its slots. -/
theorem localEntries_sublist (frame : Frame Cls Site) : frame.localEntries.Sublist frame.locals :=
  (dropTrailingTops_sublist _).trans (entriesOfSlots_sublist _)

/-- The entries of a frame with halved variables stand for its slots. -/
theorem standFor_localEntries (h : Halved frame.locals) : StandFor frame.localEntries frame.locals where
  slots_eq := by
    obtain ⟨dropped, hdropped⟩ := exists_dropTrailingTops (entriesOfSlots frame.locals)
    refine ⟨dropped, ?_⟩
    conv_lhs => rw [← h.slotsOfEntries_entriesOfSlots, hdropped]
    rw [slotsOfEntries_append, slotsOfEntries_replicate_top, localEntries]
  getLast_ne := getLast?_dropTrailingTops _

section

variable {related : ValueType Cls Site → ValueType Cls' Site' → Prop}

/-- Lists whose slots are related have related entries, if related types are equally wide. -/
theorem forall₂_entriesOfSlots (hwide : ∀ type type', related type type' → type.isWide = type'.isWide)
    {slots : List (ValueType Cls Site)} {slots' : List (ValueType Cls' Site')}
    (h : List.Forall₂ related slots slots') :
    List.Forall₂ related (entriesOfSlots slots) (entriesOfSlots slots') := by
  induction slots using entriesOfSlots.induct generalizing slots' with
  | case1 =>
    cases h
    exact .nil
  | case2 type =>
    obtain ⟨type', rest', hfirst, hrest, rfl⟩ := List.forall₂_cons_left_iff.mp h
    cases hrest
    exact .cons hfirst .nil
  | case3 type next rest wide ih =>
    obtain ⟨type', rest', hfirst, hrest, rfl⟩ := List.forall₂_cons_left_iff.mp h
    obtain ⟨next', rest'', -, hrest', rfl⟩ := List.forall₂_cons_left_iff.mp hrest
    rw [entriesOfSlots, entriesOfSlots, if_pos wide, if_pos (hwide _ _ hfirst ▸ wide)]
    exact .cons hfirst (ih hrest')
  | case4 type next rest narrow ih =>
    obtain ⟨type', rest', hfirst, hrest, rfl⟩ := List.forall₂_cons_left_iff.mp h
    obtain ⟨next', rest'', hnext, hrest', rfl⟩ := List.forall₂_cons_left_iff.mp hrest
    rw [entriesOfSlots, entriesOfSlots, if_neg narrow, if_neg (hwide _ _ hfirst ▸ narrow)]
    exact .cons hfirst (ih hrest)

/-- Lists with related entries have related entries before the unusable ones at the end, if only unusable
types are related to unusable ones. -/
theorem forall₂_dropTrailingTops (htop : ∀ type type', related type type' → isTop type = isTop type')
    {entries : List (ValueType Cls Site)} {entries' : List (ValueType Cls' Site')}
    (h : List.Forall₂ related entries entries') :
    List.Forall₂ related (dropTrailingTops entries) (dropTrailingTops entries') := by
  have hdrop : ∀ {types : List (ValueType Cls Site)} {types' : List (ValueType Cls' Site')},
      List.Forall₂ related types types' →
        List.Forall₂ related (types.dropWhile isTop) (types'.dropWhile isTop) := by
    intro types types' htypes
    induction htypes with
    | nil => exact .nil
    | @cons type type' types types' hfirst hrest ih =>
      rw [List.dropWhile_cons, List.dropWhile_cons, ← htop _ _ hfirst]
      split
      · exact ih
      · exact .cons hfirst hrest
  exact List.rel_reverse (hdrop (List.rel_reverse h))

/-- Frames with related slots have related entries. -/
theorem forall₂_localEntries (hwide : ∀ type type', related type type' → type.isWide = type'.isWide)
    (htop : ∀ type type', related type type' → isTop type = isTop type')
    (h : List.Forall₂ related frame.locals other.locals) :
    List.Forall₂ related frame.localEntries other.localEntries :=
  forall₂_dropTrailingTops htop (forall₂_entriesOfSlots hwide h)

end

end Frame

end ClassInstrument
