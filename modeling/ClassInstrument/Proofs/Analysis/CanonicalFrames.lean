import ClassInstrument.Analysis.Basic
import ClassInstrument.Proofs.Analysis.FrameOrder
import ClassInstrument.Proofs.Analysis.TransferRules

/-!
# Frames stay in canonical form

The frame on entry to a method is in canonical form, and so are the frames on entry to a handler and
after an instruction if the frame before it is.  Instructions do not drop variables either.
-/

namespace ClassInstrument

open Outcome

/-! ## Stacks -/

/-- Entries pushed behind others are pushed in one go. -/
theorem Slots.ofList_append {α : Type} [HasWidth α] (entries : List α) (entry : α) :
    Slots.ofList (entries ++ [entry]) = (Slots.ofList entries).push entry := by
  simp [Slots.ofList, Slots.pushAll]

/-- Putting entries of the same width in the place of others moves nothing. -/
theorem Slots.replaceAll_ofList {α : Type} [HasWidth α] {isMatch : α → Bool} {entry : α}
    (hwidth : ∀ old, isMatch old → width old = width entry) (entries : List α) :
    (Slots.ofList entries).replaceAll isMatch entry =
      Slots.ofList (entries.map fun old => if isMatch old then entry else old) := by
  induction entries using List.reverseRecOn with
  | nil => rfl
  | append_singleton entries last ih =>
    rw [List.map_append, List.map_singleton, Slots.ofList_append, Slots.ofList_append, ← ih]
    by_cases hlast : isMatch last
    · simp [Slots.replaceAll, Slots.push, hlast, hwidth last hlast]
    · simp [Slots.replaceAll, Slots.push, hlast]

namespace Frame

variable {frame : FlowFrame}

/-! ## Variables -/

/-- No wide variable starts in the last slot exactly if the type there is not wide. -/
theorem clearWideLast_eq_iff {slots : List FlowType} :
    Merge.clearWideLast slots = slots ↔
      ∀ type, slots[slots.length - 1]? = some type → type.isWide = false := by
  constructor
  · intro h type htype
    by_contra hwide
    have hcleared := getElem?_clearWideAt (slots.length - 1) (slots.length - 1) slots
    rw [← Merge.clearWideLast, h, htype, Option.map_some, if_pos ⟨rfl, by simpa using hwide⟩,
      Option.some.injEq] at hcleared
    subst hcleared
    exact hwide rfl
  · intro h
    refine List.ext_getElem? fun slot => ?_
    rw [Merge.clearWideLast, getElem?_clearWideAt]
    cases hslot : slots[slot]? with
    | none => rfl
    | some type =>
      rw [Option.map_some, if_neg]
      rintro ⟨rfl, hwide⟩
      simp [h type hslot] at hwide

/-- A variable that is written makes the list of variables long enough for it. -/
theorem length_setLocal (slot : Nat) (type : FlowType) :
    (frame.setLocal slot type).locals.length = max frame.locals.length (slot + width type) := by
  unfold setLocal
  dsimp only
  split <;> split <;> simp [padTo, length_clearWideAt] <;> omega

/-- The variables after one was written: it and its second half, and those from before, except that
a wide variable that it overlaps becomes unusable. -/
theorem getElem?_setLocal (slot other : Nat) (type : FlowType) :
    (frame.setLocal slot type).locals[other]? =
      if type.isWide ∧ other = slot + 1 then some .top
      else if other = slot then some type
      else ((padTo (slot + width type) frame.locals)[other]?).map fun old =>
        if other + 1 = slot ∧ old.isWide then .top else old := by
  have hwidth : width type = if type.isWide then 2 else 1 := rfl
  have hcleared : ∀ padded : List FlowType,
      (if slot = 0 then padded else clearWideAt (slot - 1) padded)[other]? =
        (padded[other]?).map fun old => if other + 1 = slot ∧ old.isWide then .top else old := by
    intro padded
    split
    · next hzero => simp [hzero]
    · have hother : other = slot - 1 ↔ other + 1 = slot := by omega
      rw [getElem?_clearWideAt]
      simp only [hother]
  have hlength : ∀ padded : List FlowType,
      (if slot = 0 then padded else clearWideAt (slot - 1) padded).length = padded.length := by
    intro padded
    split
    · rfl
    · exact length_clearWideAt _ _
  have hroom : slot + width type ≤ (padTo (slot + width type) frame.locals).length := by
    simp only [padTo, List.length_append, List.length_replicate]
    omega
  unfold setLocal
  dsimp only
  by_cases hwide : type.isWide
  · rw [if_pos hwide, List.getElem?_set, List.getElem?_set, List.length_set, hlength, hcleared]
    rw [hwidth, if_pos hwide] at hroom ⊢
    grind
  · rw [if_neg hwide, List.getElem?_set, hlength, hcleared]
    rw [hwidth, if_neg hwide] at hroom ⊢
    grind

/-! ## Operations keep the canonical form -/

/-- The empty frame is in canonical form. -/
theorem Canonical.empty : Canonical (Frame.empty : FlowFrame) := ⟨rfl, rfl⟩

/-- Pushing keeps the canonical form. -/
theorem Canonical.push (h : frame.Canonical) (type : FlowType) : (frame.push type).Canonical where
  stack_eq := by
    rw [Frame.push, Slots.toList_push, Slots.ofList_append, h.stack_eq]
  locals_eq := h.locals_eq

/-- Popping keeps the canonical form. -/
theorem Canonical.pop (h : frame.Canonical) {type : FlowType} {rest : FlowFrame}
    (hpop : frame.pop = .ok (type, rest)) : rest.Canonical := by
  have hlist := toList_of_pop hpop
  have hstack := h.stack_eq
  rw [hlist, Slots.ofList_append] at hstack
  unfold Frame.pop Slots.pop? at hpop
  split at hpop
  · next hentries =>
    split at hentries
    · simp at hentries
    · next offset value below hbelow =>
      cases hentries
      cases hpop
      rw [← hstack] at hbelow
      obtain ⟨hfirst, hentries⟩ := List.cons.inj hbelow
      obtain ⟨hused, -⟩ := Prod.mk.inj hfirst
      refine ⟨?_, h.locals_eq⟩
      rw [Slots.mk.injEq]
      exact ⟨hentries, hused⟩
  · simp at hpop

/-- Writing a variable keeps the canonical form. -/
theorem Canonical.setLocal (h : frame.Canonical) (slot : Nat) (type : FlowType) :
    (frame.setLocal slot type).Canonical where
  stack_eq := h.stack_eq
  locals_eq := by
    rw [clearWideLast_eq_iff]
    intro last hlast
    rw [length_setLocal, getElem?_setLocal] at hlast
    have hwidth : width type = if type.isWide then 2 else 1 := rfl
    have hbefore := clearWideLast_eq_iff.mp h.locals_eq
    split at hlast
    · cases hlast
      rfl
    split at hlast
    · cases hlast
      grind
    · have hlong : slot + width type < frame.locals.length := by
        grind
      simp only [padTo, Nat.sub_eq_zero_of_le hlong.le, List.replicate_zero, List.append_nil,
        max_eq_left hlong.le] at hlast
      obtain ⟨old, hold, rfl⟩ := Option.map_eq_some_iff.mp hlast
      have := hbefore old hold
      split
      · rfl
      · exact this

/-- Initializing an object keeps the canonical form. -/
theorem Canonical.replaceAll (h : frame.Canonical) {old new : FlowType}
    (hold : old.isWide = false) (hnew : new.isWide = false) : (frame.replaceAll old new).Canonical where
  stack_eq := by
    have hwidth : ∀ type : FlowType, decide (type = old) → width type = width new := by
      intro type htype
      rw [of_decide_eq_true htype]
      simp [width, hold, hnew]
    rw [Frame.replaceAll, Slots.toList_replaceAll, ← Slots.replaceAll_ofList hwidth, h.stack_eq]
  locals_eq := by
    rw [clearWideLast_eq_iff]
    intro type htype
    simp only [Frame.replaceAll, List.length_map, List.getElem?_map, Option.map_eq_some_iff] at htype
    obtain ⟨before, hbefore, rfl⟩ := htype
    split
    · exact hnew
    · exact clearWideLast_eq_iff.mp h.locals_eq before hbefore

/-- What holds of the empty frame and is kept by writing variables and pushing values holds of a frame made of
types. -/
theorem ofTypes_induction {motive : FlowFrame → Prop} {locals values : List FlowType}
    (empty : motive Frame.empty)
    (setLocal : ∀ frame, ∀ type ∈ locals, ∀ slot, motive frame → motive (frame.setLocal slot type))
    (push : ∀ frame, ∀ type ∈ values, motive frame → motive (frame.push type)) :
    motive (Frame.ofTypes locals values) := by
  have hwritten : motive (locals.foldl (fun (state : FlowFrame × Nat) type =>
      (state.1.setLocal state.2 type, state.2 + width type)) (Frame.empty, 0)).1 :=
    List.foldlRecOn (motive := fun state : FlowFrame × Nat => motive state.1) locals _ empty
      fun state h type hmem => setLocal state.1 type hmem state.2 h
  exact List.foldlRecOn values Frame.push hwritten fun frame h type hmem => push frame type hmem h

/-- A frame made of types is in canonical form. -/
theorem Canonical.ofTypes (locals values : List FlowType) :
    (Frame.ofTypes locals values).Canonical :=
  ofTypes_induction .empty (fun _ type _ slot h => h.setLocal slot type) fun _ type _ h => h.push type

end Frame

/-- The frame on entry to a method is in canonical form. -/
theorem MethodContext.canonical_initialFrame {method : MethodContext} {frame : FlowFrame}
    (h : method.initialFrame = .ok frame) : frame.Canonical := by
  unfold MethodContext.initialFrame at h
  obtain ⟨descriptor, -, h⟩ := bind_eq_ok.mp h
  obtain rfl := pure_eq_ok.mp h
  exact .ofTypes _ _

/-- A handler is entered with a frame in canonical form if the variables there are. -/
theorem PlacedHandler.canonical_entryFrame (handler : PlacedHandler) {frame : FlowFrame}
    (h : frame.Canonical) : (handler.entryFrame frame.locals).Canonical := by
  have hbare : Frame.Canonical ⟨frame.locals, Slots.empty⟩ := ⟨rfl, h.locals_eq⟩
  exact hbare.push _

/-- The canonical form is a property that the operations of instructions keep. -/
theorem canonicalRules (position : Nat) (instruction : Instruction) :
    FrameRules position instruction Frame.Canonical fun _ => True where
  stack _ _ := trivial
  locals _ _ := trivial
  plain _ := trivial
  created _ := trivial
  pop h hpop := h.pop hpop
  push h _ := h.push _
  setLocal h _ slot := h.setLocal slot _
  replace h hold _ := h.replaceAll (by rcases hold with rfl | ⟨site, rfl⟩ <;> rfl) rfl

/-- That there are at least so many variables is a property that instructions keep. -/
theorem lengthRules (position : Nat) (instruction : Instruction) (count : Nat) :
    FrameRules position instruction (fun frame => count ≤ frame.locals.length) fun _ => True where
  stack _ _ := trivial
  locals _ _ := trivial
  plain _ := trivial
  created _ := trivial
  pop h hpop := by
    unfold Frame.pop at hpop
    split at hpop
    · cases hpop
      exact h
    · simp at hpop
  push h _ := h
  setLocal h _ slot := by
    rw [Frame.length_setLocal]
    exact h.trans (le_max_left _ _)
  replace h _ name := by
    simpa [Frame.replaceAll] using h

end ClassInstrument
