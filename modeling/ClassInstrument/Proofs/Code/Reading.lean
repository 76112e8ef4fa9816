import ClassInstrument.Code.Decoding
import ClassInstrument.Proofs.Bytes
import ClassInstrument.Proofs.Outcome

/-!
# Reading back parts of instructions

`CodeReader.Reads` says that an action reads certain bytes, whatever comes behind them, and what holds of
the value that it gives.  Offsets get labels meanwhile; what holds of a value keeps holding when more
offsets get labels.  The rules for sequences of actions follow the bytes from left to right.
-/

namespace ClassInstrument

open Outcome

/-! ## Labels of offsets -/

namespace OffsetLabels

/-- A label was given to an offset. -/
def Marks (given : OffsetLabels) (label : Label) (offset : Nat) : Prop :=
  given.offsets[label.number]? = some offset

/-- Labels are given to offsets one to one. -/
def Consistent (given : OffsetLabels) : Prop :=
  ∀ {offset : Nat} {label : Label}, given.labels[offset]? = some label ↔ given.Marks label offset

/-- Labels are given to offsets one to one, and only to the places of labels. -/
structure Follows (given : OffsetLabels) (labels : Placements) : Prop where
  /-- The label of an offset is the one given to it. -/
  label_iff : ∀ {offset : Nat} {label : Label},
    given.labels[offset]? = some label ↔ given.Marks label offset
  /-- Offsets with labels are places of labels. -/
  placed : ∀ {label : Label} {offset : Nat}, given.Marks label offset →
    ∃ original, labels.find original = .ok offset

/-- More offsets have got labels. -/
def Grows (given later : OffsetLabels) : Prop := given.offsets.toList <+: later.offsets.toList

variable {given later : OffsetLabels} {labels : Placements}

theorem Grows.refl (given : OffsetLabels) : given.Grows given := List.prefix_rfl

theorem Grows.trans {last : OffsetLabels} (h : given.Grows later) (h' : later.Grows last) :
    given.Grows last :=
  List.IsPrefix.trans h h'

/-- A label that was given stays. -/
theorem Marks.mono {label : Label} {offset : Nat} (h : given.Marks label offset)
    (hgrows : given.Grows later) : later.Marks label offset := by
  obtain ⟨more, hmore⟩ := hgrows
  unfold Marks at h ⊢
  rw [← Array.getElem?_toList] at h ⊢
  rw [← hmore, List.getElem?_append_left (List.getElem?_eq_some_iff.mp h).1, h]

/-- No label was given yet. -/
theorem follows_empty (labels : Placements) : ({} : OffsetLabels).Follows labels where
  label_iff := by simp [Marks]
  placed h := by simp [Marks] at h

/-- An offset gets a label of its own, and no other label is given. -/
theorem Consistent.give (h : given.Consistent) (offset : Nat) :
    (given.give offset).2.Consistent ∧ given.Grows (given.give offset).2 ∧
      (given.give offset).2.Marks (given.give offset).1 offset ∧
      ∀ {label other}, (given.give offset).2.Marks label other → other = offset ∨ given.Marks label other := by
  unfold OffsetLabels.give
  split
  · next label hlabel => exact ⟨h, .refl given, h.mp hlabel, .inr⟩
  · next hnone =>
    have hfresh : ∀ {label : Label}, ¬ given.Marks label offset := by
      intro label hmarks
      simp [h.mpr hmarks] at hnone
    refine ⟨?_, ⟨[offset], by simp⟩, by simp [Marks], ?_⟩
    · rintro other ⟨number⟩
      have hold : given.labels[other]? = some ⟨number⟩ ↔ given.Marks ⟨number⟩ other := h
      simp only [Marks] at hold hfresh ⊢
      rw [Std.HashMap.getElem?_insert, Array.getElem?_push]
      by_cases hsame : offset = other
      · subst hsame
        have := @hfresh ⟨number⟩
        simp only [BEq.rfl, ↓reduceIte, Option.some.injEq, Label.mk.injEq]
        split <;> simp_all [eq_comm]
      · have hlt : ∀ {i : Nat}, given.offsets[i]? = some other → i ≠ given.offsets.size := by
          rintro i hi rfl
          simp at hi
        simp only [beq_iff_eq, hsame, ↓reduceIte, hold]
        split
        · next hlast => simp [hlast, hsame]
        · rfl
    · rintro ⟨number⟩ other hmarks
      simp only [Marks, Array.getElem?_push] at hmarks
      split at hmarks
      · exact Or.inl (Option.some.inj hmarks).symm
      · exact Or.inr hmarks

/-- The place of a label gets a label. -/
theorem Follows.give (h : given.Follows labels) {original : Label} {offset : Nat}
    (hplace : labels.find original = .ok offset) :
    (given.give offset).2.Follows labels ∧ given.Grows (given.give offset).2 ∧
      (given.give offset).2.Marks (given.give offset).1 offset := by
  have hconsistent : given.Consistent := h.label_iff
  obtain ⟨hlabels, hgrows, hmarks, hothers⟩ := hconsistent.give offset
  refine ⟨⟨hlabels, fun {label other} hother => ?_⟩, hgrows, hmarks⟩
  rcases hothers hother with rfl | hother
  · exact ⟨original, hplace⟩
  · exact h.placed hother

end OffsetLabels

/-! ## Readers -/

/-- A label that was given stands for an original label: both lead to the same offset. -/
def Agrees (given : OffsetLabels) (labels : Placements) (label original : Label) : Prop :=
  ∃ offset, given.Marks label offset ∧ labels.find original = .ok offset

namespace CodeReader

variable {α β : Type} {labels : Placements} {start offset : Nat} {bytes : Bytes}

/-- An action of an instruction at `start` reads bytes at an offset, whatever comes behind them, and
gives a value that has a property from then on. -/
def Reads (labels : Placements) (start offset : Nat) (action : CodeReader α) (bytes : Bytes)
    (post : OffsetLabels → α → Prop) : Prop :=
  ∀ (rest : Bytes) (given : OffsetLabels), given.Follows labels → ∃ value given',
    action ⟨start, offset, bytes ++ rest, given⟩ =
      .ok (value, ⟨start, offset + bytes.length, rest, given'⟩) ∧
    given'.Follows labels ∧ given.Grows given' ∧ ∀ later, given'.Grows later → post later value

/-- A sequence of actions runs the first, and then the second. -/
theorem bind_apply {action : CodeReader α} {next : α → CodeReader β} {state state' : DecodeState}
    {value : α} (h : action state = .ok (value, state')) :
    (action >>= next) state = next value state' := by
  change (action state >>= fun result => next result.1 result.2) = _
  rw [h]
  rfl

/-- What a reader takes off the front is taken off the bytecode. -/
theorem operand_append {size : Nat} {reader : Reader α} {value : α} {front rest : Bytes}
    (hread : reader (front ++ rest) = .ok (value, rest)) (given : OffsetLabels) :
    operand size reader ⟨start, offset, front ++ rest, given⟩ =
      .ok (value, ⟨start, offset + size, rest, given⟩) := by
  unfold operand
  rw [bind_apply rfl]
  dsimp only
  rw [hread]
  rfl

namespace Reads

variable {post : OffsetLabels → β → Prop}

/-- A plain value is given without reading. -/
theorem pure {value : β} (h : ∀ later, post later value) :
    Reads labels start offset (Pure.pure value) [] post :=
  fun _ given hfollows => ⟨value, given, rfl, hfollows, .refl given, fun later _ => h later⟩

/-- An action that does not read gives its value. -/
theorem lift {action : Except Fault α} {value : α} {next : α → CodeReader β}
    (h : action = .ok value) (hnext : Reads labels start offset (next value) bytes post) :
    Reads labels start offset (liftM action >>= next) bytes post := by
  intro rest given hfollows
  subst h
  exact hnext rest given hfollows

/-- A byte is read first. -/
theorem u1 {byte : UInt8} {next : UInt8 → CodeReader β}
    (hnext : Reads labels start (offset + 1) (next byte) bytes post) :
    Reads labels start offset (CodeReader.u1 >>= next) (byte :: bytes) post := by
  intro rest given hfollows
  obtain ⟨value, given', hrun, hprops⟩ := hnext rest given hfollows
  have hread : CodeReader.u1 ⟨start, offset, byte :: bytes ++ rest, given⟩ =
      .ok (byte, ⟨start, offset + 1, bytes ++ rest, given⟩) := rfl
  have hend : offset + (byte :: bytes).length = offset + 1 + bytes.length := by
    rw [List.length_cons]
    omega
  exact ⟨value, given', (bind_apply hread).trans (hend ▸ hrun), hprops⟩

/-- What a reader reads back is read first. -/
theorem operand {size : Nat} {reader : Reader α} {value : α} {front : Bytes}
    (hread : ∀ rest, reader (front ++ rest) = .ok (value, rest)) (hsize : front.length = size)
    {next : α → CodeReader β}
    (hnext : Reads labels start (offset + size) (next value) bytes post) :
    Reads labels start offset (CodeReader.operand size reader >>= next) (front ++ bytes) post := by
  intro rest given hfollows
  obtain ⟨result, given', hrun, hprops⟩ := hnext rest given hfollows
  refine ⟨result, given', ?_, hprops⟩
  rw [List.append_assoc, bind_apply (operand_append (hread _) given), List.length_append, hsize,
    ← Nat.add_assoc]
  exact hrun

/-- Two bytes are read first. -/
theorem u2 {number : UInt16} {next : UInt16 → CodeReader β}
    (hnext : Reads labels start (offset + 2) (next number) bytes post) :
    Reads labels start offset (CodeReader.u2 >>= next) (Bytes.u2 number ++ bytes) post :=
  operand (Reader.u2_append number) (Bytes.length_u2 number) hnext

/-- Four bytes are read first. -/
theorem u4 {number : UInt32} {next : UInt32 → CodeReader β}
    (hnext : Reads labels start (offset + 4) (next number) bytes post) :
    Reads labels start offset (CodeReader.u4 >>= next) (Bytes.u4 number ++ bytes) post :=
  operand (Reader.u4_append number) (Bytes.length_u4 number) hnext

/-- The place of a label gets a label. -/
theorem label {original : Label} {place : Nat} (hplace : labels.find original = .ok place)
    {next : Label → CodeReader β}
    (hnext : ∀ label, Reads labels start offset (next label) bytes fun later value =>
      Agrees later labels label original → post later value) :
    Reads labels start offset (CodeReader.label place >>= next) bytes post := by
  intro rest given hfollows
  obtain ⟨hfollows', hgrows, hmarks⟩ := hfollows.give hplace
  obtain ⟨value, given', hrun, hfollows'', hgrows', hpost⟩ := hnext _ rest _ hfollows'
  refine ⟨value, given', hrun, hfollows'', hgrows.trans hgrows', fun later hlater => ?_⟩
  exact hpost later hlater ⟨place, hmarks.mono (hgrows'.trans hlater), hplace⟩

/-- The place of a label at a distance gets a label. -/
theorem relative {original : Label} {place : Nat} {distance : Int}
    (hplace : labels.find original = .ok place) (hdistance : distance = (place : Int) - start)
    {next : Label → CodeReader β}
    (hnext : ∀ label, Reads labels start offset (next label) bytes fun later value =>
      Agrees later labels label original → post later value) :
    Reads labels start offset (CodeReader.relative distance >>= next) bytes post := by
  have hrelative : ∀ (rest : Bytes) (given : OffsetLabels),
      CodeReader.relative distance ⟨start, offset, rest, given⟩ =
        CodeReader.label place ⟨start, offset, rest, given⟩ := by
    intro rest given
    have htarget : (start : Int) + distance = place := by omega
    unfold CodeReader.relative
    rw [bind_apply rfl]
    dsimp only
    rw [htarget, if_neg (by omega), Int.toNat_natCast]
  intro rest given hfollows
  obtain ⟨value, given', hrun, hprops⟩ := label hplace hnext rest given hfollows
  have hlabel : CodeReader.label place ⟨start, offset, bytes ++ rest, given⟩ =
      .ok ((given.give place).1, ⟨start, offset, bytes ++ rest, (given.give place).2⟩) := rfl
  rw [bind_apply hlabel] at hrun
  exact ⟨value, given', (bind_apply ((hrelative _ _).trans hlabel)).trans hrun, hprops⟩

/-- What is read by one action after the other, if the second needs what is known after the first. -/
theorem bindKnown {first : CodeReader α} {next : α → CodeReader β} {front : Bytes}
    {middle : OffsetLabels → α → Prop} (h : Reads labels start offset first front middle)
    (hnext : ∀ value given, middle given value →
      Reads labels start (offset + front.length) (next value) bytes fun later result =>
        middle later value → post later result) :
    Reads labels start offset (first >>= next) (front ++ bytes) post := by
  intro rest given hfollows
  obtain ⟨value, given', hfirst, hfollows', hgrows, hmiddle⟩ := h (bytes ++ rest) given hfollows
  obtain ⟨result, given'', hsecond, hfollows'', hgrows', hpost⟩ :=
    hnext value given' (hmiddle given' (.refl given')) rest given' hfollows'
  refine ⟨result, given'', ?_, hfollows'', hgrows.trans hgrows', fun later hlater => ?_⟩
  · rw [List.append_assoc, bind_apply hfirst, List.length_append, ← Nat.add_assoc]
    exact hsecond
  · exact hpost later hlater (hmiddle later (hgrows'.trans hlater))

/-- What is read by one action after the other. -/
theorem bind {first : CodeReader α} {next : α → CodeReader β} {front : Bytes}
    {middle : OffsetLabels → α → Prop} (h : Reads labels start offset first front middle)
    (hnext : ∀ value, Reads labels start (offset + front.length) (next value) bytes
      fun later result => middle later value → post later result) :
    Reads labels start offset (first >>= next) (front ++ bytes) post :=
  h.bindKnown fun value _ _ => hnext value

/-- What holds of a value may be known to be less. -/
theorem mono {action : CodeReader β} {post' : OffsetLabels → β → Prop}
    (h : Reads labels start offset action bytes post)
    (himp : ∀ later value, post later value → post' later value) :
    Reads labels start offset action bytes post' := by
  intro rest given hfollows
  obtain ⟨value, given', hrun, hfollows', hgrows, hpost⟩ := h rest given hfollows
  exact ⟨value, given', hrun, hfollows', hgrows, fun later hlater =>
    himp later value (hpost later hlater)⟩

end Reads

end CodeReader

end ClassInstrument
