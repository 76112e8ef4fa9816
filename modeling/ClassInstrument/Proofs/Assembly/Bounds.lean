import ClassInstrument.Classpath.Hierarchy
import ClassInstrument.Proofs.Assembly.Offsets
import ClassInstrument.Proofs.Assembly.Prepared

/-!
# Where control can go in written code

Widening keeps a body closed, and the code that is written for a closed body has an instruction at
every offset to which control can go.  So control stays inside the code of an assembled body, unless it
runs off the end of the body.
-/

namespace ClassInstrument

open Interning Outcome

/-! ## Widening jumps -/

namespace Widening

variable {body body' : Body} {entries : List (Instruction × Nat)} {pieces : List (List Instruction)}

/-- A jump that has an inverse may not be taken. -/
theorem fallsThrough_of_inverse {opcode inverse : Opcode} (h : opcode.inverse? = some inverse)
    (target : Label) : (Instruction.jump opcode target).fallsThrough := by
  by_contra hstops
  simp only [Instruction.fallsThrough, Bool.not_eq_true', Bool.not_eq_false, Bool.or_eq_true,
    beq_iff_eq] at hstops
  rcases hstops with ((rfl | rfl) | rfl) | rfl <;> exact Option.some_ne_none _ (h.symm.trans (by decide))

section

variable (hentries : entries.map Prod.fst = body.instructions)
  (hpass : Pass Rewrites entries body.nextLabel pieces body'.nextLabel)
  (houtput : body'.instructions = pieces.flatten)
include hentries hpass houtput

/-- The piece of an instruction begins with one, and no other entry has one in its piece. -/
theorem realBehind_iff {i : Nat} : body.RealBehind i ↔ ∃ k instruction,
    Pieces.shift pieces (i + 1) ≤ k ∧ body'.instructions[k]? = some instruction ∧
      instruction.isReal := by
  constructor
  · rintro ⟨later, instruction, hlt, here, real⟩
    obtain ⟨offset, before, piece, after, hpiece, hrewrites, hget⟩ :=
      exists_piece hentries hpass houtput here
    have hle : Pieces.shift pieces (i + 1) ≤ Pieces.shift pieces later := Pieces.shift_le hlt
    obtain ⟨first, hfirst, hreal⟩ := hrewrites.exists_first real
    exact ⟨_, first, hle, (hget (List.getElem?_eq_some_iff.mp hfirst).1).trans hfirst, hreal⟩
  · rintro ⟨k, instruction, hle, here, real⟩
    obtain ⟨later, entry, offset, before, piece, after, j, hentry, hpiece, hrewrites, hj, rfl, hlt⟩ :=
      exists_origin hentries hpass houtput here
    refine ⟨later, entry, ?_, hentry, ?_⟩
    · by_contra hbefore
      have : Pieces.shift pieces (later + 1) ≤ Pieces.shift pieces (i + 1) :=
        Pieces.shift_le (by omega)
      omega
    · exact tame_rewrites.isReal_of_mem hrewrites (List.mem_of_getElem? hj) real

end

/-- A round keeps the labels resolved. -/
theorem Rounded.resolved (h : Rounded body body') (hresolved : body.Resolved) : body'.Resolved := by
  obtain ⟨entries, pieces, hentries, hpass, houtput⟩ := h.pass
  have hlabel : ∀ {label : Label}, .label label ∈ body.instructions →
      .label label ∈ body'.instructions := by
    intro label hmem
    obtain ⟨i, here⟩ := List.mem_iff_getElem?.mp hmem
    exact List.mem_of_getElem? (label_shift hentries hpass houtput here).2
  refine ⟨?_, ?_⟩
  · intro instruction hmem target htarget
    obtain ⟨k, here⟩ := List.mem_iff_getElem?.mp hmem
    obtain ⟨i, entry, offset, before, piece, after, j, hentry, hpiece, hrewrites, hj, -⟩ :=
      exists_origin hentries hpass houtput here
    have hold := hresolved.targets (List.mem_of_getElem? hentry)
    have hmem := List.mem_of_getElem? hj
    cases hrewrites with
    | keep =>
      obtain rfl := List.mem_singleton.mp hmem
      exact hlabel (hold target htarget)
    | goto =>
      obtain rfl := List.mem_singleton.mp hmem
      exact hlabel (hold target htarget)
    | conditional =>
      simp only [List.mem_cons, List.not_mem_nil, or_false] at hmem
      rcases hmem with rfl | rfl | rfl
      · obtain rfl := List.mem_singleton.mp htarget
        rw [houtput]
        exact List.mem_flatten.mpr ⟨_, List.mem_of_getElem? hpiece, by simp⟩
      · exact hlabel (hold target htarget)
      · simp [Instruction.targets] at htarget
  · intro handler hmem
    obtain ⟨hstart, hstop, hplace⟩ := hresolved.handlers (h.handlers ▸ hmem)
    exact ⟨hlabel hstart, hlabel hstop, hlabel hplace⟩

/-- A handler covers the piece of an entry if it covers the entry. -/
theorem covers_iff (hentries : entries.map Prod.fst = body.instructions)
    (hpass : Pass Rewrites entries body.nextLabel pieces body'.nextLabel)
    (houtput : body'.instructions = pieces.flatten) (hlabelled' : body'.WellLabelled) {handler : Handler}
    (hstart : Instruction.label handler.start ∈ body.instructions)
    (hstop : Instruction.label handler.stop ∈ body.instructions) {i k : Nat}
    (hle : Pieces.shift pieces i ≤ k) (hlt : k < Pieces.shift pieces (i + 1)) :
    body'.Covers handler k ↔ body.Covers handler i := by
  have hplaces {label : Label} (hmem : .label label ∈ body.instructions) (k : Nat) :
      body'.instructions[k]? = some (.label label) ↔
        ∃ i : Nat, k = Pieces.shift pieces i ∧ body.instructions[i]? = some (.label label) := by
    constructor
    · intro hk
      obtain ⟨i, here⟩ := List.mem_iff_getElem?.mp hmem
      exact ⟨i, eq_of_placedLabels hlabelled'.placedOnce hk (label_shift hentries hpass houtput here).2, here⟩
    · rintro ⟨i, rfl, here⟩
      exact (label_shift hentries hpass houtput here).2
  exact Body.covers_iff_of_shift (hplaces hstart) (hplaces hstop) hle hlt

/-- A round keeps a body closed. -/
theorem Rounded.closed (h : Rounded body body') (hlabelled : body.WellLabelled)
    (hresolved : body.Resolved) (hclosed : body.Closed) : body'.Closed := by
  obtain ⟨entries, pieces, hentries, hpass, houtput⟩ := h.pass
  have hlabelled' := h.wellLabelled hlabelled
  have hbehind : ∀ {i k : Nat}, k < Pieces.shift pieces (i + 1) → body.RealBehind i →
      body'.RealBehind k := by
    intro i k hlt hreal
    obtain ⟨later, instruction, hle, here, real⟩ :=
      (realBehind_iff hentries hpass houtput).mp hreal
    exact ⟨later, instruction, by omega, here, real⟩
  have hplaced : ∀ {label : Label} {place : Nat}, Instruction.label label ∈ body.instructions →
      body'.instructions[place]? = some (.label label) →
        (∀ {place : Nat}, body.instructions[place]? = some (.label label) → body.RealBehind place) →
          body'.RealBehind place := by
    intro label place hmem hplace hreal
    obtain ⟨old, hold⟩ := List.mem_iff_getElem?.mp hmem
    obtain ⟨hpiece, hshift⟩ := label_shift hentries hpass houtput hold
    obtain rfl := eq_of_placedLabels hlabelled'.placedOnce hshift hplace
    exact hbehind (by rw [Pieces.shift_succ hpiece]; simp) (hreal hold)
  refine ⟨?_, ?_, ?_, ?_⟩
  · obtain ⟨position, instruction, here, real⟩ := hclosed.nonempty
    obtain ⟨offset, before, piece, after, hpiece, hrewrites, hget⟩ :=
      exists_piece hentries hpass houtput here
    obtain ⟨first, hfirst, hreal⟩ := hrewrites.exists_first real
    exact ⟨_, first, (hget (List.getElem?_eq_some_iff.mp hfirst).1).trans hfirst, hreal⟩
  · intro k instruction here real falls
    obtain ⟨i, entry, offset, before, piece, after, j, hentry, hpiece, hrewrites, hj, rfl, hlt⟩ :=
      exists_origin hentries hpass houtput here
    have hmem := List.mem_of_getElem? hj
    cases hrewrites with
    | keep =>
      obtain rfl := List.mem_singleton.mp hmem
      exact hbehind hlt (hclosed.falls hentry real falls)
    | goto =>
      obtain rfl := List.mem_singleton.mp hmem
      simp [Instruction.fallsThrough] at falls
    | conditional _ _ _ inverted =>
      exact hbehind hlt (hclosed.falls hentry rfl (fallsThrough_of_inverse inverted _))
  · intro k place instruction target here htarget hplace
    obtain ⟨i, entry, offset, before, piece, after, j, hentry, hpiece, hrewrites, hj, rfl, hlt⟩ :=
      exists_origin hentries hpass houtput here
    have hmem := List.mem_of_getElem? hj
    have hold := hresolved.targets (List.mem_of_getElem? hentry)
    cases hrewrites with
    | keep =>
      obtain rfl := List.mem_singleton.mp hmem
      exact hplaced (hold target htarget) hplace fun hplace => hclosed.jumps hentry htarget hplace
    | goto =>
      obtain rfl := List.mem_singleton.mp hmem
      exact hplaced (hold target htarget) hplace fun hplace => hclosed.jumps hentry htarget hplace
    | conditional _ _ _ inverted =>
      simp only [List.mem_cons, List.not_mem_nil, or_false] at hmem
      rcases hmem with rfl | rfl | rfl
      · obtain rfl := List.mem_singleton.mp htarget
        have hskip := Pieces.getElem?_shift (j := 2) hpiece (by simp)
        rw [← houtput] at hskip
        obtain rfl := eq_of_placedLabels hlabelled'.placedOnce hskip hplace
        refine hbehind ?_ (hclosed.falls hentry rfl (fallsThrough_of_inverse inverted _))
        rw [Pieces.shift_succ hpiece]
        simp
      · exact hplaced (hold target htarget) hplace fun hplace => hclosed.jumps hentry htarget hplace
      · simp [Instruction.targets] at htarget
  · intro handler k place instruction hmem hcovers here real hplace
    obtain ⟨i, entry, offset, before, piece, after, j, hentry, hpiece, hrewrites, hj, rfl, hlt⟩ :=
      exists_origin hentries hpass houtput here
    rw [h.handlers] at hmem
    obtain ⟨hstart, hstop, hentered⟩ := hresolved.handlers hmem
    have hcovers := (covers_iff hentries hpass houtput hlabelled' hstart hstop
      (Nat.le_add_right _ _) hlt).mp hcovers
    have hreal : entry.isReal :=
      tame_rewrites.isReal_of_mem hrewrites (List.mem_of_getElem? hj) real
    exact hplaced hentered hplace fun hplace => hclosed.throws hmem hcovers hentry hreal hplace

/-- A body that is closed after a round was closed before. -/
theorem Rounded.closed_of (h : Rounded body body') (hlabelled : body.WellLabelled)
    (hresolved : body.Resolved) (hclosed : body'.Closed) : body.Closed := by
  obtain ⟨entries, pieces, hentries, hpass, houtput⟩ := h.pass
  have hlabelled' := h.wellLabelled hlabelled
  have hbehind : ∀ {i k : Nat}, Pieces.shift pieces (i + 1) ≤ k + 1 → body'.RealBehind k →
      body.RealBehind i := by
    rintro i k hle ⟨later, instruction, hlt, here, real⟩
    exact (realBehind_iff hentries hpass houtput).mpr ⟨later, instruction, by omega, here, real⟩
  have hplaced : ∀ {label : Label} {place : Nat}, body.instructions[place]? = some (.label label) →
      (∀ {place : Nat}, body'.instructions[place]? = some (.label label) → body'.RealBehind place) →
        body.RealBehind place := by
    intro label place hplace hreal
    obtain ⟨hpiece, hshift⟩ := label_shift hentries hpass houtput hplace
    exact hbehind (by rw [Pieces.shift_succ hpiece]; simp) (hreal hshift)
  refine ⟨?_, ?_, ?_, ?_⟩
  · obtain ⟨k, instruction, here, real⟩ := hclosed.nonempty
    obtain ⟨i, entry, offset, before, piece, after, j, hentry, hpiece, hrewrites, hj, -⟩ :=
      exists_origin hentries hpass houtput here
    exact ⟨i, entry, hentry, tame_rewrites.isReal_of_mem hrewrites (List.mem_of_getElem? hj) real⟩
  · intro i instruction here real falls
    obtain ⟨offset, before, piece, after, hpiece, hrewrites, hget⟩ :=
      exists_piece hentries hpass houtput here
    have hnext := Pieces.shift_succ hpiece
    cases hrewrites with
    | keep => exact hbehind hnext.le (hclosed.falls (hget (j := 0) (by simp)) real falls)
    | goto => simp [Instruction.fallsThrough] at falls
    | conditional =>
      have hinverse := hget (j := 0) (by simp)
      have hskip := hget (j := 2) (by simp)
      exact hbehind hnext.le (hclosed.jumps hinverse List.mem_cons_self hskip)
  · intro i place instruction target here htarget hplace
    obtain ⟨offset, before, piece, after, hpiece, hrewrites, hget⟩ :=
      exists_piece hentries hpass houtput here
    refine hplaced hplace fun hplace => ?_
    cases hrewrites with
    | keep => exact hclosed.jumps (hget (j := 0) (by simp)) htarget hplace
    | goto => exact hclosed.jumps (hget (j := 0) (by simp)) htarget hplace
    | conditional => exact hclosed.jumps (hget (j := 1) (by simp)) htarget hplace
  · intro handler i place instruction hmem hcovers here real hplace
    obtain ⟨offset, before, piece, after, hpiece, hrewrites, hget⟩ :=
      exists_piece hentries hpass houtput here
    obtain ⟨hstart, hstop, -⟩ := hresolved.handlers hmem
    obtain ⟨first, hfirst, hreal⟩ := hrewrites.exists_first real
    have hlt : 0 < piece.length := (List.getElem?_eq_some_iff.mp hfirst).1
    have hcovers := (covers_iff hentries hpass houtput hlabelled' hstart hstop le_rfl
      (by rw [Pieces.shift_succ hpiece]; omega)).mpr hcovers
    refine hplaced hplace fun hplace => ?_
    exact hclosed.throws (h.handlers.symm ▸ hmem) hcovers ((hget hlt).trans hfirst) hreal hplace

end Widening

/-! ## Written code -/

/-- An instruction of written code starts at an offset inside of it. -/
def Encoding.StartsAt (located : List (Instruction × Nat)) (code : Bytes) (offset : Nat) : Prop :=
  offset < code.length ∧ ∃ instruction, (instruction, offset) ∈ located ∧ instruction.isReal

/-- Control stays inside written code, whose instructions stand at the offsets of a list: where control
may go an instruction starts. -/
structure CodeAttribute.StaysInside (labels : Placements) (pool : Pool)
    (located : List (Instruction × Nat)) (code : CodeAttribute) : Prop where
  /-- There is code. -/
  nonempty : code.code ≠ []
  /-- An instruction starts behind the bytes of one that control falls through. -/
  falls : ∀ {instruction : Instruction} {offset : Nat} {bytes : Bytes},
    (instruction, offset) ∈ located → instruction.isReal → instruction.fallsThrough →
      Encoding.Writes labels pool offset instruction bytes →
        Encoding.StartsAt located code.code (offset + bytes.length)
  /-- An instruction starts at the target of a jump. -/
  jumps : ∀ {instruction : Instruction} {offset : Nat} {target : Label},
    (instruction, offset) ∈ located → target ∈ instruction.targets →
      ∃ place, labels.find target = .ok place ∧ Encoding.StartsAt located code.code place
  /-- An instruction starts where a handler does. -/
  throws : ∀ entry ∈ code.handlers, Encoding.StartsAt located code.code entry.handler.toNat

namespace Assembly

variable {version : Version} {final : Body} {method : MethodContext} {analysis : Analysis}
  {pool : Pool} {offsets : Layout.Offsets} {code : CodeAttribute}

/-- An entry that protects nothing is not written; one that is written has the offsets of its labels. -/
theorem handlerEntry_settled {labels : Placements} {handler : Handler} {entry : Option HandlerEntry}
    (h : (handlerEntry labels handler).Settled pool entry) :
    ∃ start stop, labels.find handler.start = .ok start ∧ labels.find handler.stop = .ok stop ∧
      ((stop ≤ start ∧ entry = none) ∨ (start < stop ∧ ∃ place caught,
        labels.find handler.handler = .ok place ∧
          (handler.caught.mapM Pool.internClass : Interning _).Settled pool caught ∧
          entry = some {
            start := UInt16.ofNat start
            stop := UInt16.ofNat stop
            handler := UInt16.ofNat place
            caught })) := by
  have hrepeats : ∀ start stop : Nat, Repeats (if stop ≤ start then return none
      else do
        let caught ← handler.caught.mapM Pool.internClass
        let place ← labels.find handler.handler
        return some ⟨UInt16.ofNat start, UInt16.ofNat stop, UInt16.ofNat place, caught⟩ :
          Interning (Option HandlerEntry)) := by
    intro start stop
    split
    · exact .pure _
    · exact (Repeats.optionMapM Pool.repeats_internClass handler.caught).bind fun _ =>
        (Repeats.lift _).bind fun _ => .pure _
  obtain ⟨start, hstart, h⟩ := ((Repeats.lift _).settled_bind fun start =>
    (Repeats.lift _).bind fun stop => hrepeats start stop).mp h
  obtain ⟨stop, hstop, h⟩ := ((Repeats.lift _).settled_bind fun stop => hrepeats start stop).mp h
  refine ⟨start, stop, settled_lift.mp hstart, settled_lift.mp hstop, ?_⟩
  split at h
  · next hle => exact Or.inl ⟨hle, (settled_pure.mp h).symm⟩
  · next hlt =>
    obtain ⟨caught, hcaught, h⟩ := ((Repeats.optionMapM Pool.repeats_internClass
      handler.caught).settled_bind fun _ => (Repeats.lift _).bind fun _ => .pure _).mp h
    obtain ⟨place, hplace, h⟩ := ((Repeats.lift _).settled_bind fun _ => .pure _).mp h
    exact Or.inr ⟨Nat.not_le.mp hlt, place, caught, settled_lift.mp hplace, hcaught,
      (settled_pure.mp h).symm⟩

namespace Written

/-- An instruction starts at the offset of a label exactly if one comes behind it. -/
theorem startsAt_iff (h : Written version final method analysis offsets pool code)
    {i offset : Nat} {instruction : Instruction} {bytes : Bytes}
    (here : (offsets.locate final.instructions)[i]? = some (instruction, offset))
    (hwrites : Encoding.Writes (offsets.labels final.instructions) pool offset instruction bytes) :
    Encoding.StartsAt (offsets.locate final.instructions) code.code (offset + bytes.length) ↔
      final.RealBehind i := by
  have hstarts := h.spells.starts_iff here hwrites
  constructor
  · rintro ⟨-, hnext⟩
    obtain ⟨later, ⟨next, offset'⟩, hlt, hlater, real⟩ := hstarts.mp hnext
    exact ⟨later, next, hlt, (Layout.getElem?_locate h.laid).mpr ⟨offset', hlater⟩, real⟩
  · rintro ⟨later, next, hlt, hlater, real⟩
    obtain ⟨offset', hlater⟩ := (Layout.getElem?_locate h.laid).mp hlater
    obtain ⟨first, hmem, hreal⟩ := hstarts.mpr ⟨later, _, hlt, hlater, real⟩
    have hbound := (h.spells.bounds hmem).2.2 hreal
    exact ⟨by omega, first, hmem, hreal⟩

/-- An instruction starts at the offset of a label exactly if one comes behind it. -/
theorem startsAt_label_iff (h : Written version final method analysis offsets pool code)
    (hlabelled : final.WellLabelled) {i offset : Nat} {label : Label}
    (here : final.instructions[i]? = some (.label label))
    (hfind : (offsets.labels final.instructions).find label = .ok offset) :
    Encoding.StartsAt (offsets.locate final.instructions) code.code offset ↔ final.RealBehind i := by
  obtain ⟨j, hj⟩ := (Layout.find_labels hlabelled h.laid).mp hfind
  have hstands := (Layout.getElem?_locate h.laid).mpr ⟨offset, hj⟩
  obtain rfl := eq_of_placedLabels hlabelled.placedOnce here hstands
  exact h.startsAt_iff hj (.label label)

/-- An entry has a lower offset than another one exactly if an instruction stands between them. -/
theorem offset_lt_iff (h : Written version final method analysis offsets pool code)
    {i j start stop : Nat} {first last : Instruction}
    (hi : (offsets.locate final.instructions)[i]? = some (first, start))
    (hj : (offsets.locate final.instructions)[j]? = some (last, stop)) :
    start < stop ↔ ∃ (k : Nat) (instruction : Instruction), i ≤ k ∧ k < j ∧
      final.instructions[k]? = some instruction ∧ instruction.isReal := by
  constructor
  · intro hlt
    have hij : i ≤ j := by
      by_contra hji
      have := (h.spells.offset_lt_iff (Nat.le_of_not_le hji) hj hi).1
      omega
    obtain ⟨k, ⟨instruction, offset⟩, hik, hkj, hk, real⟩ :=
      (h.spells.offset_lt_iff hij hi hj).2.mp hlt
    exact ⟨k, instruction, hik, hkj, (Layout.getElem?_locate h.laid).mpr ⟨offset, hk⟩, real⟩
  · rintro ⟨k, instruction, hik, hkj, hk, real⟩
    obtain ⟨offset, hk⟩ := (Layout.getElem?_locate h.laid).mp hk
    exact (h.spells.offset_lt_iff (by omega) hi hj).2.mpr ⟨k, _, hik, hkj, hk, real⟩

/-- A handler is written exactly if it covers an instruction. -/
theorem covers_iff (h : Written version final method analysis offsets pool code)
    (hlabelled : final.WellLabelled) {handler : Handler} {start stop : Nat}
    (hstart : (offsets.labels final.instructions).find handler.start = .ok start)
    (hstop : (offsets.labels final.instructions).find handler.stop = .ok stop) :
    start < stop ↔ ∃ position instruction, final.Covers handler position ∧
      final.instructions[position]? = some instruction ∧ instruction.isReal := by
  obtain ⟨i, hi⟩ := (Layout.find_labels hlabelled h.laid).mp hstart
  obtain ⟨j, hj⟩ := (Layout.find_labels hlabelled h.laid).mp hstop
  have hi' := (Layout.getElem?_locate h.laid).mpr ⟨start, hi⟩
  have hj' := (Layout.getElem?_locate h.laid).mpr ⟨stop, hj⟩
  rw [h.offset_lt_iff hi hj]
  constructor
  · rintro ⟨k, instruction, hik, hkj, hk, real⟩
    exact ⟨k, instruction, ⟨i, j, hi', hj', hik, hkj⟩, hk, real⟩
  · rintro ⟨k, instruction, ⟨i', j', hi'', hj'', hik, hkj⟩, hk, real⟩
    obtain rfl := eq_of_placedLabels hlabelled.placedOnce hi' hi''
    obtain rfl := eq_of_placedLabels hlabelled.placedOnce hj' hj''
    exact ⟨k, instruction, hik, hkj, hk, real⟩

/-- Offsets of labels fit in two bytes. -/
theorem toNat_ofNat (h : Written version final method analysis offsets pool code)
    (hlabelled : final.WellLabelled) {label : Label} {offset : Nat}
    (hfind : (offsets.labels final.instructions).find label = .ok offset) :
    (UInt16.ofNat offset).toNat = offset := by
  obtain ⟨i, hi⟩ := (Layout.find_labels hlabelled h.laid).mp hfind
  have hbound := (h.spells.bounds (List.mem_of_getElem? hi)).2.1
  have hlength := h.length_le
  simp only [longestCode] at hlength
  exact UInt16.toNat_ofNat_of_lt' (by simp only [UInt16.size]; omega)

/-- Control stays inside the code that is written for a body exactly if the body is closed. -/
theorem staysInside_iff (h : Written version final method analysis offsets pool code)
    (hlabelled : final.WellLabelled) (hresolved : final.Resolved) :
    code.StaysInside (offsets.labels final.instructions) pool (offsets.locate final.instructions) ↔
      final.Closed := by
  have hfind : ∀ {label : Label} {i : Nat}, final.instructions[i]? = some (.label label) →
      ∃ offset, (offsets.labels final.instructions).find label = .ok offset := by
    intro label i here
    obtain ⟨offset, hoffset⟩ := (Layout.getElem?_locate h.laid).mp here
    exact ⟨offset, (Layout.find_labels hlabelled h.laid).mpr ⟨i, hoffset⟩⟩
  obtain ⟨entries, hentries, hhandlers⟩ := h.handlers
  constructor
  · intro hinside
    refine ⟨?_, ?_, ?_, ?_⟩
    · obtain ⟨⟨instruction, offset⟩, hmem, real⟩ := h.spells.exists_real hinside.nonempty
      obtain ⟨i, hlocated⟩ := List.mem_iff_getElem?.mp hmem
      exact ⟨i, instruction, (Layout.getElem?_locate h.laid).mpr ⟨offset, hlocated⟩, real⟩
    · intro position instruction here real falls
      obtain ⟨offset, hlocated⟩ := (Layout.getElem?_locate h.laid).mp here
      obtain ⟨-, bytes, -, -, -, hwrites, -⟩ := h.spells.split hlocated
      exact (h.startsAt_iff hlocated hwrites).mp
        (hinside.falls (List.mem_of_getElem? hlocated) real falls hwrites)
    · intro position place instruction target here htarget hplace
      obtain ⟨offset, hlocated⟩ := (Layout.getElem?_locate h.laid).mp here
      obtain ⟨offset', hfound, hstarts⟩ :=
        hinside.jumps (List.mem_of_getElem? hlocated) htarget
      exact (h.startsAt_label_iff hlabelled hplace hfound).mp hstarts
    · intro handler position place instruction hmem hcovers here real hplace
      obtain ⟨entry, hentry, hsettled⟩ := exists_right_of_forall₂ hentries hmem
      obtain ⟨start, stop, hstart, hstop, ⟨hle, -⟩ | ⟨-, place', caught, hfound, -, rfl⟩⟩ :=
        handlerEntry_settled hsettled
      · have := (h.covers_iff hlabelled hstart hstop).mpr ⟨position, instruction, hcovers, here, real⟩
        omega
      · have hwritten : ⟨UInt16.ofNat start, UInt16.ofNat stop, UInt16.ofNat place', caught⟩ ∈
            code.handlers := by
          rw [hhandlers]
          exact List.mem_filterMap.mpr ⟨_, hentry, rfl⟩
        have hstarts := hinside.throws _ hwritten
        rw [h.toNat_ofNat hlabelled hfound] at hstarts
        exact (h.startsAt_label_iff hlabelled hplace hfound).mp hstarts
  · intro hclosed
    refine ⟨?_, ?_, ?_, ?_⟩
    · obtain ⟨position, instruction, here, real⟩ := hclosed.nonempty
      obtain ⟨offset, hlocated⟩ := (Layout.getElem?_locate h.laid).mp here
      have hbound := (h.spells.bounds (List.mem_of_getElem? hlocated)).2.2 real
      rintro hnil
      simp [hnil] at hbound
    · intro instruction offset bytes hmem real falls hwrites
      obtain ⟨i, hlocated⟩ := List.mem_iff_getElem?.mp hmem
      have here := (Layout.getElem?_locate h.laid).mpr ⟨offset, hlocated⟩
      exact (h.startsAt_iff hlocated hwrites).mpr (hclosed.falls here real falls)
    · intro instruction offset target hmem htarget
      obtain ⟨i, hlocated⟩ := List.mem_iff_getElem?.mp hmem
      have here := (Layout.getElem?_locate h.laid).mpr ⟨offset, hlocated⟩
      obtain ⟨place, hplace⟩ := List.mem_iff_getElem?.mp
        (hresolved.targets (List.mem_of_getElem? here) target htarget)
      obtain ⟨offset', hfound⟩ := hfind hplace
      exact ⟨offset', hfound,
        (h.startsAt_label_iff hlabelled hplace hfound).mpr (hclosed.jumps here htarget hplace)⟩
    · intro entry hmem
      rw [hhandlers] at hmem
      obtain ⟨found, hfound, hsome⟩ := List.mem_filterMap.mp hmem
      obtain ⟨handler, hhandler, hsettled⟩ := exists_left_of_forall₂ hentries hfound
      obtain ⟨start, stop, hstart, hstop, ⟨-, rfl⟩ | ⟨hlt, offset, caught, hoffset, -, rfl⟩⟩ :=
        handlerEntry_settled hsettled
      · simp at hsome
      · obtain rfl := Option.some.inj hsome
        obtain ⟨position, instruction, hcovers, here, real⟩ :=
          (h.covers_iff hlabelled hstart hstop).mp hlt
        obtain ⟨i, hi⟩ := (Layout.find_labels hlabelled h.laid).mp hoffset
        have hplace := (Layout.getElem?_locate h.laid).mpr ⟨offset, hi⟩
        rw [h.toNat_ofNat hlabelled hoffset]
        exact (h.startsAt_label_iff hlabelled hplace hoffset).mpr
          (hclosed.throws hhandler hcovers here real hplace)

end Written

/-- A prepared body is closed exactly if control does not run off the end of the body that it was
prepared from. -/
theorem Prepared.closed_iff {body : Body} {hierarchy : Hierarchy} {first : Analysis}
    {runs : List DeadRun} {middle : Body} {changed : Bool} {roots : List Root}
    (h : Prepared body method hierarchy pool first runs middle changed roots final analysis)
    (hlabelled : body.WellLabelled) :
    final.Resolved ∧ (final.Closed ↔ ¬ body.RunsOff) := by
  have hlabelled' := h.replaced.wellLabelled hlabelled
  have hresolved := h.replaced.resolved hlabelled h.once
  obtain ⟨⟨-, hresolved', hsame⟩, -⟩ := Body.widenJumps_induction
    (fun next => next.WellLabelled ∧ next.Resolved ∧ (next.Closed ↔ middle.Closed))
    (fun hround ⟨hlabelled, hresolved, hsame⟩ => ⟨hround.wellLabelled hlabelled,
      hround.resolved hresolved, Iff.trans ⟨hround.closed_of hlabelled hresolved,
        hround.closed hlabelled hresolved⟩ hsame⟩)
    ⟨hlabelled', hresolved, Iff.rfl⟩ h.widened
  exact ⟨hresolved', hsame.trans ⟨h.replaced.not_runsOff hlabelled h.once,
    h.replaced.closed hlabelled h.once⟩⟩

end Assembly

/-- **Control stays inside assembled code unless it runs off the body.**  The bytecode that is assembled
from a well labelled body spells out the prepared instructions at their offsets.  It is not empty, and
an instruction of it starts wherever one may continue, jump or throw to, if and only if control does not
reach a label or line number behind the last instruction of the body. -/
theorem assemble_staysInside_iff {body : Body} {method : MethodContext} {version : Version}
    {hierarchy : Hierarchy} {pool pool' : Pool} {code : CodeAttribute}
    (hlabelled : body.WellLabelled)
    (h : (body.assemble method version hierarchy).finish pool = .ok (code, pool')) :
    ∃ final analysis located,
      (Assembly.prepare body method hierarchy).Settled pool' (final, analysis) ∧
      located.map Prod.fst = final.instructions ∧
      Encoding.Spells (Placements.ofList located) pool' 0 located code.code ∧
      (code.StaysInside (Placements.ofList located) pool' located ↔ ¬ body.RunsOff) := by
  obtain ⟨-, final, analysis, -, offsets, -, hsettled, hwritten⟩ := Body.exists_written h
  obtain ⟨first, runs, middle, changed, roots, hprepared⟩ := Assembly.exists_prepared hsettled
  obtain ⟨hresolved, hclosed⟩ := hprepared.closed_iff hlabelled
  exact ⟨final, analysis, offsets.locate final.instructions, hsettled,
    (Layout.lays_of_offsets hwritten.laid).1, hwritten.spells,
    (hwritten.staysInside_iff (hprepared.wellLabelled hlabelled) hresolved).trans hclosed⟩

/-- A body that does nothing, with a label at its end. -/
def trailingLabel : Body where
  instructions := [.plain Opcode.nop, .label ⟨0⟩]
  nextLabel := 1

/-- Control reaches the label at the end of the body. -/
theorem runsOff_trailingLabel : trailingLabel.RunsOff := by
  have here : trailingLabel.instructions[0]? = some (.plain Opcode.nop) := rfl
  exact ⟨1, .label ⟨0⟩, rfl, rfl, rfl, 0, List.mem_singleton.mpr rfl, .single (.next here rfl (by decide))⟩

/-- A body with a label at its end is assembled, and control leaves its bytecode. -/
theorem not_staysInside_trailingLabel : trailingLabel.WellLabelled ∧
    (trailingLabel.assemble ⟨"A", "f", "()V", true⟩ ⟨52, 0⟩ Classpath.empty.hierarchy).finish
      Pool.empty = .ok (⟨0, 0, [Opcode.nop], [], []⟩, Pool.empty) ∧
    ∃ located, Encoding.Spells (Placements.ofList located) Pool.empty 0 located [Opcode.nop] ∧
      ¬ CodeAttribute.StaysInside (Placements.ofList located) Pool.empty located
        ⟨0, 0, [Opcode.nop], [], []⟩ := by
  have hlabelled : trailingLabel.WellLabelled := ⟨by decide, by decide⟩
  have hassemble : (trailingLabel.assemble ⟨"A", "f", "()V", true⟩ ⟨52, 0⟩
      Classpath.empty.hierarchy).finish Pool.empty =
        .ok (⟨0, 0, [Opcode.nop], [], []⟩, Pool.empty) := by
    cbv
  obtain ⟨final, analysis, located, -, -, hspells, hstays⟩ :=
    assemble_staysInside_iff hlabelled hassemble
  exact ⟨hlabelled, hassemble, located, hspells,
    fun hinside => hstays.mp hinside runsOff_trailingLabel⟩

end ClassInstrument
