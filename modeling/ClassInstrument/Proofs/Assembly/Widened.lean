import ClassInstrument.Proofs.Assembly.Offsets
import ClassInstrument.Proofs.Assembly.Widening
import ClassInstrument.Proofs.Code.Decodable

/-!
# What widening makes of a body

However many rounds it takes, what stands in the place of an entry in the end is the entry itself, the wide
form of a `goto`, or the inverse of a conditional jump over a wide `goto`.  A later round leaves what an
earlier one has put in the place of a jump as it is: a wide `goto` is not rewritten, and the inverse jump
leads over one instruction only and so reaches its target.

So each round that changes something rewrites a short jump that stood there from the start, and there are
no more such rounds than short jumps (`Widened.round`).
-/

namespace ClassInstrument

open Interning Outcome

namespace Layout

variable {pool : Pool} {start stop : ℕ}

/-- What is laid out together is laid out one after the other. -/
theorem Lays.append {located more : List (Instruction × ℕ)} (h : Lays pool start (located ++ more) stop) :
    ∃ middle, Lays pool start located middle ∧ Lays pool middle more stop := by
  induction located generalizing start with
  | nil => exact ⟨start, .nil start, h⟩
  | cons entry located ih =>
    cases h with
    | cons first others =>
      obtain ⟨middle, hlocated, hmore⟩ := ih others
      exact ⟨middle, .cons first hlocated, hmore⟩

end Layout

/-- A pass over two lists is one pass after the other. -/
theorem Pass.append {rewrites : Rewriting} {entries more : List (Instruction × ℕ)} {first next : ℕ}
    {pieces : List (List Instruction)} (h : Pass rewrites (entries ++ more) first pieces next) :
    ∃ front back middle, pieces = front ++ back ∧ Pass rewrites entries first front middle ∧
      Pass rewrites more middle back next := by
  induction entries generalizing first pieces with
  | nil => exact ⟨[], pieces, first, rfl, .nil first, h⟩
  | cons entry entries ih =>
    cases h with
    | cons here others =>
      obtain ⟨front, back, middle, rfl, hfront, hback⟩ := ih others
      exact ⟨_ :: front, back, middle, rfl, .cons here hfront, hback⟩

namespace Widening

/-! ## The inverse of a jump -/

/-- The inverse of a conditional jump is one. -/
theorem inverse_of_inverse {opcode inverse : Opcode} (h : opcode.inverse? = some inverse) :
    inverse.inverse? = some opcode := by
  have hall : ∀ opcode : Opcode,
      opcode.inverse?.all fun inverse => inverse.inverse? == some opcode :=
    Opcode.forall_of_fin (by decide +kernel)
  have hopcode := hall opcode
  rw [h, Option.all_some] at hopcode
  exact eq_of_beq hopcode

/-- The inverse of a conditional jump is short. -/
theorem isWideJump_of_inverse {opcode inverse : Opcode} (h : opcode.inverse? = some inverse) :
    inverse.isWideJump = false :=
  Opcode.not_isWideJump_of_form inverse (Opcode.form_inverse opcode inverse h)

/-! ## Pieces -/

/-- What may stand in the place of an entry when labels from a number on are fresh. -/
inductive Widens (first : ℕ) : Instruction → List Instruction → Prop
  /-- The entry stays. -/
  | keep (entry) : Widens first entry [entry]
  /-- A jump has its wide form. -/
  | goto (target) : Widens first (.jump Opcode.goto target) [.jump Opcode.gotoWide target]
  /-- A conditional jump is inverted, and leads over a wide one. -/
  | conditional {opcode inverse} (target skip) (inverted : opcode.inverse? = some inverse)
      (fresh : first ≤ skip.number) :
      Widens first (.jump opcode target)
        [.jump inverse skip, .jump Opcode.gotoWide target, .label skip]

/-- The number of short jumps that are still in their places. -/
def left (instructions : List Instruction) (pieces : List (List Instruction)) : ℕ :=
  (instructions.zip pieces).countP fun both => isShortJump both.1 && both.2 == [both.1]

variable {pool : Pool} {labels : Placements} {first start stop next next' : ℕ}
  {entries : List (Instruction × ℕ)} {outs : List (List Instruction)}

/-- A jump that is not taken over by a wide one stays. -/
theorem Turns.eq_of_wide {target : Label} {offset : ℕ} {piece : List Instruction}
    (h : Turns labels (.jump Opcode.gotoWide target, offset) next piece next') :
    piece = [.jump Opcode.gotoWide target] := by
  cases h with
  | keep => rfl
  | conditional _ _ _ inverted =>
    exact absurd (isWideJump_of_inverse (inverse_of_inverse inverted)) (by decide)

/-- A label stays. -/
theorem Turns.eq_of_label {label : Label} {offset : ℕ} {piece : List Instruction}
    (h : Turns labels (.label label, offset) next piece next') : piece = [.label label] := by
  cases h
  rfl

/-- A jump that reaches its target stays. -/
theorem Turns.eq_of_near {opcode : Opcode} {target : Label} {offset place : ℕ} {piece : List Instruction}
    (h : Turns labels (.jump opcode target, offset) next piece next') (found : labels.find target = .ok place)
    (near : fits ((place : ℤ) - (offset : ℤ))) : piece = [.jump opcode target] := by
  have hplace {place' : ℕ} (found' : labels.find target = .ok place') : place' = place :=
    Except.ok.inj (found'.symm.trans found)
  cases h with
  | keep => rfl
  | goto _ _ _ found' far => exact absurd near (hplace found' ▸ far)
  | conditional _ _ _ _ found' far => exact absurd near (hplace found' ▸ far)

/-- A jump takes five bytes at most. -/
theorem size_jump_le {opcode : Opcode} {target : Label} {offset bytes : ℕ}
    (h : (Layout.size offset (.jump opcode target)).Settled pool bytes) : bytes ≤ 5 := by
  obtain rfl := settled_pure.mp h
  split <;> omega

/-- A jump over another one reaches its target. -/
theorem fits_of_two_jumps (offset : ℕ) {bytes bytes' : ℕ} (h : bytes ≤ 5) (h' : bytes' ≤ 5) :
    fits (((offset + bytes + bytes' : ℕ) : ℤ) - (offset : ℤ)) := by
  simp only [fits, Bool.and_eq_true, decide_eq_true_eq]
  omega

/-- A round over what stands in the place of an entry rewrites the entry itself at most. -/
theorem Widens.turn {entry : Instruction} {piece : List Instruction} (h : Widens first entry piece)
    (hentries : entries.map Prod.fst = piece) (hlays : Layout.Lays pool start entries stop)
    (hlabels : ∀ label offset, (.label label, offset) ∈ entries → labels.find label = .ok offset)
    (hpass : Pass (Turns labels) entries next outs next') (hfirst : first ≤ next) :
    ∃ piece', Widens first entry piece' ∧ outs.flatten = piece' ∧
      left [entry] [piece'] + turned entries outs ≤ left [entry] [piece] := by
  cases h with
  | keep entry =>
    obtain ⟨⟨_, offset⟩, rest, rfl, rfl, hrest⟩ := List.map_eq_cons_iff.mp hentries
    obtain rfl := List.map_eq_nil_iff.mp hrest
    obtain _ | ⟨here, _ | _⟩ := hpass
    cases here with
    | keep => exact ⟨_, .keep _, by simp, by simp [turned]⟩
    | goto target =>
      refine ⟨_, .goto target, by simp, ?_⟩
      simp [left, turned, isShortJump, Opcode.isWideJump, Opcode.goto, Opcode.gotoWide, Opcode.jsrWide]
    | conditional target _ _ inverted =>
      refine ⟨_, .conditional target _ inverted hfirst, by simp, ?_⟩
      have hshort := isWideJump_of_inverse (inverse_of_inverse inverted)
      simp [left, turned, isShortJump, hshort]
  | goto target =>
    obtain ⟨⟨_, offset⟩, rest, rfl, rfl, hrest⟩ := List.map_eq_cons_iff.mp hentries
    obtain rfl := List.map_eq_nil_iff.mp hrest
    obtain _ | ⟨here, _ | _⟩ := hpass
    rw [here.eq_of_wide]
    exact ⟨_, .goto target, by simp, by simp [turned]⟩
  | @conditional opcode inverse target skip inverted fresh =>
    obtain ⟨⟨_, offset⟩, rest, rfl, rfl, hrest⟩ := List.map_eq_cons_iff.mp hentries
    obtain ⟨⟨_, offset'⟩, rest', rfl, rfl, hrest'⟩ := List.map_eq_cons_iff.mp hrest
    obtain ⟨⟨_, offset''⟩, rest'', rfl, rfl, hrest''⟩ := List.map_eq_cons_iff.mp hrest'
    obtain rfl := List.map_eq_nil_iff.mp hrest''
    obtain _ | ⟨here, _ | ⟨here', _ | ⟨here'', _ | _⟩⟩⟩ := hpass
    -- The skipped jump is all that stands between the inverse jump and its target.
    obtain _ | ⟨hsize, _ | ⟨hsize', _ | _⟩⟩ := hlays
    have hnear := fits_of_two_jumps start (size_jump_le hsize) (size_jump_le hsize')
    have hskip := hlabels skip _ (List.mem_cons_of_mem _ (List.mem_cons_of_mem _ List.mem_cons_self))
    rw [here.eq_of_near hskip hnear, here'.eq_of_wide, here''.eq_of_label]
    exact ⟨_, .conditional target skip inverted fresh, by simp, by simp [turned]⟩

/-- The short jumps of two lists together. -/
theorem left_cons (entry : Instruction) (instructions : List Instruction) (piece : List Instruction)
    (pieces : List (List Instruction)) :
    left (entry :: instructions) (piece :: pieces) = left [entry] [piece] + left instructions pieces := by
  simp only [left, List.zip_cons_cons, List.countP_cons, List.zip_nil_left, List.countP_nil]
  omega

/-- The changed entries of two lists together. -/
theorem turned_append {more : List (Instruction × ℕ)} {back : List (List Instruction)}
    (hlength : outs.length = entries.length) :
    turned (entries ++ more) (outs ++ back) = turned entries outs + turned more back := by
  rw [turned, turned, turned, List.zip_append hlength.symm, List.countP_append]

/-- A round over pieces rewrites entries that are still in their places at most. -/
theorem exists_turned {instructions : List Instruction} {pieces : List (List Instruction)}
    (h : List.Forall₂ (Widens first) instructions pieces)
    (hentries : entries.map Prod.fst = pieces.flatten) (hlays : Layout.Lays pool start entries stop)
    (hlabels : ∀ label offset, (.label label, offset) ∈ entries → labels.find label = .ok offset)
    (hpass : Pass (Turns labels) entries next outs next') (hfirst : first ≤ next) :
    ∃ pieces', List.Forall₂ (Widens first) instructions pieces' ∧ outs.flatten = pieces'.flatten ∧
      left instructions pieces' + turned entries outs ≤ left instructions pieces := by
  induction h generalizing entries outs start next with
  | nil =>
    obtain rfl := List.map_eq_nil_iff.mp hentries
    cases hpass
    exact ⟨[], .nil, rfl, le_rfl⟩
  | @cons entry piece instructions pieces hpiece _ ih =>
    rw [List.flatten_cons] at hentries
    obtain ⟨front, back, rfl, hfront, hback⟩ := List.map_eq_append_iff.mp hentries
    obtain ⟨middle, hlaysFront, hlaysBack⟩ := hlays.append
    obtain ⟨outsFront, outsBack, between, rfl, hpassFront, hpassBack⟩ := hpass.append
    obtain ⟨piece', hpiece', hflat, hleft⟩ := hpiece.turn hfront hlaysFront
      (fun label offset hmem => hlabels label offset (List.mem_append_left _ hmem)) hpassFront hfirst
    have hbetween : next ≤ between := (rewrites_of_turns hpassFront).le tame_rewrites
    obtain ⟨pieces', hpieces', hflat', hleft'⟩ := ih hback hlaysBack
      (fun label offset hmem => hlabels label offset (List.mem_append_right _ hmem)) hpassBack
      (hfirst.trans hbetween)
    refine ⟨piece' :: pieces', .cons hpiece' hpieces', ?_, ?_⟩
    · rw [List.flatten_append, List.flatten_cons, hflat, hflat']
    · rw [left_cons, left_cons entry instructions piece, turned_append hpassFront.length_eq]
      omega

/-! ## Widened bodies -/

/-- A body in which jumps are widened: what stands in the places of the entries, and which labels are
new. -/
structure Widened (body wide : Body) (pieces : List (List Instruction)) : Prop where
  /-- The pieces stand in the places of the entries. -/
  widens : List.Forall₂ (Widens body.nextLabel) body.instructions pieces
  /-- The instructions are those of the pieces, and nothing else changes. -/
  eq : wide = { body with instructions := pieces.flatten, nextLabel := wide.nextLabel }
  /-- Labels are handed out in order. -/
  le : body.nextLabel ≤ wide.nextLabel
  /-- The labels that are placed are the old ones, and those that were handed out. -/
  labels : (placedLabels wide.instructions).Perm
    (placedLabels body.instructions ++ freshLabels body.nextLabel wide.nextLabel)

variable {body mid wide : Body} {pieces : List (List Instruction)}

/-- A body in which nothing is widened yet. -/
theorem Widened.refl (body : Body) : Widened body body (body.instructions.map ([·])) where
  widens := by
    rw [List.forall₂_map_right_iff]
    exact List.forall₂_same.mpr fun entry _ => .keep entry
  eq := by rw [← List.flatMap_def, List.flatMap_singleton']
  le := le_rfl
  labels := by simp

/-- At first all short jumps are in their places. -/
theorem left_refl (instructions : List Instruction) :
    left instructions (instructions.map ([·])) = instructions.countP isShortJump := by
  induction instructions with
  | nil => rfl
  | cons entry instructions ih => rw [List.map_cons, left_cons, ih, List.countP_cons]; simp [left]; omega

/-- Widening keeps a body well labelled. -/
theorem Widened.wellLabelled (h : Widened body wide pieces) (hlabelled : body.WellLabelled) :
    wide.WellLabelled :=
  hlabelled.of_perm h.le h.labels

/-- A round goes on with the widening, and if it changes anything, a short jump less is in its place. -/
theorem Widened.round (h : Widened body mid pieces) (hlabelled : body.WellLabelled) {changed : Bool}
    (hround : (round mid).Settled pool (wide, changed)) : ∃ pieces', Widened body wide pieces' ∧
      left body.instructions pieces' + changed.toNat ≤ left body.instructions pieces := by
  obtain ⟨offsets, outs, hoffsets, hpass, hwide, hchanged⟩ := turns_of_settled hround
  obtain ⟨hentries, -, hlays⟩ := Layout.lays_of_offsets hoffsets
  have hmid := h.wellLabelled hlabelled
  have hlabels (label : Label) (offset : ℕ)
      (hmem : (.label label, offset) ∈ offsets.locate mid.instructions) :
      (offsets.labels mid.instructions).find label = .ok offset :=
    (Layout.find_labels hmid hoffsets).mpr (List.mem_iff_getElem?.mp hmem)
  have hinstructions : mid.instructions = pieces.flatten := by rw [h.eq]
  obtain ⟨pieces', hpieces', hflat, hleft⟩ := exists_turned h.widens (hentries.trans hinstructions) hlays
    hlabels hpass h.le
  have hrewrites := rewrites_of_turns hpass
  have hle := hrewrites.le tame_rewrites
  refine ⟨pieces', ⟨hpieces', ?_, h.le.trans hle, ?_⟩, ?_⟩
  · rw [hwide, ← hflat, h.eq]
  · rw [show wide.instructions = outs.flatten by rw [hwide]]
    refine (hrewrites.perm_labels tame_rewrites).trans ?_
    rw [hentries, ← freshLabels_append h.le hle, ← List.append_assoc]
    exact h.labels.append_right _
  · rw [hchanged]
    refine le_trans (Nat.add_le_add_left ?_ _) hleft
    by_cases hturned : 0 < turned (offsets.locate mid.instructions) outs
    · rw [decide_eq_true hturned]
      exact hturned
    · rw [decide_eq_false hturned]
      exact Nat.zero_le _

end Widening

end ClassInstrument
