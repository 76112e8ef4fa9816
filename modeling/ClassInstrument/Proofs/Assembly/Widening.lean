import ClassInstrument.Assembly.Widening
import ClassInstrument.Proofs.Assembly.Encoding
import ClassInstrument.Proofs.Code.Passes

/-!
# Rounds of widening

A round of widening is a pass over a body that replaces jumps only: a `goto` by its wide form, and a
conditional jump by the inverse jump over a wide `goto`.  What every round keeps, widening keeps.
-/

namespace ClassInstrument

open Interning Outcome

namespace Widening

/-- What a round puts in the place of an entry. -/
inductive Rewrites : Rewriting
  /-- The entry stays. -/
  | keep (entry first) : Rewrites entry first [entry.1] first
  /-- A jump takes its wide form. -/
  | goto (target offset first) :
      Rewrites (.jump Opcode.goto target, offset) first [.jump Opcode.gotoWide target] first
  /-- A conditional jump is inverted, and leads over a wide one. -/
  | conditional {opcode inverse} (target offset first) (inverted : opcode.inverse? = some inverse) :
      Rewrites (.jump opcode target, offset) first
        [.jump inverse ⟨first⟩, .jump Opcode.gotoWide target, .label ⟨first⟩] (first + 1)

theorem tame_rewrites : Rewriting.Tame Rewrites where
  le h := by cases h <;> omega
  marks h hunreal := by
    cases h with
    | keep => rfl
    | goto | conditional => simp [Instruction.isReal] at hunreal
  fresh h hreal := by
    cases h with
    | keep => simp [placedLabels, Instruction.placed?_of_real hreal]
    | goto => simp [placedLabels, Instruction.placed?]
    | conditional =>
      simp only [freshLabels, Nat.add_sub_cancel_left, List.range'_one, List.map_cons, List.map_nil]
      rfl
  idle h hunreal := by
    cases h with
    | keep => rfl
    | goto => rfl
    | conditional => simp [Instruction.isReal] at hunreal

/-- What a round does to an entry, given the places of labels: a jump is rewritten exactly if it does not
reach its target. -/
inductive Turns (labels : Placements) : Rewriting
  /-- The entry stays. -/
  | keep (entry first)
      (near : ∀ opcode target, entry.1 = .jump opcode target → opcode.isWideJump = false →
        ∃ place : ℕ, labels.find target = .ok place ∧ fits ((place : ℤ) - (entry.2 : ℤ))) :
      Turns labels entry first [entry.1] first
  /-- A jump takes its wide form. -/
  | goto (target) (offset first : ℕ) {place : ℕ} (found : labels.find target = .ok place)
      (far : ¬ fits ((place : ℤ) - (offset : ℤ))) :
      Turns labels (.jump Opcode.goto target, offset) first [.jump Opcode.gotoWide target] first
  /-- A conditional jump is inverted, and leads over a wide one. -/
  | conditional {opcode inverse} (target) (offset first : ℕ) {place : ℕ}
      (inverted : opcode.inverse? = some inverse) (found : labels.find target = .ok place)
      (far : ¬ fits ((place : ℤ) - (offset : ℤ))) :
      Turns labels (.jump opcode target, offset) first
        [.jump inverse ⟨first⟩, .jump Opcode.gotoWide target, .label ⟨first⟩] (first + 1)

variable {labels : Placements}

/-- A round rewrites jumps only. -/
theorem Turns.rewrites {entry : Instruction × ℕ} {first next : ℕ} {piece : List Instruction}
    (h : Turns labels entry first piece next) : Rewrites entry first piece next := by
  cases h with
  | keep => exact .keep _ _
  | goto => exact .goto _ _ _
  | conditional _ _ _ inverted => exact .conditional _ _ _ inverted

/-- One step of a round puts a piece behind the new instructions, and notes whether it changes a jump. -/
theorem step_eq_ok {state state' : State} {entry : Instruction × Nat}
    (h : step labels state entry = .ok state') : ∃ piece,
      Turns labels entry state.nextLabel piece state'.nextLabel ∧
        state'.done.reverse = state.done.reverse ++ piece ∧
          state'.changed = (state.changed || piece != [entry.1]) := by
  unfold step at h
  split at h
  · next opcode target offset =>
    split at h
    · next hwide =>
      obtain rfl := Except.ok.inj h
      refine ⟨_, .keep _ _ ?_, by simp, by simp⟩
      rintro _ _ heq hshort
      obtain ⟨rfl, rfl⟩ := Instruction.jump.inj heq
      exact absurd hwide (by simp [hshort])
    · obtain ⟨place, hplace, h⟩ := bind_eq_ok.mp h
      split at h
      · next hnear =>
        obtain rfl := pure_eq_ok.mp h
        refine ⟨_, .keep _ _ ?_, by simp, by simp⟩
        rintro _ _ heq -
        obtain ⟨rfl, rfl⟩ := Instruction.jump.inj heq
        exact ⟨place, hplace, hnear⟩
      · next hfar =>
        unfold widen at h
        split at h
        · next hgoto =>
          obtain rfl := Except.ok.inj h
          subst hgoto
          exact ⟨_, .goto target offset _ hplace hfar, by simp, by simp [Opcode.goto, Opcode.gotoWide]⟩
        · split at h
          · next inverse hinverse =>
            obtain rfl := Except.ok.inj h
            exact ⟨_, .conditional target offset _ hinverse hplace hfar, by simp, by simp⟩
          · simp at h
  · next hjump =>
    obtain rfl := Except.ok.inj h
    refine ⟨_, .keep _ _ ?_, by simp, by simp⟩
    rintro opcode target rfl -
    exact (hjump opcode target rfl).elim

/-- The number of entries that a pass changes. -/
def turned (entries : List (Instruction × ℕ)) (pieces : List (List Instruction)) : ℕ :=
  (entries.zip pieces).countP fun both => both.2 != [both.1.1]

/-- A pass that changes no entry keeps the list. -/
theorem flatten_of_turned_eq_zero {entries : List (Instruction × ℕ)} {pieces : List (List Instruction)}
    (hlength : pieces.length = entries.length) (h : turned entries pieces = 0) :
    pieces.flatten = entries.map Prod.fst := by
  induction entries generalizing pieces with
  | nil => rw [List.length_eq_zero_iff.mp hlength]; rfl
  | cons entry entries ih =>
    obtain ⟨piece, pieces, rfl⟩ := List.exists_cons_of_length_eq_add_one hlength
    rw [turned, List.zip_cons_cons, List.countP_cons, Nat.add_eq_zero_iff] at h
    have hpiece : piece = [entry.1] := by simpa using h.2
    rw [List.flatten_cons, ih (by simpa using hlength) h.1, hpiece]
    rfl

/-- The steps of a round make up a pass, and the round notes whether any jump is changed. -/
theorem turns_of_foldlM {entries : List (Instruction × Nat)} {state state' : State}
    (h : entries.foldlM (step labels) state = .ok state') : ∃ pieces,
      Pass (Turns labels) entries state.nextLabel pieces state'.nextLabel ∧
        state'.done.reverse = state.done.reverse ++ pieces.flatten ∧
          state'.changed = (state.changed || decide (0 < turned entries pieces)) := by
  induction entries generalizing state with
  | nil =>
    obtain rfl := pure_eq_ok.mp h
    exact ⟨[], .nil _, by simp, by simp [turned]⟩
  | cons entry entries ih =>
    rw [List.foldlM_cons] at h
    obtain ⟨middle, hstep, h⟩ := bind_eq_ok.mp h
    obtain ⟨piece, hturns, hdone, hchanged⟩ := step_eq_ok hstep
    obtain ⟨pieces, hpass, hdone', hchanged'⟩ := ih h
    refine ⟨piece :: pieces, .cons hturns hpass, by rw [hdone', hdone]; simp, ?_⟩
    rw [hchanged', hchanged, turned, turned, List.zip_cons_cons, List.countP_cons]
    by_cases hpiece : piece = [entry.1]
    · rw [if_neg (by simp [hpiece]), Nat.add_zero]
      simp [hpiece]
    · simp [hpiece]

/-- A round rewrites jumps only. -/
theorem rewrites_of_turns {entries : List (Instruction × ℕ)} {first next : ℕ}
    {pieces : List (List Instruction)} (h : Pass (Turns labels) entries first pieces next) :
    Pass Rewrites entries first pieces next := by
  induction h with
  | nil first => exact .nil first
  | cons here _ ih => exact .cons here.rewrites ih

/-- A round that changes no jump hands out no label. -/
theorem next_of_turned_eq_zero {entries : List (Instruction × ℕ)} {first next : ℕ}
    {pieces : List (List Instruction)} (hpass : Pass (Turns labels) entries first pieces next)
    (h : turned entries pieces = 0) : next = first := by
  induction hpass with
  | nil => rfl
  | @cons entry entries first piece pieces middle next here others ih =>
    rw [turned, List.zip_cons_cons, List.countP_cons, Nat.add_eq_zero_iff] at h
    rw [ih h.1]
    cases here with
    | keep | goto => rfl
    | conditional => simp at h

/-- What a round makes of a body. -/
structure Rounded (body body' : Body) : Prop where
  /-- The instructions are rewritten in a pass. -/
  pass : ∃ entries pieces, entries.map Prod.fst = body.instructions ∧
    Pass Rewrites entries body.nextLabel pieces body'.nextLabel ∧ body'.instructions = pieces.flatten
  handlers : body'.handlers = body.handlers
  scopes : body'.scopes = body.scopes
  typeScopes : body'.typeScopes = body.typeScopes

/-- A round is a pass over a body as it is laid out. -/
theorem turns_of_settled {body body' : Body} {pool : Pool} {changed : Bool}
    (h : (round body).Settled pool (body', changed)) : ∃ offsets pieces,
      (Layout.offsets body.instructions).Settled pool offsets ∧
        Pass (Turns (offsets.labels body.instructions)) (offsets.locate body.instructions) body.nextLabel
          pieces body'.nextLabel ∧
        body' = { body with instructions := pieces.flatten, nextLabel := body'.nextLabel } ∧
          changed = decide (0 < turned (offsets.locate body.instructions) pieces) := by
  unfold round at h
  obtain ⟨offsets, hoffsets, h⟩ := ((Layout.repeats_offsets _).settled_bind fun _ =>
    (Repeats.lift _).bind fun _ => .pure _).mp h
  obtain ⟨state, hstate, h⟩ := ((Repeats.lift _).settled_bind fun _ => .pure _).mp h
  obtain ⟨rfl, rfl⟩ := Prod.mk.inj (settled_pure.mp h)
  obtain ⟨pieces, hpass, hdone, hchanged⟩ := turns_of_foldlM (settled_lift.mp hstate)
  exact ⟨offsets, pieces, hoffsets, hpass, by simpa using hdone, by simpa using hchanged⟩

theorem rounded_of_settled {body body' : Body} {pool : Pool} {changed : Bool}
    (h : (round body).Settled pool (body', changed)) :
    Rounded body body' ∧ (changed = false → body' = body) := by
  obtain ⟨offsets, pieces, hoffsets, hpass, hbody, hchanged⟩ := turns_of_settled h
  have hentries := (Layout.lays_of_offsets hoffsets).1
  refine ⟨⟨⟨_, pieces, hentries, rewrites_of_turns hpass, by rw [hbody]⟩, by rw [hbody], by rw [hbody],
    by rw [hbody]⟩, fun hidle => ?_⟩
  have hzero : turned (offsets.locate body.instructions) pieces = 0 := by
    rw [hidle, eq_comm, decide_eq_false_iff_not] at hchanged
    omega
  rw [hbody, flatten_of_turned_eq_zero hpass.length_eq hzero, hentries, next_of_turned_eq_zero hpass hzero]

/-- What every round keeps, the rounds keep; and they change nothing unless some round does. -/
theorem rounds_induction {pool : Pool} (motive : Body → Prop)
    (hround : ∀ {body body'}, Rounded body body' → motive body → motive body') {count : Nat}
    {body body' : Body} {changed changed' : Bool} (hbody : motive body)
    (h : (rounds count body changed).Settled pool (body', changed')) :
    motive body' ∧ (changed' = false → changed = false ∧ body' = body) := by
  induction count generalizing body changed with
  | zero =>
    obtain ⟨rfl, rfl⟩ := Prod.mk.inj (settled_pure.mp h)
    exact ⟨hbody, fun hidle => ⟨hidle, rfl⟩⟩
  | succ count ih =>
    unfold rounds at h
    obtain ⟨⟨next, again⟩, hnext, h⟩ := ((repeats_round body).settled_bind fun (next, again) => by
      dsimp only
      split
      · exact repeats_rounds count next true
      · exact .pure _).mp h
    obtain ⟨hrounded, hsame⟩ := rounded_of_settled hnext
    have hkept := hround hrounded hbody
    dsimp only at h
    split at h
    · obtain ⟨hkept', hsame'⟩ := ih hkept h
      exact ⟨hkept', fun hidle => absurd (hsame' hidle).1 (by simp)⟩
    · next hidle =>
      obtain ⟨rfl, rfl⟩ := Prod.mk.inj (settled_pure.mp h)
      exact ⟨hkept, fun hidle' => ⟨hidle', hsame (by simpa using hidle)⟩⟩

end Widening

/-- What every round keeps, widening keeps; and it changes nothing unless it says so. -/
theorem Body.widenJumps_induction {pool : Pool} (motive : Body → Prop)
    (hround : ∀ {body body'}, Widening.Rounded body body' → motive body → motive body')
    {body body' : Body} {changed : Bool} (hbody : motive body)
    (h : (body.widenJumps).Settled pool (body', changed)) :
    motive body' ∧ (changed = false → body' = body) := by
  obtain ⟨hkept, hsame⟩ := Widening.rounds_induction motive hround hbody h
  exact ⟨hkept, fun hidle => (hsame hidle).2⟩

/-- A round keeps a body well labelled. -/
theorem Widening.Rounded.wellLabelled {body body' : Body} (h : Rounded body body')
    (hlabelled : body.WellLabelled) : body'.WellLabelled := by
  obtain ⟨entries, pieces, hentries, hpass, houtput⟩ := h.pass
  refine hlabelled.of_perm (hpass.le tame_rewrites) ?_
  rw [houtput, ← hentries]
  exact hpass.perm_labels tame_rewrites

/-! ## Pieces of a round -/

namespace Widening

variable {body body' : Body} {entries : List (Instruction × Nat)} {pieces : List (List Instruction)}

section

variable (hentries : entries.map Prod.fst = body.instructions)
  (hpass : Pass Rewrites entries body.nextLabel pieces body'.nextLabel)
  (houtput : body'.instructions = pieces.flatten)
include hentries hpass houtput

/-- What is put in the place of an entry. -/
theorem exists_piece {i : Nat} {instruction : Instruction}
    (here : body.instructions[i]? = some instruction) : ∃ offset before piece after,
      pieces[i]? = some piece ∧ Rewrites (instruction, offset) before piece after ∧
      ∀ {j : Nat}, j < piece.length →
        body'.instructions[Pieces.shift pieces i + j]? = piece[j]? := by
  rw [← hentries, List.getElem?_map, Option.map_eq_some_iff] at here
  obtain ⟨⟨_, offset⟩, hentry, rfl⟩ := here
  obtain ⟨before, piece, after, hpiece, hrewrites⟩ := hpass.exists_piece hentry
  exact ⟨offset, before, piece, after, hpiece, hrewrites, fun hlt =>
    houtput ▸ Pieces.getElem?_shift hpiece hlt⟩

/-- Labels stand where their pieces begin. -/
theorem label_shift {i : Nat} {label : Label}
    (here : body.instructions[i]? = some (.label label)) :
    pieces[i]? = some [.label label] ∧
      body'.instructions[Pieces.shift pieces i]? = some (.label label) := by
  rw [← hentries, List.getElem?_map, Option.map_eq_some_iff] at here
  obtain ⟨entry, hentry, hlabel⟩ := here
  have hmarks := hpass.getElem?_of_unreal tame_rewrites hentry (by rw [hlabel]; rfl)
  rwa [hlabel, ← houtput] at hmarks

/-- Where an entry of the new list comes from. -/
theorem exists_origin {k : Nat} {instruction : Instruction}
    (here : body'.instructions[k]? = some instruction) : ∃ i entry offset before piece after j,
      body.instructions[i]? = some entry ∧ pieces[i]? = some piece ∧
        Rewrites (entry, offset) before piece after ∧ piece[j]? = some instruction ∧
          k = Pieces.shift pieces i + j ∧ k < Pieces.shift pieces (i + 1) := by
  obtain ⟨i, ⟨entry, offset⟩, before, piece, after, j, hentry, hpiece, hrewrites, hj, rfl⟩ :=
    hpass.exists_origin (houtput ▸ here)
  have hlt : j < piece.length := (List.getElem?_eq_some_iff.mp hj).1
  refine ⟨i, entry, offset, before, piece, after, j, ?_, hpiece, hrewrites, hj, rfl, ?_⟩
  · rw [← hentries, List.getElem?_map, hentry]
    rfl
  · rw [Pieces.shift_succ hpiece]
    omega

end

/-- The piece of an instruction begins with one. -/
theorem Rewrites.exists_first {entry : Instruction × Nat} {first next : Nat}
    {piece : List Instruction} (h : Rewrites entry first piece next) (real : entry.1.isReal) :
    ∃ instruction, piece[0]? = some instruction ∧ instruction.isReal := by
  cases h with
  | keep => exact ⟨_, rfl, real⟩
  | goto => exact ⟨_, rfl, rfl⟩
  | conditional => exact ⟨_, rfl, rfl⟩

/-- What all instructions have, those of a body with wider jumps have. -/
theorem Rounded.forall_mem {p : Instruction → Prop} (h : Rounded body body')
    (hbody : ∀ instruction ∈ body.instructions, p instruction) (hlabel : ∀ label, p (.label label))
    (hgoto : ∀ target, p (.jump Opcode.gotoWide target))
    (hinverse : ∀ opcode inverse target, Opcode.inverse? opcode = some inverse →
      p (.jump inverse target)) : ∀ instruction ∈ body'.instructions, p instruction := by
  obtain ⟨entries, pieces, hentries, hpass, houtput⟩ := h.pass
  intro instruction hmem
  obtain ⟨k, hk⟩ := List.mem_iff_getElem?.mp hmem
  obtain ⟨i, entry, offset, before, piece, after, j, hentry, -, hrewrites, hj, -, -⟩ :=
    exists_origin hentries hpass houtput hk
  have hpiece := List.mem_of_getElem? hj
  cases hrewrites with
  | keep =>
    obtain rfl := List.mem_singleton.mp hpiece
    exact hbody _ (List.mem_of_getElem? hentry)
  | goto target =>
    obtain rfl := List.mem_singleton.mp hpiece
    exact hgoto target
  | conditional target _ _ inverted =>
    simp only [List.mem_cons, List.not_mem_nil, or_false] at hpiece
    rcases hpiece with rfl | rfl | rfl
    · exact hinverse _ _ _ inverted
    · exact hgoto target
    · exact hlabel _

end Widening

end ClassInstrument
