import ClassInstrument.Proofs.Assembly.Encoding
import ClassInstrument.Proofs.Assembly.Widened

/-!
# Widening with room for its constants

A body is laid out if the pool has room for the constants that its instructions push; constants of two
slots do not count, since their index always takes two bytes.  Once these constants are there, whatever is
made of the same instructions can be laid out without another request.
-/

namespace ClassInstrument

open Interning Outcome

namespace Pool

variable {pool : Pool}

/-- A constant of one place can be asked for while there is a place left. -/
theorem exists_intern {constant : Constant} (hnarrow : constant.isWide = false)
    (room : pool.slots.size < capacity) : ∃ index pool',
      (intern constant).finish pool = .ok (index, pool') ∧ pool'.slots.size ≤ pool.slots.size + 1 := by
  have hplaces : constant.places = 1 := by simp [Constant.places, hnarrow]
  cases hfound : pool.positions[constant]? with
  | some index => exact ⟨index, pool, finish_intern.mpr (request_of_position hfound), Nat.le_succ _⟩
  | none =>
    have hroom : ¬ pool.slots.size + constant.places > capacity := by omega
    refine ⟨UInt16.ofNat pool.slots.size, pool.append constant room, finish_intern.mpr ?_, ?_⟩
    · unfold request
      rw [hfound]
      exact dif_neg hroom
    · exact (IsConstantTable.size_appendSlot _ _).le.trans (by rw [hplaces])

end Pool

namespace Loadable

/-- A constant of one slot takes two places at most. -/
theorem exists_finish_intern {constant : Loadable} (hnarrow : constant.isWide = false) {pool : Pool}
    (room : pool.slots.size + 2 ≤ Pool.capacity) : ∃ index pool',
      constant.intern.finish pool = .ok (index, pool') ∧ pool'.slots.size ≤ pool.slots.size + 2 := by
  have hone {constant : Constant} (hconstant : constant.isWide = false) : ∃ index pool',
      (Pool.intern constant).finish pool = .ok (index, pool') ∧ pool'.slots.size ≤ pool.slots.size + 2 := by
    obtain ⟨index, pool', hfinish, hsize⟩ := Pool.exists_intern hconstant (by omega : pool.slots.size < _)
    exact ⟨index, pool', hfinish, by omega⟩
  have htwo (text : String) {constant : PoolIndex → Constant}
      (hconstant : ∀ index, (constant index).isWide = false) : ∃ index pool',
      (do Pool.intern (constant (← Pool.internUtf8 text)) : Interning PoolIndex).finish pool =
        .ok (index, pool') ∧ pool'.slots.size ≤ pool.slots.size + 2 := by
    obtain ⟨utf8, middle, hutf8, hmiddle⟩ : ∃ index middle,
        (Pool.internUtf8 text).finish pool = .ok (index, middle) ∧ middle.slots.size ≤ _ :=
      Pool.exists_intern rfl (by omega : pool.slots.size < _)
    obtain ⟨index, pool', hfinish, hsize⟩ :=
      Pool.exists_intern (hconstant utf8) (by omega : middle.slots.size < _)
    exact ⟨index, pool', finish_bind.mpr ⟨utf8, middle, hutf8, hfinish⟩, by omega⟩
  cases constant with
  | int value => exact hone rfl
  | float bits => exact hone rfl
  | long value | double bits => simp [isWide] at hnarrow
  | string text => exact htwo text fun _ => rfl
  | cls name => exact htwo name fun _ => rfl
  | methodType descriptor => exact htwo descriptor fun _ => rfl
  | pooled index descriptor => exact ⟨index, pool, finish_pure.mpr ⟨rfl, rfl⟩, Nat.le_add_right _ _⟩

end Loadable

namespace Layout

variable {pool pool' : Pool} {instructions : List Instruction}

/-- The constant whose index decides how long an instruction is. -/
def asked? : Instruction → Option Loadable
  | .load constant => if constant.isWide then none else some constant
  | _ => none

/-- The constants whose indices decide how long instructions are, in their order. -/
def asked (instructions : List Instruction) : List Loadable := instructions.filterMap asked?

/-- The size of most instructions does not depend on a constant. -/
theorem finish_size_of_not_asked {instruction : Instruction} (h : asked? instruction = none) (offset : ℕ) :
    ∃ bytes, ∀ pool, (size offset instruction).finish pool = .ok (bytes, pool) := by
  cases instruction with
  | load constant =>
    have hwide : constant.isWide := by
      by_contra hnarrow
      simp [asked?, hnarrow] at h
    refine ⟨3, fun pool => ?_⟩
    unfold size
    dsimp only
    rw [if_pos hwide]
    exact finish_pure.mpr ⟨rfl, rfl⟩
  | _ => exact ⟨_, fun pool => finish_pure.mpr ⟨rfl, rfl⟩⟩

/-- The size of a push depends on the index of the constant. -/
theorem finish_size_of_asked {instruction : Instruction} {constant : Loadable} {index : PoolIndex}
    (h : asked? instruction = some constant) (hintern : constant.intern.finish pool = .ok (index, pool'))
    (offset : ℕ) : ∃ bytes, (size offset instruction).finish pool = .ok (bytes, pool') := by
  cases instruction with
  | load other =>
    dsimp only [asked?] at h
    split at h
    · cases h
    · next hnarrow =>
      obtain rfl := Option.some.inj h
      refine ⟨if index ≤ 255 then 2 else 3, ?_⟩
      unfold size
      dsimp only
      rw [if_neg hnarrow]
      exact finish_bind.mpr ⟨index, pool', hintern, finish_pure.mpr ⟨rfl, rfl⟩⟩
  | _ => simp [asked?] at h

/-- Instructions are laid out if their constants can be asked for. -/
theorem exists_finish_foldlM {indices : List PoolIndex}
    (h : ((asked instructions).mapM Loadable.intern).finish pool = .ok (indices, pool')) (start : Offsets) :
    ∃ offsets, (instructions.foldlM place start).finish pool = .ok (offsets, pool') := by
  induction instructions generalizing pool indices start with
  | nil =>
    obtain ⟨-, rfl⟩ := finish_pure.mp h
    exact ⟨start, finish_pure.mpr ⟨rfl, rfl⟩⟩
  | cons instruction instructions ih =>
    rw [asked, List.filterMap_cons] at h
    cases hasked : asked? instruction with
    | none =>
      rw [hasked] at h
      obtain ⟨bytes, hbytes⟩ := finish_size_of_not_asked hasked start.length
      obtain ⟨offsets, hoffsets⟩ := ih h ⟨start.starts.push start.length, start.length + bytes⟩
      exact ⟨offsets, finish_bind.mpr ⟨_, pool, finish_bind.mpr ⟨bytes, pool, hbytes pool,
        finish_pure.mpr ⟨rfl, rfl⟩⟩, hoffsets⟩⟩
    | some constant =>
      rw [hasked] at h
      dsimp only at h
      rw [List.mapM_cons] at h
      obtain ⟨index, middle, hindex, h⟩ := finish_bind.mp h
      obtain ⟨others, _, hothers, h⟩ := finish_bind.mp h
      obtain ⟨-, rfl⟩ := finish_pure.mp h
      obtain ⟨bytes, hbytes⟩ := finish_size_of_asked hasked hindex start.length
      obtain ⟨offsets, hoffsets⟩ := ih hothers ⟨start.starts.push start.length, start.length + bytes⟩
      exact ⟨offsets, finish_bind.mpr ⟨_, middle, finish_bind.mpr ⟨bytes, middle, hbytes,
        finish_pure.mpr ⟨rfl, rfl⟩⟩, hoffsets⟩⟩

/-- The size of an instruction is known wherever it stands. -/
def Sized (pool : Pool) (instruction : Instruction) : Prop :=
  ∀ offset, ∃ bytes, (size offset instruction).Settled pool bytes

/-- The sizes of instructions are known after their constants were asked for. -/
theorem sized_of_finish {indices : List PoolIndex}
    (h : ((asked instructions).mapM Loadable.intern).finish pool = .ok (indices, pool')) :
    ∀ instruction ∈ instructions, Sized pool' instruction := by
  intro instruction hmem offset
  have hsettled := (Repeats.mapM Loadable.repeats_intern _).settled h
  cases hasked : asked? instruction with
  | none =>
    obtain ⟨bytes, hbytes⟩ := finish_size_of_not_asked hasked offset
    exact ⟨bytes, hbytes pool'⟩
  | some constant =>
    obtain ⟨index, -, hindex⟩ := exists_right_of_forall₂
      ((Repeats.settled_mapM Loadable.repeats_intern).mp hsettled)
      (List.mem_filterMap.mpr ⟨instruction, hmem, hasked⟩)
    exact finish_size_of_asked hasked hindex offset

/-- Instructions whose sizes are known are laid out without a request. -/
theorem exists_settled_offsets (h : ∀ instruction ∈ instructions, Sized pool instruction) :
    ∃ offsets, (Layout.offsets instructions).Settled pool offsets := by
  have hfold (start : Offsets) : ∃ offsets, (instructions.foldlM place start).Settled pool offsets := by
    induction instructions generalizing start with
    | nil => exact ⟨start, settled_pure.mpr rfl⟩
    | cons instruction instructions ih =>
      obtain ⟨hfirst, hothers⟩ := List.forall_mem_cons.mp h
      obtain ⟨bytes, hbytes⟩ := hfirst start.length
      obtain ⟨offsets, hoffsets⟩ := ih hothers ⟨start.starts.push start.length, start.length + bytes⟩
      have hplace : (place start instruction).Settled pool ⟨start.starts.push start.length, start.length + bytes⟩ :=
        hbytes.bind (settled_pure.mpr rfl)
      rw [List.foldlM_cons]
      exact ⟨offsets, hplace.bind hoffsets⟩
  exact hfold ⟨#[], 0⟩

end Layout

/-- A pool has room for the constants whose indices decide how long the instructions of a body are: they can
be asked for one after the other. -/
def Body.HasRoom (body : Body) (pool : Pool) : Prop :=
  ∃ indices pool', ((Layout.asked body.instructions).mapM Loadable.intern).finish pool = .ok (indices, pool')

/-- Two places for each constant are room enough. -/
theorem Body.hasRoom_of_le {body : Body} {pool : Pool}
    (h : pool.slots.size + 2 * (Layout.asked body.instructions).length ≤ Pool.capacity) :
    body.HasRoom pool := by
  have hnarrow : ∀ constant ∈ Layout.asked body.instructions, constant.isWide = false := by
    intro constant hmem
    obtain ⟨instruction, -, hasked⟩ := List.mem_filterMap.mp hmem
    unfold Layout.asked? at hasked
    split at hasked
    · split at hasked
      · cases hasked
      · next hnarrow =>
        obtain rfl := Option.some.inj hasked
        simpa using hnarrow
    · cases hasked
  unfold HasRoom
  generalize Layout.asked body.instructions = constants at h hnarrow
  induction constants generalizing pool with
  | nil => exact ⟨[], pool, finish_pure.mpr ⟨rfl, rfl⟩⟩
  | cons constant constants ih =>
    obtain ⟨hfirst, hothers⟩ := List.forall_mem_cons.mp hnarrow
    rw [List.length_cons] at h
    obtain ⟨index, middle, hindex, hsize⟩ :=
      Loadable.exists_finish_intern hfirst (by omega : pool.slots.size + 2 ≤ _)
    obtain ⟨indices, pool', hindices⟩ := ih (by omega : middle.slots.size + _ ≤ _) hothers
    refine ⟨index :: indices, pool', ?_⟩
    rw [List.mapM_cons]
    exact finish_bind.mpr ⟨index, middle, hindex,
      finish_bind.mpr ⟨indices, pool', hindices, finish_pure.mpr ⟨rfl, rfl⟩⟩⟩

end ClassInstrument

/-!
## Widening comes to an end

Rounds of widening are made until one changes nothing (`Widening.Loop`).  A round succeeds if the body can be
laid out and its jumps lead to labels that are placed, and both stay so.  Each round but the last one uses up
a short jump, so the number of rounds that `Body.widenJumps` allows is never what ends them
(`Widening.exists_loop`).  After a round that changes nothing, every short jump reaches its target.
-/

namespace ClassInstrument

open Interning Outcome

/-- The jumps of a body can be widened: none of them enters a subroutine, and all lead to labels that are
placed. -/
structure Body.Branches (body : Body) : Prop where
  /-- The opcodes of jumps are those of jumps, and not of subroutine calls. -/
  opcodes : ∀ {opcode : Opcode} {target : Label}, .jump opcode target ∈ body.instructions →
    (opcode.form = .jump ∨ opcode.form = .wideJump) ∧ opcode ≠ Opcode.jsr ∧ opcode ≠ Opcode.jsrWide
  /-- Their targets are placed. -/
  placed : ∀ {opcode : Opcode} {target : Label}, .jump opcode target ∈ body.instructions →
    .label target ∈ body.instructions

/-- The jumps of two bytes that do not enter a subroutine can be widened. -/
theorem Opcode.eq_goto_or_exists_inverse : ∀ opcode : Opcode,
    opcode.form = .jump ∨ opcode.form = .wideJump → opcode ≠ jsr → opcode ≠ jsrWide →
      opcode.isWideJump = false → opcode = goto ∨ opcode.inverse?.isSome :=
  forall_of_fin (by decide +kernel)

namespace Widening

variable {pool pool' : Pool} {body mid wide : Body} {pieces : List (List Instruction)}

/-- What all instructions have, those of a body with wider jumps have. -/
theorem Widened.forall_mem {p : Instruction → Prop} (h : Widened body wide pieces)
    (hbody : ∀ instruction ∈ body.instructions, p instruction) (hlabel : ∀ label, p (.label label))
    (hgoto : ∀ opcode target, .jump opcode target ∈ body.instructions → p (.jump Opcode.gotoWide target))
    (hinverse : ∀ opcode inverse skip, Opcode.inverse? opcode = some inverse →
      .label skip ∈ wide.instructions → p (.jump inverse skip)) :
    ∀ instruction ∈ wide.instructions, p instruction := by
  have hinstructions : wide.instructions = pieces.flatten := by rw [h.eq]
  intro instruction hmem
  obtain ⟨piece, hpiece, hmem⟩ := List.mem_flatten.mp (hinstructions ▸ hmem)
  obtain ⟨entry, hentry, hwidens⟩ := exists_left_of_forall₂ h.widens hpiece
  cases hwidens with
  | keep =>
    obtain rfl := List.mem_singleton.mp hmem
    exact hbody _ hentry
  | goto target =>
    obtain rfl := List.mem_singleton.mp hmem
    exact hgoto _ target hentry
  | conditional target skip inverted =>
    simp only [List.mem_cons, List.not_mem_nil, or_false] at hmem
    rcases hmem with rfl | rfl | rfl
    · refine hinverse _ _ _ inverted ?_
      rw [hinstructions]
      exact List.mem_flatten.mpr ⟨_, hpiece, by simp⟩
    · exact hgoto _ target hentry
    · exact hlabel skip

/-- Labels stay placed. -/
theorem Widened.label_mem (h : Widened body wide pieces) {label : Label}
    (hmem : .label label ∈ body.instructions) : .label label ∈ wide.instructions :=
  mem_placedLabels.mp (h.labels.mem_iff.mpr (List.mem_append_left _ (mem_placedLabels.mpr hmem)))

/-- Widened jumps can be widened further. -/
theorem Widened.branches (h : Widened body wide pieces) (hbranches : body.Branches) : wide.Branches := by
  have hall := h.forall_mem (p := fun instruction => ∀ opcode target, instruction = .jump opcode target →
    ((opcode.form = .jump ∨ opcode.form = .wideJump) ∧ opcode ≠ Opcode.jsr ∧ opcode ≠ Opcode.jsrWide) ∧
      .label target ∈ wide.instructions) ?_ ?_ ?_ ?_
  · exact ⟨fun hmem => (hall _ hmem _ _ rfl).1, fun hmem => (hall _ hmem _ _ rfl).2⟩
  · rintro _ hmem opcode target rfl
    exact ⟨hbranches.opcodes hmem, h.label_mem (hbranches.placed hmem)⟩
  · rintro label opcode target hjump
    cases hjump
  · rintro opcode target hmem _ _ hjump
    obtain ⟨rfl, rfl⟩ := Instruction.jump.inj hjump
    exact ⟨by decide +kernel, h.label_mem (hbranches.placed hmem)⟩
  · rintro opcode inverse skip inverted hskip _ _ hjump
    obtain ⟨rfl, rfl⟩ := Instruction.jump.inj hjump
    refine ⟨⟨Or.inl (Opcode.form_inverse _ _ inverted), ?_, ?_⟩, hskip⟩ <;>
    · rintro rfl
      exact absurd (inverse_of_inverse inverted) (by rw [show Opcode.inverse? _ = none from rfl]; simp)

/-- The sizes of widened jumps are known. -/
theorem Widened.sized (h : Widened body wide pieces)
    (hsized : ∀ instruction ∈ body.instructions, Layout.Sized pool instruction) :
    ∀ instruction ∈ wide.instructions, Layout.Sized pool instruction := by
  have hjump (opcode : Opcode) (target : Label) : Layout.Sized pool (.jump opcode target) :=
    fun _ => ⟨_, settled_pure.mpr rfl⟩
  exact h.forall_mem hsized (fun _ _ => ⟨_, settled_pure.mpr rfl⟩) (fun _ _ _ => hjump _ _)
    fun _ _ _ _ _ => hjump _ _

/-! ## Rounds until nothing changes -/

/-- Rounds of a number lead from a body to another one, and only the last of them changes nothing. -/
inductive Loop : Pool → Body → ℕ → Body → Pool → Prop
  /-- A round changes nothing. -/
  | last {pool body body' pool'} (settles : (round body).finish pool = .ok ((body', false), pool')) :
      Loop pool body 1 body' pool'
  /-- A round changes something, and others follow. -/
  | next {pool body mid between count wide pool'}
      (changes : (round body).finish pool = .ok ((mid, true), between))
      (others : Loop between mid count wide pool') : Loop pool body (count + 1) wide pool'

/-- There is a round at least. -/
theorem Loop.pos {count : ℕ} (h : Loop pool body count wide pool') : 0 < count := by
  cases h <;> exact Nat.succ_pos _

/-- As many rounds as are allowed end like the loop, if it ends before. -/
theorem Loop.finish_rounds {count limit : ℕ} (h : Loop pool body count wide pool') (hle : count ≤ limit)
    (changed : Bool) :
    (rounds limit body changed).finish pool = .ok ((wide, changed || decide (1 < count)), pool') := by
  induction h generalizing limit changed with
  | last settles =>
    obtain ⟨limit, rfl⟩ := Nat.exists_eq_add_of_le' hle
    exact finish_bind.mpr ⟨_, _, settles, finish_pure.mpr ⟨by simp, rfl⟩⟩
  | next changes others ih =>
    obtain ⟨limit, rfl⟩ := Nat.exists_eq_add_of_le' ((Nat.le_add_left 1 _).trans hle)
    have hothers := ih (Nat.le_of_succ_le_succ hle) true
    refine finish_bind.mpr ⟨_, _, changes, ?_⟩
    have hpos := others.pos
    rw [decide_eq_true (by omega), Bool.or_true]
    exact hothers

/-- A round goes through the instructions if all jumps that are too short can be widened. -/
theorem exists_foldlM_step {labels : Placements} {entries : List (Instruction × ℕ)}
    (h : ∀ opcode target offset, (.jump opcode target, offset) ∈ entries → opcode.isWideJump = false →
      (∃ place, labels.find target = .ok place) ∧ (opcode = Opcode.goto ∨ opcode.inverse?.isSome))
    (state : State) : ∃ state', entries.foldlM (step labels) state = .ok state' := by
  refine exists_foldlM_eq_ok (fun entry hmem state => ?_) state
  obtain ⟨instruction, offset⟩ := entry
  unfold step
  split
  · next opcode target offset heq =>
    obtain ⟨rfl, rfl⟩ := Prod.mk.inj heq
    split
    · exact ⟨_, rfl⟩
    · next hshort =>
      obtain ⟨⟨place, hplace⟩, hopcode⟩ := h opcode target _ hmem (by simpa using hshort)
      simp only [hplace, bind, Except.bind]
      split
      · exact ⟨_, rfl⟩
      · unfold widen
        split
        · exact ⟨_, rfl⟩
        · next hgoto =>
          obtain ⟨inverse, hinverse⟩ := Option.isSome_iff_exists.mp (hopcode.resolve_left hgoto)
          rw [hinverse]
          exact ⟨_, rfl⟩
  · exact ⟨_, rfl⟩

/-- A round succeeds if the body can be laid out. -/
theorem exists_finish_round (hlabelled : body.WellLabelled) (hbranches : body.Branches)
    (hoffsets : ∃ offsets, (Layout.offsets body.instructions).finish pool = .ok (offsets, pool')) :
    ∃ body' changed, (round body).finish pool = .ok ((body', changed), pool') := by
  obtain ⟨offsets, hoffsets⟩ := hoffsets
  have hsettled := (Layout.repeats_offsets _).settled hoffsets
  have hturnable : ∀ opcode target offset, (.jump opcode target, offset) ∈ offsets.locate body.instructions →
      opcode.isWideJump = false → (∃ place, (offsets.labels body.instructions).find target = .ok place) ∧
        (opcode = Opcode.goto ∨ opcode.inverse?.isSome) := by
    intro opcode target offset hmem hshort
    have hjump : .jump opcode target ∈ body.instructions := by
      rw [← (Layout.lays_of_offsets hsettled).1]
      exact List.mem_map_of_mem hmem
    obtain ⟨hform, hjsr, hjsrWide⟩ := hbranches.opcodes hjump
    obtain ⟨i, here⟩ := List.mem_iff_getElem?.mp (hbranches.placed hjump)
    obtain ⟨place, hplace⟩ := (Layout.getElem?_locate hsettled).mp here
    exact ⟨⟨place, (Layout.find_labels hlabelled hsettled).mpr ⟨i, hplace⟩⟩,
      opcode.eq_goto_or_exists_inverse hform hjsr hjsrWide hshort⟩
  obtain ⟨state, hstate⟩ := exists_foldlM_step hturnable
    { done := [], changed := false, nextLabel := body.nextLabel }
  exact ⟨_, _, finish_bind.mpr ⟨offsets, pool', hoffsets,
    finish_bind.mpr ⟨state, pool', finish_lift.mpr ⟨hstate, rfl⟩, finish_pure.mpr ⟨rfl, rfl⟩⟩⟩⟩

/-- Rounds come to an end, and there is one more of them than short jumps at most. -/
theorem exists_loop (h : Widened body mid pieces) (hlabelled : body.WellLabelled) (hbranches : body.Branches)
    (hsized : ∀ instruction ∈ body.instructions, Layout.Sized pool' instruction)
    (hoffsets : ∃ offsets, (Layout.offsets mid.instructions).finish pool = .ok (offsets, pool')) :
    ∃ count wide pieces', Loop pool mid count wide pool' ∧ count ≤ left body.instructions pieces + 1 ∧
      Widened body wide pieces' ∧ (round wide).Settled pool' (wide, false) := by
  induction hn : left body.instructions pieces using Nat.strong_induction_on
    generalizing pool mid pieces with
  | _ n ih =>
    obtain ⟨next, changed, hround⟩ :=
      exists_finish_round (h.wellLabelled hlabelled) (h.branches hbranches) hoffsets
    have hsettled := (repeats_round mid).settled hround
    obtain ⟨pieces', hnext, hleft⟩ := h.round hlabelled hsettled
    cases changed with
    | false =>
      obtain rfl := (rounded_of_settled hsettled).2 rfl
      exact ⟨1, _, pieces', .last hround, Nat.le_add_left 1 n, hnext, hsettled⟩
    | true =>
      rw [Bool.toNat_true] at hleft
      obtain ⟨offsets, hoffsets⟩ := Layout.exists_settled_offsets (hnext.sized hsized)
      obtain ⟨count, wide, pieces'', hloop, hcount, hwide, hlast⟩ :=
        ih (left body.instructions pieces') (by omega) hnext ⟨offsets, hoffsets⟩ rfl
      exact ⟨count + 1, wide, pieces'', .next hround hloop, by omega, hwide, hlast⟩

/-! ## Jumps in range -/

/-- After a round that changes nothing every short jump reaches its target. -/
theorem near_of_turned_eq_zero {labels : Placements} {entries : List (Instruction × ℕ)} {first next : ℕ}
    (hpass : Pass (Turns labels) entries first pieces next) (h : turned entries pieces = 0)
    {opcode : Opcode} {target : Label} {offset : ℕ} (hmem : (.jump opcode target, offset) ∈ entries)
    (hshort : opcode.isWideJump = false) :
    ∃ place : ℕ, labels.find target = .ok place ∧ fits ((place : ℤ) - (offset : ℤ)) := by
  induction hpass with
  | nil => cases hmem
  | @cons entry entries first piece pieces middle next here others ih =>
    rw [turned, List.zip_cons_cons, List.countP_cons, Nat.add_eq_zero_iff] at h
    rcases List.mem_cons.mp hmem with rfl | hmem
    · cases here with
      | keep _ _ near => exact near opcode target rfl hshort
      | goto => simp [Opcode.goto, Opcode.gotoWide] at h
      | conditional => simp at h
    · exact ih h.1 hmem

end Widening

/-- All jumps of a body that is laid out at some offsets, but the wide ones, reach their targets. -/
def Body.InRange (body : Body) (offsets : Layout.Offsets) : Prop :=
  ∀ opcode target offset, (.jump opcode target, offset) ∈ offsets.locate body.instructions →
    opcode ≠ Opcode.gotoWide → ∃ place : ℕ, (offsets.labels body.instructions).find target = .ok place ∧
      -32768 ≤ (place : ℤ) - (offset : ℤ) ∧ (place : ℤ) - (offset : ℤ) ≤ 32767

/-- The jumps of a body that a round does not change are in range. -/
theorem Widening.inRange_of_settled {pool : Pool} {wide : Body} (hbranches : wide.Branches)
    (h : (round wide).Settled pool (wide, false)) {offsets : Layout.Offsets}
    (hoffsets : (Layout.offsets wide.instructions).Settled pool offsets) : wide.InRange offsets := by
  obtain ⟨offsets', pieces, hoffsets', hpass, -, hchanged⟩ := turns_of_settled h
  obtain rfl : offsets' = offsets := (Prod.mk.inj (Except.ok.inj (hoffsets'.symm.trans hoffsets))).1
  intro opcode target offset hmem hopcode
  have hjump : .jump opcode target ∈ wide.instructions := by
    rw [← (Layout.lays_of_offsets hoffsets).1]
    exact List.mem_map_of_mem hmem
  have hshort : opcode.isWideJump = false := by
    simp [Opcode.isWideJump, hopcode, (hbranches.opcodes hjump).2.2]
  rw [eq_comm, decide_eq_false_iff_not] at hchanged
  obtain ⟨place, hplace, hfits⟩ := near_of_turned_eq_zero hpass (by omega) hmem hshort
  exact ⟨place, hplace, by simpa [fits] using hfits⟩

end ClassInstrument
