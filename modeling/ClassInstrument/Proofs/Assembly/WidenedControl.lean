import ClassInstrument.Proofs.Assembly.Reaching
import ClassInstrument.Proofs.Assembly.Closed
import ClassInstrument.Proofs.Execution.Control
import ClassInstrument.Proofs.Assembly.InRange

/-!
# Control in a body with wider jumps

The pieces that stand for the entries of a body begin with the entries themselves, or with the jumps that
stand for them; these are the positions that count.  The other positions of a piece hold a wide `goto` and
the label behind it, which lead on to where the jump would have led: `Follows` says which position of the
old body is meant.

So control comes from an instruction to the same next one as before, whatever its operands
(`Widened.comes_iff`), and the handlers cover a piece like the entry it stands for (`Widened.covers_iff`).

`Body.widenJumps` succeeds on every body whose jumps can be widened, if the pool has room for the constants
that decide how long its instructions are.  In the body that it gives, all jumps are in range; control goes
where it went before; and what stands for a jump is protected by the handlers that protected the jump.
-/

namespace ClassInstrument

open Outcome

/-- The labels that instructions and handlers refer to were handed out. -/
structure Body.RefersToOwn (body : Body) : Prop where
  targets : ∀ {instruction : Instruction}, instruction ∈ body.instructions →
    ∀ target ∈ instruction.targets, target.number < body.nextLabel
  handlers : ∀ {handler : Handler}, handler ∈ body.handlers →
    handler.start.number < body.nextLabel ∧ handler.stop.number < body.nextLabel ∧
      handler.handler.number < body.nextLabel

namespace Widening

variable {body wide : Body} {pieces : List (List Instruction)}

/-- A piece holds something. -/
theorem Widens.length_pos {first : ℕ} {entry : Instruction} {piece : List Instruction}
    (h : Widens first entry piece) : 0 < piece.length := by
  cases h <;> exact Nat.succ_pos _

namespace Widened

variable (h : Widened body wide pieces)
include h

theorem instructions_eq : wide.instructions = pieces.flatten := by rw [h.eq]

/-- What stands in the place of an entry. -/
theorem exists_piece {i : ℕ} {entry : Instruction} (here : body.instructions[i]? = some entry) :
    ∃ piece, pieces[i]? = some piece ∧ Widens body.nextLabel entry piece ∧
      ∀ {j : ℕ}, j < piece.length → wide.instructions[Pieces.shift pieces i + j]? = piece[j]? := by
  obtain ⟨piece, hpiece, hwidens⟩ := getElem?_of_forall₂ h.widens here
  exact ⟨piece, hpiece, hwidens, fun hlt => h.instructions_eq ▸ Pieces.getElem?_shift hpiece hlt⟩

/-- Which entry a piece stands for. -/
theorem exists_entry {i : ℕ} {piece : List Instruction} (hpiece : pieces[i]? = some piece) :
    ∃ entry, body.instructions[i]? = some entry ∧ Widens body.nextLabel entry piece :=
  getElem?_of_forall₂ (List.Forall₂.flip h.widens) hpiece

/-- Labels and line numbers stand where their pieces begin. -/
theorem getElem?_of_unreal {i : ℕ} {mark : Instruction} (here : body.instructions[i]? = some mark)
    (unreal : mark.isReal = false) : pieces[i]? = some [mark] ∧
      wide.instructions[Pieces.shift pieces i]? = some mark := by
  obtain ⟨piece, hpiece, hwidens, hget⟩ := h.exists_piece here
  cases hwidens with
  | keep => exact ⟨hpiece, hget (j := 0) (Nat.succ_pos _)⟩
  | goto | conditional => cases unreal

/-- Labels that were handed out stand where their pieces begin, and nowhere else. -/
theorem getElem?_label_iff (hlabelled : body.WellLabelled) {label : Label}
    (hown : label.number < body.nextLabel) {k : ℕ} : wide.instructions[k]? = some (.label label) ↔
      ∃ i, k = Pieces.shift pieces i ∧ body.instructions[i]? = some (.label label) := by
  constructor
  · intro hk
    have hplaced : label ∈ placedLabels body.instructions := by
      have hmem := mem_placedLabels.mpr (List.mem_of_getElem? hk)
      refine (List.mem_append.mp (h.labels.mem_iff.mp hmem)).resolve_right fun hfresh => ?_
      have := ((mem_freshLabels h.le).mp hfresh).1
      omega
    obtain ⟨i, here⟩ := List.mem_iff_getElem?.mp (mem_placedLabels.mp hplaced)
    exact ⟨i, eq_of_placedLabels (h.wellLabelled hlabelled).placedOnce hk (h.getElem?_of_unreal here rfl).2,
      here⟩
  · rintro ⟨i, rfl, here⟩
    exact (h.getElem?_of_unreal here rfl).2

/-- No position inside a piece is where one begins. -/
theorem eq_of_shift_add {i j offset : ℕ} {piece : List Instruction} (hpiece : pieces[i]? = some piece)
    (hlt : offset < piece.length) {entry : Instruction} (here : body.instructions[j]? = some entry)
    (hsame : Pieces.shift pieces i + offset = Pieces.shift pieces j) : i = j ∧ offset = 0 := by
  obtain ⟨piece', hpiece', hwidens, -⟩ := h.exists_piece here
  have hpos := hwidens.length_pos
  rcases Nat.lt_trichotomy i j with hij | rfl | hij
  · have := Pieces.shift_add_le hpiece hij
    omega
  · exact ⟨rfl, by omega⟩
  · have := Pieces.shift_add_le hpiece' hij
    omega

/-- Pieces of different entries begin at different positions. -/
theorem eq_of_shift_eq {i j : ℕ} {entry : Instruction} (here : body.instructions[j]? = some entry)
    (hsame : Pieces.shift pieces i = Pieces.shift pieces j) : i = j := by
  by_cases hi : i < body.instructions.length
  · obtain ⟨piece, hpiece, hwidens, -⟩ := h.exists_piece (List.getElem?_eq_getElem hi)
    exact (h.eq_of_shift_add hpiece hwidens.length_pos here hsame).1
  · obtain ⟨piece, hpiece, hwidens, -⟩ := h.exists_piece here
    have hj := (List.getElem?_eq_some_iff.mp here).1
    have := Pieces.shift_add_le hpiece (by omega : j < i)
    have := hwidens.length_pos
    omega

end Widened

/-! ## Positions that follow others -/

/-- The positions of the new body that stand for an instruction of the old one. -/
def Counts (body : Body) (pieces : List (List Instruction)) (k : ℕ) : Prop :=
  ∃ i, body.HasReal i ∧ k = Pieces.shift pieces i

/-- A position of the new body leads to where one of the old body does. -/
inductive Follows (body : Body) (pieces : List (List Instruction)) : ℕ → ℕ → Prop
  /-- A piece begins. -/
  | start (i) : Follows body pieces (Pieces.shift pieces i) i
  /-- A wide `goto` is left over from a conditional jump. -/
  | leap {i place inverse target skip}
      (inside : pieces[i]? = some [.jump inverse skip, .jump Opcode.gotoWide target, .label skip])
      (placed : body.instructions[place]? = some (.label target)) :
      Follows body pieces (Pieces.shift pieces i + 1) place
  /-- A label stands behind the wide `goto`. -/
  | land {i inverse target skip}
      (inside : pieces[i]? = some [.jump inverse skip, .jump Opcode.gotoWide target, .label skip]) :
      Follows body pieces (Pieces.shift pieces i + 2) (i + 1)

variable {effect : Instruction → List Value → List Value → Prop}

namespace Widened

variable (h : Widened body wide pieces) (hlabelled : body.WellLabelled) (hown : body.RefersToOwn)
include h hlabelled hown

/-- From an entry that stays the same ways lead to the same entries. -/
theorem leading_iff {i k : ℕ} {entry : Instruction} {way : Way} {stack rest : List Value}
    (here : body.instructions[i]? = some entry) (kept : pieces[i]? = some [entry])
    (takes : entry.Takes effect stack way rest) : wide.Leading (Pieces.shift pieces i) way k ↔
      ∃ m, k = Pieces.shift pieces m ∧ body.Leading i way m := by
  cases way with
  | on =>
    have hnext : Pieces.shift pieces (i + 1) = Pieces.shift pieces i + 1 := Pieces.shift_succ kept
    simp only [Body.Leading, exists_eq_right, hnext]
  | «at» target =>
    exact h.getElem?_label_iff hlabelled (hown.targets (List.mem_of_getElem? here) _ takes.mem_targets)

/-- Where control goes in the old body, it does in the new one. -/
theorem exists_goes {i m : ℕ} {stack rest : List Value} (hgoes : body.Goes effect (i, stack) (m, rest)) :
    ∃ k, wide.Goes effect (Pieces.shift pieces i, stack) (k, rest) ∧ Follows body pieces k m := by
  obtain ⟨entry, way, here, takes, leads⟩ := hgoes
  obtain ⟨piece, hpiece, hwidens, hget⟩ := h.exists_piece here
  cases hwidens with
  | keep =>
    have hleads := (h.leading_iff hlabelled hown here hpiece takes).mpr ⟨m, rfl, leads⟩
    exact ⟨_, ⟨entry, way, hget (j := 0) (Nat.succ_pos _), takes, hleads⟩, .start m⟩
  | goto target =>
    obtain ⟨rfl, rfl⟩ := takes.eq_of_goto (.inl rfl)
    have hplace := (h.getElem?_of_unreal leads rfl).2
    exact ⟨_, ⟨_, _, hget (j := 0) (Nat.succ_pos _), .goto (.inr rfl) target _, hplace⟩, .start m⟩
  | @conditional opcode inverse target skip inverted =>
    obtain ⟨condition, hcondition, hinverse⟩ := Opcode.exists_condition_of_inverse inverted
    obtain ⟨outcome, htest, rfl⟩ := (Instruction.takes_jump_iff hcondition).mp takes
    have hnegated : condition.negate.test? stack = some (!outcome, rest) :=
      Condition.test?_negate_eq_some.mpr (by rwa [Bool.not_not])
    have hjump : (Instruction.jump inverse skip).Takes effect stack (if !outcome then .at skip else .on) rest :=
      (Instruction.takes_jump_iff hinverse).mpr ⟨_, hnegated, rfl⟩
    cases outcome with
    | true => exact ⟨_, ⟨_, _, hget (j := 0) (Nat.succ_pos _), hjump, rfl⟩, .leap hpiece leads⟩
    | false =>
      obtain rfl := leads
      exact ⟨_, ⟨_, _, hget (j := 0) (Nat.succ_pos _), hjump, hget (j := 2) (by simp)⟩, .land hpiece⟩

/-- Where control goes in the new body from where a piece begins, it does in the old one. -/
theorem exists_goes_of_wide (hbranches : body.Branches) {i k : ℕ} {stack rest : List Value}
    {entry : Instruction} (here : body.instructions[i]? = some entry)
    (hgoes : wide.Goes effect (Pieces.shift pieces i, stack) (k, rest)) :
    ∃ m, body.Goes effect (i, stack) (m, rest) ∧ Follows body pieces k m := by
  obtain ⟨found, way, hfound, takes, leads⟩ := hgoes
  obtain ⟨piece, hpiece, hwidens, hget⟩ := h.exists_piece here
  have hfirst := (hget (j := 0) hwidens.length_pos).symm.trans hfound
  cases hwidens with
  | keep =>
    obtain rfl := Option.some.inj hfirst
    obtain ⟨m, rfl, hm⟩ := (h.leading_iff hlabelled hown here hpiece takes).mp leads
    exact ⟨m, ⟨_, way, here, takes, hm⟩, .start m⟩
  | goto target =>
    obtain rfl := Option.some.inj hfirst
    obtain ⟨rfl, rfl⟩ := takes.eq_of_goto (.inr rfl)
    obtain ⟨m, rfl, hm⟩ := (h.getElem?_label_iff hlabelled
      (hown.targets (List.mem_of_getElem? here) target (List.mem_singleton_self _))).mp leads
    exact ⟨m, ⟨_, _, here, .goto (.inl rfl) target _, hm⟩, .start m⟩
  | @conditional opcode inverse target skip inverted =>
    obtain rfl := Option.some.inj hfirst
    obtain ⟨condition, hcondition, hinverse⟩ := Opcode.exists_condition_of_inverse inverted
    obtain ⟨outcome, htest, rfl⟩ := (Instruction.takes_jump_iff hinverse).mp takes
    have hjump : (Instruction.jump opcode target).Takes effect stack (if !outcome then .at target else .on) rest :=
      (Instruction.takes_jump_iff hcondition).mpr ⟨_, Condition.test?_negate_eq_some.mp htest, rfl⟩
    cases outcome with
    | true =>
      obtain rfl := eq_of_placedLabels (h.wellLabelled hlabelled).placedOnce leads (hget (j := 2) (by simp))
      exact ⟨_, ⟨_, _, here, hjump, rfl⟩, .land hpiece⟩
    | false =>
      obtain rfl := leads
      obtain ⟨place, hplace⟩ := List.mem_iff_getElem?.mp (hbranches.placed (List.mem_of_getElem? here))
      exact ⟨place, ⟨_, _, here, hjump, hplace⟩, .leap hpiece hplace⟩

omit hown in
/-- From a position that does not count control goes on to the same place of the old body, or passes an entry
there that is no instruction. -/
theorem follows_of_goes {k k' p : ℕ} {stack rest : List Value} (hfollows : Follows body pieces k p)
    (hskip : ¬ Counts body pieces k) (hgoes : wide.Goes effect (k, stack) (k', rest)) :
    rest = stack ∧ Follows body pieces k' p ∨
      ∃ p', (¬ body.HasReal p ∧ body.Goes effect (p, stack) (p', rest)) ∧ Follows body pieces k' p' := by
  obtain ⟨found, way, hfound, takes, leads⟩ := hgoes
  cases hfollows with
  | start =>
    right
    have hbound : p < body.instructions.length := by
      by_contra hout
      have hlt := (List.getElem?_eq_some_iff.mp hfound).1
      rw [h.instructions_eq, Pieces.shift, List.take_of_length_le (h.widens.length_eq ▸ Nat.not_lt.mp hout)] at hlt
      exact lt_irrefl _ hlt
    have here := List.getElem?_eq_getElem hbound
    have unreal : body.instructions[p].isReal = false := by
      by_contra real
      exact hskip ⟨p, ⟨_, here, by simpa using real⟩, rfl⟩
    obtain ⟨hpiece, hmark⟩ := h.getElem?_of_unreal here unreal
    obtain rfl := Option.some.inj (hmark.symm.trans hfound)
    obtain ⟨rfl, rfl⟩ := takes.eq_of_unreal unreal
    obtain rfl : k' = Pieces.shift pieces (p + 1) := leads.trans (Pieces.shift_succ hpiece).symm
    refine ⟨p + 1, ⟨?_, _, _, here, takes, rfl⟩, .start (p + 1)⟩
    rintro ⟨found, hfound', real⟩
    obtain rfl := Option.some.inj (here.symm.trans hfound')
    simp [unreal] at real
  | @leap i place inverse target skip inside placed =>
    left
    have hwide : wide.instructions[Pieces.shift pieces i + 1]? = some (.jump Opcode.gotoWide target) := by
      rw [h.instructions_eq, Pieces.getElem?_shift inside (by simp)]
      rfl
    obtain rfl := Option.some.inj (hfound.symm.trans hwide)
    obtain ⟨rfl, rfl⟩ := takes.eq_of_goto (.inr rfl)
    refine ⟨rfl, ?_⟩
    obtain rfl := eq_of_placedLabels (h.wellLabelled hlabelled).placedOnce leads
      (h.getElem?_of_unreal placed rfl).2
    exact .start p
  | @land i inverse target skip inside =>
    left
    have hlabel : wide.instructions[Pieces.shift pieces i + 2]? = some (.label skip) := by
      rw [h.instructions_eq, Pieces.getElem?_shift inside (by simp)]
      rfl
    obtain rfl := Option.some.inj (hfound.symm.trans hlabel)
    obtain ⟨rfl, rfl⟩ := takes.eq_of_unreal rfl
    refine ⟨rfl, ?_⟩
    obtain rfl : k' = Pieces.shift pieces (i + 1) := leads.trans (Pieces.shift_succ inside).symm
    exact .start (i + 1)

omit hlabelled hown in
/-- A position that counts follows the one that it stands for. -/
theorem eq_of_follows {k p i : ℕ} (hfollows : Follows body pieces k p) (hreal : body.HasReal i)
    (hk : k = Pieces.shift pieces i) : p = i := by
  obtain ⟨instruction, here, -⟩ := hreal
  cases hfollows with
  | start => exact h.eq_of_shift_eq here hk
  | leap inside => exact absurd (h.eq_of_shift_add inside (by simp) here hk).2 one_ne_zero
  | land inside => exact absurd (h.eq_of_shift_add inside (by simp) here hk).2 two_ne_zero

omit hlabelled hown in
/-- The positions inside a piece do not count. -/
theorem not_counts_of_inside {i offset : ℕ} {piece : List Instruction} (inside : pieces[i]? = some piece)
    (hpos : 0 < offset) (hlt : offset < piece.length) :
    ¬ Counts body pieces (Pieces.shift pieces i + offset) := by
  rintro ⟨j, ⟨instruction, here, -⟩, hsame⟩
  exact hpos.ne' (h.eq_of_shift_add inside hlt here hsame).2

omit hlabelled hown in
/-- Control goes on to where the piece begins that is meant, over positions that do not count. -/
theorem leads_of_follows {k p : ℕ} (hfollows : Follows body pieces k p) (stack : List Value) :
    Relation.ReflTransGen (fun run later => ¬ Counts body pieces run.1 ∧ wide.Goes effect run later)
      (k, stack) (Pieces.shift pieces p, stack) := by
  cases hfollows with
  | start => exact .refl
  | @leap i place inverse target skip inside placed =>
    have hwide : wide.instructions[Pieces.shift pieces i + 1]? = some (.jump Opcode.gotoWide target) := by
      rw [h.instructions_eq, Pieces.getElem?_shift inside (by simp)]
      rfl
    exact .single ⟨h.not_counts_of_inside inside Nat.one_pos (by simp), _, _, hwide, .goto (.inr rfl) _ _,
      (h.getElem?_of_unreal placed rfl).2⟩
  | @land i inverse target skip inside =>
    have hlabel : wide.instructions[Pieces.shift pieces i + 2]? = some (.label skip) := by
      rw [h.instructions_eq, Pieces.getElem?_shift inside (by simp)]
      rfl
    exact .single ⟨h.not_counts_of_inside inside Nat.two_pos (by simp), _, _, hlabel, .pass rfl _,
      Pieces.shift_succ inside⟩

omit hlabelled hown in
/-- Entries that are no instructions are passed in the new body as in the old one. -/
theorem goes_of_unreal {run later : ℕ × List Value} (hskip : ¬ body.HasReal run.1)
    (hgoes : body.Goes effect run later) : ¬ Counts body pieces (Pieces.shift pieces run.1) ∧
      wide.Goes effect (Pieces.shift pieces run.1, run.2) (Pieces.shift pieces later.1, later.2) := by
  obtain ⟨entry, way, here, takes, leads⟩ := hgoes
  have unreal : entry.isReal = false := by
    by_contra real
    exact hskip ⟨entry, here, by simpa using real⟩
  obtain ⟨hpiece, hmark⟩ := h.getElem?_of_unreal here unreal
  obtain ⟨rfl, hsame⟩ := takes.eq_of_unreal unreal
  refine ⟨?_, entry, .on, hmark, takes, ?_⟩
  · rintro ⟨i, hreal, hsame⟩
    obtain ⟨instruction, hinstruction, -⟩ := id hreal
    exact hskip (h.eq_of_shift_eq hinstruction hsame ▸ hreal)
  · rw [show later.1 = run.1 + 1 from leads]
    exact Pieces.shift_succ hpiece

omit hown in
/-- Where control goes in the new body over positions that do not count, it does in the old one. -/
theorem exists_leads {run later : ℕ × List Value}
    (hleads : Relation.ReflTransGen
      (fun run later => ¬ Counts body pieces run.1 ∧ wide.Goes effect run later) run later)
    (hcounts : Counts body pieces later.1) {p : ℕ} (hfollows : Follows body pieces run.1 p) :
    ∃ k, later.1 = Pieces.shift pieces k ∧ body.HasReal k ∧
      Relation.ReflTransGen (fun run later => ¬ body.HasReal run.1 ∧ body.Goes effect run later)
        (p, run.2) (k, later.2) := by
  induction hleads using Relation.ReflTransGen.head_induction_on generalizing p with
  | refl =>
    obtain ⟨k, hreal, hk⟩ := hcounts
    obtain rfl := h.eq_of_follows hfollows hreal hk
    exact ⟨p, hk, hreal, .refl⟩
  | head hstep _ ih =>
    obtain ⟨hskip, hgoes⟩ := hstep
    rcases h.follows_of_goes hlabelled hfollows hskip hgoes with ⟨hsame, hfollows'⟩ | ⟨p', hstep', hfollows'⟩
    · obtain ⟨k, hk, hreal, hleads⟩ := ih hfollows'
      exact ⟨k, hk, hreal, hsame ▸ hleads⟩
    · obtain ⟨k, hk, hreal, hleads⟩ := ih hfollows'
      exact ⟨k, hk, hreal, .head hstep' hleads⟩

/-- Control comes from an instruction to the same next one as before, with the same operands. -/
theorem comes_iff (hbranches : body.Branches) {i k : ℕ} {stack rest : List Value} {entry : Instruction}
    (here : body.instructions[i]? = some entry) :
    wide.Comes effect (Counts body pieces) (Pieces.shift pieces i, stack) (Pieces.shift pieces k, rest) ↔
      body.Comes effect body.HasReal (i, stack) (k, rest) := by
  constructor
  · rintro ⟨⟨place, values⟩, hgoes, hleads, hcounts⟩
    obtain ⟨m, hgoes', hfollows⟩ := h.exists_goes_of_wide hlabelled hown hbranches here hgoes
    obtain ⟨k', hk, hreal, hleads'⟩ := h.exists_leads hlabelled hleads hcounts hfollows
    obtain ⟨instruction, hinstruction, -⟩ := id hreal
    obtain rfl := h.eq_of_shift_eq hinstruction hk
    exact ⟨_, hgoes', hleads', hreal⟩
  · rintro ⟨⟨m, values⟩, hgoes, hleads, hreal⟩
    obtain ⟨place, hgoes', hfollows⟩ := h.exists_goes hlabelled hown hgoes
    have hleads' : Relation.ReflTransGen
        (fun run later => ¬ Counts body pieces run.1 ∧ wide.Goes effect run later)
        (Pieces.shift pieces m, values) (Pieces.shift pieces k, rest) :=
      hleads.lift (fun run => (Pieces.shift pieces run.1, run.2)) fun run later hstep =>
        h.goes_of_unreal hstep.1 hstep.2
    exact ⟨_, hgoes', (h.leads_of_follows hfollows values).trans hleads', k, hreal, rfl⟩

/-- A handler covers a piece exactly if it covers the entry that the piece stands for. -/
theorem covers_iff {handler : Handler} (hmem : handler ∈ body.handlers) {i k : ℕ}
    (hle : Pieces.shift pieces i ≤ k) (hlt : k < Pieces.shift pieces (i + 1)) :
    wide.Covers handler k ↔ body.Covers handler i := by
  obtain ⟨hstart, hstop, -⟩ := hown.handlers hmem
  exact Body.covers_iff_of_shift (fun _ => h.getElem?_label_iff hlabelled hstart)
    (fun _ => h.getElem?_label_iff hlabelled hstop) hle hlt

end Widened

end Widening

/-! ## All jumps -/

/-- What widening makes of a body: the number of rounds, the new body, the pieces that stand for the entries
of the old one, the pool that is left, and the offsets of the new instructions. -/
structure Body.WidensTo (body : Body) (pool : Pool) (count : ℕ) (wide : Body)
    (pieces : List (List Instruction)) (pool' : Pool) (offsets : Layout.Offsets) : Prop where
  /-- Rounds are made until one changes nothing. -/
  loop : Widening.Loop pool body count wide pool'
  /-- There is one more round than short jumps at most. -/
  count_le : count ≤ body.instructions.countP Widening.isShortJump + 1
  /-- Widening gives what the rounds do. -/
  result : body.widenJumps.finish pool = .ok ((wide, decide (1 < count)), pool')
  /-- The new body is laid out without another request. -/
  laidOut : (Layout.offsets wide.instructions).Settled pool' offsets
  /-- All jumps but the wide ones reach their targets. -/
  inRange : wide.InRange offsets
  /-- No jump is refused when the instructions are written, unless the code is too long. -/
  written : offsets.length ≤ Assembly.longestCode →
    (Encoding.writeAll (offsets.labels wide.instructions) (offsets.locate wide.instructions)).Never
      Fault.IsOutOfRange
  /-- Entries stay, or are jumps that are replaced by wide ones; nothing else changes. -/
  widened : Widening.Widened body wide pieces
  /-- The labels that are new are placed once. -/
  wellLabelled : wide.WellLabelled
  /-- Whatever its operands are, and whatever other instructions do with theirs, control comes from an
  instruction to the same next one as before. -/
  comes : ∀ (effect : Instruction → List Value → List Value → Prop) (i k : ℕ) (stack rest : List Value),
    body.HasReal i → (wide.Comes effect (Widening.Counts body pieces) (Pieces.shift pieces i, stack)
      (Pieces.shift pieces k, rest) ↔ body.Comes effect body.HasReal (i, stack) (k, rest))
  /-- The handlers cover what stands for an entry as they cover the entry. -/
  covers : ∀ handler ∈ body.handlers, ∀ i k : ℕ, Pieces.shift pieces i ≤ k →
    k < Pieces.shift pieces (i + 1) → (wide.Covers handler k ↔ body.Covers handler i)

/-- Widening comes to an end with all jumps in range, and keeps control and protection as they were. -/
theorem Body.exists_widensTo {body : Body} {pool : Pool} (hlabelled : body.WellLabelled)
    (hown : body.RefersToOwn) (hbranches : body.Branches) (hroom : body.HasRoom pool) :
    ∃ count wide pieces pool' offsets, body.WidensTo pool count wide pieces pool' offsets := by
  obtain ⟨indices, pool', hasked⟩ := hroom
  obtain ⟨count, wide, pieces, hloop, hcount, hwidened, hlast⟩ :=
    Widening.exists_loop (.refl body) hlabelled hbranches (Layout.sized_of_finish hasked)
      (Layout.exists_finish_foldlM hasked _)
  rw [Widening.left_refl] at hcount
  obtain ⟨offsets, hoffsets⟩ :=
    Layout.exists_settled_offsets (hwidened.sized (Layout.sized_of_finish hasked))
  have hinRange := Widening.inRange_of_settled (hwidened.branches hbranches) hlast hoffsets
  exact ⟨count, wide, pieces, pool', offsets, {
    loop := hloop
    count_le := hcount
    result := hloop.finish_rounds hcount false
    laidOut := hoffsets
    inRange := hinRange
    written := hinRange.never_write hoffsets
    widened := hwidened
    wellLabelled := hwidened.wellLabelled hlabelled
    comes := fun effect i k stack rest ⟨_, here, _⟩ =>
      hwidened.comes_iff hlabelled hown hbranches here
    covers := fun handler hmem i k hle hlt => hwidened.covers_iff hlabelled hown hmem hle hlt }⟩

/-- A conditional jump over a switch with so many targets that it is out of range. -/
def Body.overSwitch : Body where
  instructions := [.jump Opcode.ifeq ⟨0⟩, .tableSwitch 0 ⟨0⟩ (List.replicate 9000 ⟨0⟩), .label ⟨0⟩,
    .plain Opcode.returnVoid]
  nextLabel := 1

/-- The jump over the switch is widened. -/
theorem Body.exists_widensTo_overSwitch : ∃ count wide pieces pool' offsets,
    overSwitch.WidensTo Pool.empty count wide pieces pool' offsets := by
  refine exists_widensTo ⟨?_, ?_⟩ ⟨?_, ?_⟩ ⟨?_, ?_⟩ ⟨[], Pool.empty, rfl⟩
  · exact List.forall_mem_singleton.mpr Nat.zero_lt_one
  · exact List.nodup_singleton _
  · simp [-List.reduceReplicate, overSwitch, Instruction.targets]
  · simp [-List.reduceReplicate, overSwitch]
  · intro opcode target hmem
    obtain ⟨rfl, rfl⟩ : opcode = Opcode.ifeq ∧ target = ⟨0⟩ := by simpa [-List.reduceReplicate, overSwitch] using hmem
    decide
  · intro opcode target hmem
    obtain ⟨rfl, rfl⟩ : opcode = Opcode.ifeq ∧ target = ⟨0⟩ := by simpa [-List.reduceReplicate, overSwitch] using hmem
    simp [-List.reduceReplicate, overSwitch]

end ClassInstrument
