import ClassInstrument.Proofs.Analysis.Reach
import ClassInstrument.Proofs.Assembly.DeadCode

/-!
# Bodies that control does not leave

Labels and line numbers take no bytes, so a label that control reaches has to be followed by an
instruction.  A body is closed if that is so.  The replacement of dead code makes a body closed, unless
control reaches a label or line number at its very end (`Body.RunsOff`).
-/

namespace ClassInstrument

open Outcome

namespace Body

/-- An instruction comes behind a position. -/
def RealBehind (body : Body) (position : Nat) : Prop :=
  ∃ later instruction, position < later ∧ body.instructions[later]? = some instruction ∧
    instruction.isReal

/-- A handler covers a position. -/
def Covers (body : Body) (handler : Handler) (position : Nat) : Prop :=
  ∃ start stop, body.instructions[start]? = some (.label handler.start) ∧
    body.instructions[stop]? = some (.label handler.stop) ∧ start ≤ position ∧ position < stop

/-- A handler covers a piece exactly if it covers the entry that the piece stands for, if its labels stand
where their pieces begin and nowhere else. -/
theorem covers_iff_of_shift {body body' : Body} {pieces : List (List Instruction)} {handler : Handler}
    (hstart : ∀ k : Nat, body'.instructions[k]? = some (.label handler.start) ↔
      ∃ i : Nat, k = Pieces.shift pieces i ∧ body.instructions[i]? = some (.label handler.start))
    (hstop : ∀ k : Nat, body'.instructions[k]? = some (.label handler.stop) ↔
      ∃ i : Nat, k = Pieces.shift pieces i ∧ body.instructions[i]? = some (.label handler.stop))
    {i k : Nat} (hle : Pieces.shift pieces i ≤ k) (hlt : k < Pieces.shift pieces (i + 1)) :
    body'.Covers handler k ↔ body.Covers handler i := by
  simp only [Covers, hstart, hstop]
  constructor
  · rintro ⟨_, _, ⟨start, rfl, hfirst⟩, ⟨stop, rfl, hlast⟩, hlower, hupper⟩
    refine ⟨start, stop, hfirst, hlast, ?_, ?_⟩
    · by_contra hout
      have : Pieces.shift pieces (i + 1) ≤ Pieces.shift pieces start := Pieces.shift_le (by omega)
      omega
    · by_contra hout
      have : Pieces.shift pieces stop ≤ Pieces.shift pieces i := Pieces.shift_le (by omega)
      omega
  · rintro ⟨start, stop, hfirst, hlast, hlower, hupper⟩
    exact ⟨_, _, ⟨start, rfl, hfirst⟩, ⟨stop, rfl, hlast⟩, (Pieces.shift_le hlower).trans hle,
      hlt.trans_le (Pieces.shift_le hupper)⟩

/-- There is an instruction wherever control can go. -/
structure Closed (body : Body) : Prop where
  /-- There is an instruction. -/
  nonempty : ∃ (position : Nat) (instruction : Instruction), body.instructions[position]? = some instruction ∧
    instruction.isReal
  /-- An instruction that control falls through is followed by one. -/
  falls : ∀ {position : Nat} {instruction : Instruction}, body.instructions[position]? = some instruction →
    instruction.isReal → instruction.fallsThrough → body.RealBehind position
  /-- The target of a jump is followed by an instruction. -/
  jumps : ∀ {position place : Nat} {instruction : Instruction} {target : Label},
    body.instructions[position]? = some instruction → target ∈ instruction.targets → body.instructions[place]? = some (.label target) →
      body.RealBehind place
  /-- A handler that protects an instruction is followed by one. -/
  throws : ∀ {handler : Handler} {position place : Nat} {instruction : Instruction},
    handler ∈ body.handlers → body.Covers handler position → body.instructions[position]? = some instruction →
      instruction.isReal → body.instructions[place]? = some (.label handler.handler) →
        body.RealBehind place

/-- The labels that instructions and handlers refer to are placed. -/
structure Resolved (body : Body) : Prop where
  targets : ∀ {instruction : Instruction}, instruction ∈ body.instructions →
    ∀ target ∈ instruction.targets, Instruction.label target ∈ body.instructions
  handlers : ∀ {handler : Handler}, handler ∈ body.handlers →
    Instruction.label handler.start ∈ body.instructions ∧
      Instruction.label handler.stop ∈ body.instructions ∧
        Instruction.label handler.handler ∈ body.instructions

/-- Control reaches a label or line number behind the last instruction. -/
def RunsOff (body : Body) : Prop :=
  ∃ position instruction, position + 1 = body.instructions.length ∧
    body.instructions[position]? = some instruction ∧ instruction.isReal = false ∧
      body.Reachable [0] position

/-- Control goes on from a label or line number to what follows it. -/
theorem Flows.pass {body : Body} {position : Nat} {instruction : Instruction}
    (here : body.instructions[position]? = some instruction) (unreal : instruction.isReal = false)
    (room : position + 1 < body.instructions.length) : body.Flows position (position + 1) :=
  .next here (Instruction.fallsThrough_of_unreal unreal) room

/-- Control that reaches a position reaches the next instruction from there on, or runs off. -/
theorem exists_real_or_runsOff {body : Body} {position : Nat} (h : body.Reachable [0] position)
    (hlt : position < body.instructions.length) :
    (∃ later instruction, position ≤ later ∧ body.instructions[later]? = some instruction ∧
      instruction.isReal ∧ body.Reachable [0] later) ∨ body.RunsOff := by
  induction hn : body.instructions.length - position generalizing position with
  | zero => omega
  | succ n ih =>
    have here := List.getElem?_eq_getElem hlt
    by_cases real : body.instructions[position].isReal
    · exact Or.inl ⟨position, _, le_rfl, here, real, h⟩
    · have unreal := Bool.not_eq_true _ ▸ real
      by_cases room : position + 1 < body.instructions.length
      · rcases ih (h.flows (.pass here unreal room)) room (by omega) with hreal | hoff
        · obtain ⟨later, instruction, hle, hreal⟩ := hreal
          exact Or.inl ⟨later, instruction, by omega, hreal⟩
        · exact Or.inr hoff
      · exact Or.inr ⟨position, _, by omega, here, unreal, h⟩

end Body

namespace DeadCode

variable {analysis : Analysis} {runs : List DeadRun} {body body' : Body}
  {pieces : List (List Instruction)}

/-- In a well labelled body a handler covers what its labels span. -/
theorem spans_iff_covers (h : body.WellLabelled) {handler : Handler} {position : Nat} :
    Spans (Placements.firstPositions body.instructions) (handler.start, handler.stop) position ↔
      body.Covers handler position := by
  simp only [Spans, Body.Covers, Placements.find_firstPositions h]

/-- The handlers of a body whose dead code was replaced cover what they covered before, outside of the
replacements. -/
theorem Replaced.exists_covers_iff (h : Replaced analysis runs body body')
    (hlabelled : body'.WellLabelled) {label : Label} {position : Nat} {instruction : Instruction}
    (here : body'.instructions[position]? = some instruction) (real : instruction.isReal) :
    (∃ handler ∈ body'.handlers, handler.handler = label ∧ body'.Covers handler position) ↔
      (∃ handler ∈ body.handlers, handler.handler = label ∧ body'.Covers handler position) ∧
        ∀ run ∈ runs,
          ¬ Inside (Placements.firstPositions body'.instructions) run position := by
  by_cases hruns : runs = []
  · rw [h.unchanged hruns, hruns]
    simp
  · obtain ⟨parts, hparts, hhandlers⟩ := h.handlers hruns
    rw [hhandlers]
    constructor
    · rintro ⟨part, hmem, rfl, hcovers⟩
      obtain ⟨left, hleft, hmem⟩ := List.mem_flatten.mp hmem
      obtain ⟨handler, hhandler, hcut⟩ := exists_left_of_forall₂ hparts hleft
      obtain ⟨hsame, hspans⟩ := spans_cutHandler hcut
      obtain ⟨hspans, hout⟩ :=
        (hspans here real).mp ⟨part, hmem, (spans_iff_covers hlabelled).mpr hcovers⟩
      exact ⟨⟨handler, hhandler, (hsame part hmem).1.symm, (spans_iff_covers hlabelled).mp hspans⟩,
        hout⟩
    · rintro ⟨⟨handler, hhandler, rfl, hcovers⟩, hout⟩
      obtain ⟨left, hleft, hcut⟩ := exists_right_of_forall₂ hparts hhandler
      obtain ⟨hsame, hspans⟩ := spans_cutHandler hcut
      obtain ⟨part, hmem, hspan⟩ :=
        (hspans here real).mpr ⟨(spans_iff_covers hlabelled).mpr hcovers, hout⟩
      exact ⟨part, List.mem_flatten.mpr ⟨left, hleft, hmem⟩, (hsame part hmem).1,
        (spans_iff_covers hlabelled).mp hspan⟩

/-! ## Replacing dead code -/

section

variable (hpass : Pass (Rewrites analysis runs) body.instructions.zipIdx body.nextLabel pieces
    body'.nextLabel) (houtput : body'.instructions = pieces.flatten)
include hpass houtput

/-- What is alive stays, from where its piece begins. -/
theorem keeps_of_alive {i : Nat} {instruction : Instruction}
    (here : body.instructions[i]? = some instruction)
    (alive : instruction.isReal → analysis.reaches i) :
    pieces[i]? = some [instruction] ∧
      body'.instructions[Pieces.shift pieces i]? = some instruction := by
  have hentry : body.instructions.zipIdx[i]? = some (instruction, i) := by
    simp [List.getElem?_zipIdx, here]
  obtain ⟨before, piece, after, hpiece, hrewrites⟩ := hpass.exists_piece hentry
  have hkept : piece = [instruction] := by
    cases hrewrites with
    | keep => rfl
    | replace real dead | drop real dead => simp [alive real] at dead
  subst hkept
  exact ⟨hpiece, houtput ▸ Pieces.getElem?_shift (j := 0) hpiece (by simp)⟩

/-- An instruction comes from one that is alive, or is an `athrow` in the place of a dead one. -/
theorem origin_of_real (hlabelled : body'.WellLabelled) {k : Nat} {instruction : Instruction}
    (here : body'.instructions[k]? = some instruction) (real : instruction.isReal) :
    ∃ i entry, body.instructions[i]? = some entry ∧ entry.isReal ∧
      Pieces.shift pieces i ≤ k ∧ k < Pieces.shift pieces (i + 1) ∧
      ((entry = instruction ∧ analysis.reaches i ∧ k = Pieces.shift pieces i) ∨
        (instruction = .plain Opcode.athrow ∧ ∃ run ∈ runs,
          Inside (Placements.firstPositions body'.instructions) run k)) := by
  obtain ⟨i, ⟨entry, position⟩, before, piece, after, j, hentry, hpiece, hrewrites, hj, rfl⟩ :=
    hpass.exists_origin (houtput ▸ here)
  obtain ⟨hentry, rfl⟩ : body.instructions[i]? = some entry ∧ position = i := by
    simp only [List.getElem?_zipIdx, Option.map_eq_some_iff, Nat.zero_add, Prod.mk.injEq] at hentry
    obtain ⟨_, hfound, rfl, rfl⟩ := hentry
    exact ⟨hfound, rfl⟩
  have hlt : j < piece.length := (List.getElem?_eq_some_iff.mp hj).1
  have hend : Pieces.shift pieces position + j < Pieces.shift pieces (position + 1) := by
    rw [Pieces.shift_succ hpiece]
    omega
  refine ⟨position, entry, hentry, ?_⟩
  cases hrewrites with
  | keep alive =>
    obtain rfl : j = 0 := by simpa using hlt
    obtain rfl : entry = instruction := by simpa using hj
    exact ⟨real, by omega, hend, Or.inl ⟨rfl, alive real, rfl⟩⟩
  | @replace _ first hreal dead listed =>
    refine ⟨hreal, by omega, hend, Or.inr ?_⟩
    have hstart := Pieces.getElem?_shift (j := 0) hpiece (by simp [replacement])
    have hstop := Pieces.getElem?_shift (j := 2) hpiece (by simp [replacement])
    have hmiddle : j = 1 ∧ instruction = .plain Opcode.athrow := by
      rcases j with - | - | - | j
      · obtain rfl : Instruction.label _ = instruction := by simpa [replacement] using hj
        simp [Instruction.isReal] at real
      · exact ⟨rfl, by simpa [replacement, eq_comm] using hj⟩
      · obtain rfl : Instruction.label _ = instruction := by simpa [replacement] using hj
        simp [Instruction.isReal] at real
      · simp only [replacement, List.length_cons, List.length_nil] at hlt
        omega
    obtain ⟨rfl, rfl⟩ := hmiddle
    rw [← houtput] at hstart hstop
    exact ⟨rfl, _, listed, _, _, (Placements.find_firstPositions hlabelled).mpr hstart,
      (Placements.find_firstPositions hlabelled).mpr hstop, by omega, by omega⟩
  | drop => simp at hlt

/-- What is alive does not lie in a replacement. -/
theorem not_inside_of_alive (hruns : ∀ run ∈ runs, replacement run ∈ pieces)
    (hlabelled : body'.WellLabelled) {i : Nat} {instruction : Instruction}
    (here : body.instructions[i]? = some instruction)
    (alive : instruction.isReal → analysis.reaches i) {run : DeadRun} (hrun : run ∈ runs) :
    ¬ Inside (Placements.firstPositions body'.instructions) run (Pieces.shift pieces i) := by
  rintro ⟨start, stop, hstart, hstop, hle, hlt⟩
  have hpiece := (keeps_of_alive hpass houtput here alive).1
  obtain ⟨k, hk⟩ := List.mem_iff_getElem?.mp (hruns run hrun)
  have hstart' := Pieces.getElem?_shift (j := 0) hk (by simp [replacement])
  have hstop' := Pieces.getElem?_shift (j := 2) hk (by simp [replacement])
  rw [← houtput] at hstart' hstop'
  obtain rfl := eq_of_placedLabels hlabelled.placedOnce hstart'
    ((Placements.find_firstPositions hlabelled).mp hstart)
  obtain rfl := eq_of_placedLabels hlabelled.placedOnce hstop'
    ((Placements.find_firstPositions hlabelled).mp hstop)
  rcases Nat.lt_trichotomy i k with hik | rfl | hik
  · have := Pieces.shift_add_le hpiece hik
    simp only [List.length_singleton] at this
    omega
  · simp [hpiece, replacement] at hk
  · have := Pieces.shift_add_le hk hik
    simp only [replacement, List.length_cons, List.length_nil] at this
    omega

/-- A handler covers what is alive as it did before. -/
theorem covers_shift_iff (hlabelled : body'.WellLabelled) {i start stop : Nat} {handler : Handler}
    {instruction : Instruction} (here : body.instructions[i]? = some instruction)
    (alive : instruction.isReal → analysis.reaches i)
    (hstart : body.instructions[start]? = some (.label handler.start))
    (hstop : body.instructions[stop]? = some (.label handler.stop)) :
    body'.Covers handler (Pieces.shift pieces i) ↔ start ≤ i ∧ i < stop := by
  have hpiece := (keeps_of_alive hpass houtput here alive).1
  have hstart' := (keeps_of_alive hpass houtput hstart (by simp [Instruction.isReal])).2
  have hstop' := (keeps_of_alive hpass houtput hstop (by simp [Instruction.isReal])).2
  have hnot : ∀ {j : Nat}, i < j → Pieces.shift pieces i < Pieces.shift pieces j := by
    intro j hlt
    have := Pieces.shift_add_le hpiece hlt
    simp only [List.length_singleton] at this
    omega
  constructor
  · rintro ⟨start', stop', hfirst, hlast, hle, hlt⟩
    obtain rfl := eq_of_placedLabels hlabelled.placedOnce hstart' hfirst
    obtain rfl := eq_of_placedLabels hlabelled.placedOnce hstop' hlast
    refine ⟨?_, ?_⟩
    · by_contra hout
      have := hnot (Nat.not_le.mp hout)
      omega
    · by_contra hout
      have : Pieces.shift pieces stop ≤ Pieces.shift pieces i := Pieces.shift_le (Nat.not_lt.mp hout)
      omega
  · rintro ⟨hle, hlt⟩
    exact ⟨_, _, hstart', hstop', Pieces.shift_le hle, hnot hlt⟩

end

variable {method : MethodContext} {hierarchy : Hierarchy}

/-- A position that is followed by an instruction that is reached is followed by one in the new list. -/
theorem realBehind_shift {i j : Nat} {mark instruction : Instruction}
    (hpass : Pass (Rewrites analysis runs) body.instructions.zipIdx body.nextLabel pieces
      body'.nextLabel) (houtput : body'.instructions = pieces.flatten)
    (hmark : body.instructions[i]? = some mark) (alive : mark.isReal → analysis.reaches i)
    (hlt : i < j) (here : body.instructions[j]? = some instruction) (real : instruction.isReal)
    (hreaches : analysis.reaches j) : body'.RealBehind (Pieces.shift pieces i) := by
  have hpiece := (keeps_of_alive hpass houtput hmark alive).1
  have hkept := (keeps_of_alive hpass houtput here fun _ => hreaches).2
  refine ⟨_, instruction, ?_, hkept, real⟩
  have := Pieces.shift_add_le hpiece hlt
  simp only [List.length_singleton] at this
  omega

/-- After dead code was replaced, the labels that are referred to are placed. -/
theorem Replaced.resolved (h : Replaced analysis runs body body') (hlabelled : body.WellLabelled)
    (hanalysis : analyze body method hierarchy [] = .ok analysis) : body'.Resolved := by
  obtain ⟨pieces, hpass, houtput, -⟩ := h.pass
  have hlabelled' := h.wellLabelled hlabelled
  obtain ⟨initial, handlers, -, -, -, hhandlers, -⟩ := analyze_eq_ok.mp hanalysis
  have hplaced := Body.placedHandlers_eq_ok hhandlers
  have hlabel : ∀ {label : Label} {place : Nat}, body.Places label place →
      Instruction.label label ∈ body'.instructions := fun hplaces =>
    List.mem_of_getElem? (keeps_of_alive hpass houtput hplaces.1 (by simp [Instruction.isReal])).2
  refine ⟨?_, ?_⟩
  · intro instruction hmem target htarget
    obtain ⟨k, here⟩ := List.mem_iff_getElem?.mp hmem
    have real := Instruction.isReal_of_target htarget
    obtain ⟨i, entry, hentry, -, -, -, ⟨rfl, hi, rfl⟩ | ⟨rfl, -⟩⟩ :=
      origin_of_real hpass houtput hlabelled' here real
    · obtain ⟨place, hplaces⟩ := (goesOn_of_reaches (by simp) hanalysis hi hentry real).2 target htarget
      exact hlabel hplaces
    · simp [Instruction.targets] at htarget
  · have hold : ∀ {handler : Handler}, handler ∈ body.handlers →
        Instruction.label handler.start ∈ body'.instructions ∧
          Instruction.label handler.stop ∈ body'.instructions ∧
            Instruction.label handler.handler ∈ body'.instructions := by
      intro handler hmem
      obtain ⟨placed, -, hplaces⟩ := exists_right_of_forall₂ hplaced hmem
      exact ⟨hlabel hplaces.start, hlabel hplaces.stop, hlabel hplaces.entry⟩
    intro part hmem
    by_cases hruns : runs = []
    · rw [h.unchanged hruns] at hmem
      exact hold hmem
    · obtain ⟨parts, hparts, hhandlers⟩ := h.handlers hruns
      obtain ⟨left, hleft, hmem⟩ := List.mem_flatten.mp (hhandlers ▸ hmem)
      obtain ⟨handler, hhandler, hcut⟩ := exists_left_of_forall₂ hparts hleft
      obtain ⟨hsame, -, ⟨start, hstart⟩, ⟨stop, hstop⟩⟩ := (spans_cutHandler hcut).1 part hmem
      exact ⟨List.mem_of_getElem? ((Placements.find_firstPositions hlabelled').mp hstart),
        List.mem_of_getElem? ((Placements.find_firstPositions hlabelled').mp hstop),
        hsame ▸ (hold hhandler).2.2⟩

/-- After dead code was replaced there is an instruction wherever control can go, unless control runs
off the end. -/
theorem Replaced.closed (h : Replaced analysis runs body body') (hlabelled : body.WellLabelled)
    (hanalysis : analyze body method hierarchy [] = .ok analysis) (hstays : ¬ body.RunsOff) :
    body'.Closed := by
  obtain ⟨pieces, hpass, houtput, hruns⟩ := h.pass
  have hlabelled' := h.wellLabelled hlabelled
  have hreaches : ∀ position, analysis.reaches position ↔ body.Reachable [0] position :=
    reaches_iff (by simp) hanalysis
  obtain ⟨initial, handlers, -, -, -, hhandlers, hnonempty, -⟩ := analyze_eq_ok.mp hanalysis
  have hplaced := Body.placedHandlers_eq_ok hhandlers
  -- Wherever control gets to in the old list, an instruction that it reaches follows.
  have hfollowed : ∀ {position : Nat}, body.Reachable [0] position →
      position < body.instructions.length → ∃ later instruction, position ≤ later ∧
        body.instructions[later]? = some instruction ∧ instruction.isReal ∧
          body.Reachable [0] later :=
    fun hreach hlt => (Body.exists_real_or_runsOff hreach hlt).resolve_right hstays
  have hlabel : ∀ {label : Label} {place place' : Nat},
      body'.instructions[place']? = some (.label label) → body.Places label place →
        body.Reachable [0] place → body'.RealBehind place' := by
    intro label place place' hplace' hplaces hreach
    have hkept := (keeps_of_alive hpass houtput hplaces.1 (by simp [Instruction.isReal])).2
    obtain rfl := eq_of_placedLabels hlabelled'.placedOnce hkept hplace'
    obtain ⟨later, instruction, hle, here, real, hlater⟩ := hfollowed hreach hplaces.lt
    rcases Nat.eq_or_lt_of_le hle with rfl | hlt
    · obtain rfl := Option.some.inj (hplaces.1.symm.trans here)
      simp [Instruction.isReal] at real
    · exact realBehind_shift hpass houtput hplaces.1 (by simp [Instruction.isReal]) hlt here real
        ((hreaches later).mpr hlater)
  refine ⟨?_, ?_, ?_, ?_⟩
  · obtain ⟨later, instruction, -, here, real, hlater⟩ :=
      hfollowed (Body.reachable_entry (List.mem_singleton.mpr rfl)) (List.length_pos_of_ne_nil hnonempty)
    exact ⟨_, instruction,
      (keeps_of_alive hpass houtput here fun _ => (hreaches later).mpr hlater).2, real⟩
  · intro position instruction here real falls
    obtain ⟨i, entry, hentry, -, -, -, ⟨rfl, hi, rfl⟩ | ⟨rfl, -⟩⟩ :=
      origin_of_real hpass houtput hlabelled' here real
    · have hroom := (goesOn_of_reaches (by simp) hanalysis hi hentry real).1 falls
      obtain ⟨later, instruction, hle, hlater, hreal, hreach⟩ :=
        hfollowed (((hreaches i).mp hi).flows (.next hentry falls hroom)) hroom
      exact realBehind_shift hpass houtput hentry (fun _ => hi) hle hlater hreal
        ((hreaches later).mpr hreach)
    · simp [Instruction.fallsThrough, Opcode.isReturn, Opcode.isBetween] at falls
  · intro position place instruction target here htarget hplace
    have real := Instruction.isReal_of_target htarget
    obtain ⟨i, entry, hentry, -, -, -, ⟨rfl, hi, rfl⟩ | ⟨rfl, -⟩⟩ :=
      origin_of_real hpass houtput hlabelled' here real
    · obtain ⟨place', hplaces⟩ := (goesOn_of_reaches (by simp) hanalysis hi hentry real).2 target htarget
      exact hlabel hplace hplaces (((hreaches i).mp hi).flows (.jump hentry htarget hplaces))
    · simp [Instruction.targets] at htarget
  · intro handler position place instruction hmem hcovers here real hplace
    obtain ⟨⟨old, hold, hsame, hcovers⟩, hout⟩ :=
      (h.exists_covers_iff hlabelled' here real).mp ⟨handler, hmem, rfl, hcovers⟩
    obtain ⟨i, entry, hentry, -, -, -, ⟨rfl, hi, rfl⟩ | ⟨rfl, run, hrun, hinside⟩⟩ :=
      origin_of_real hpass houtput hlabelled' here real
    · obtain ⟨placed, -, hplaces⟩ := exists_right_of_forall₂ hplaced hold
      have hspan := (covers_shift_iff hpass houtput hlabelled' hentry (fun _ => hi) hplaces.start.1
        hplaces.stop.1).mp hcovers
      exact hlabel (hsame ▸ hplace) hplaces.entry (((hreaches i).mp hi).flows
        (.throw hentry real hold hplaces.start hplaces.stop hspan hplaces.entry))
    · exact absurd hinside (hout run hrun)

/-- If there is an instruction wherever control can go after dead code was replaced, then control does
not run off the end. -/
theorem Replaced.not_runsOff (h : Replaced analysis runs body body') (hlabelled : body.WellLabelled)
    (hanalysis : analyze body method hierarchy [] = .ok analysis) (hclosed : body'.Closed) :
    ¬ body.RunsOff := by
  obtain ⟨pieces, hpass, houtput, hruns⟩ := h.pass
  have hlabelled' := h.wellLabelled hlabelled
  have hreaches : ∀ position, analysis.reaches position ↔ body.Reachable [0] position :=
    reaches_iff (by simp) hanalysis
  -- An instruction of the new list behind a place comes from one of the old list behind it.
  have hbehind : ∀ {i : Nat}, body'.RealBehind (Pieces.shift pieces i) →
      ∃ later entry, i ≤ later ∧ body.instructions[later]? = some entry ∧ entry.isReal := by
    rintro i ⟨k, instruction, hlt, here, real⟩
    obtain ⟨later, entry, hentry, hreal, -, hk, -⟩ :=
      origin_of_real hpass houtput hlabelled' here real
    refine ⟨later, entry, ?_, hentry, hreal⟩
    by_contra hbefore
    have : Pieces.shift pieces (later + 1) ≤ Pieces.shift pieces i := Pieces.shift_le (by omega)
    omega
  have hfollowed : ∀ {position : Nat}, body.Reachable [0] position → ∃ later entry,
      position ≤ later ∧ body.instructions[later]? = some entry ∧ entry.isReal := by
    rintro position ⟨_, hmem, hpath⟩
    obtain rfl := List.mem_singleton.mp hmem
    induction hpath with
    | refl =>
      obtain ⟨k, instruction, here, real⟩ := hclosed.nonempty
      obtain ⟨later, entry, hentry, hreal, -⟩ := origin_of_real hpass houtput hlabelled' here real
      exact ⟨later, entry, Nat.zero_le _, hentry, hreal⟩
    | @tail position next hpath hflows ih =>
      have hi := (hreaches position).mpr ⟨0, hmem, hpath⟩
      cases hflows with
      | @next instruction here falls room =>
        by_cases real : instruction.isReal
        · have hpiece := keeps_of_alive hpass houtput here fun _ => hi
          obtain ⟨k, after, hlt, hafter, hreal⟩ := hclosed.falls hpiece.2 real falls
          have hnext := Pieces.shift_succ hpiece.1
          simp only [List.length_singleton] at hnext
          obtain ⟨later, entry, hentry, hreal, -, hk, -⟩ :=
            origin_of_real hpass houtput hlabelled' hafter hreal
          refine ⟨later, entry, ?_, hentry, hreal⟩
          by_contra hbefore
          have : Pieces.shift pieces (later + 1) ≤ Pieces.shift pieces (position + 1) :=
            Pieces.shift_le (by omega)
          omega
        · obtain ⟨later, entry, hle, hentry, hreal⟩ := ih
          refine ⟨later, entry, ?_, hentry, hreal⟩
          rcases Nat.eq_or_lt_of_le hle with rfl | hlt
          · obtain rfl := Option.some.inj (here.symm.trans hentry)
            exact absurd hreal real
          · exact hlt
      | @jump instruction target place here targeted placed =>
        have hkept := (keeps_of_alive hpass houtput here fun _ => hi).2
        have hplace := (keeps_of_alive hpass houtput placed.1 (by simp [Instruction.isReal])).2
        exact hbehind (hclosed.jumps hkept targeted hplace)
      | @throw instruction handler start stop place here real listed starts stops covered placed =>
        have hkept := (keeps_of_alive hpass houtput here fun _ => hi).2
        have hplace := (keeps_of_alive hpass houtput placed.1 (by simp [Instruction.isReal])).2
        have hcovers := (covers_shift_iff hpass houtput hlabelled' here (fun _ => hi) starts.1
          stops.1).mpr covered
        obtain ⟨part, hpart, hsame, hcovers⟩ := (h.exists_covers_iff hlabelled' hkept real).mpr
          ⟨⟨handler, listed, rfl, hcovers⟩, fun run hrun =>
            not_inside_of_alive hpass houtput hruns hlabelled' here (fun _ => hi) hrun⟩
        exact hbehind (hclosed.throws hpart hcovers hkept real (hsame ▸ hplace))
  rintro ⟨position, instruction, hlast, here, unreal, hreach⟩
  obtain ⟨later, entry, hle, hentry, hreal⟩ := hfollowed hreach
  have hlt : later < body.instructions.length := (List.getElem?_eq_some_iff.mp hentry).1
  obtain rfl : later = position := by omega
  obtain rfl := Option.some.inj (here.symm.trans hentry)
  simp [unreal] at hreal

end DeadCode

end ClassInstrument
