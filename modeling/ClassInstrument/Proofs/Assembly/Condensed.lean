import ClassInstrument.Classpath.Hierarchy
import ClassInstrument.Proofs.Assembly.MissingFrames
import ClassInstrument.Proofs.Assembly.Mirroring
import ClassInstrument.Proofs.Execution.Control

/-!
# Replaced dead code and condensed bodies

What a replacement of dead code leaves of a body (`Body.CollapsesTo`), and what an analysis of the new body gives
to it (`Analysis.Carries`).  Instructions that are reached do not notice that other ones were replaced
(`Body.exists_collapsesTo`).
-/

namespace ClassInstrument

open DeadCode

/-- The dead code of a body is replaced.  For each entry of the body stands a piece of the new one, and each run
is the pair of labels around one replacement. -/
structure Body.CollapsesTo (body : Body) (analysis : Analysis) (body' : Body)
    (pieces : List (List Instruction)) (runs : List DeadRun) : Prop where
  result : body.replaceDeadCode analysis = .ok (body', runs.map DeadRun.start)
  length_eq : pieces.length = body.instructions.length
  output : body'.instructions = pieces.flatten
  /-- Labels, line numbers and instructions that are reached are kept. -/
  kept : ∀ {i : ℕ} {instruction}, body.instructions[i]? = some instruction →
    (instruction.isReal → analysis.reaches i) → pieces[i]? = some [instruction]
  /-- For the first instruction of a run stands a replacement. -/
  begun : ∀ {i : ℕ}, BeginsRun analysis false body.instructions.zipIdx i →
    ∃ run ∈ runs, pieces[i]? = some (replacement run)
  /-- For the others stands nothing. -/
  dropped : ∀ {i : ℕ}, DeadAt analysis body.instructions.zipIdx i →
    ¬ BeginsRun analysis false body.instructions.zipIdx i → pieces[i]? = some []
  /-- Every replacement stands for the first instruction of a run. -/
  begins : ∀ run ∈ runs, ∃ i, BeginsRun analysis false body.instructions.zipIdx i ∧
    pieces[i]? = some (replacement run)
  /-- The labels of the runs are those that were handed out meanwhile. -/
  labels : runs.flatMap (fun run => [run.start, run.stop]) = freshLabels body.nextLabel body'.nextLabel
  wellLabelled : body'.WellLabelled
  /-- What is reached throws to where it threw before. -/
  catchers : ∀ {i : ℕ} {instruction}, body.instructions[i]? = some instruction → instruction.isReal →
    analysis.reaches i → body'.catchers (Pieces.shift pieces i) = body.catchers i
  /-- What replaces a run throws out of the method. -/
  uncaught : ∀ run ∈ runs, ∀ {i : ℕ}, pieces[i]? = some (replacement run) →
    body'.catchers (Pieces.shift pieces i + 1) = []

/-- An analysis of the new body carries the frames of the old one to where the pieces of their instructions are,
and has a frame for everything. -/
structure Analysis.Carries (analysis : Analysis) (body' : Body) (pieces : List (List Instruction))
    (runs : List DeadRun) (roots : List Root) (analysis' : Analysis) : Prop where
  /-- The roots are at the replacements, and hold nothing but a throwable. -/
  rooted : List.Forall₂ (fun run root => ∃ i, pieces[i]? = some (replacement run) ∧
    root = (Pieces.shift pieces i + 1, Assembly.deadCodeFrame)) runs roots
  /-- Every instruction has a frame. -/
  reaches : ∀ {k : ℕ} {instruction}, body'.instructions[k]? = some instruction → instruction.isReal →
    analysis'.reaches k
  /-- What was reached has the frame that it had, in which creation sites have moved with the instructions. -/
  frames : ∀ {i : ℕ} {frame}, analysis.frames[i]? = some (some frame) →
    analysis'.frames[Pieces.shift pieces i]? = some (some (frame.mapSites (Pieces.shift pieces)))
  /-- What replaces a run has the frame of its root. -/
  thrown : ∀ root ∈ roots, analysis'.frames[root.1]? = some (some Assembly.deadCodeFrame)

namespace DeadCode.Collapsed

variable {analysis analysis' : Analysis} {pieces : List (List Instruction)} {runs : List DeadRun}
  {body body' : Body} {method : MethodContext} {hierarchy : Hierarchy} {roots : List Root}

/-- Where the label before a replacement stands. -/
theorem getElem?_start (h : Collapsed analysis pieces runs body body') {run : DeadRun} {i : ℕ}
    (hpiece : pieces[i]? = some (replacement run)) :
    body'.instructions[Pieces.shift pieces i]? = some (.label run.start) :=
  h.output ▸ Pieces.getElem?_shift (j := 0) hpiece (by simp [replacement])

/-- Where the instruction of a replacement stands. -/
theorem getElem?_athrow (h : Collapsed analysis pieces runs body body') {run : DeadRun} {i : ℕ}
    (hpiece : pieces[i]? = some (replacement run)) :
    body'.instructions[Pieces.shift pieces i + 1]? = some (.plain Opcode.athrow) :=
  h.output ▸ Pieces.getElem?_shift (j := 1) hpiece (by simp [replacement])

/-- What was dead is collapsed, and what is alive does not notice. -/
theorem collapsesTo (h : Collapsed analysis pieces runs body body') (hlabelled : body.WellLabelled)
    (hfirst : analyze body method hierarchy [] = .ok analysis)
    (hresult : body.replaceDeadCode analysis = .ok (body', runs.map DeadRun.start)) :
    body.CollapsesTo analysis body' pieces runs where
  result := hresult
  length_eq := by rw [h.pass.length_eq, List.length_zipIdx]
  output := h.output
  kept here alive := (h.keeps here alive).1
  begun hbegins := by
    rcases h.collapses.piece_of_dead hbegins.dead with ⟨-, hrun⟩ | ⟨hnot, -⟩
    · exact hrun
    · exact absurd hbegins hnot
  dropped dead hnot := by
    rcases h.collapses.piece_of_dead dead with ⟨hbegins, -⟩ | ⟨-, hpiece⟩
    · exact absurd hbegins hnot
    · exact hpiece
  begins run hrun := h.collapses.exists_begins hrun
  labels := h.collapses.labels.2
  wellLabelled := h.replaced.wellLabelled hlabelled
  catchers here real alive := by
    obtain ⟨initial, handlers, -, -, -, hhandlers, -⟩ := analyze_eq_ok.mp hfirst
    exact h.replaced.catchers_shift h.pass h.output h.collapses.mem_pieces hlabelled
      (fun _ => Body.exists_places hhandlers) here real alive
  uncaught run hrun _ hpiece := h.replaced.catchers_inside hlabelled hrun (h.getElem?_athrow hpiece) rfl
    (h.inside hlabelled hrun (h.getElem?_start hpiece))

/-- The roots of an analysis after dead code was replaced are at the replacements. -/
theorem rooted (h : Collapsed analysis pieces runs body body') (hlabelled : body.WellLabelled)
    (hroots : Assembly.deadCodeRoots body' (runs.map DeadRun.start) = .ok roots) :
    List.Forall₂ (fun run root => ∃ i, pieces[i]? = some (replacement run) ∧
      root = (Pieces.shift pieces i + 1, Assembly.deadCodeFrame)) runs roots := by
  have hlabelled' := h.replaced.wellLabelled hlabelled
  have hbehind := List.forall₂_map_left_iff.mp ((Assembly.deadCodeRoots_eq_ok hlabelled').mp hroots)
  refine Outcome.forall₂_imp_mem hbehind ?_
  rintro run hrun root ⟨place, hplace, rfl⟩
  obtain ⟨i, hpiece⟩ := List.mem_iff_getElem?.mp (h.collapses.mem_pieces run hrun)
  obtain rfl := eq_of_placedLabels hlabelled'.placedOnce hplace (h.getElem?_start hpiece)
  exact ⟨i, hpiece, rfl⟩

end DeadCode.Collapsed

/-- **Dead code is replaced without a trace.**  If the first analysis of a well labelled body succeeds, its dead code
is replaced, run by run, and what is alive keeps its order and its handlers.  A second analysis, with a root at each
replacement, succeeds; it has a frame for everything, and the same ones as before for what is alive.  So assembling
the body does not fail for a missing frame. -/
theorem Body.exists_collapsesTo {body : Body} (hlabelled : body.WellLabelled) {method : MethodContext}
    {hierarchy : Hierarchy} {analysis : Analysis} (hfirst : analyze body method hierarchy [] = .ok analysis) :
    ∃ body' pieces runs, body.CollapsesTo analysis body' pieces runs ∧
      (∃ roots analysis', Assembly.deadCodeRoots body' (runs.map DeadRun.start) = .ok roots ∧
        analyze body' method hierarchy roots = .ok analysis' ∧
        analysis.Carries body' pieces runs roots analysis') ∧
      ∀ version, (body.assemble method version hierarchy).Never hierarchy.MissesFrame := by
  obtain ⟨initial, handlers, -, -, -, hhandlers, -⟩ := analyze_eq_ok.mp hfirst
  obtain ⟨body', dead, hresult⟩ := exists_replaceDeadCode analysis hlabelled fun _ => exists_places hhandlers
  obtain ⟨pieces, runs, h, rfl⟩ := exists_collapsed hresult
  obtain ⟨roots, analysis', hroots, hanalysis, hreaches, hframes, hthrown⟩ := h.exists_analyze hlabelled hfirst
  have hrooted := h.rooted hlabelled hroots
  refine ⟨body', pieces, runs, h.collapsesTo hlabelled hfirst hresult,
    ⟨roots, analysis', hroots, hanalysis, hrooted, hreaches, hframes, fun root hmem => ?_⟩,
    fun version => never_assemble hlabelled method version hierarchy⟩
  obtain ⟨run, -, i, -, rfl⟩ := Outcome.exists_left_of_forall₂ hrooted hmem
  exact hthrown _ hmem

/-- A body that returns, with a range around what is behind and a handler that throws again. -/
def Body.abandoned : Body where
  instructions := [.label ⟨0⟩, .plain Opcode.returnVoid, .plain Opcode.nop, .line 5, .plain Opcode.nop,
    .plain Opcode.returnVoid, .label ⟨1⟩, .label ⟨2⟩, .plain Opcode.athrow]
  handlers := [{ start := ⟨0⟩, stop := ⟨1⟩, handler := ⟨2⟩, caught := none }]
  nextLabel := 3

/-- What is behind the return is replaced. -/
theorem Body.exists_collapsesTo_abandoned : ∃ analysis,
    analyze abandoned ⟨"A", "f", "()V", true⟩ Classpath.empty.hierarchy [] = .ok analysis ∧
      analysis.reaches 2 = false ∧
      ∃ body' pieces runs, abandoned.CollapsesTo analysis body' pieces runs ∧
        (∃ roots analysis', Assembly.deadCodeRoots body' (runs.map DeadRun.start) = .ok roots ∧
          analyze body' ⟨"A", "f", "()V", true⟩ Classpath.empty.hierarchy roots = .ok analysis' ∧
          analysis.Carries body' pieces runs roots analysis') ∧
        ∀ version, (abandoned.assemble ⟨"A", "f", "()V", true⟩ version Classpath.empty.hierarchy).Never
          Classpath.empty.hierarchy.MissesFrame := by
  have hdead : (analyze abandoned ⟨"A", "f", "()V", true⟩ Classpath.empty.hierarchy []).toOption.map
      (·.reaches 2) = some false := by
    cbv
  cases hfirst : analyze abandoned ⟨"A", "f", "()V", true⟩ Classpath.empty.hierarchy [] with
  | error fault => simp [hfirst, Except.toOption] at hdead
  | ok analysis =>
    rw [hfirst] at hdead
    exact ⟨analysis, rfl, Option.some.inj hdead, exists_collapsesTo ⟨by decide, by decide⟩ hfirst⟩

end ClassInstrument

/-!
## Condensed bodies

After dead code was replaced, the instructions to which control does not get from the start are the replacements:
each of them throws out of the method, and between two of them there is an instruction that is reached.  A body in
which it is so is condensed (`Body.Condensed`).  Widening keeps a body condensed, and so does a change of its labels
that leaves control as it is.  In a condensed body there is no dead code left to be merged or dropped.
-/

namespace ClassInstrument

open Outcome

namespace Body

/-- There is an instruction at a position, and control does not get there from the start. -/
def Strays (body : Body) (position : ℕ) : Prop :=
  body.HasReal position ∧ ¬ body.Reachable [0] position

/-- All that control does not get to are single instructions that throw out of the method. -/
structure Condensed (body : Body) : Prop where
  throws : ∀ {k : ℕ}, body.Strays k → body.instructions[k]? = some (.plain Opcode.athrow)
  /-- No handler catches what is thrown there. -/
  uncaught : ∀ {k : ℕ}, body.Strays k → ∀ handler ∈ body.handlers, ¬ body.Covers handler k
  /-- Between two of them control gets to an instruction. -/
  apart : ∀ {j k : ℕ}, j < k → body.Strays j → body.Strays k →
    ∃ i, j < i ∧ i < k ∧ body.HasReal i ∧ body.Reachable [0] i

variable {body original : Body} {position next : ℕ}

/-- What flows of control keep holds of all that is reached. -/
theorem Reachable.flows_induction {motive : ℕ → Prop} (h : body.Reachable [0] position) (hstart : motive 0)
    (hflows : ∀ {position next : ℕ}, body.Reachable [0] position → body.Flows position next → motive position →
      motive next) : motive position := by
  obtain ⟨entry, hentry, hpath⟩ := h
  obtain rfl := List.mem_singleton.mp hentry
  induction hpath with
  | refl => exact hstart
  | tail hpath hlast ih => exact hflows ⟨0, hentry, hpath⟩ hlast ih

/-- In a condensed body control goes nowhere from where it does not get to. -/
theorem Condensed.not_flows (h : body.Condensed) (hstrays : body.Strays position) :
    ¬ body.Flows position next := by
  have hthrow := h.throws hstrays
  intro hflows
  cases hflows with
  | next here falls room =>
    obtain rfl := Option.some.inj (hthrow.symm.trans here)
    simp [Instruction.fallsThrough, Opcode.isReturn, Opcode.isBetween] at falls
  | jump here targeted placed =>
    obtain rfl := Option.some.inj (hthrow.symm.trans here)
    simp [Instruction.targets] at targeted
  | throw here real listed starts stops covered placed =>
    exact h.uncaught hstrays _ listed ⟨_, _, starts.1, stops.1, covered⟩

end Body

/-! ## Replacing dead code -/

namespace DeadCode.Collapsed

variable {analysis : Analysis} {pieces : List (List Instruction)} {runs : List DeadRun} {body body' : Body}
  {method : MethodContext} {hierarchy : Hierarchy} {i k : ℕ}
  (h : Collapsed analysis pieces runs body body') (hlabelled : body.WellLabelled)
  (hfirst : analyze body method hierarchy [] = .ok analysis)
include h hlabelled hfirst

/-- Where control goes from what is reached, it goes after dead code was replaced. -/
theorem flows_shift (hreach : body.Reachable [0] i) (hflows : body.Flows i k) :
    body'.Flows (Pieces.shift pieces i) (Pieces.shift pieces k) := by
  have hlabelled' := h.replaced.wellLabelled hlabelled
  have hreaches : ∀ position, analysis.reaches position ↔ body.Reachable [0] position :=
    reaches_iff (by simp) hfirst
  have alive := (hreaches i).mpr hreach
  have hnext := (hreaches k).mpr (hreach.flows hflows)
  cases hflows with
  | next here falls room =>
    obtain ⟨hpiece, hkept⟩ := h.keeps here fun _ => alive
    have hshift : Pieces.shift pieces (i + 1) = Pieces.shift pieces i + 1 := Pieces.shift_succ hpiece
    rw [hshift]
    exact .next hkept falls (hshift ▸ h.shift_lt_length hfirst hnext)
  | jump here targeted placed =>
    exact .jump (h.keeps here fun _ => alive).2 targeted (h.places_shift hlabelled placed)
  | throw here real listed starts stops covered placed =>
    have hkept := (h.keeps here fun _ => alive).2
    have hcovers := (covers_shift_iff h.pass h.output hlabelled' here (fun _ => alive) starts.1 stops.1).mpr covered
    have hout : ∀ run ∈ runs, ¬ Inside (Placements.firstPositions body'.instructions) run
        (Pieces.shift pieces i) := fun run hrun =>
      not_inside_of_alive h.pass h.output h.collapses.mem_pieces hlabelled' here (fun _ => alive) hrun
    obtain ⟨part, hpart, hsame, start, stop, hstart, hstop, hcovered⟩ :=
      (h.replaced.exists_covers_iff hlabelled' hkept real).mpr ⟨⟨_, listed, rfl, hcovers⟩, hout⟩
    exact .throw hkept real hpart (hlabelled'.places_iff.mpr hstart) (hlabelled'.places_iff.mpr hstop) hcovered
      (hsame ▸ h.places_shift hlabelled placed)

/-- What is reached is reached after dead code was replaced. -/
theorem reachable_shift (hreach : body.Reachable [0] i) : body'.Reachable [0] (Pieces.shift pieces i) :=
  hreach.flows_induction (motive := fun i => body'.Reachable [0] (Pieces.shift pieces i))
    (Body.reachable_entry (List.mem_singleton.mpr rfl)) fun hreach hflows hshifted =>
      hshifted.flows (h.flows_shift hlabelled hfirst hreach hflows)

/-- What control does not get to after dead code was replaced are the replacements. -/
theorem exists_run_of_strays (hstrays : body'.Strays k) : ∃ run ∈ runs, ∃ i,
    BeginsRun analysis false body.instructions.zipIdx i ∧ pieces[i]? = some (replacement run) ∧
      k = Pieces.shift pieces i + 1 := by
  obtain ⟨⟨instruction, here, real⟩, hnot⟩ := hstrays
  rcases h.origin hlabelled here real with ⟨i, -, hreach, rfl⟩ | ⟨-, run, hrun, place, hplace, rfl⟩
  · exact absurd (h.reachable_shift hlabelled hfirst ((reaches_iff (by simp) hfirst i).mp hreach)) hnot
  · obtain ⟨i, hbegins, hpiece⟩ := h.collapses.exists_begins hrun
    obtain rfl := eq_of_placedLabels (h.replaced.wellLabelled hlabelled).placedOnce hplace (h.getElem?_start hpiece)
    exact ⟨run, hrun, i, hbegins, hpiece, rfl⟩

/-- **What is left is condensed** after dead code was replaced. -/
theorem condensed : body'.Condensed where
  throws hstrays := by
    obtain ⟨run, -, i, -, hpiece, rfl⟩ := h.exists_run_of_strays hlabelled hfirst hstrays
    exact h.getElem?_athrow hpiece
  uncaught hstrays handler hmem hcovers := by
    have hlabelled' := h.replaced.wellLabelled hlabelled
    obtain ⟨run, hrun, i, -, hpiece, rfl⟩ := h.exists_run_of_strays hlabelled hfirst hstrays
    obtain ⟨-, hout⟩ := (h.replaced.exists_covers_iff hlabelled' (h.getElem?_athrow hpiece) rfl).mp
      ⟨handler, hmem, rfl, hcovers⟩
    exact hout run hrun (h.inside hlabelled hrun (h.getElem?_start hpiece))
  apart {j k} hlt hj hk := by
    obtain ⟨_, -, first, hbegins, hfirstPiece, rfl⟩ := h.exists_run_of_strays hlabelled hfirst hj
    obtain ⟨_, -, second, hbegins', -, rfl⟩ := h.exists_run_of_strays hlabelled hfirst hk
    have hbefore : first < second := by
      by_contra hle
      have : Pieces.shift pieces second ≤ Pieces.shift pieces first := Pieces.shift_le (Nat.not_lt.mp hle)
      omega
    -- an instruction that is reached stands between the beginnings of two runs
    obtain ⟨i, hfi, his, hlive⟩ := hbegins'.apart first hbefore hbegins.dead
    obtain ⟨instruction, here, real, alive⟩ := liveAt_zipIdx.mp hlive
    have hkept := (h.keeps here fun _ => alive).2
    have hlower := Pieces.shift_add_le hfirstPiece hfi
    have hupper := h.shift_lt hfirst alive his
    simp only [replacement, List.length_cons, List.length_nil] at hlower
    exact ⟨Pieces.shift pieces i, by omega, by omega, ⟨instruction, hkept, real⟩,
      h.reachable_shift hlabelled hfirst ((reaches_iff (by simp) hfirst i).mp alive)⟩

end DeadCode.Collapsed

/-! ## Widening -/

namespace Widening

variable {body body' : Body} {entries : List (Instruction × ℕ)} {pieces : List (List Instruction)} {i j k : ℕ}

section

variable (hentries : entries.map Prod.fst = body.instructions)
  (hpass : Pass Rewrites entries body.nextLabel pieces body'.nextLabel)
  (houtput : body'.instructions = pieces.flatten) (hlabelled' : body'.WellLabelled)
  (hhandlers : body'.handlers = body.handlers)
include hentries hpass houtput hlabelled' hhandlers

/-- What is reached is reached after a round. -/
theorem reachable_shift (hreach : body.Reachable [0] i) : body'.Reachable [0] (Pieces.shift pieces i) := by
  obtain ⟨entry, hentry, hpath⟩ := hreach
  obtain rfl := List.mem_singleton.mp hentry
  exact ⟨0, hentry, Relation.ReflTransGen.lift' (Pieces.shift pieces)
    (fun _ _ => flows_shift hentries hpass houtput hlabelled' hhandlers) _ _ hpath⟩

/-- What control does not get to after a round comes from what it did not get to. -/
theorem exists_strays (hcondensed : body.Condensed) (hstrays : body'.Strays k) : ∃ i, body.Strays i ∧
    pieces[i]? = some [.plain Opcode.athrow] ∧ k = Pieces.shift pieces i := by
  obtain ⟨⟨instruction, here, real⟩, hnot⟩ := hstrays
  obtain ⟨i, entry, offset, before, piece, after, j, hentry, hpiece, hrewrites, hj, rfl, -⟩ :=
    exists_origin hentries hpass houtput here
  have hreal := tame_rewrites.isReal_of_mem hrewrites (List.mem_of_getElem? hj) real
  have hstrays : body.Strays i := by
    refine ⟨⟨entry, hentry, hreal⟩, fun hreach => hnot ?_⟩
    obtain ⟨start, hstart, hpath⟩ := reachable_shift hentries hpass houtput hlabelled' hhandlers hreach
    exact ⟨start, hstart, hpath.trans (flows_within hentries hpass houtput hpiece hj real)⟩
  obtain rfl := Option.some.inj (hentry.symm.trans (hcondensed.throws hstrays))
  cases hrewrites
  obtain rfl : j = 0 := by simpa using (List.getElem?_eq_some_iff.mp hj).1
  exact ⟨i, hstrays, hpiece, rfl⟩

end

/-- A round keeps a body condensed. -/
theorem Rounded.condensed (h : Rounded body body') (hlabelled : body.WellLabelled) (hresolved : body.Resolved)
    (hcondensed : body.Condensed) : body'.Condensed := by
  obtain ⟨entries, pieces, hentries, hpass, houtput⟩ := h.pass
  have hlabelled' := h.wellLabelled hlabelled
  have hstrays {k : ℕ} (hstrays : body'.Strays k) :=
    exists_strays hentries hpass houtput hlabelled' h.handlers hcondensed hstrays
  refine ⟨fun hk => ?_, fun hk handler hmem hcovers => ?_, fun hlt hj hk => ?_⟩
  · obtain ⟨i, -, hpiece, rfl⟩ := hstrays hk
    exact houtput ▸ Pieces.getElem?_shift (j := 0) hpiece (by simp)
  · obtain ⟨i, hi, hpiece, rfl⟩ := hstrays hk
    have hnext : Pieces.shift pieces (i + 1) = Pieces.shift pieces i + 1 := Pieces.shift_succ hpiece
    obtain ⟨hstart, hstop, -⟩ := hresolved.handlers (h.handlers ▸ hmem)
    exact hcondensed.uncaught hi handler (h.handlers ▸ hmem)
      ((covers_iff hentries hpass houtput hlabelled' hstart hstop le_rfl (by omega)).mp hcovers)
  · obtain ⟨first, hfirst, hfirstPiece, rfl⟩ := hstrays hj
    obtain ⟨second, hsecond, -, rfl⟩ := hstrays hk
    have hbefore : first < second := by
      by_contra hle
      have : Pieces.shift pieces second ≤ Pieces.shift pieces first := Pieces.shift_le (Nat.not_lt.mp hle)
      omega
    obtain ⟨i, hfi, his, ⟨instruction, here, real⟩, hreach⟩ := hcondensed.apart hbefore hfirst hsecond
    obtain ⟨_, _, piece, _, hpiece, hrewrites, hget⟩ := exists_piece hentries hpass houtput here
    obtain ⟨leader, hleader, hreal⟩ := hrewrites.exists_first real
    have hpos := (List.getElem?_eq_some_iff.mp hleader).1
    have hlower := Pieces.shift_add_le hfirstPiece hfi
    have hupper := Pieces.shift_add_le hpiece his
    simp only [List.length_singleton] at hlower
    exact ⟨Pieces.shift pieces i, by omega, by omega, ⟨leader, (hget hpos).trans hleader, hreal⟩,
      reachable_shift hentries hpass houtput hlabelled' h.handlers hreach⟩

end Widening

/-! ## Prepared bodies -/

/-- A body that was prepared is condensed. -/
theorem Assembly.condensed_of_settled {body final : Body} {method : MethodContext} {hierarchy : Hierarchy}
    {pool : Pool} {analysis : Analysis} (hlabelled : body.WellLabelled)
    (h : (prepare body method hierarchy).Settled pool (final, analysis)) : final.Condensed := by
  obtain ⟨first, middle, dead, changed, roots, hfirst, hmiddle, hwidened, -, -⟩ := exists_stages h
  obtain ⟨pieces, runs, hcollapsed, rfl⟩ := DeadCode.exists_collapsed hmiddle
  exact (Body.widenJumps_induction (fun body => body.WellLabelled ∧ body.Resolved ∧ body.Condensed)
    (fun hround ⟨hlabelled, hresolved, hcondensed⟩ => ⟨hround.wellLabelled hlabelled, hround.resolved hresolved,
      hround.condensed hlabelled hresolved hcondensed⟩)
    ⟨hcollapsed.replaced.wellLabelled hlabelled, hcollapsed.replaced.resolved hlabelled hfirst,
      hcollapsed.condensed hlabelled hfirst⟩ hwidened).1.2.2

end ClassInstrument
