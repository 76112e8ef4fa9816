import ClassInstrument.Proofs.Assembly.Condensed

/-!
# Dead code that was replaced before

Replacing the dead code of a condensed body changes little: each replacement stands for one that is there already,
so that it is put between two labels and nothing else happens (`Collapsed.forall₂_pieces`).  Instructions, handlers and
scopes stay, and labels denote what they denoted.  So a body that says the same as a condensed one says so
after its dead code was replaced, too (`Body.Restores.exists_collapsed`).
-/

namespace ClassInstrument

open Outcome

/-! ## Bodies that mirror each other -/

namespace Body.Mirrors

variable {body original : Body} {position : ℕ} (h : body.Mirrors original) (h' : original.Mirrors body)
  (hlabelled : body.WellLabelled) (hlabelled' : original.WellLabelled)
include h h' hlabelled hlabelled'

/-- Where control does not get to in one body, it does not get to in the other one. -/
theorem exists_strays (hstrays : body.Strays position) : ∃ place,
    original.realPositions[body.ordinalAt position]? = some place ∧ original.Strays place := by
  obtain ⟨⟨instruction, here, real⟩, hnot⟩ := hstrays
  obtain ⟨place, other, hplace, hthere, hreal, -⟩ := h.exists_counterpart here real
  obtain ⟨-, -, -, hordinal⟩ := getElem?_realPositions.mp hplace
  refine ⟨place, hplace, ⟨other, hthere, hreal⟩, fun hreach => hnot ?_⟩
  exact h'.reachable hlabelled' hlabelled hreach (hordinal ▸ realPositions_ordinalAt here real)

/-- A body with the control of a condensed one is condensed. -/
theorem condensed (hcondensed : original.Condensed) : body.Condensed where
  throws hstrays := by
    obtain ⟨place, hplace, hstrays'⟩ := h.exists_strays h' hlabelled hlabelled' hstrays
    obtain ⟨instruction, here, real⟩ := hstrays.1
    obtain ⟨place', other, hplace', hthere, -, hbare, -⟩ := h.exists_counterpart here real
    obtain rfl := Option.some.inj (hplace.symm.trans hplace')
    obtain rfl := Option.some.inj (hthere.symm.trans (hcondensed.throws hstrays'))
    cases instruction <;> cases hbare
    exact here
  uncaught hstrays handler hmem hcovers := by
    obtain ⟨place, hplace, hstrays'⟩ := h.exists_strays h' hlabelled hlabelled' hstrays
    obtain ⟨instruction, here, real⟩ := hstrays.1
    obtain ⟨other, hother, -, hcovers'⟩ := h.exists_handler hlabelled hlabelled' here real hplace hmem hcovers
    exact hcondensed.uncaught hstrays' other hother hcovers'
  apart {j k} hlt hj hk := by
    obtain ⟨first, hfirst, hfirstStrays⟩ := h.exists_strays h' hlabelled hlabelled' hj
    obtain ⟨second, hsecond, hsecondStrays⟩ := h.exists_strays h' hlabelled hlabelled' hk
    obtain ⟨-, -, -, hordinal⟩ := getElem?_realPositions.mp hfirst
    obtain ⟨-, -, -, hordinal'⟩ := getElem?_realPositions.mp hsecond
    obtain ⟨instruction, here, real⟩ := hj.1
    have hnumbers := ordinalAt_lt here real hlt
    have hbefore : first < second := by
      by_contra hle
      have hback : original.ordinalAt second ≤ original.ordinalAt first := ordinalAt_le (Nat.not_lt.mp hle)
      omega
    obtain ⟨i, hfi, his, ⟨between, hbetween, hreal⟩, hreach⟩ :=
      hcondensed.apart hbefore hfirstStrays hsecondStrays
    obtain ⟨place, other, hplace, hthere, hreal', -⟩ := h'.exists_counterpart hbetween hreal
    obtain ⟨-, -, -, hsame⟩ := getElem?_realPositions.mp hplace
    obtain ⟨thrown, hthrown, hthrownReal⟩ := hfirstStrays.1
    have hlower := ordinalAt_lt hthrown hthrownReal hfi
    have hupper := ordinalAt_lt hbetween hreal his
    refine ⟨place, ?_, ?_, ⟨other, hthere, hreal'⟩, h'.reachable hlabelled' hlabelled hreach hplace⟩
    · by_contra hle
      have hback : body.ordinalAt place ≤ body.ordinalAt j := ordinalAt_le (Nat.not_lt.mp hle)
      omega
    · by_contra hle
      have hback : body.ordinalAt k ≤ body.ordinalAt place := ordinalAt_le (Nat.not_lt.mp hle)
      omega

end Body.Mirrors

/-! ## The pieces -/

namespace DeadCode

/-- What stands for an entry of a condensed body: the entry, between two labels if control does not get to it. -/
inductive Marks (runs : List DeadRun) : Instruction → List Instruction → Prop
  | keep (instruction) : Marks runs instruction [instruction]
  | mark (run) (listed : run ∈ runs) : Marks runs (.plain Opcode.athrow) (replacement run)

variable {runs : List DeadRun} {instructions : List Instruction} {pieces : List (List Instruction)}

/-- Marked pieces have the instructions that they stand for. -/
theorem countP_of_marks (h : List.Forall₂ (Marks runs) instructions pieces) :
    pieces.flatten.countP Instruction.isReal = instructions.countP Instruction.isReal := by
  induction h with
  | nil => rfl
  | cons hfirst _ ih =>
    rw [List.flatten_cons, List.countP_append, ih, List.countP_cons]
    cases hfirst with
    | keep => rw [List.countP_singleton, Nat.add_comm]
    | mark => exact Nat.add_comm _ _

/-- Marked pieces are the same as what they stand for but for labels. -/
theorem unlabelled_of_marks (h : List.Forall₂ (Marks runs) instructions pieces) :
    unlabelled pieces.flatten = unlabelled instructions := by
  induction h with
  | nil => rfl
  | @cons instruction piece instructions pieces hfirst others ih =>
    have hany : pieces.flatten.any Instruction.isReal = instructions.any Instruction.isReal := by
      rw [Bool.eq_iff_iff, List.any_eq_true, List.any_eq_true, ← List.countP_pos_iff, countP_of_marks others,
        List.countP_pos_iff]
    rw [List.flatten_cons]
    cases hfirst with
    | keep =>
      rw [List.singleton_append]
      cases instruction with
      | line number => rw [unlabelled, unlabelled, hany, ih]
      | label label => exact ih
      | _ => exact congrArg (_ :: ·) ih
    | mark => exact congrArg (_ :: ·) ih

/-- Control does not get to an instruction that is dead by an analysis. -/
theorem strays_of_dead {body : Body} {method : MethodContext} {hierarchy : Hierarchy} {analysis : Analysis}
    (hfirst : analyze body method hierarchy [] = .ok analysis) {i : ℕ}
    (hdead : DeadAt analysis body.instructions.zipIdx i) : body.Strays i := by
  obtain ⟨instruction, here, real, hnot⟩ := deadAt_zipIdx.mp hdead
  exact ⟨⟨instruction, here, real⟩, fun hreach => by simp [(reaches_iff (by simp) hfirst i).mpr hreach] at hnot⟩

/-- Runs that are not cut out of a range leave it. -/
theorem foldlM_cutAll_eq_self {positions : Placements} {segment : Segment}
    (h : ∀ run ∈ runs, cut positions run segment = .ok [segment]) :
    runs.foldlM (cutAll positions) [segment] = .ok [segment] := by
  induction runs with
  | nil => rfl
  | cons run runs ih =>
    obtain ⟨hrun, hothers⟩ := List.forall_mem_cons.mp h
    have hcut : cutAll positions [segment] run = .ok [segment] := by
      simp [cutAll, hrun, bind, Except.bind, pure, Except.pure]
    rw [List.foldlM_cons, hcut]
    exact ih hothers

namespace Collapsed

variable {analysis : Analysis} {body body' : Body} {method : MethodContext} {hierarchy : Hierarchy}
  {i : ℕ} {instruction : Instruction} {label : Label} {handler : Handler}
  (h : Collapsed analysis pieces runs body body') (hlabelled : body.WellLabelled)
  (hfirst : analyze body method hierarchy [] = .ok analysis) (hcondensed : body.Condensed)


include h hfirst hcondensed in
/-- **Each dead instruction is marked**, for there is an instruction that is reached between two of them. -/
theorem forall₂_pieces : List.Forall₂ (Marks runs) body.instructions pieces := by
  have hlength : pieces.length = body.instructions.length := by rw [h.pass.length_eq, List.length_zipIdx]
  have hreaches : ∀ position, analysis.reaches position ↔ body.Reachable [0] position :=
    reaches_iff (by simp) hfirst
  refine List.forall₂_iff_get.mpr ⟨hlength.symm, fun i hlt hlt' => ?_⟩
  have here : body.instructions[i]? = some body.instructions[i] := List.getElem?_eq_getElem hlt
  have hpiece : pieces[i]? = some pieces[i] := List.getElem?_eq_getElem hlt'
  simp only [List.get_eq_getElem]
  by_cases alive : body.instructions[i].isReal → analysis.reaches i
  · rw [Option.some.inj (hpiece.symm.trans (h.keeps here alive).1)]
    exact .keep _
  · obtain ⟨real, hdead⟩ := Classical.not_imp.mp alive
    have hdeadAt : DeadAt analysis body.instructions.zipIdx i :=
      deadAt_zipIdx.mpr ⟨_, here, real, by simpa using hdead⟩
    have hbegins : BeginsRun analysis false body.instructions.zipIdx i := by
      refine ⟨hdeadAt, fun j hji hj => ?_, by simp⟩
      obtain ⟨k, hjk, hki, ⟨instruction, hk, hreal⟩, hreach⟩ :=
        hcondensed.apart hji (strays_of_dead hfirst hj) (strays_of_dead hfirst hdeadAt)
      exact ⟨k, hjk, hki, liveAt_zipIdx.mpr ⟨instruction, hk, hreal, (hreaches k).mpr hreach⟩⟩
    obtain ⟨-, run, hrun, hreplaced⟩ := (h.collapses.piece_of_dead hdeadAt).resolve_right fun hnot => hnot.1 hbegins
    have hthrow := hcondensed.throws (strays_of_dead hfirst hdeadAt)
    rw [Option.some.inj (here.symm.trans hthrow), Option.some.inj (hpiece.symm.trans hreplaced)]
    exact .mark run hrun

include h hlabelled in
/-- A run is not cut out of a range that does not reach to what it stands for. -/
theorem cut_eq_self {segment : Segment} {start stop : ℕ}
    (hstart : body.instructions[start]? = some (.label segment.1))
    (hstop : body.instructions[stop]? = some (.label segment.2)) {run : DeadRun} (hpiece : pieces[i]? = some (replacement run))
    (hout : ¬ (start ≤ i ∧ i < stop)) :
    cut (Placements.firstPositions body'.instructions) run segment = .ok [segment] := by
  have hlabelled' := h.replaced.wellLabelled hlabelled
  have hfind {label : Label} {place : ℕ} (hplace : body'.instructions[place]? = some (.label label)) :
      (Placements.firstPositions body'.instructions).find label = .ok place :=
    (Placements.find_firstPositions hlabelled').mpr hplace
  obtain ⟨hstartPiece, hstart'⟩ := h.keeps hstart (by simp [Instruction.isReal])
  obtain ⟨hstopPiece, hstop'⟩ := h.keeps hstop (by simp [Instruction.isReal])
  have hrunStop : body'.instructions[Pieces.shift pieces i + 2]? = some (.label run.stop) :=
    h.output ▸ Pieces.getElem?_shift (j := 2) hpiece (by simp [replacement])
  have hseparate : Pieces.shift pieces i + 3 ≤ Pieces.shift pieces start ∨
      Pieces.shift pieces stop + 1 ≤ Pieces.shift pieces i := by
    rcases Nat.lt_trichotomy i start with hlt | rfl | hlt
    · exact .inl (Pieces.shift_add_le hpiece hlt)
    · simp [hstartPiece, replacement] at hpiece
    · rcases Nat.lt_trichotomy i stop with hlt' | rfl | hlt'
      · exact absurd ⟨hlt.le, hlt'⟩ hout
      · simp [hstopPiece, replacement] at hpiece
      · exact .inr (Pieces.shift_add_le hstopPiece hlt')
  unfold cut
  rw [hfind (h.getElem?_start hpiece), hfind hrunStop, hfind hstart', hfind hstop']
  simp only [bind, Except.bind, pure, Except.pure]
  rw [if_neg (by omega)]

include h hlabelled hfirst hcondensed in
/-- A handler that protects something is not cut. -/
theorem cutHandler_eq_self (hmem : handler ∈ body.handlers) (hprotects : body.protects handler) :
    cutHandler (Placements.firstPositions body'.instructions) body'.instructions runs handler = .ok [handler] := by
  have hlabelled' := h.replaced.wellLabelled hlabelled
  obtain ⟨initial, handlers, -, -, -, hhandlers, -⟩ := analyze_eq_ok.mp hfirst
  obtain ⟨⟨start, hstart, -⟩, ⟨stop, hstop, -⟩⟩ := Body.exists_places hhandlers hmem
  have hcuts : runs.foldlM (cutAll (Placements.firstPositions body'.instructions)) [(handler.start, handler.stop)] =
      .ok [(handler.start, handler.stop)] := by
    refine foldlM_cutAll_eq_self fun run hrun => ?_
    obtain ⟨i, hbegins, hpiece⟩ := h.collapses.exists_begins hrun
    refine h.cut_eq_self hlabelled hstart hstop hpiece fun hcovered => ?_
    exact hcondensed.uncaught (strays_of_dead hfirst hbegins.dead) handler hmem ⟨start, stop, hstart, hstop, hcovered⟩
  have hcovers : coversCode (Placements.firstPositions body'.instructions) body'.instructions
      (handler.start, handler.stop) = .ok true := by
    obtain ⟨i, instruction, hle, hlt, here, real⟩ :=
      (hlabelled.ordinal_lt_iff hstart hstop).mp (by simpa [Body.protects] using hprotects)
    have alive : body.Reachable [0] i := by
      by_contra hnot
      exact hcondensed.uncaught ⟨⟨instruction, here, real⟩, hnot⟩ handler hmem ⟨start, stop, hstart, hstop, hle, hlt⟩
    have hreaches : instruction.isReal → analysis.reaches i := fun _ =>
      (reaches_iff (by simp) hfirst i).mpr alive
    refine coversCode_of_spans ((spans_iff_covers hlabelled').mpr ?_) (h.keeps here hreaches).2 real
    exact (covers_shift_iff h.pass h.output hlabelled' here hreaches hstart hstop).mpr ⟨hle, hlt⟩
  have hkept : [(handler.start, handler.stop)].filterM (coversCode (Placements.firstPositions body'.instructions)
      body'.instructions) = .ok [(handler.start, handler.stop)] := by
    simp [List.filterM, List.filterAuxM, hcovers, bind, Except.bind, pure, Except.pure]
  unfold cutHandler
  rw [hcuts]
  simp [bind, Except.bind, pure, Except.pure, hkept]

include h hlabelled hfirst hcondensed in
/-- The handlers stay, if all of them protect something. -/
theorem handlers_eq (hprotects : ∀ handler ∈ body.handlers, body.protects handler) :
    body'.handlers = body.handlers := by
  by_cases hruns : runs = []
  · rw [h.replaced.unchanged hruns]
  · obtain ⟨parts, hparts, hhandlers⟩ := h.replaced.handlers hruns
    have hsame : body.handlers.map ([·]) = parts := by
      rw [← List.forall₂_eq_eq_eq, List.forall₂_map_left_iff]
      refine forall₂_imp_mem hparts fun handler hmem left hcut => ?_
      have hself := h.cutHandler_eq_self hlabelled hfirst hcondensed hmem (hprotects handler hmem)
      exact Except.ok.inj (hself.symm.trans hcut)
    rw [hhandlers, ← hsame, ← List.flatMap_def, List.flatMap_singleton']

section

variable (hmarks : List.Forall₂ (Marks runs) body.instructions pieces)
include h hmarks

/-- As many instructions come before what stands for an entry as before the entry. -/
theorem ordinalAt_shift (i : ℕ) : body'.ordinalAt (Pieces.shift pieces i) = body.ordinalAt i := by
  have hsplit : pieces.flatten = (pieces.take i).flatten ++ (pieces.drop i).flatten := by
    rw [← List.flatten_append, List.take_append_drop]
  rw [Body.ordinalAt, Body.ordinalAt, h.output, hsplit, Pieces.shift, List.take_left,
    countP_of_marks (List.forall₂_take i hmarks)]

include hlabelled

/-- Labels that were placed are placed behind as many instructions as before. -/
theorem ordinal_eq (hmem : .label label ∈ body.instructions) :
    .label label ∈ body'.instructions ∧ body'.ordinal label = body.ordinal label := by
  obtain ⟨i, here⟩ := List.mem_iff_getElem?.mp hmem
  have hkept := (h.keeps here (by simp [Instruction.isReal])).2
  refine ⟨List.mem_of_getElem? hkept, ?_⟩
  rw [(h.replaced.wellLabelled hlabelled).ordinal_eq_ordinalAt hkept, hlabelled.ordinal_eq_ordinalAt here,
    h.ordinalAt_shift hmarks]

end

end Collapsed

end DeadCode

/-! ## Bodies that say the same -/

namespace Body

variable {body marked original : Body} {method : MethodContext} {hierarchy : Hierarchy} {first analysis : Analysis}
  {dead : List Label} {roots : List Root}

/-- A body with other labels says the same as before if its old ones denote what they did. -/
theorem Restores.of_labels (h : body.Restores original) (hlabelled : marked.WellLabelled)
    (hinstructions : unlabelled marked.instructions = unlabelled body.instructions)
    (hlabels : ∀ {label : Label}, .label label ∈ body.instructions →
      .label label ∈ marked.instructions ∧ marked.ordinal label = body.ordinal label)
    (hhandlers : marked.handlers = body.handlers) (hscopes : marked.scopes = body.scopes)
    (htypeScopes : marked.typeScopes = body.typeScopes) : marked.Restores original := by
  have hsame : ∀ label written, body.SamePlace original label written → marked.SamePlace original label written :=
    fun label written hsame =>
      ⟨(hlabels hsame.mem).1, hsame.written_mem, (hlabels hsame.mem).2.trans hsame.ordinal_eq⟩
  exact {
    wellLabelled := hlabelled
    instructions := hinstructions ▸ h.instructions.imp fun _ _ hmatches => hmatches.mono hsame
    handlers := hhandlers ▸ h.handlers.imp fun _ _ hmatches => hmatches.mono hsame
    scopes := hscopes ▸ h.scopes.imp fun _ _ hmatches => hmatches.mono hsame
    typeScopes := htypeScopes ▸ h.typeScopes.imp fun _ _ hmatches => hmatches.mono hsame }

/-- The handlers of a body that says the same as another one protect something. -/
theorem Restores.protects (h : body.Restores original) : ∀ handler ∈ body.handlers, body.protects handler := by
  intro handler hmem
  obtain ⟨other, hother, hmatches⟩ := exists_right_of_forall₂ h.handlers hmem
  have hprotects := (List.mem_filter.mp hother).2
  rwa [Body.protects, ← hmatches.start.ordinal_eq, ← hmatches.stop.ordinal_eq] at hprotects

/-- The dead code of a body that says the same as another one is replaced, and analyzed again with a root at each
replacement. -/
structure CollapsesAgain (body : Body) (method : MethodContext) (hierarchy : Hierarchy) (first : Analysis)
    (original marked : Body) (dead : List Label) (roots : List Root) (analysis : Analysis) : Prop where
  result : body.replaceDeadCode first = .ok (marked, dead)
  /-- Without dead code nothing changes. -/
  unchanged : dead = [] → marked = body
  entered : Assembly.deadCodeRoots marked dead = .ok roots
  analyzed : analyze marked method hierarchy roots = .ok analysis
  /-- The outcome says the same. -/
  restores : marked.Restores original
  /-- There is a frame for each instruction. -/
  reaches : ∀ {k : ℕ} {instruction : Instruction}, marked.instructions[k]? = some instruction →
    instruction.isReal → analysis.reaches k
  /-- The roots are at what control does not get to in the other body. -/
  rooted : ∀ root ∈ roots, root.2 = Assembly.deadCodeFrame ∧
    ∃ place, original.realPositions[marked.ordinalAt root.1]? = some place ∧ original.Strays place

/-- **Replacing dead code again only places labels.**  If a body says the same as a condensed one, then its dead
code is replaced by itself: the outcome says the same, too. -/
theorem Restores.exists_collapsesAgain (h : body.Restores original) (hlabelled' : original.WellLabelled)
    (hcondensed : original.Condensed) (hfirst : analyze body method hierarchy [] = .ok first) :
    ∃ marked dead roots analysis, body.CollapsesAgain method hierarchy first original marked dead roots analysis := by
  have hlabelled := h.wellLabelled
  have hcondensed := h.mirrors.condensed h.mirrored hlabelled hlabelled' hcondensed
  obtain ⟨initial, handlers, -, -, -, hhandlers, -⟩ := analyze_eq_ok.mp hfirst
  obtain ⟨marked, dead, hresult⟩ := DeadCode.exists_replaceDeadCode first hlabelled fun _ =>
    exists_places hhandlers
  obtain ⟨pieces, runs, hcollapsed, rfl⟩ := DeadCode.exists_collapsed hresult
  have hmarks := hcollapsed.forall₂_pieces hfirst hcondensed
  obtain ⟨roots, analysis, hroots, hanalysis, hreaches, -⟩ := hcollapsed.exists_analyze hlabelled hfirst
  refine ⟨marked, runs.map DeadRun.start, roots, analysis, hresult, fun hnone => ?_, hroots, hanalysis, ?_, hreaches,
    fun root hmem => ?_⟩
  · exact hcollapsed.replaced.unchanged (List.map_eq_nil_iff.mp hnone)
  · exact h.of_labels (hcollapsed.replaced.wellLabelled hlabelled)
      (hcollapsed.output ▸ DeadCode.unlabelled_of_marks hmarks)
      (fun hmem => hcollapsed.ordinal_eq hlabelled hmarks hmem)
      (hcollapsed.handlers_eq hlabelled hfirst hcondensed h.protects) hcollapsed.replaced.scopes
      hcollapsed.replaced.typeScopes
  · obtain ⟨run, hrun, i, hpiece, rfl⟩ :=
      exists_left_of_forall₂ (hcollapsed.rooted hlabelled hroots) hmem
    obtain ⟨start, hbegins, hstart⟩ := hcollapsed.collapses.exists_begins hrun
    have hlabel := hcollapsed.getElem?_start hpiece
    have hsame := eq_of_placedLabels (hcollapsed.replaced.wellLabelled hlabelled).placedOnce hlabel
      (hcollapsed.getElem?_start hstart)
    obtain ⟨place, hplace, hstrays⟩ := h.mirrors.exists_strays h.mirrored hlabelled hlabelled'
      (DeadCode.strays_of_dead hfirst hbegins.dead)
    refine ⟨rfl, place, ?_, hstrays⟩
    rw [ordinalAt_succ_of_unreal hlabel rfl, hsame, hcollapsed.ordinalAt_shift hmarks]
    exact hplace

end Body

end ClassInstrument
