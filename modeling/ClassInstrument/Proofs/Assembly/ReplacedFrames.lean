import ClassInstrument.Assembly.Basic
import ClassInstrument.Proofs.Analysis.Embedding
import ClassInstrument.Proofs.Assembly.Carving
import ClassInstrument.Proofs.Assembly.DeadCode

/-!
# Frames after dead code was replaced

All that an analysis reaches in a body is found again after dead code was replaced, with the same connections
(`Collapsed.embeds`).  So a second analysis, with a root at each replacement, goes in lock-step with the first
one: it succeeds, and gives the same frames to what was reached (`Collapsed.exists_analyze`).
-/

namespace ClassInstrument

open Outcome

/-- A position is reached exactly if there is a frame for it. -/
theorem Analysis.reaches_iff_exists {analysis : Analysis} {position : ℕ} :
    analysis.reaches position ↔ ∃ frame, analysis.frames[position]? = some (some frame) := by
  unfold reaches
  split
  · next frame hframe => simp [hframe]
  · next hnone => simpa using hnone

/-- Control that comes from positions of a body stays within it. -/
theorem Body.Reachable.lt {body : Body} {entries : List ℕ} {position : ℕ} (h : body.Reachable entries position)
    (hentries : ∀ entry ∈ entries, entry < body.instructions.length) :
    position < body.instructions.length := by
  obtain ⟨entry, hentry, hpath⟩ := h
  rcases hpath.cases_tail with rfl | ⟨_, -, hflows⟩
  · exact hentries _ hentry
  · cases hflows with
    | next _ _ room => exact room
    | jump _ _ placed => exact placed.lt
    | throw _ _ _ _ _ _ placed => exact placed.lt

namespace Assembly

/-- A root at the replacement behind a label. -/
def RootBehind (body : Body) (label : Label) (root : Root) : Prop :=
  ∃ place, body.instructions[place]? = some (.label label) ∧ root = (place + 1, deadCodeFrame)

/-- The roots of a well labelled body are at the replacements behind the labels. -/
theorem deadCodeRoots_eq_ok {body : Body} (h : body.WellLabelled) {labels : List Label} {roots : List Root} :
    deadCodeRoots body labels = .ok roots ↔ List.Forall₂ (RootBehind body) labels roots := by
  have hroot (label : Label) (root : Root) : (do
      return ((← (Placements.firstPositions body.instructions).find label) + 1, deadCodeFrame) :
        Except Fault Root) = .ok root ↔ RootBehind body label root := by
    rw [bind_eq_ok]
    exact exists_congr fun place => and_congr (Placements.find_firstPositions h) (pure_eq_ok.trans eq_comm)
  rw [deadCodeRoots, mapM_eq_ok]
  simp only [hroot]

end Assembly

namespace DeadCode

/-- What becomes of the entries of a body whose dead code is replaced. -/
structure Collapsed (analysis : Analysis) (pieces : List (List Instruction)) (runs : List DeadRun)
    (body body' : Body) : Prop where
  collapses : Collapses analysis false body.nextLabel body.instructions.zipIdx pieces runs body'.nextLabel
  output : body'.instructions = pieces.flatten
  replaced : Replaced analysis runs body body'

/-- What the replacement of dead code does to the entries of a body. -/
theorem exists_collapsed {body body' : Body} {analysis : Analysis} {dead : List Label}
    (h : body.replaceDeadCode analysis = .ok (body', dead)) :
    ∃ pieces runs, Collapsed analysis pieces runs body body' ∧ dead = runs.map DeadRun.start := by
  obtain ⟨pieces, runs, hcollapses, houtput, hdead, hreplaced⟩ := exists_collapses_of_eq_ok h
  exact ⟨pieces, runs, ⟨hcollapses, houtput, hreplaced⟩, hdead⟩

namespace Collapsed

variable {analysis : Analysis} {pieces : List (List Instruction)} {runs : List DeadRun} {body body' : Body}
  {method : MethodContext} {hierarchy : Hierarchy} {i k : ℕ} {instruction : Instruction}

theorem pass (h : Collapsed analysis pieces runs body body') :
    Pass (Rewrites analysis runs) body.instructions.zipIdx body.nextLabel pieces body'.nextLabel :=
  h.collapses.pass (fun _ => id) (by simp)

/-- The labels before the replacements are different. -/
theorem nodup_start (h : Collapsed analysis pieces runs body body') : (runs.map DeadRun.start).Nodup := by
  have hsublist (runs : List DeadRun) :
      (runs.map DeadRun.start).Sublist (runs.flatMap fun run => [run.start, run.stop]) := by
    induction runs with
    | nil => exact .slnil
    | cons run runs ih => exact (ih.cons run.stop).cons_cons run.start
  exact (h.collapses.labels.2 ▸ nodup_freshLabels _ _ :
    (runs.flatMap fun run => [run.start, run.stop]).Nodup).sublist (hsublist runs)

/-- Where a replacement stands. -/
theorem exists_place (h : Collapsed analysis pieces runs body body') {run : DeadRun} (hrun : run ∈ runs) :
    ∃ place : ℕ, body'.instructions[place]? = some (.label run.start) ∧
      body'.instructions[place + 1]? = some (.plain Opcode.athrow) ∧
        body'.instructions[place + 2]? = some (.label run.stop) := by
  obtain ⟨i, hpiece⟩ := List.mem_iff_getElem?.mp (h.collapses.mem_pieces run hrun)
  rw [h.output]
  exact ⟨_, Pieces.getElem?_shift (j := 0) hpiece (by simp [replacement]),
    Pieces.getElem?_shift (j := 1) hpiece (by simp [replacement]),
    Pieces.getElem?_shift (j := 2) hpiece (by simp [replacement])⟩

/-- The instruction of a replacement lies within it. -/
theorem inside (h : Collapsed analysis pieces runs body body') (hlabelled : body.WellLabelled) {run : DeadRun}
    (hrun : run ∈ runs) {place : ℕ} (hplace : body'.instructions[place]? = some (.label run.start)) :
    Inside (Placements.firstPositions body'.instructions) run (place + 1) := by
  have hlabelled' := h.replaced.wellLabelled hlabelled
  obtain ⟨place', hstart, -, hstop⟩ := h.exists_place hrun
  obtain rfl := eq_of_placedLabels hlabelled'.placedOnce hplace hstart
  exact ⟨place, place + 2, (Placements.find_firstPositions hlabelled').mpr hstart,
    (Placements.find_firstPositions hlabelled').mpr hstop, by omega, by omega⟩

/-- A root is at the instruction of a replacement. -/
theorem exists_run_of_root (h : Collapsed analysis pieces runs body body') (hlabelled : body.WellLabelled)
    {roots : List Root} (hroots : List.Forall₂ (Assembly.RootBehind body') (runs.map DeadRun.start) roots)
    {root : Root} (hmem : root ∈ roots) : ∃ run ∈ runs, ∃ place : ℕ,
      body'.instructions[place]? = some (.label run.start) ∧
        body'.instructions[place + 1]? = some (.plain Opcode.athrow) ∧
          root = (place + 1, Assembly.deadCodeFrame) := by
  obtain ⟨label, hlabel, place, hplace, rfl⟩ := exists_left_of_forall₂ hroots hmem
  obtain ⟨run, hrun, rfl⟩ := List.mem_map.mp hlabel
  obtain ⟨place', hstart, hthrow, -⟩ := h.exists_place hrun
  obtain rfl := eq_of_placedLabels (h.replaced.wellLabelled hlabelled).placedOnce hplace hstart
  exact ⟨run, hrun, place, hplace, hthrow, rfl⟩

section

variable (h : Collapsed analysis pieces runs body body') (hlabelled : body.WellLabelled)
  (hfirst : analyze body method hierarchy [] = .ok analysis)

include h in
/-- What is alive stays, from where its piece begins. -/
theorem keeps (here : body.instructions[i]? = some instruction)
    (alive : instruction.isReal → analysis.reaches i) : pieces[i]? = some [instruction] ∧
      body'.instructions[Pieces.shift pieces i]? = some instruction :=
  keeps_of_alive h.pass h.output here alive

include hfirst in
/-- What is reached lies within the body. -/
theorem lt_of_reaches (hreach : analysis.reaches i) : i < body.instructions.length := by
  obtain ⟨initial, handlers, -, -, -, -, hnonempty, -⟩ := analyze_eq_ok.mp hfirst
  refine ((reaches_iff (by simp) hfirst i).mp hreach).lt fun entry hmem => ?_
  obtain rfl := List.mem_singleton.mp hmem
  exact List.length_pos_of_ne_nil hnonempty

include h hfirst in
/-- What is reached has its piece before those of all later entries. -/
theorem shift_lt (hreach : analysis.reaches i) (hlt : i < k) :
    Pieces.shift pieces i + 1 ≤ Pieces.shift pieces k :=
  Pieces.shift_add_le (h.keeps (List.getElem?_eq_getElem (lt_of_reaches hfirst hreach)) fun _ => hreach).1 hlt

/-- Where the positions of a body are found after dead code was replaced.  Those that are not reached are found
nowhere, and get positions behind the code. -/
def found (analysis : Analysis) (pieces : List (List Instruction)) (i : ℕ) : ℕ :=
  if analysis.reaches i then Pieces.shift pieces i else pieces.flatten.length + i

theorem found_of_reaches (hreach : analysis.reaches i) : found analysis pieces i = Pieces.shift pieces i :=
  if_pos hreach

include h hfirst in
theorem shift_lt_length (hreach : analysis.reaches i) : Pieces.shift pieces i < body'.instructions.length :=
  (List.getElem?_eq_some_iff.mp
    (h.keeps (List.getElem?_eq_getElem (lt_of_reaches hfirst hreach)) fun _ => hreach).2).1

include h hfirst in
/-- Different positions are found at different ones. -/
theorem found_injective : Function.Injective (found analysis pieces) := by
  intro i j hsame
  have hlength := congrArg List.length h.output
  unfold found at hsame
  split_ifs at hsame with hi hj hj
  · rcases Nat.lt_trichotomy i j with hlt | heq | hlt
    · have := h.shift_lt hfirst hi hlt
      omega
    · exact heq
    · have := h.shift_lt hfirst hj hlt
      omega
  · have := h.shift_lt_length hfirst hi
    omega
  · have := h.shift_lt_length hfirst hj
    omega
  · omega

include h hlabelled in
/-- Labels are placed where their places have moved to. -/
theorem places_shift {label : Label} {place : ℕ} (hplaces : body.Places label place) :
    body'.Places label (Pieces.shift pieces place) :=
  (h.replaced.wellLabelled hlabelled).places_iff.mpr (h.keeps hplaces.1 (by simp [Instruction.isReal])).2

include h hlabelled hfirst in
/-- What is reached is found again, with the same connections. -/
theorem embeds {handlers handlers' : List PlacedHandler} (hhandlers : body.placedHandlers = .ok handlers)
    (hhandlers' : body'.placedHandlers = .ok handlers') {roots : List Root}
    (hroots : List.Forall₂ (Assembly.RootBehind body') (runs.map DeadRun.start) roots) :
    (body.flowProblem method hierarchy handlers).Embeds (body'.flowProblem method hierarchy handlers')
      (body.Reachable [0]) (found analysis pieces) roots := by
  have hlabelled' := h.replaced.wellLabelled hlabelled
  have hreaches : ∀ position, analysis.reaches position ↔ body.Reachable [0] position :=
    reaches_iff (by simp) hfirst
  have hfound {position : ℕ} (hreach : body.Reachable [0] position) :
      found analysis pieces position = Pieces.shift pieces position :=
    found_of_reaches ((hreaches position).mpr hreach)
  have hplaced := Body.placedHandlers_eq_ok hhandlers
  refine ⟨h.found_injective hfirst, rfl, rfl, ?_, ?_, ?_, ?_, ?_, ?_, ?_⟩
  · intro position hreach
    rw [Body.size_code]
    exact lt_of_reaches hfirst ((hreaches position).mpr hreach)
  · intro position instruction hreach here
    rw [Body.getElem?_code] at here ⊢
    rw [hfound hreach]
    exact (h.keeps here fun _ => (hreaches position).mpr hreach).2
  · intro position instruction hreach here falls
    rw [Body.getElem?_code] at here
    rw [Body.size_code, Body.size_code, hfound hreach]
    have hpiece := (h.keeps here fun _ => (hreaches position).mpr hreach).1
    have hnext : Pieces.shift pieces (position + 1) = Pieces.shift pieces position + 1 :=
      Pieces.shift_succ hpiece
    have hgoes (room : position + 1 < body.instructions.length) : body.Reachable [0] (position + 1) :=
      hreach.flows (.next here falls room)
    refine ⟨⟨fun room => ?_, fun room => ?_⟩, fun room => (hfound (hgoes room)).trans hnext⟩
    · exact hnext ▸ h.shift_lt_length hfirst ((hreaches _).mpr (hgoes room))
    · -- behind the last entry there is nothing
      by_contra hlast
      have hall : (pieces.take (position + 1)) = pieces := List.take_of_length_le (by
        rw [h.pass.length_eq, List.length_zipIdx]
        omega)
      rw [← hnext, Pieces.shift, hall, ← h.output] at room
      exact Nat.lt_irrefl _ room
  · intro label place hfind hreach
    rw [hfound hreach]
    exact Body.find_labelPositions.mpr
      (h.places_shift hlabelled (Body.find_labelPositions.mp hfind))
  · intro position instruction hreach here real
    rw [Body.getElem?_code] at here
    have hsame := h.replaced.catchers_shift h.pass h.output h.collapses.mem_pieces hlabelled
      (fun _ => Body.exists_places hhandlers) here real
      ((hreaches position).mpr hreach)
    rw [hfound hreach]
    refine forall₂_imp_mem (hlabelled.forall₂_covers hlabelled' hhandlers hhandlers' hsame) ?_
    rintro placed hmem placed' ⟨hcaught, label, hlabel, hlabel'⟩
    obtain ⟨hmem, hcovers⟩ := List.mem_filter.mp hmem
    obtain ⟨handler, hlisted, hplaces⟩ := exists_left_of_forall₂ hplaced hmem
    have hflows : body.Flows position placed.handler := .throw here real hlisted hplaces.start hplaces.stop
      (by simpa [PlacedHandler.covers] using hcovers) hplaces.entry
    refine ⟨?_, hcaught⟩
    rw [hfound (hreach.flows hflows)]
    exact hlabel'.unique (h.places_shift hlabelled hlabel)
  · intro root hmem position hreach hsame
    obtain ⟨run, hrun, place, hplace, -, rfl⟩ := h.exists_run_of_root hlabelled hroots hmem
    have halive := (hreaches position).mpr hreach
    refine not_inside_of_alive h.pass h.output h.collapses.mem_pieces hlabelled'
      (List.getElem?_eq_getElem (lt_of_reaches hfirst halive)) (fun _ => halive) hrun ?_
    rw [← hfound hreach, hsame]
    exact h.inside hlabelled hrun hplace
  · intro root hmem
    obtain ⟨run, hrun, place, hplace, hthrow, rfl⟩ := h.exists_run_of_root hlabelled hroots hmem
    refine ⟨⟨.plain Opcode.athrow, _, Body.getElem?_code.trans hthrow, rfl, rfl, rfl, rfl⟩, ?_⟩
    have hnone := h.replaced.catchers_inside hlabelled hrun hthrow rfl (h.inside hlabelled hrun hplace)
    rw [Body.catchers, List.map_eq_nil_iff] at hnone
    have hfilter := hlabelled'.forall₂_filter hhandlers' (place + 1)
    rw [hnone, List.forall₂_nil_left_iff, List.filter_eq_nil_iff] at hfilter
    exact fun handler hmem => Bool.not_eq_true _ ▸ hfilter handler hmem

include h hlabelled hfirst in
/-- The handlers of the new body are placed. -/
theorem exists_placedHandlers : ∃ handlers', body'.placedHandlers = .ok handlers' := by
  have hlabelled' := h.replaced.wellLabelled hlabelled
  have hresolved := h.replaced.resolved hlabelled hfirst
  have hplaces {label : Label} (hmem : .label label ∈ body'.instructions) :
      ∃ place, body'.Places label place := by
    obtain ⟨place, hplace⟩ := List.mem_iff_getElem?.mp hmem
    exact ⟨place, hlabelled'.places_iff.mpr hplace⟩
  refine Body.exists_placedHandlers fun handler hmem => ?_
  obtain ⟨hstart, hstop, hentry⟩ := hresolved.handlers hmem
  exact ⟨hplaces hstart, hplaces hstop, hplaces hentry⟩

include h hlabelled in
/-- Where an instruction of the new body comes from: it was reached, or it is a replacement. -/
theorem origin (here : body'.instructions[k]? = some instruction) (real : instruction.isReal) :
    (∃ i, body.instructions[i]? = some instruction ∧ analysis.reaches i ∧ k = Pieces.shift pieces i) ∨
      instruction = .plain Opcode.athrow ∧
        ∃ run ∈ runs, ∃ place, body'.instructions[place]? = some (.label run.start) ∧ k = place + 1 := by
  have hlabelled' := h.replaced.wellLabelled hlabelled
  obtain ⟨i, entry, hentry, -, -, -, ⟨rfl, hreach, rfl⟩ | ⟨rfl, run, hrun, start, stop, hstart, hstop, hle, hlt⟩⟩ :=
    origin_of_real h.pass h.output hlabelled' here real
  · exact .inl ⟨i, hentry, hreach, rfl⟩
  · refine .inr ⟨rfl, run, hrun, start, (Placements.find_firstPositions hlabelled').mp hstart, ?_⟩
    obtain ⟨place, hlabel, -, hend⟩ := h.exists_place hrun
    have hlabel' := (Placements.find_firstPositions hlabelled').mp hstart
    obtain rfl := eq_of_placedLabels hlabelled'.placedOnce hlabel hlabel'
    obtain rfl := eq_of_placedLabels hlabelled'.placedOnce hend
      ((Placements.find_firstPositions hlabelled').mp hstop)
    have hne : k ≠ place := by
      rintro rfl
      cases hlabel.symm.trans here
    omega

include h hlabelled hfirst in
/-- **Frames after dead code was replaced.**  An analysis of the new body succeeds.  It gives to what was
reached the frame that it had before, up to the places of creation sites, and to each replacement the frame of
its root; so every instruction has one. -/
theorem exists_analyze : ∃ roots analysis',
    Assembly.deadCodeRoots body' (runs.map DeadRun.start) = .ok roots ∧
      analyze body' method hierarchy roots = .ok analysis' ∧
      (∀ {k : ℕ} {instruction}, body'.instructions[k]? = some instruction → instruction.isReal →
        analysis'.reaches k) ∧
      (∀ {i : ℕ} {frame}, analysis.frames[i]? = some (some frame) →
        analysis'.frames[Pieces.shift pieces i]? = some (some (frame.mapSites (Pieces.shift pieces)))) ∧
      ∀ root ∈ roots, analysis'.frames[root.1]? = some (some root.2) := by
  have hlabelled' := h.replaced.wellLabelled hlabelled
  obtain ⟨handlers', hhandlers'⟩ := h.exists_placedHandlers hlabelled hfirst
  obtain ⟨roots, hroots, -⟩ := exists_mapM_eq_ok (r := fun _ _ => True)
    (f := fun label => do
      return ((← (Placements.firstPositions body'.instructions).find label) + 1, Assembly.deadCodeFrame))
    (List.forall₂_same.mpr fun label hmem => by
      obtain ⟨run, hrun, rfl⟩ := List.mem_map.mp hmem
      obtain ⟨place, hplace, -⟩ := h.exists_place hrun
      exact ⟨_, bind_eq_ok.mpr ⟨place, (Placements.find_firstPositions hlabelled').mpr hplace, rfl⟩, trivial⟩)
  have hroots : Assembly.deadCodeRoots body' (runs.map DeadRun.start) = .ok roots := hroots
  have hbehind := (Assembly.deadCodeRoots_eq_ok hlabelled').mp hroots
  have hapart : (roots.map Prod.fst).Nodup := by
    refine nodup_map_of_forall₂ hbehind h.nodup_start ?_
    rintro label other _ _ ⟨place, hplace, rfl⟩ ⟨place', hplace', rfl⟩ hsame
    obtain rfl : place = place' := Nat.succ.inj hsame
    simpa using hplace.symm.trans hplace'
  have hzero : found analysis pieces 0 = 0 :=
    found_of_reaches ((reaches_iff (by simp) hfirst 0).mpr
      (Body.reachable_entry (List.mem_singleton.mpr rfl)))
  obtain ⟨analysis', hanalysis', hframes, hrooted⟩ := exists_analyze_moved hfirst hhandlers'
    (fun handlers hhandlers => h.embeds hlabelled hfirst hhandlers hhandlers' hbehind) hzero hapart
  suffices hkept : ∀ {i : ℕ} {frame}, analysis.frames[i]? = some (some frame) →
      analysis'.frames[Pieces.shift pieces i]? = some (some (frame.mapSites (Pieces.shift pieces))) by
    refine ⟨roots, analysis', hroots, hanalysis', fun {k instruction} here real => ?_, hkept, hrooted⟩
    rw [Analysis.reaches_iff_exists]
    rcases h.origin hlabelled here real with ⟨i, -, hreach, rfl⟩ | ⟨-, run, hrun, place, hplace, rfl⟩
    · obtain ⟨frame, hframe⟩ := Analysis.reaches_iff_exists.mp hreach
      exact ⟨_, hkept hframe⟩
    · obtain ⟨root, hroot, place', hplace', rfl⟩ :=
        exists_right_of_forall₂ hbehind (List.mem_map_of_mem hrun)
      obtain rfl := eq_of_placedLabels hlabelled'.placedOnce hplace hplace'
      exact ⟨_, hrooted _ hroot⟩
  intro i frame hframe
  obtain ⟨hsound, hmoved⟩ := hframes hframe
  have hfound {site : ℕ} (hsite : body.Reachable [0] site) :
      found analysis pieces site = Pieces.shift pieces site :=
    found_of_reaches ((reaches_iff (by simp) hfirst site).mpr hsite)
  have hsame : frame.mapSites (found analysis pieces) = frame.mapSites (Pieces.shift pieces) :=
    Frame.mapSites_congr (fun type hmem site hsite => hfound (hsound.2.locals type hmem site hsite))
      fun type hmem site hsite => hfound (hsound.2.stack type hmem site hsite)
  rw [← hsame, ← hfound hsound.1]
  exact hmoved

end

end Collapsed

end DeadCode

end ClassInstrument
