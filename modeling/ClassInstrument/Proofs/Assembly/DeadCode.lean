import ClassInstrument.Assembly.DeadCode
import ClassInstrument.Proofs.Code.Passes

/-!
# The pass that replaces dead code

Dead code is replaced in a pass that puts nothing in the place of a dead instruction, or an `athrow`
between two fresh labels.  The handlers are cut so that together they cover the positions that they did,
except for the replacements.
-/

namespace ClassInstrument

open Outcome

namespace Placements

/-- The first places of labels with another entry behind the others. -/
theorem firstPositions_append (instructions : List Instruction) (last : Instruction) :
    firstPositions (instructions ++ [last]) =
      match last.placed? with
      | some placed => (firstPositions instructions).insertIfNew placed instructions.length
      | none => firstPositions instructions := by
  unfold firstPositions
  rw [List.zipIdx_append, List.foldl_append]
  cases last <;> simp [Instruction.placed?]

/-- The first place of a label that is placed at most once is where it stands. -/
theorem getElem?_firstPositions {instructions : List Instruction}
    (h : (placedLabels instructions).Nodup) {label : Label} {position : Nat} :
    (firstPositions instructions)[label]? = some position ↔
      instructions[position]? = some (.label label) := by
  induction instructions using List.reverseRecOn generalizing label position with
  | nil => simp [firstPositions]
  | append_singleton instructions last ih =>
    rw [firstPositions_append]
    rw [placedLabels, List.filterMap_append] at h
    have hfront : (placedLabels instructions).Nodup := h.of_append_left
    cases hplaced : last.placed? with
    | some placed =>
      obtain rfl := Instruction.placed?_eq_some.mp hplaced
      have hnew : placed ∉ placedLabels instructions := fun hmem =>
        (List.nodup_append.mp h).2.2 placed hmem placed (by simp [Instruction.placed?]) rfl
      have habsent : placed ∉ firstPositions instructions := by
        intro hmem
        obtain ⟨found, hfound⟩ :=
          Option.isSome_iff_exists.mp (Std.HashMap.mem_iff_isSome_getElem?.mp hmem)
        exact hnew (mem_placedLabels.mpr (List.mem_of_getElem? ((ih hfront).mp hfound)))
      simp only [Std.HashMap.getElem?_insertIfNew, habsent, not_false_eq_true, and_true, beq_iff_eq]
      by_cases hsame : placed = label
      · subst hsame
        rw [if_pos rfl, Option.some.injEq]
        constructor
        · rintro rfl
          simp
        · intro hstands
          have hnone : instructions[position]? ≠ some (.label placed) := fun hstands =>
            hnew (mem_placedLabels.mpr (List.mem_of_getElem? hstands))
          grind
      · rw [if_neg hsame, ih hfront]
        grind
    | none =>
      have hlast : last ≠ .label label := fun hlast => by simp [hlast, Instruction.placed?] at hplaced
      dsimp only
      rw [ih hfront]
      grind

/-- A label of a well labelled body is found where it stands. -/
theorem find_firstPositions {body : Body} (h : body.WellLabelled) {label : Label} {position : Nat} :
    (firstPositions body.instructions).find label = .ok position ↔
      body.instructions[position]? = some (.label label) :=
  find_eq_ok.trans (getElem?_firstPositions h.placedOnce)

end Placements

namespace DeadCode

/-- What stands in the place of a run. -/
def replacement (run : DeadRun) : List Instruction :=
  [.label run.start, .plain Opcode.athrow, .label run.stop]

/-- What is put in the place of an entry. -/
inductive Rewrites (analysis : Analysis) (runs : List DeadRun) : Rewriting
  /-- Labels and line numbers stay, and so do instructions that are reached. -/
  | keep {entry first} (alive : entry.1.isReal → analysis.reaches entry.2) :
      Rewrites analysis runs entry first [entry.1] first
  /-- The first instruction of a run is replaced. -/
  | replace {entry first} (real : entry.1.isReal) (dead : analysis.reaches entry.2 = false)
      (listed : ⟨⟨first⟩, ⟨first + 1⟩⟩ ∈ runs) :
      Rewrites analysis runs entry first (replacement ⟨⟨first⟩, ⟨first + 1⟩⟩) (first + 2)
  /-- The other instructions of a run disappear. -/
  | drop {entry first} (real : entry.1.isReal) (dead : analysis.reaches entry.2 = false)
      (listed : runs ≠ []) : Rewrites analysis runs entry first [] first

theorem tame_rewrites (analysis : Analysis) (runs : List DeadRun) :
    Rewriting.Tame (Rewrites analysis runs) where
  le h := by cases h <;> omega
  marks h hunreal := by
    cases h with
    | keep => rfl
    | replace real | drop real => simp [hunreal] at real
  fresh h hreal := by
    cases h with
    | keep => simp [placedLabels, Instruction.placed?_of_real hreal]
    | replace =>
      simp only [freshLabels, Nat.add_sub_cancel_left]
      exact .refl _
    | drop => simp [placedLabels]
  idle h hunreal := by
    cases h with
    | keep => rfl
    | replace real | drop real => simp [hunreal] at real

/-- How a list of entries is rewritten, depending on whether the last instruction before it was dead: which
pieces stand for the entries, which runs they make up, and which labels are handed out.  The first
instruction of a run is replaced, and the others disappear, whatever labels and line numbers are between. -/
inductive Collapses (analysis : Analysis) : Bool → ℕ → List (Instruction × ℕ) →
    List (List Instruction) → List DeadRun → ℕ → Prop
  | nil (inRun : Bool) (first : ℕ) : Collapses analysis inRun first [] [] [] first
  /-- Labels and line numbers stay. -/
  | mark {inRun first entry entries pieces runs next} (unreal : entry.1.isReal = false)
      (others : Collapses analysis inRun first entries pieces runs next) :
      Collapses analysis inRun first (entry :: entries) ([entry.1] :: pieces) runs next
  /-- An instruction that is reached stays, and a run ends there. -/
  | live {inRun first entry entries pieces runs next} (real : entry.1.isReal)
      (alive : analysis.reaches entry.2) (others : Collapses analysis false first entries pieces runs next) :
      Collapses analysis inRun first (entry :: entries) ([entry.1] :: pieces) runs next
  /-- The first instruction of a run is replaced. -/
  | enter {first entry entries pieces runs next} (real : entry.1.isReal)
      (dead : analysis.reaches entry.2 = false)
      (others : Collapses analysis true (first + 2) entries pieces runs next) :
      Collapses analysis false first (entry :: entries) (replacement ⟨⟨first⟩, ⟨first + 1⟩⟩ :: pieces)
        (⟨⟨first⟩, ⟨first + 1⟩⟩ :: runs) next
  /-- The other instructions of a run disappear. -/
  | drop {first entry entries pieces runs next} (real : entry.1.isReal)
      (dead : analysis.reaches entry.2 = false)
      (others : Collapses analysis true first entries pieces runs next) :
      Collapses analysis true first (entry :: entries) ([] :: pieces) runs next

/-- The steps collapse the runs of dead instructions. -/
theorem collapses_of_foldl (analysis : Analysis) (entries : List (Instruction × ℕ)) (state : State) :
    ∃ pieces runs, Collapses analysis state.inRun state.nextLabel entries pieces runs
        (entries.foldl (step analysis) state).nextLabel ∧
      (entries.foldl (step analysis) state).done.reverse = state.done.reverse ++ pieces.flatten ∧
      (entries.foldl (step analysis) state).runs.reverse = state.runs.reverse ++ runs := by
  induction entries generalizing state with
  | nil => exact ⟨[], [], .nil _ _, by simp, by simp⟩
  | cons entry entries ih =>
    obtain ⟨instruction, position⟩ := entry
    rw [List.foldl_cons]
    obtain ⟨pieces, runs, h, hdone, hruns⟩ := ih (step analysis state (instruction, position))
    rw [hdone, hruns]
    unfold step at h ⊢
    dsimp only at h ⊢
    split at h
    · next hunreal =>
      rw [if_pos hunreal]
      exact ⟨_, runs, .mark (by simpa using hunreal) h, by simp, rfl⟩
    · next hreal =>
      have real : instruction.isReal := by simpa using hreal
      rw [if_neg hreal]
      split at h
      · next halive =>
        rw [if_pos halive]
        exact ⟨_, runs, .live real halive h, by simp, rfl⟩
      · next hdead =>
        have dead : analysis.reaches position = false := by simpa using hdead
        rw [if_neg hdead]
        split at h
        · next hinside =>
          rw [if_pos hinside, hinside] at *
          exact ⟨_, runs, .drop real dead h, by simp, rfl⟩
        · next houtside =>
          rw [Bool.not_eq_true] at houtside
          rw [houtside]
          exact ⟨_, _, .enter real dead h, by simp [replacement], by simp⟩

/-- Collapsing runs is a pass. -/
theorem Collapses.pass {analysis : Analysis} {inRun : Bool} {first next : ℕ}
    {entries : List (Instruction × ℕ)} {pieces : List (List Instruction)} {runs all : List DeadRun}
    (h : Collapses analysis inRun first entries pieces runs next) (hruns : runs ⊆ all)
    (hrun : inRun → all ≠ []) : Pass (Rewrites analysis all) entries first pieces next := by
  induction h with
  | nil inRun first => exact .nil first
  | mark unreal _ ih => exact .cons (.keep fun real => by simp [unreal] at real) (ih hruns hrun)
  | live _ alive _ ih => exact .cons (.keep fun _ => alive) (ih hruns (by simp))
  | enter real dead _ ih =>
    have hlisted := hruns List.mem_cons_self
    exact .cons (.replace real dead hlisted)
      (ih (List.subset_of_cons_subset hruns) fun _ => List.ne_nil_of_mem hlisted)
  | drop real dead _ ih => exact .cons (.drop real dead (hrun rfl)) (ih hruns hrun)

/-- Every run has its replacement. -/
theorem Collapses.mem_pieces {analysis : Analysis} {inRun : Bool} {first next : ℕ}
    {entries : List (Instruction × ℕ)} {pieces : List (List Instruction)} {runs : List DeadRun}
    (h : Collapses analysis inRun first entries pieces runs next) :
    ∀ run ∈ runs, replacement run ∈ pieces := by
  induction h with
  | nil => simp
  | mark _ _ ih | live _ _ _ ih | drop _ _ _ ih =>
    exact fun run hmem => List.mem_cons_of_mem _ (ih run hmem)
  | enter _ _ _ ih =>
    rintro run (_ | ⟨_, hmem⟩)
    · exact List.mem_cons_self
    · exact List.mem_cons_of_mem _ (ih run hmem)

/-! ## Cutting handlers -/

/-- A protected range holds a position. -/
def Spans (positions : Placements) (segment : Segment) (position : Nat) : Prop :=
  ∃ start stop, positions.find segment.1 = .ok start ∧ positions.find segment.2 = .ok stop ∧
    start ≤ position ∧ position < stop

/-- A position lies within a replacement. -/
def Inside (positions : Placements) (run : DeadRun) (position : Nat) : Prop :=
  Spans positions (run.start, run.stop) position

/-- Cutting a run out of a range leaves the positions outside of it. -/
theorem spans_cut {positions : Placements} {run : DeadRun} {segment : Segment}
    {segments : List Segment} (h : cut positions run segment = .ok segments) (position : Nat) :
    (∃ left ∈ segments, Spans positions left position) ↔
      Spans positions segment position ∧ ¬ Inside positions run position := by
  unfold cut at h
  obtain ⟨runStart, hrunStart, h⟩ := bind_eq_ok.mp h
  obtain ⟨runStop, hrunStop, h⟩ := bind_eq_ok.mp h
  obtain ⟨start, hstart, h⟩ := bind_eq_ok.mp h
  obtain ⟨stop, hstop, h⟩ := bind_eq_ok.mp h
  have hspans : ∀ {a b : Label} {i j : Nat}, positions.find a = .ok i → positions.find b = .ok j →
      (Spans positions (a, b) position ↔ i ≤ position ∧ position < j) := by
    intro a b i j ha hb
    constructor
    · rintro ⟨i', j', ha', hb', hspan⟩
      obtain rfl := Except.ok.inj (ha.symm.trans ha')
      obtain rfl := Except.ok.inj (hb.symm.trans hb')
      exact hspan
    · exact fun hspan => ⟨i, j, ha, hb, hspan⟩
  have hsegment : Spans positions segment position ↔ start ≤ position ∧ position < stop :=
    hspans hstart hstop
  have hbefore := hspans hstart hrunStart
  have hbehind := hspans hrunStop hstop
  have hinside : Inside positions run position ↔ runStart ≤ position ∧ position < runStop :=
    hspans hrunStart hrunStop
  split at h
  · next hoverlap =>
    obtain rfl := pure_eq_ok.mp h
    rw [hsegment, hinside]
    simp only [List.mem_append, List.mem_ite_nil_right, List.mem_singleton, or_and_right, exists_or,
      and_assoc, exists_and_left, exists_eq_left, hbefore, hbehind]
    omega
  · next hapart =>
    obtain rfl := pure_eq_ok.mp h
    simp only [List.mem_singleton, exists_eq_left, hsegment, hinside]
    omega

/-- Cutting runs out of ranges leaves the positions outside of them. -/
theorem spans_foldlM {positions : Placements} {runs : List DeadRun} {segments left : List Segment}
    (h : runs.foldlM (cutAll positions) segments = .ok left) (position : Nat) :
    (∃ segment ∈ left, Spans positions segment position) ↔
      (∃ segment ∈ segments, Spans positions segment position) ∧
        ∀ run ∈ runs, ¬ Inside positions run position := by
  induction runs generalizing segments with
  | nil =>
    obtain rfl := pure_eq_ok.mp h
    simp
  | cons run runs ih =>
    rw [List.foldlM_cons] at h
    obtain ⟨middle, hmiddle, h⟩ := bind_eq_ok.mp h
    obtain ⟨cuts, hcuts, hmiddle⟩ := bind_eq_ok.mp hmiddle
    obtain rfl := pure_eq_ok.mp hmiddle
    have hcuts := mapM_eq_ok.mp hcuts
    rw [ih h, List.forall_mem_cons]
    have hcut : (∃ segment ∈ cuts.flatten, Spans positions segment position) ↔
        (∃ segment ∈ segments, Spans positions segment position) ∧ ¬ Inside positions run position := by
      constructor
      · rintro ⟨segment, hmem, hspans⟩
        obtain ⟨piece, hpiece, hmem⟩ := List.mem_flatten.mp hmem
        obtain ⟨whole, hwhole, hcut⟩ := exists_left_of_forall₂ hcuts hpiece
        obtain ⟨hspans, hout⟩ := (spans_cut hcut position).mp ⟨segment, hmem, hspans⟩
        exact ⟨⟨whole, hwhole, hspans⟩, hout⟩
      · rintro ⟨⟨whole, hwhole, hspans⟩, hout⟩
        obtain ⟨piece, hpiece, hcut⟩ := exists_right_of_forall₂ hcuts hwhole
        obtain ⟨segment, hmem, hspans⟩ := (spans_cut hcut position).mpr ⟨hspans, hout⟩
        exact ⟨segment, List.mem_flatten.mpr ⟨piece, hpiece, hmem⟩, hspans⟩
    rw [hcut, and_assoc]

/-- A range that contains an instruction is found to do so. -/
theorem coversCode_of_spans {positions : Placements} {instructions : List Instruction}
    {segment : Segment} {position : Nat} {instruction : Instruction}
    (hspans : Spans positions segment position) (here : instructions[position]? = some instruction)
    (real : instruction.isReal) : coversCode positions instructions segment = .ok true := by
  obtain ⟨start, stop, hstart, hstop, hle, hlt⟩ := hspans
  refine bind_eq_ok.mpr ⟨start, hstart, bind_eq_ok.mpr ⟨stop, hstop, congrArg Except.ok ?_⟩⟩
  refine List.any_eq_true.mpr ⟨instruction, List.mem_of_getElem? (i := position - start) ?_, real⟩
  rw [List.getElem?_take_of_lt (by omega), List.getElem?_drop, Nat.add_sub_cancel' hle, here]

/-- The handlers that are left of one cover its instructions outside of the runs, and no others. -/
theorem spans_cutHandler {positions : Placements} {instructions : List Instruction}
    {runs : List DeadRun} {handler : Handler} {left : List Handler}
    (h : cutHandler positions instructions runs handler = .ok left) :
    (∀ part ∈ left, part.handler = handler.handler ∧ part.caught = handler.caught ∧
        (∃ start, positions.find part.start = .ok start) ∧
          ∃ stop, positions.find part.stop = .ok stop) ∧
      ∀ {position instruction}, instructions[position]? = some instruction → instruction.isReal →
        ((∃ part ∈ left, Spans positions (part.start, part.stop) position) ↔
          Spans positions (handler.start, handler.stop) position ∧
            ∀ run ∈ runs, ¬ Inside positions run position) := by
  unfold cutHandler at h
  obtain ⟨segments, hsegments, h⟩ := bind_eq_ok.mp h
  obtain ⟨kept, hkept, h⟩ := bind_eq_ok.mp h
  obtain rfl := pure_eq_ok.mp h
  refine ⟨?_, fun {position instruction} here real => ?_⟩
  · intro part hmem
    obtain ⟨segment, hsegment, rfl⟩ := List.mem_map.mp hmem
    obtain ⟨start, hstart, hcovers⟩ :=
      bind_eq_ok.mp ((mem_of_filterM_eq_ok hkept).mp hsegment).2
    obtain ⟨stop, hstop, -⟩ := bind_eq_ok.mp hcovers
    exact ⟨rfl, rfl, ⟨start, hstart⟩, ⟨stop, hstop⟩⟩
  · have hcut := spans_foldlM hsegments position
    simp only [List.mem_singleton, exists_eq_left] at hcut
    rw [← hcut]
    constructor
    · rintro ⟨_, hmem, hspans⟩
      obtain ⟨segment, hsegment, rfl⟩ := List.mem_map.mp hmem
      exact ⟨segment, ((mem_of_filterM_eq_ok hkept).mp hsegment).1, hspans⟩
    · rintro ⟨segment, hmem, hspans⟩
      have hcovers := coversCode_of_spans hspans here real
      exact ⟨_, List.mem_map_of_mem ((mem_of_filterM_eq_ok hkept).mpr ⟨hmem, hcovers⟩), hspans⟩

/-- What the replacement of dead code makes of a body. -/
structure Replaced (analysis : Analysis) (runs : List DeadRun) (body body' : Body) : Prop where
  /-- The instructions are rewritten in a pass, and every run has its replacement. -/
  pass : ∃ pieces, Pass (Rewrites analysis runs) body.instructions.zipIdx body.nextLabel pieces
      body'.nextLabel ∧ body'.instructions = pieces.flatten ∧ ∀ run ∈ runs, replacement run ∈ pieces
  /-- The handlers are cut one by one. -/
  handlers : runs ≠ [] → ∃ parts, List.Forall₂ (fun handler left => cutHandler
      (Placements.firstPositions body'.instructions) body'.instructions runs handler = .ok left)
    body.handlers parts ∧ body'.handlers = parts.flatten
  scopes : body'.scopes = body.scopes
  typeScopes : body'.typeScopes = body.typeScopes
  /-- Without runs nothing changes. -/
  unchanged : runs = [] → body' = body

/-- A pass without runs changes nothing. -/
theorem eq_of_pass_nil {analysis : Analysis} {entries : List (Instruction × Nat)} {first next : Nat}
    {pieces : List (List Instruction)} (h : Pass (Rewrites analysis []) entries first pieces next) :
    pieces.flatten = entries.map Prod.fst ∧ next = first := by
  induction h with
  | nil => exact ⟨rfl, rfl⟩
  | cons here _ ih =>
    cases here with
    | keep => exact ⟨by rw [List.flatten_cons, ih.1]; rfl, ih.2⟩
    | replace _ _ listed => simp at listed
    | drop _ _ listed => simp at listed

/-- Replacing dead code collapses the runs, and cuts the handlers unless there are no runs. -/
theorem exists_replaceDeadCode_eq (body : Body) (analysis : Analysis) : ∃ pieces runs next,
    Collapses analysis false body.nextLabel body.instructions.zipIdx pieces runs next ∧
      body.replaceDeadCode analysis =
        if runs.isEmpty then .ok (body, [])
        else (body.handlers.mapM (cutHandler (Placements.firstPositions pieces.flatten) pieces.flatten runs)).map
          fun handlers => ({ body with
            instructions := pieces.flatten, handlers := handlers.flatten, nextLabel := next },
            runs.map DeadRun.start) := by
  obtain ⟨pieces, runs, hcollapses, hdone, hruns⟩ :=
    collapses_of_foldl analysis body.instructions.zipIdx ⟨[], [], false, body.nextLabel⟩
  refine ⟨pieces, runs, _, hcollapses, ?_⟩
  unfold Body.replaceDeadCode
  generalize body.instructions.zipIdx.foldl (step analysis) _ = state at hdone hruns
  have hdone : state.done.reverse = pieces.flatten := by simpa using hdone
  have hruns : state.runs.reverse = runs := by simpa using hruns
  dsimp only
  rw [hruns, hdone]
  split
  · rfl
  · cases body.handlers.mapM (cutHandler (Placements.firstPositions pieces.flatten) pieces.flatten runs) <;> rfl

/-- What the replacement of dead code does to a body: its runs collapse, and the handlers are cut unless there
are none. -/
theorem exists_collapses_of_eq_ok {body body' : Body} {analysis : Analysis} {dead : List Label}
    (h : body.replaceDeadCode analysis = .ok (body', dead)) :
    ∃ pieces runs, Collapses analysis false body.nextLabel body.instructions.zipIdx pieces runs
        body'.nextLabel ∧ body'.instructions = pieces.flatten ∧ dead = runs.map DeadRun.start ∧
      Replaced analysis runs body body' := by
  obtain ⟨pieces, runs, next, hcollapses, heq⟩ := exists_replaceDeadCode_eq body analysis
  have hpass := hcollapses.pass (fun _ => id) (by simp)
  rw [heq] at h
  split at h
  · next hnone =>
    obtain rfl := List.isEmpty_iff.mp hnone
    obtain ⟨rfl, rfl⟩ := Prod.mk.inj (Except.ok.inj h)
    obtain ⟨hflatten, rfl⟩ := eq_of_pass_nil hpass
    rw [List.zipIdx_map_fst] at hflatten
    exact ⟨pieces, [], hcollapses, hflatten.symm, rfl,
      ⟨⟨pieces, hpass, hflatten.symm, by simp⟩, by simp, rfl, rfl, fun _ => rfl⟩⟩
  · next hsome =>
    obtain ⟨parts, hparts, h⟩ := map_eq_ok.mp h
    obtain ⟨rfl, rfl⟩ := Prod.mk.inj h
    exact ⟨pieces, runs, hcollapses, rfl, rfl, ⟨pieces, hpass, rfl, hcollapses.mem_pieces⟩,
      fun _ => ⟨parts, mapM_eq_ok.mp hparts, rfl⟩, rfl, rfl,
      fun hnil => absurd (List.isEmpty_iff.mpr hnil) hsome⟩

/-- A body whose dead code was replaced. -/
theorem replaced_of_eq_ok {body body' : Body} {analysis : Analysis} {dead : List Label}
    (h : body.replaceDeadCode analysis = .ok (body', dead)) :
    ∃ runs, Replaced analysis runs body body' ∧ dead = runs.map DeadRun.start := by
  obtain ⟨_, runs, -, -, hdead, hreplaced⟩ := exists_collapses_of_eq_ok h
  exact ⟨runs, hreplaced, hdead⟩

/-- A body whose dead code was replaced is well labelled. -/
theorem Replaced.wellLabelled {analysis : Analysis} {runs : List DeadRun} {body body' : Body}
    (h : Replaced analysis runs body body') (hlabelled : body.WellLabelled) : body'.WellLabelled := by
  obtain ⟨pieces, hpass, houtput, -⟩ := h.pass
  have tame := tame_rewrites analysis runs
  refine hlabelled.of_perm (hpass.le tame) ?_
  have hperm := hpass.perm_labels tame
  rwa [List.zipIdx_map_fst, ← houtput] at hperm

/-- What all instructions have, those that are left of a body without dead code have. -/
theorem Replaced.forall_mem {analysis : Analysis} {runs : List DeadRun} {body body' : Body}
    {p : Instruction → Prop} (h : Replaced analysis runs body body') (hbody : ∀ instruction ∈ body.instructions, p instruction)
    (hlabel : ∀ label, p (.label label)) (hthrow : p (.plain Opcode.athrow)) :
    ∀ instruction ∈ body'.instructions, p instruction := by
  obtain ⟨pieces, hpass, houtput, -⟩ := h.pass
  intro instruction hmem
  obtain ⟨k, hk⟩ := List.mem_iff_getElem?.mp (houtput ▸ hmem)
  obtain ⟨i, entry, before, piece, after, j, hentry, -, hrewrites, hj, -⟩ := hpass.exists_origin hk
  have hpiece := List.mem_of_getElem? hj
  cases hrewrites with
  | keep =>
    obtain rfl := List.mem_singleton.mp hpiece
    have hzip := List.mem_of_getElem? hentry
    exact hbody _ (List.zipIdx_map_fst 0 body.instructions ▸ List.mem_map_of_mem hzip)
  | replace =>
    simp only [replacement, List.mem_cons, List.not_mem_nil, or_false] at hpiece
    rcases hpiece with rfl | rfl | rfl
    · exact hlabel _
    · exact hthrow
    · exact hlabel _
  | drop => cases hpiece

end DeadCode

end ClassInstrument

/-!
## Runs of dead instructions

A run of dead instructions ends where an instruction is reached; labels and line numbers do not end it.  When
dead code is replaced, the instruction that begins a run is what its `athrow` stands for (`Collapses.piece_of_dead`),
and nothing stands for the others.  The labels of the runs are handed out in order (`Collapses.labels`).
-/

namespace ClassInstrument

namespace DeadCode

/-- An entry is an instruction that is not reached. -/
def DeadAt (analysis : Analysis) (entries : List (Instruction × ℕ)) (i : ℕ) : Prop :=
  ∃ entry, entries[i]? = some entry ∧ entry.1.isReal ∧ analysis.reaches entry.2 = false

/-- An entry is an instruction that is reached. -/
def LiveAt (analysis : Analysis) (entries : List (Instruction × ℕ)) (i : ℕ) : Prop :=
  ∃ entry, entries[i]? = some entry ∧ entry.1.isReal ∧ analysis.reaches entry.2

theorem getElem?_zipIdx_eq_some {instructions : List Instruction} {entry : Instruction × ℕ} {i : ℕ} :
    instructions.zipIdx[i]? = some entry ↔ instructions[i]? = some entry.1 ∧ entry.2 = i := by
  obtain ⟨instruction, position⟩ := entry
  simp [List.getElem?_zipIdx, eq_comm]

/-- A dead entry of a body is an instruction that is not reached at its position. -/
theorem deadAt_zipIdx {analysis : Analysis} {instructions : List Instruction} {i : ℕ} :
    DeadAt analysis instructions.zipIdx i ↔
      ∃ instruction, instructions[i]? = some instruction ∧ instruction.isReal ∧ analysis.reaches i = false := by
  simp only [DeadAt, getElem?_zipIdx_eq_some, Prod.exists]
  refine exists_congr fun instruction => ⟨?_, fun h => ⟨i, ⟨h.1, rfl⟩, h.2⟩⟩
  rintro ⟨_, ⟨here, rfl⟩, h⟩
  exact ⟨here, h⟩

/-- A live entry of a body is an instruction that is reached at its position. -/
theorem liveAt_zipIdx {analysis : Analysis} {instructions : List Instruction} {i : ℕ} :
    LiveAt analysis instructions.zipIdx i ↔
      ∃ instruction, instructions[i]? = some instruction ∧ instruction.isReal ∧ analysis.reaches i := by
  simp only [LiveAt, getElem?_zipIdx_eq_some, Prod.exists]
  refine exists_congr fun instruction => ⟨?_, fun h => ⟨i, ⟨h.1, rfl⟩, h.2⟩⟩
  rintro ⟨_, ⟨here, rfl⟩, h⟩
  exact ⟨here, h⟩

/-- An entry begins a run of dead instructions, depending on whether the last instruction before the entries
was dead. -/
structure BeginsRun (analysis : Analysis) (inRun : Bool) (entries : List (Instruction × ℕ)) (i : ℕ) : Prop where
  dead : DeadAt analysis entries i
  /-- Some instruction is reached since any dead one before. -/
  apart : ∀ j < i, DeadAt analysis entries j → ∃ k, j < k ∧ k < i ∧ LiveAt analysis entries k
  /-- Some instruction is reached since the last dead one before the entries. -/
  afresh : inRun → ∃ k < i, LiveAt analysis entries k

section

variable {analysis : Analysis} {inRun : Bool} {entry : Instruction × ℕ} {entries : List (Instruction × ℕ)}
  {pieces : List (List Instruction)} {runs : List DeadRun} {run : DeadRun} {first next i : ℕ}

@[simp] theorem deadAt_zero :
    DeadAt analysis (entry :: entries) 0 ↔ entry.1.isReal ∧ analysis.reaches entry.2 = false := by
  simp [DeadAt]

@[simp] theorem deadAt_succ : DeadAt analysis (entry :: entries) (i + 1) ↔ DeadAt analysis entries i :=
  Iff.rfl

@[simp] theorem liveAt_zero :
    LiveAt analysis (entry :: entries) 0 ↔ entry.1.isReal ∧ analysis.reaches entry.2 := by
  simp [LiveAt]

@[simp] theorem liveAt_succ : LiveAt analysis (entry :: entries) (i + 1) ↔ LiveAt analysis entries i :=
  Iff.rfl

/-- A dead entry that comes first begins a run unless the last instruction before was dead. -/
theorem beginsRun_zero (dead : DeadAt analysis (entry :: entries) 0) :
    BeginsRun analysis inRun (entry :: entries) 0 ↔ inRun = false := by
  constructor
  · intro h
    by_contra hrun
    obtain ⟨_, hlt, -⟩ := h.afresh (by simpa using hrun)
    exact Nat.not_lt_zero _ hlt
  · rintro rfl
    exact ⟨dead, by simp, by simp⟩

/-- A later entry begins a run if it does so behind the first one. -/
theorem beginsRun_succ {inRun' : Bool}
    (hstay : entry.1.isReal = false → inRun' = inRun)
    (hlive : entry.1.isReal → analysis.reaches entry.2 → inRun' = false)
    (hdead : entry.1.isReal → analysis.reaches entry.2 = false → inRun' = true) :
    BeginsRun analysis inRun (entry :: entries) (i + 1) ↔ BeginsRun analysis inRun' entries i := by
  constructor
  · rintro ⟨dead, apart, afresh⟩
    refine ⟨dead, fun j hlt hj => ?_, fun hrun => ?_⟩
    · obtain ⟨_ | k, hjk, hki, hk⟩ := apart (j + 1) (by omega) hj
      · omega
      · exact ⟨k, by omega, by omega, hk⟩
    · by_cases real : entry.1.isReal
      · have hnot : analysis.reaches entry.2 = false := by
          by_contra halive
          rw [hlive real (by simpa using halive)] at hrun
          cases hrun
        obtain ⟨_ | k, hjk, hki, hk⟩ := apart 0 (Nat.succ_pos i) (deadAt_zero.mpr ⟨real, hnot⟩)
        · omega
        · exact ⟨k, by omega, hk⟩
      · rw [hstay (by simpa using real)] at hrun
        obtain ⟨_ | k, hki, hk⟩ := afresh hrun
        · exact absurd (liveAt_zero.mp hk).1 real
        · exact ⟨k, by omega, hk⟩
  · rintro ⟨dead, apart, afresh⟩
    refine ⟨dead, ?_, fun hrun => ?_⟩
    · rintro (_ | j) hlt hj
      · obtain ⟨real, hnot⟩ := deadAt_zero.mp hj
        obtain ⟨k, hki, hk⟩ := afresh (hdead real hnot)
        exact ⟨k + 1, by omega, by omega, hk⟩
      · obtain ⟨k, hjk, hki, hk⟩ := apart j (by omega) hj
        exact ⟨k + 1, by omega, by omega, hk⟩
    · by_cases hfirst : entry.1.isReal ∧ analysis.reaches entry.2
      · exact ⟨0, by omega, liveAt_zero.mpr hfirst⟩
      · have hrun' : inRun' := by
          by_cases real : entry.1.isReal
          · exact hdead real (by simpa [real] using hfirst)
          · exact hstay (by simpa using real) ▸ hrun
        obtain ⟨k, hki, hk⟩ := afresh hrun'
        exact ⟨k + 1, by omega, hk⟩

/-- For the beginning of a run stands its replacement, and for the other dead instructions nothing. -/
theorem Collapses.piece_of_dead (h : Collapses analysis inRun first entries pieces runs next)
    (dead : DeadAt analysis entries i) :
    (BeginsRun analysis inRun entries i ∧ ∃ run ∈ runs, pieces[i]? = some (replacement run)) ∨
      (¬ BeginsRun analysis inRun entries i ∧ pieces[i]? = some []) := by
  induction h generalizing i with
  | nil => obtain ⟨_, hentry, -⟩ := dead; simp at hentry
  | @mark inRun first entry entries pieces runs next unreal others ih =>
    cases i with
    | zero => simp [unreal] at dead
    | succ i =>
      rw [beginsRun_succ (fun _ => rfl) (by simp [unreal]) (by simp [unreal])]
      exact ih dead
  | @live inRun first entry entries pieces runs next real alive others ih =>
    cases i with
    | zero => simp [alive] at dead
    | succ i =>
      rw [beginsRun_succ (by simp [real]) (fun _ _ => rfl) (by simp [alive])]
      exact ih dead
  | @enter first entry entries pieces runs next real hdead others ih =>
    cases i with
    | zero => exact .inl ⟨(beginsRun_zero dead).mpr rfl, _, List.mem_cons_self, rfl⟩
    | succ i =>
      rw [beginsRun_succ (by simp [real]) (by simp [hdead]) (fun _ _ => rfl)]
      refine (ih dead).imp_left ?_
      rintro ⟨hbegins, run, hmem, hpiece⟩
      exact ⟨hbegins, run, List.mem_cons_of_mem _ hmem, hpiece⟩
  | @drop first entry entries pieces runs next real hdead others ih =>
    cases i with
    | zero => exact .inr ⟨by simp [beginsRun_zero dead], rfl⟩
    | succ i =>
      rw [beginsRun_succ (by simp [real]) (by simp [hdead]) (fun _ _ => rfl)]
      exact ih dead

/-- Every run begins somewhere. -/
theorem Collapses.exists_begins (h : Collapses analysis inRun first entries pieces runs next)
    (hrun : run ∈ runs) : ∃ i, BeginsRun analysis inRun entries i ∧ pieces[i]? = some (replacement run) := by
  obtain ⟨i, hpiece⟩ := List.mem_iff_getElem?.mp (h.mem_pieces run hrun)
  obtain ⟨entry, before, after, hentry, hrewrites⟩ :=
    (h.pass (List.subset_cons_self run runs) (by simp)).exists_entry hpiece
  have dead : DeadAt analysis entries i := by
    generalize hsame : replacement run = piece at hrewrites
    cases hrewrites with
    | keep => simp [replacement] at hsame
    | replace real dead => exact ⟨entry, hentry, real, dead⟩
    | drop => simp [replacement] at hsame
  rcases h.piece_of_dead dead with ⟨hbegins, -⟩ | ⟨-, hnone⟩
  · exact ⟨i, hbegins, hpiece⟩
  · rw [hpiece] at hnone
    cases hnone

/-- The labels of the runs are those that are handed out, in their order. -/
theorem Collapses.labels (h : Collapses analysis inRun first entries pieces runs next) :
    first ≤ next ∧ runs.flatMap (fun run => [run.start, run.stop]) = freshLabels first next := by
  induction h with
  | nil => simp
  | mark _ _ ih | live _ _ _ ih | drop _ _ _ ih => exact ih
  | @enter first entry entries pieces runs next _ _ _ ih =>
    obtain ⟨hle, hlabels⟩ := ih
    refine ⟨by omega, ?_⟩
    rw [List.flatMap_cons, hlabels, ← freshLabels_append (Nat.le_add_right first 2) hle]
    simp [freshLabels, List.range']

end

end DeadCode

end ClassInstrument
