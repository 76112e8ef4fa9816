import ClassInstrument.Proofs.Assembly.Closed
import ClassInstrument.Proofs.Execution.Machine

/-!
# Carving runs out of protected ranges

Cutting a run out of a protected range gives up to two ranges, and later runs are cut out of these.  No
position is lost that lies outside of the runs, and none is held twice: as many of the ranges that are left
hold it as did before (`countP_cutHandler`).  If all labels are placed, carving succeeds (`exists_cutHandler`).

The handlers that protect a position, in their order, tell where an exception thrown there goes.  So after dead
code was replaced an instruction that is reached has the handlers that it had before, each as often as before
(`Replaced.catchers_shift`), and a replacement has none (`Replaced.catchers_inside`).
-/

namespace ClassInstrument

open Outcome

namespace DeadCode

variable {positions : Placements} {run : DeadRun} {runs : List DeadRun} {segment : Segment}
  {segments : List Segment} {instructions : List Instruction} {handler : Handler} {position : ℕ}

/-! ## Success -/

/-- The labels of a range are placed. -/
structure Placed (positions : Placements) (segment : Segment) : Prop where
  start : ∃ start, positions.find segment.1 = .ok start
  stop : ∃ stop, positions.find segment.2 = .ok stop

/-- The labels of a run are placed around its replacement. -/
def Stands (positions : Placements) (run : DeadRun) : Prop :=
  ∃ start, positions.find run.start = .ok start ∧ positions.find run.stop = .ok (start + 2)

/-- A run is cut out of a range if their labels are placed, and so are those of what is left. -/
theorem exists_cut (hrun : Stands positions run) (hsegment : Placed positions segment) :
    ∃ left, cut positions run segment = .ok left ∧ ∀ part ∈ left, Placed positions part := by
  obtain ⟨runStart, hrunStart, hrunStop⟩ := hrun
  obtain ⟨⟨start, hstart⟩, ⟨stop, hstop⟩⟩ := hsegment
  have hcut {left : List Segment} (h : (if start < runStart + 2 ∧ runStart < stop then
        (if start < runStart then [(segment.1, run.start)] else []) ++
          if runStart + 2 < stop then [(run.stop, segment.2)] else []
        else [segment]) = left) : cut positions run segment = .ok left := by
    refine bind_eq_ok.mpr ⟨_, hrunStart, bind_eq_ok.mpr ⟨_, hrunStop, bind_eq_ok.mpr ⟨_, hstart,
      bind_eq_ok.mpr ⟨_, hstop, ?_⟩⟩⟩⟩
    rw [← h]
    split <;> rfl
  refine ⟨_, hcut rfl, fun part hmem => ?_⟩
  split at hmem
  · rw [List.mem_append, List.mem_ite_nil_right, List.mem_ite_nil_right, List.mem_singleton,
      List.mem_singleton] at hmem
    rcases hmem with ⟨-, rfl⟩ | ⟨-, rfl⟩
    · exact ⟨⟨start, hstart⟩, ⟨runStart, hrunStart⟩⟩
    · exact ⟨⟨_, hrunStop⟩, ⟨stop, hstop⟩⟩
  · rw [List.mem_singleton.mp hmem]
    exact ⟨⟨start, hstart⟩, ⟨stop, hstop⟩⟩

/-- Runs are cut out of ranges one after the other if all labels are placed. -/
theorem exists_foldlM_cutAll (hruns : ∀ run ∈ runs, Stands positions run)
    (hsegments : ∀ segment ∈ segments, Placed positions segment) :
    ∃ left, runs.foldlM (cutAll positions) segments = .ok left ∧ ∀ part ∈ left, Placed positions part := by
  induction runs generalizing segments with
  | nil => exact ⟨segments, rfl, hsegments⟩
  | cons run runs ih =>
    obtain ⟨hrun, hothers⟩ := List.forall_mem_cons.mp hruns
    obtain ⟨cuts, hcuts, hplaced⟩ := exists_mapM_eq_ok (f := cut positions run)
      (r := fun _ left => ∀ part ∈ left, Placed positions part)
      (List.forall₂_same.mpr fun segment hmem => exists_cut hrun (hsegments segment hmem))
    have hleft : ∀ part ∈ cuts.flatten, Placed positions part := by
      intro part hmem
      obtain ⟨left, hleft, hmem⟩ := List.mem_flatten.mp hmem
      obtain ⟨-, -, hall⟩ := exists_left_of_forall₂ hplaced hleft
      exact hall part hmem
    obtain ⟨left, hfold, hleft⟩ := ih hothers hleft
    refine ⟨left, ?_, hleft⟩
    rw [List.foldlM_cons]
    exact bind_eq_ok.mpr ⟨_, bind_eq_ok.mpr ⟨cuts, hcuts, rfl⟩, hfold⟩

/-- A handler is cut if all labels are placed. -/
theorem exists_cutHandler (hruns : ∀ run ∈ runs, Stands positions run)
    (hhandler : Placed positions (handler.start, handler.stop)) :
    ∃ left, cutHandler positions instructions runs handler = .ok left := by
  obtain ⟨left, hleft, hplaced⟩ := exists_foldlM_cutAll hruns (List.forall_mem_singleton.mpr hhandler)
  have hcovers : ∀ part ∈ left, ∃ keep, coversCode positions instructions part = .ok keep := by
    intro part hmem
    obtain ⟨⟨start, hstart⟩, ⟨stop, hstop⟩⟩ := hplaced part hmem
    exact ⟨_, bind_eq_ok.mpr ⟨start, hstart, bind_eq_ok.mpr ⟨stop, hstop, rfl⟩⟩⟩
  exact ⟨_, bind_eq_ok.mpr ⟨left, hleft, bind_eq_ok.mpr ⟨_, filterM_eq_ok.mpr ⟨hcovers, rfl⟩, rfl⟩⟩⟩

/-! ## Counting -/

section

variable {holds : Segment → Bool} (hholds : ∀ segment, holds segment ↔ Spans positions segment position)
include hholds

/-- A range between two places holds what lies between them. -/
theorem holds_eq {start stop : Label} {i j : ℕ} (hstart : positions.find start = .ok i)
    (hstop : positions.find stop = .ok j) : holds (start, stop) = decide (i ≤ position ∧ position < j) := by
  rw [Bool.eq_iff_iff, hholds, decide_eq_true_iff]
  constructor
  · rintro ⟨i', j', hi', hj', hspan⟩
    obtain rfl := Except.ok.inj (hstart.symm.trans hi')
    obtain rfl := Except.ok.inj (hstop.symm.trans hj')
    exact hspan
  · exact fun hspan => ⟨i, j, hstart, hstop, hspan⟩

/-- What a range holds outside of a run that is cut out of it, one of the ranges that are left holds. -/
theorem countP_cut {left : List Segment} (hrun : Stands positions run)
    (h : cut positions run segment = .ok left) (hout : ¬ Inside positions run position) :
    left.countP holds = [segment].countP holds := by
  obtain ⟨place, hplace, hbehind⟩ := hrun
  obtain ⟨runStart, hrunStart, h⟩ := bind_eq_ok.mp h
  obtain ⟨runStop, hrunStop, h⟩ := bind_eq_ok.mp h
  obtain ⟨start, hstart, h⟩ := bind_eq_ok.mp h
  obtain ⟨stop, hstop, h⟩ := bind_eq_ok.mp h
  obtain rfl := Except.ok.inj (hplace.symm.trans hrunStart)
  obtain rfl := Except.ok.inj (hbehind.symm.trans hrunStop)
  have hinside : ¬ (place ≤ position ∧ position < place + 2) := fun hspan =>
    hout ⟨_, _, hrunStart, hrunStop, hspan⟩
  split at h
  · obtain rfl := pure_eq_ok.mp h
    have hbefore := holds_eq hholds hstart hrunStart
    have hbehind := holds_eq hholds hrunStop hstop
    have hsegment : holds segment = _ := holds_eq hholds hstart hstop
    rw [List.countP_append, List.countP_singleton, hsegment]
    split <;> split <;> simp only [List.countP_singleton, List.countP_nil, hbefore, hbehind,
      decide_eq_true_iff] <;> split_ifs <;> omega
  · obtain rfl := pure_eq_ok.mp h
    rfl

/-- What some ranges hold outside of runs that are cut out of them, as many of the ranges that are left
hold. -/
theorem countP_foldlM {left : List Segment} (hruns : ∀ run ∈ runs, Stands positions run)
    (h : runs.foldlM (cutAll positions) segments = .ok left)
    (hout : ∀ run ∈ runs, ¬ Inside positions run position) :
    left.countP holds = segments.countP holds := by
  induction runs generalizing segments with
  | nil =>
    obtain rfl := pure_eq_ok.mp h
    rfl
  | cons run runs ih =>
    obtain ⟨hrun, hothers⟩ := List.forall_mem_cons.mp hruns
    obtain ⟨hapart, hout⟩ := List.forall_mem_cons.mp hout
    rw [List.foldlM_cons] at h
    obtain ⟨middle, hmiddle, h⟩ := bind_eq_ok.mp h
    obtain ⟨cuts, hcuts, hmiddle⟩ := bind_eq_ok.mp hmiddle
    obtain rfl := pure_eq_ok.mp hmiddle
    rw [ih hothers h hout]
    calc cuts.flatten.countP holds
        = (cuts.map (List.countP holds)).sum := List.countP_flatten
      _ = ((segments.map ([·])).map (List.countP holds)).sum := by
        rw [List.map_map]
        exact congrArg List.sum (map_eq_map_of_forall₂ (mapM_eq_ok.mp hcuts)
          fun segment left hcut => (countP_cut hholds hrun hcut hapart).symm).symm
      _ = (segments.map ([·])).flatten.countP holds := List.countP_flatten.symm
      _ = segments.countP holds := by rw [← List.flatMap_def, List.flatMap_singleton']

/-- If a handler protects an instruction outside of the runs, one of the handlers that are left of it does,
and otherwise none. -/
theorem countP_cutHandler (hruns : ∀ run ∈ runs, Stands positions run) {left : List Handler}
    (h : cutHandler positions instructions runs handler = .ok left) {instruction : Instruction}
    (here : instructions[position]? = some instruction) (real : instruction.isReal)
    (hout : ∀ run ∈ runs, ¬ Inside positions run position) :
    left.countP (fun part => holds (part.start, part.stop)) =
      [handler].countP fun handler => holds (handler.start, handler.stop) := by
  obtain ⟨segments, hsegments, h⟩ := bind_eq_ok.mp h
  obtain ⟨kept, hkept, h⟩ := bind_eq_ok.mp h
  obtain rfl := pure_eq_ok.mp h
  obtain rfl := (filterM_eq_ok.mp hkept).2
  rw [List.countP_map, List.countP_filter]
  calc segments.countP _
      = segments.countP holds := by
        refine List.countP_congr fun segment hmem => ?_
        have hcovers (h : holds segment) : coversCode positions instructions segment = .ok true :=
          coversCode_of_spans ((hholds segment).mp h) here real
        simp only [Function.comp_apply, Bool.and_eq_true, beq_iff_eq, toOption_eq_some]
        exact ⟨And.left, fun h => ⟨h, hcovers h⟩⟩
    _ = _ := countP_foldlM hholds hruns hsegments hout

end

/-! ## Replacing dead code -/

variable {analysis : Analysis} {body body' : Body} {pieces : List (List Instruction)}

/-- The labels of a run stand around its replacement. -/
theorem stands_of_mem (houtput : body'.instructions = pieces.flatten) (hlabelled : body'.WellLabelled)
    {run : DeadRun} (hrun : replacement run ∈ pieces) :
    Stands (Placements.firstPositions body'.instructions) run := by
  obtain ⟨i, hpiece⟩ := List.mem_iff_getElem?.mp hrun
  have hstart := Pieces.getElem?_shift (j := 0) hpiece (by simp [replacement])
  have hstop := Pieces.getElem?_shift (j := 2) hpiece (by simp [replacement])
  rw [← houtput] at hstart hstop
  exact ⟨_, (Placements.find_firstPositions hlabelled).mpr hstart,
    (Placements.find_firstPositions hlabelled).mpr hstop⟩

/-- Dead code is replaced if the ranges of the handlers are placed. -/
theorem exists_replaceDeadCode (analysis : Analysis) (hlabelled : body.WellLabelled)
    (hplaced : ∀ handler ∈ body.handlers, (∃ start, body.Places handler.start start) ∧
      ∃ stop, body.Places handler.stop stop) :
    ∃ body' dead, body.replaceDeadCode analysis = .ok (body', dead) := by
  obtain ⟨pieces, runs, next, hcollapses, heq⟩ := exists_replaceDeadCode_eq body analysis
  rw [heq]
  split
  · exact ⟨body, [], rfl⟩
  · -- the labels of the new list are placed before the handlers are cut
    let middle : Body := { body with instructions := pieces.flatten, nextLabel := next }
    have hpass : Pass (Rewrites analysis runs) body.instructions.zipIdx body.nextLabel pieces
        middle.nextLabel := hcollapses.pass (fun _ => id) (by simp)
    have tame := tame_rewrites analysis runs
    have hmiddle : middle.WellLabelled := by
      have hperm := hpass.perm_labels tame
      rw [List.zipIdx_map_fst] at hperm
      exact hlabelled.of_perm (hpass.le tame) hperm
    have hstands : ∀ run ∈ runs, Stands (Placements.firstPositions middle.instructions) run :=
      fun run hrun => stands_of_mem rfl hmiddle (hcollapses.mem_pieces run hrun)
    have hlabel {label : Label} {place : ℕ} (hplaces : body.Places label place) :
        ∃ start, (Placements.firstPositions pieces.flatten).find label = .ok start :=
      ⟨_, (Placements.find_firstPositions hmiddle).mpr
        (keeps_of_alive hpass rfl hplaces.1 (by simp [Instruction.isReal])).2⟩
    obtain ⟨handlers, hhandlers, -⟩ := exists_mapM_eq_ok (r := fun _ _ => True)
      (f := cutHandler (Placements.firstPositions pieces.flatten) pieces.flatten runs)
      (List.forall₂_same.mpr fun handler hmem => by
        obtain ⟨⟨start, hstart⟩, ⟨stop, hstop⟩⟩ := hplaced handler hmem
        obtain ⟨left, hleft⟩ : ∃ left, cutHandler _ pieces.flatten runs handler = .ok left :=
          exists_cutHandler hstands ⟨hlabel hstart, hlabel hstop⟩
        exact ⟨left, hleft, trivial⟩)
    exact ⟨_, _, map_eq_ok.mpr ⟨handlers, hhandlers, rfl⟩⟩

end DeadCode

namespace Body

/-- Where exceptions that are thrown at a position go, by the classes that are caught. -/
def catchers (body : Body) (position : ℕ) : List (Label × Option String) :=
  (body.handlers.filter (body.isProtectedBy position)).map fun handler => (handler.handler, handler.caught)

variable {body body' : Body} {handler : Handler} {label : Label} {position : ℕ}

/-- A label that is placed once is first placed where it stands. -/
theorem WellLabelled.labelPosition?_eq_some (h : body.WellLabelled) :
    body.labelPosition? label = some position ↔ body.instructions[position]? = some (.label label) := by
  rw [labelPosition?, List.findIdx?_eq_some_iff_getElem, List.getElem?_eq_some_iff]
  simp only [beq_iff_eq]
  refine exists_congr fun hlt => and_iff_left_of_imp fun hstands j hj hother => ?_
  have := eq_of_placedLabels h.placedOnce (List.getElem?_eq_some_iff.mpr ⟨hlt, hstands⟩)
    (List.getElem?_eq_some_iff.mpr ⟨hj.trans hlt, hother⟩)
  omega

/-- A handler protects what it covers. -/
theorem WellLabelled.isProtectedBy_iff (h : body.WellLabelled) :
    body.isProtectedBy position handler ↔ body.Covers handler position := by
  simp only [Covers, ← h.labelPosition?_eq_some, isProtectedBy]
  cases body.labelPosition? handler.start <;> cases body.labelPosition? handler.stop <;> simp

/-- The handlers that protect a position are those that cover it once their labels are positions. -/
theorem WellLabelled.forall₂_filter (h : body.WellLabelled) {handlers : List PlacedHandler}
    (hhandlers : body.placedHandlers = .ok handlers) (position : ℕ) :
    List.Forall₂ body.PlacesHandler (body.handlers.filter (body.isProtectedBy position))
      (handlers.filter (·.covers position)) := by
  refine List.rel_filter ?_ (placedHandlers_eq_ok hhandlers)
  intro handler placed hplaces
  simp only [h.isProtectedBy_iff, PlacedHandler.covers, Bool.and_eq_true, decide_eq_true_eq]
  constructor
  · rintro ⟨start, stop, hstart, hstop, hspan⟩
    obtain rfl := (h.places_iff.mpr hstart).unique hplaces.start
    obtain rfl := (h.places_iff.mpr hstop).unique hplaces.stop
    exact hspan
  · exact fun hspan => ⟨_, _, hplaces.start.1, hplaces.stop.1, hspan⟩

/-- Positions of two bodies with the same catchers are covered by the same handlers, which start where the
labels of the one body are placed in the other one. -/
theorem WellLabelled.forall₂_covers (h : body.WellLabelled) (h' : body'.WellLabelled)
    {handlers handlers' : List PlacedHandler} (hhandlers : body.placedHandlers = .ok handlers)
    (hhandlers' : body'.placedHandlers = .ok handlers') {position position' : ℕ}
    (hsame : body'.catchers position' = body.catchers position) :
    List.Forall₂ (fun handler handler' : PlacedHandler => handler'.caught = handler.caught ∧
        ∃ label, body.Places label handler.handler ∧ body'.Places label handler'.handler)
      (handlers.filter (·.covers position)) (handlers'.filter (·.covers position')) := by
  have hcatchers : List.Forall₂ (fun handler handler' : Handler =>
      (handler.handler, handler.caught) = (handler'.handler, handler'.caught))
      (body.handlers.filter (body.isProtectedBy position))
      (body'.handlers.filter (body'.isProtectedBy position')) := by
    refine List.forall₂_map_right_iff.mp (List.forall₂_map_left_iff.mp ?_)
    rw [List.forall₂_eq_eq_eq]
    exact hsame.symm
  refine forall₂_trans (forall₂_trans (h.forall₂_filter hhandlers position).flip hcatchers
    (t := fun placed handler => placed.caught = handler.caught.getD Name.throwable ∧
      body.Places handler.handler placed.handler) ?_) (h'.forall₂_filter hhandlers' position') ?_
  · intro placed handler handler' hplaces hsame
    obtain ⟨hlabel, hcaught⟩ := Prod.mk.inj hsame
    exact ⟨hcaught ▸ hplaces.caught, hlabel ▸ hplaces.entry⟩
  · rintro placed handler placed' ⟨hcaught, hplaces⟩ hplaces'
    exact ⟨hplaces'.caught.trans hcaught.symm, _, hplaces, hplaces'.entry⟩

end Body

namespace DeadCode

variable {analysis : Analysis} {runs : List DeadRun} {body body' : Body}
  {pieces : List (List Instruction)}

/-- What is kept of parts is found part by part. -/
theorem map_filter_flatten_of_forall₂ {α β γ : Type} {r : α → List β → Prop} {items : List α}
    {parts : List (List β)} (h : List.Forall₂ r items parts) {keeps : α → Bool} {keeps' : β → Bool}
    {f : α → γ} {g : β → γ}
    (hsame : ∀ item ∈ items, ∀ part, r item part →
      (part.filter keeps').map g = ([item].filter keeps).map f) :
    (parts.flatten.filter keeps').map g = (items.filter keeps).map f := by
  induction h with
  | nil => rfl
  | @cons item part items parts hfirst _ ih =>
    obtain ⟨hsame, hothers⟩ := List.forall_mem_cons.mp hsame
    rw [List.flatten_cons, List.filter_append, List.map_append, hsame part hfirst, ih hothers,
      ← List.map_append, ← List.filter_append, List.singleton_append]

section

variable (h : Replaced analysis runs body body')
  (hpass : Pass (Rewrites analysis runs) body.instructions.zipIdx body.nextLabel pieces body'.nextLabel)
  (houtput : body'.instructions = pieces.flatten) (hruns : ∀ run ∈ runs, replacement run ∈ pieces)
  (hlabelled : body.WellLabelled)
  (hplaced : ∀ handler ∈ body.handlers, (∃ start, body.Places handler.start start) ∧
    ∃ stop, body.Places handler.stop stop)

include h hpass houtput hlabelled hplaced in
/-- A handler whose labels are placed protects what is alive as it did before. -/
theorem isProtectedBy_of_alive {handler : Handler} (hmem : handler ∈ body.handlers) {i : ℕ}
    {instruction : Instruction} (here : body.instructions[i]? = some instruction)
    (alive : instruction.isReal → analysis.reaches i) :
    body'.isProtectedBy (Pieces.shift pieces i) handler = body.isProtectedBy i handler := by
  have hlabelled' := h.wellLabelled hlabelled
  obtain ⟨⟨start, hstart⟩, ⟨stop, hstop⟩⟩ := hplaced handler hmem
  rw [Bool.eq_iff_iff, hlabelled'.isProtectedBy_iff, hlabelled.isProtectedBy_iff,
    covers_shift_iff hpass houtput hlabelled' here alive hstart.1 hstop.1]
  constructor
  · exact fun hspan => ⟨start, stop, hstart.1, hstop.1, hspan⟩
  · rintro ⟨start', stop', hfirst, hlast, hspan⟩
    obtain rfl := eq_of_placedLabels hlabelled.placedOnce hstart.1 hfirst
    obtain rfl := eq_of_placedLabels hlabelled.placedOnce hstop.1 hlast
    exact hspan

include h hpass houtput hruns hlabelled hplaced in
/-- What is alive is protected by the handlers that protected it before, in their order. -/
theorem Replaced.catchers_shift {i : ℕ} {instruction : Instruction}
    (here : body.instructions[i]? = some instruction) (real : instruction.isReal)
    (alive : analysis.reaches i) : body'.catchers (Pieces.shift pieces i) = body.catchers i := by
  have hlabelled' := h.wellLabelled hlabelled
  have hprotected : ∀ handler ∈ body.handlers,
      body'.isProtectedBy (Pieces.shift pieces i) handler = body.isProtectedBy i handler :=
    fun handler hmem => isProtectedBy_of_alive h hpass houtput hlabelled hplaced hmem here fun _ => alive
  by_cases hnone : runs = []
  · obtain rfl := h.unchanged hnone
    rw [Body.catchers, List.filter_congr hprotected]
    rfl
  obtain ⟨parts, hparts, hhandlers⟩ := h.handlers hnone
  have hkept := (keeps_of_alive hpass houtput here fun _ => alive).2
  have hout : ∀ run ∈ runs, ¬ Inside (Placements.firstPositions body'.instructions) run
      (Pieces.shift pieces i) := fun run hrun =>
    not_inside_of_alive hpass houtput hruns hlabelled' here (fun _ => alive) hrun
  rw [Body.catchers, hhandlers]
  refine map_filter_flatten_of_forall₂ hparts fun handler hmem left hcut => ?_
  -- all that is left of a handler catches the same, so that only the number counts
  have hcount : left.countP (body'.isProtectedBy (Pieces.shift pieces i)) =
      [handler].countP (body.isProtectedBy i) := by
    let holds (segment : Segment) : Bool := body'.isProtectedBy (Pieces.shift pieces i)
      { handler with start := segment.1, stop := segment.2 }
    have hholds (segment : Segment) : holds segment ↔
        Spans (Placements.firstPositions body'.instructions) segment (Pieces.shift pieces i) := by
      rw [hlabelled'.isProtectedBy_iff]
      exact (spans_iff_covers hlabelled').symm
    have hcount := countP_cutHandler hholds
      (fun run hrun => stands_of_mem houtput hlabelled' (hruns run hrun)) hcut hkept real hout
    rw [List.countP_singleton] at hcount ⊢
    rw [← hprotected handler hmem]
    exact hcount
  rw [map_filter_eq_replicate (b := (handler.handler, handler.caught)), hcount,
    map_filter_eq_replicate (b := (handler.handler, handler.caught)) (by simp)]
  exact fun part hpart => Prod.ext ((spans_cutHandler hcut).1 part hpart).1
    ((spans_cutHandler hcut).1 part hpart).2.1

include h hlabelled in
/-- Replacements are not protected. -/
theorem Replaced.catchers_inside {run : DeadRun} (hrun : run ∈ runs) {k : ℕ} {instruction : Instruction}
    (here : body'.instructions[k]? = some instruction) (real : instruction.isReal)
    (hinside : Inside (Placements.firstPositions body'.instructions) run k) : body'.catchers k = [] := by
  have hlabelled' := h.wellLabelled hlabelled
  obtain ⟨parts, hparts, hhandlers⟩ := h.handlers (List.ne_nil_of_mem hrun)
  rw [Body.catchers, List.map_eq_nil_iff, List.filter_eq_nil_iff]
  intro part hmem hprotected
  obtain ⟨left, hleft, hmem⟩ := List.mem_flatten.mp (hhandlers ▸ hmem)
  obtain ⟨handler, -, hcut⟩ := exists_left_of_forall₂ hparts hleft
  have hspans := (spans_iff_covers hlabelled').mpr (hlabelled'.isProtectedBy_iff.mp hprotected)
  exact (((spans_cutHandler hcut).2 here real).mp ⟨part, hmem, hspans⟩).2 run hrun hinside

end

end DeadCode

end ClassInstrument
