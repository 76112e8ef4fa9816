import ClassInstrument.Proofs.Assembly.Bounds
import ClassInstrument.Proofs.Assembly.ReplacedFrames
import ClassInstrument.Proofs.Assembly.Widened
import ClassInstrument.Proofs.Analysis.Faults
import ClassInstrument.Proofs.Assembly.FrameTable
import ClassInstrument.Proofs.Assembly.InRange

/-!
# All instructions are reached, so no frame is missing

After dead code was replaced, control flows to every instruction from the start or from a replacement, and
widening keeps it so: where a jump is widened, control goes through what stands for it.  So the last analysis
before a body is written has a frame for every instruction (`Assembly.reaches_of_settled`).
-/

namespace ClassInstrument

open Interning Outcome

namespace Body

/-- A position is the start of a body, or comes behind one of some labels. -/
def IsEntry (body : Body) (labels : List Label) (position : ℕ) : Prop :=
  position = 0 ∨ ∃ label ∈ labels, ∃ place : ℕ, body.instructions[place]? = some (.label label) ∧
    position = place + 1

/-- Control flows to every instruction of a body, from its start or from behind some labels. -/
def AllReached (body : Body) (labels : List Label) : Prop :=
  ∀ {position : ℕ} {instruction : Instruction}, body.instructions[position]? = some instruction →
    instruction.isReal → ∃ entry, body.IsEntry labels entry ∧ Relation.ReflTransGen body.Flows entry position

end Body

namespace Widening

variable {body body' : Body} {entries : List (Instruction × ℕ)} {pieces : List (List Instruction)}

section

variable (hentries : entries.map Prod.fst = body.instructions)
  (hpass : Pass Rewrites entries body.nextLabel pieces body'.nextLabel)
  (houtput : body'.instructions = pieces.flatten) (hlabelled' : body'.WellLabelled)
include hentries hpass houtput

/-- There is room for what stands for an entry of the body. -/
theorem shift_lt_length {i : ℕ} (hlt : i < body.instructions.length) :
    Pieces.shift pieces i < body'.instructions.length := by
  obtain ⟨entry, hentry⟩ : ∃ entry, body.instructions[i]? = some entry := ⟨_, List.getElem?_eq_getElem hlt⟩
  obtain ⟨offset, before, piece, after, hpiece, hrewrites, hget⟩ := exists_piece hentries hpass houtput hentry
  have hpos : 0 < piece.length := by cases hrewrites <;> simp
  exact (List.getElem?_eq_some_iff.mp ((hget hpos).trans (List.getElem?_eq_getElem hpos))).1

/-- Control gets from where a piece begins to all instructions of the piece. -/
theorem flows_within {i j : ℕ} {piece : List Instruction} {instruction : Instruction} (hpiece : pieces[i]? = some piece)
    (hj : piece[j]? = some instruction) (real : instruction.isReal) :
    Relation.ReflTransGen body'.Flows (Pieces.shift pieces i) (Pieces.shift pieces i + j) := by
  obtain ⟨⟨entry, _⟩, before, after, hentry, -⟩ := hpass.exists_entry hpiece
  have here : body.instructions[i]? = some entry := by
    rw [← hentries, List.getElem?_map, hentry]
    rfl
  obtain ⟨_, number, piece', _, hpiece', hrewrites, hget⟩ := exists_piece hentries hpass houtput here
  obtain rfl := Option.some.inj (hpiece.symm.trans hpiece')
  have hlt := (List.getElem?_eq_some_iff.mp hj).1
  cases hrewrites with
  | keep =>
    obtain rfl : j = 0 := by simpa using hlt
    exact .refl
  | goto =>
    obtain rfl : j = 0 := by simpa using hlt
    exact .refl
  | conditional target _ _ inverted =>
    have hwide := hget (j := 1) (by simp)
    have hfalls := fallsThrough_of_inverse (inverse_of_inverse inverted) ⟨number⟩
    rcases j with - | - | - | j
    · exact .refl
    · exact .single (.next (hget (j := 0) (by simp)) hfalls (List.getElem?_eq_some_iff.mp hwide).1)
    · obtain rfl := Option.some.inj hj
      cases real
    · simp at hj

include hlabelled'

/-- Labels are placed where their places have moved to. -/
theorem places_shift {label : Label} {place : ℕ} (hplaces : body.Places label place) :
    body'.Places label (Pieces.shift pieces place) :=
  hlabelled'.places_iff.mpr (label_shift hentries hpass houtput hplaces.1).2

/-- Where control flows, it flows after a round. -/
theorem flows_shift (hhandlers : body'.handlers = body.handlers) {i k : ℕ} (h : body.Flows i k) :
    Relation.ReflTransGen body'.Flows (Pieces.shift pieces i) (Pieces.shift pieces k) := by
  have hplaces {label : Label} {place : ℕ} (hplaces : body.Places label place) :
      body'.Places label (Pieces.shift pieces place) :=
    places_shift hentries hpass houtput hlabelled' hplaces
  cases h with
  | @next instruction here falls room =>
    obtain ⟨offset, before, piece, after, hpiece, hrewrites, hget⟩ :=
      exists_piece hentries hpass houtput here
    have hnext := Pieces.shift_succ hpiece
    have hroom := shift_lt_length hentries hpass houtput room
    rw [hnext] at hroom ⊢
    cases hrewrites with
    | keep => exact .single (.next (hget (j := 0) (by simp)) falls hroom)
    | goto => simp [Instruction.fallsThrough] at falls
    | conditional target =>
      -- the inverse jump leads to the label behind the wide one
      have hskip := hlabelled'.places_iff.mpr (hget (j := 2) (by simp))
      exact .tail (.single (.jump (hget (j := 0) (by simp)) List.mem_cons_self hskip))
        (.next (hget (j := 2) (by simp)) rfl hroom)
  | @jump instruction target place here targeted placed =>
    obtain ⟨offset, before, piece, after, hpiece, hrewrites, hget⟩ :=
      exists_piece hentries hpass houtput here
    cases hrewrites with
    | keep => exact .single (.jump (hget (j := 0) (by simp)) targeted (hplaces placed))
    | goto => exact .single (.jump (hget (j := 0) (by simp)) targeted (hplaces placed))
    | conditional target _ _ inverted =>
      have hwide := hget (j := 1) (by simp)
      have hfalls := fallsThrough_of_inverse (inverse_of_inverse inverted) ⟨before⟩
      exact .tail (.single (.next (hget (j := 0) (by simp)) hfalls (List.getElem?_eq_some_iff.mp hwide).1))
        (.jump hwide targeted (hplaces placed))
  | @throw instruction handler start stop place here real listed starts stops covered placed =>
    obtain ⟨offset, before, piece, after, hpiece, hrewrites, hget⟩ :=
      exists_piece hentries hpass houtput here
    obtain ⟨first, hfirst, hreal⟩ := hrewrites.exists_first real
    have hpos : 0 < piece.length := (List.getElem?_eq_some_iff.mp hfirst).1
    have hlower : Pieces.shift pieces start ≤ Pieces.shift pieces i := Pieces.shift_le covered.1
    have hupper := Pieces.shift_add_le hpiece covered.2
    exact .single (.throw ((hget hpos).trans hfirst) hreal (hhandlers ▸ listed) (hplaces starts)
      (hplaces stops) ⟨hlower, by omega⟩ (hplaces placed))

end

/-- After a round control still flows to every instruction. -/
theorem Rounded.allReached (h : Rounded body body') (hlabelled : body.WellLabelled) {labels : List Label}
    (hreached : body.AllReached labels) : body'.AllReached labels := by
  obtain ⟨entries, pieces, hentries, hpass, houtput⟩ := h.pass
  have hlabelled' := h.wellLabelled hlabelled
  intro k instruction here real
  obtain ⟨i, entry, offset, before, piece, after, j, hentry, hpiece, hrewrites, hj, rfl, -⟩ :=
    exists_origin hentries hpass houtput here
  obtain ⟨start, hstart, hpath⟩ := hreached hentry
    (tame_rewrites.isReal_of_mem hrewrites (List.mem_of_getElem? hj) real)
  have hmoved : Relation.ReflTransGen body'.Flows (Pieces.shift pieces start) (Pieces.shift pieces i) :=
    Relation.ReflTransGen.lift' (Pieces.shift pieces)
      (fun _ _ => flows_shift hentries hpass houtput hlabelled' h.handlers) _ _ hpath
  refine ⟨Pieces.shift pieces start, ?_,
    hmoved.trans (flows_within hentries hpass houtput hpiece hj real)⟩
  rcases hstart with rfl | ⟨label, hmem, place, hplace, rfl⟩
  · exact .inl rfl
  · obtain ⟨hone, hshift⟩ := label_shift hentries hpass houtput hplace
    exact .inr ⟨label, hmem, _, hshift, by rw [Pieces.shift_succ hone]; rfl⟩

end Widening

/-- After dead code was replaced control flows to every instruction. -/
theorem DeadCode.Collapsed.allReached {analysis : Analysis} {pieces : List (List Instruction)}
    {runs : List DeadRun} {body body' : Body} {method : MethodContext} {hierarchy : Hierarchy}
    (h : DeadCode.Collapsed analysis pieces runs body body') (hlabelled : body.WellLabelled)
    (hfirst : analyze body method hierarchy [] = .ok analysis) :
    body'.AllReached (runs.map DeadRun.start) := by
  obtain ⟨roots, analysis', hroots, hanalysis', hreaches, -⟩ := h.exists_analyze hlabelled hfirst
  have hbehind := (Assembly.deadCodeRoots_eq_ok (h.replaced.wellLabelled hlabelled)).mp hroots
  have hwithin : ∀ root ∈ roots, root.1 < body'.instructions.length := by
    intro root hmem
    obtain ⟨run, -, place, -, hthrow, rfl⟩ := h.exists_run_of_root hlabelled hbehind hmem
    exact (List.getElem?_eq_some_iff.mp hthrow).1
  intro position instruction here real
  obtain ⟨entry, hentry, hpath⟩ := (reaches_iff hwithin hanalysis' position).mp (hreaches here real)
  refine ⟨entry, ?_, hpath⟩
  rcases List.mem_cons.mp hentry with rfl | hmem
  · exact .inl rfl
  · obtain ⟨root, hroot, rfl⟩ := List.mem_map.mp hmem
    obtain ⟨label, hlabel, place, hplace, rfl⟩ := exists_left_of_forall₂ hbehind hroot
    exact .inr ⟨label, hlabel, place, hplace, rfl⟩

end ClassInstrument

/-!
## No frame is missing

A frame is written for each instruction that starts a block, and it is missing if the last analysis did not reach
the instruction.  That analysis reaches all of them (`Assembly.reaches_of_settled`), and no other stage fails for
a missing frame, so assembling a well labelled body does not (`Body.never_assemble`).
-/

namespace ClassInstrument

open Interning Outcome

/-! ## The last analysis -/

/-- The last analysis before a body is written reaches all of its instructions. -/
theorem Assembly.reaches_of_settled {body final : Body} {method : MethodContext} {hierarchy : Hierarchy}
    {pool : Pool} {analysis : Analysis} (hlabelled : body.WellLabelled)
    (h : (prepare body method hierarchy).Settled pool (final, analysis)) {position : ℕ}
    {instruction : Instruction} (here : final.instructions[position]? = some instruction)
    (real : instruction.isReal) : analysis.reaches position := by
  obtain ⟨first, middle, dead, changed, roots, hfirst, hmiddle, hwidened, hroots, hlast⟩ := exists_stages h
  obtain ⟨pieces, runs, hcollapsed, rfl⟩ := DeadCode.exists_collapsed hmiddle
  have hprepared : Prepared body method hierarchy pool first runs middle changed roots final analysis :=
    ⟨hfirst, hcollapsed.replaced, hwidened, hroots, hlast⟩
  have hreached : final.AllReached (runs.map DeadRun.start) :=
    (Body.widenJumps_induction (fun body => body.WellLabelled ∧ body.AllReached (runs.map DeadRun.start))
      (fun hround ⟨hlabelled, hreached⟩ => ⟨hround.wellLabelled hlabelled, hround.allReached hlabelled hreached⟩)
      ⟨hcollapsed.replaced.wellLabelled hlabelled, hcollapsed.allReached hlabelled hfirst⟩ hwidened).1.2
  have hfinal := hprepared.wellLabelled hlabelled
  have hwithin : ∀ root ∈ roots, root.1 < final.instructions.length := fun root hmem =>
    (List.getElem?_eq_some_iff.mp (hprepared.of_mem_roots hlabelled hmem).1).1
  refine (reaches_iff hwithin hlast position).mpr ?_
  obtain ⟨entry, hentry, hpath⟩ := hreached here real
  refine ⟨entry, ?_, hpath⟩
  rcases hentry with rfl | ⟨label, hlabel, place, hplace, rfl⟩
  · exact List.mem_cons_self
  · obtain ⟨root, hroot, place', hplace', rfl⟩ :=
      exists_right_of_forall₂ ((deadCodeRoots_eq_ok hfinal).mp hroots) hlabel
    obtain rfl := eq_of_placedLabels hfinal.placedOnce hplace hplace'
    exact List.mem_cons_of_mem _ (List.mem_map_of_mem hroot)

/-! ## Writing -/

theorem Fault.not_isMissingFrame_of_full (constant : Constant) (offset : ℕ) :
    ¬ (Fault.poolOverflow constant offset).IsMissingFrame := by
  simp [IsMissingFrame]

theorem Layout.never_offsets (instructions : List Instruction) :
    (offsets instructions).Never Fault.IsMissingFrame := by
  refine Never.foldlM (fun offsets instruction _ => Never.bind ?_ fun _ => .pure _) _
  cases instruction with
  | load constant =>
    unfold size
    dsimp only
    split
    · exact .pure _
    · exact (Encoding.never_internLoadable Fault.not_isMissingFrame_of_full constant).bind fun _ => .pure _
  | _ => exact .pure _

theorem Encoding.avoids_distance (labels : Placements) (offset : ℕ) (target : Label) :
    Avoids Fault.IsMissingFrame (distance labels offset target) :=
  (Placements.avoids_find labels target).bind fun _ => avoids_pure _

theorem Encoding.never_writeAll (labels : Placements) (located : List (Instruction × ℕ)) :
    (writeAll labels located).Never Fault.IsMissingFrame := by
  refine (Never.mapM fun entry _ => never_write Fault.not_isMissingFrame_of_full (by simp [Fault.IsMissingFrame])
    (fun target => (avoids_distance labels _ target).bind fun n => ?_)
    fun _ target _ _ => (avoids_distance labels _ target).bind fun n => ?_).bind fun _ => .pure _
  all_goals
    split
    · exact avoids_pure _
    · simp [Fault.IsMissingFrame]

section

variable {p : Fault → Prop} (hfull : ∀ constant offset, ¬ p (.poolOverflow constant offset))
include hfull

theorem BlockFrames.never_writeFrame (offsets : Array ℕ) (frame : FlowFrame) :
    (writeFrame offsets frame).Never p := by
  have htype (type : FlowType) : (writeType offsets type).Never p := by
    cases type with
    | object name => exact (Encoding.never_internClass hfull name).bind fun _ => .pure _
    | _ => exact .pure _
  exact (Never.mapM fun type _ => htype type).bind fun _ => (Never.mapM fun type _ => htype type).bind
    fun _ => .pure _

theorem Assembly.never_make (name : String) (info : Bytes) : (Attribute.make name info).Never p :=
  (Never.intern _ (hfull _)).bind fun _ => .pure _

variable {body : Body} {method : MethodContext} {analysis : Analysis} {offsets : Array ℕ}
  (hinitial : Avoids p method.initialFrame)
  (hreaches : ∀ {position : ℕ} {instruction}, body.instructions[position]? = some instruction →
    instruction.isReal → analysis.reaches position)
include hinitial hreaches

/-- If all instructions are reached, frames are listed unless the pool is full. -/
theorem BlockFrames.never_list : (list body method analysis offsets).Never p := by
  refine (Never.lift hinitial).bind fun initial => (never_writeFrame hfull offsets initial).bind fun entry =>
    (Never.foldlM (fun state item hmem => ?_) _).bind fun _ => .pure _
  · obtain ⟨instruction, position⟩ := item
    by_cases real : instruction.isReal
    · have here : body.instructions[position]? = some instruction :=
        List.mem_zipIdx_iff_getElem?.mp hmem
      obtain ⟨frame, hframe⟩ := Analysis.reaches_iff_exists.mp (hreaches here real)
      rw [step_of_real real]
      dsimp only
      split
      · refine Never.bind ?_ fun _ => .pure _
        unfold add
        rw [hframe]
        exact (never_writeFrame hfull offsets frame).bind fun _ => .pure _
      · exact (Never.pure state).bind fun _ => .pure _
    · cases instruction with
      | label | line => exact .pure _
      | _ => exact absurd rfl real

theorem Assembly.never_frameAttributes (version : Version) :
    (frameAttributes version body method analysis offsets).Never p := by
  unfold frameAttributes
  split
  · refine (BlockFrames.never_list hfull hinitial hreaches).bind fun frames => ?_
    split
    · exact .pure _
    · exact (never_make hfull _ _).bind fun _ => .pure _
  · exact .pure _

end

namespace Assembly

/-- The written form of a body is not refused for a missing frame if all instructions are reached. -/
theorem never_write (version : Version) {body : Body} (method : MethodContext) {analysis : Analysis}
    (offsets : Layout.Offsets)
    (hreaches : ∀ {position : ℕ} {instruction}, body.instructions[position]? = some instruction →
      instruction.isReal → analysis.reaches position) :
    (write version body method analysis offsets).Never Fault.IsMissingFrame := by
  have hscopes (name : String) (ranges : List VariableRange) :
      (variableAttributes name (offsets.labels body.instructions) ranges).Never Fault.IsMissingFrame := by
    unfold variableAttributes
    split
    · exact .pure _
    · refine (Never.lift (Avoids.mapM fun range _ => ?_)).bind fun _ => (never_make Fault.not_isMissingFrame_of_full _ _).bind fun _ => .pure _
      exact (Placements.avoids_find _ _).bind fun _ => (Placements.avoids_find _ _).bind fun _ => avoids_pure _
  have hinitial : Avoids Fault.IsMissingFrame method.initialFrame :=
    (MethodDescriptor.avoids_demand _).bind fun _ => avoids_pure _
  have hframes : (frameAttributes version body method analysis offsets.starts).Never Fault.IsMissingFrame :=
    never_frameAttributes Fault.not_isMissingFrame_of_full hinitial hreaches version
  have hlines : (lineAttributes body offsets).Never Fault.IsMissingFrame := by
    unfold lineAttributes
    dsimp only
    split
    · exact .pure _
    · exact (never_make Fault.not_isMissingFrame_of_full _ _).bind fun _ => .pure _
  have hhandler (handler : Handler) :
      (handlerEntry (offsets.labels body.instructions) handler).Never Fault.IsMissingFrame := by
    refine (Never.lift (Placements.avoids_find _ _)).bind fun start =>
      (Never.lift (Placements.avoids_find _ _)).bind fun stop => ?_
    split
    · exact .pure _
    · refine Never.bind ?_ fun _ => (Never.lift (Placements.avoids_find _ _)).bind fun _ => .pure _
      cases handler.caught with
      | none => exact .pure _
      | some name => exact (Encoding.never_internClass Fault.not_isMissingFrame_of_full name).bind fun _ => .pure _
  have hslots (fault : ℕ → Fault) (hfault : ∀ count, ¬ (fault count).IsMissingFrame) (count : ℕ) :
      Avoids Fault.IsMissingFrame (slotCount fault count) := by
    unfold slotCount
    split
    · exact avoids_ok _
    · exact avoids_error.mpr (hfault count)
  refine (Encoding.never_writeAll _ _).bind fun code => (Never.mapM fun handler _ => hhandler handler).bind
    fun handlers => Never.bind ?_ fun attributes => ?_
  · exact hframes.bind fun _ => hlines.bind fun _ => (hscopes _ _).bind fun _ => (hscopes _ _).bind fun _ => .pure _
  · exact (Never.lift (hslots _ (by simp [Fault.IsMissingFrame]) _)).bind fun _ =>
      (Never.lift (hslots _ (by simp [Fault.IsMissingFrame]) _)).bind fun _ => .pure _

end Assembly

/-! ## Preparing -/

theorem Widening.never_rounds (count : ℕ) (body : Body) (changed : Bool) :
    (rounds count body changed).Never Fault.IsMissingFrame := by
  have hstep (labels : Placements) (state : State) (entry : Instruction × ℕ) :
      Avoids Fault.IsMissingFrame (step labels state entry) := by
    unfold step
    split
    · split
      · exact avoids_ok _
      · refine (Placements.avoids_find _ _).bind fun place => ?_
        split
        · exact avoids_pure _
        · unfold widen
          split
          · exact avoids_ok _
          · split
            · exact avoids_ok _
            · simp [Fault.IsMissingFrame]
    · exact avoids_ok _
  induction count generalizing body changed with
  | zero => exact .pure _
  | succ count ih =>
    refine Never.bind ?_ fun next => ?_
    · exact (Layout.never_offsets _).bind fun _ =>
        (Never.lift (Avoids.foldlM (fun state entry _ => hstep _ state entry) _)).bind fun _ => .pure _
    · dsimp only
      split
      · exact ih next.1 true
      · exact .pure _

/-- Preparing a well labelled body does not fail for a missing frame. -/
theorem Assembly.never_prepare {body : Body} (hlabelled : body.WellLabelled) (method : MethodContext)
    (hierarchy : Hierarchy) : (prepare body method hierarchy).Never hierarchy.MissesFrame := by
  refine Never.bind_lift (avoids_analyze body method hierarchy []) fun first hfirst =>
    Never.bind_lift ?_ fun (middle, dead) _ =>
      ((Widening.never_rounds _ _ _).imp fun _ => And.left).bind fun (final, changed) => ?_
  · obtain ⟨initial, handlers, -, -, -, hhandlers, -⟩ := analyze_eq_ok.mp hfirst
    obtain ⟨middle, dead, hmiddle⟩ := DeadCode.exists_replaceDeadCode first hlabelled
      fun _ => Body.exists_places hhandlers
    rw [hmiddle]
    exact avoids_ok _
  · dsimp only
    split
    · exact .pure _
    · have hroots : Avoids Fault.IsMissingFrame (deadCodeRoots final dead) :=
        Avoids.mapM fun label _ => (Placements.avoids_find _ _).bind fun _ => avoids_pure _
      exact (Never.lift (hroots.under hierarchy)).bind fun roots =>
        (Never.lift (avoids_analyze final method hierarchy roots)).bind fun _ => .pure _

/-- **No frame is missing.**  Assembling a well labelled body does not fail for an instruction that starts a block
and has no frame. -/
theorem Body.never_assemble {body : Body} (hlabelled : body.WellLabelled) (method : MethodContext)
    (version : Version) (hierarchy : Hierarchy) :
    (body.assemble method version hierarchy).Never hierarchy.MissesFrame := by
  intro pool fault h
  rcases finish_bind_eq_error.mp h with hprepare | ⟨⟨final, analysis⟩, middle, hprepare, h⟩
  · exact Assembly.never_prepare hlabelled method hierarchy pool fault hprepare
  · have hsettled := (Assembly.repeats_prepare body method hierarchy).settled hprepare
    refine fun hmisses => Never.bind (Layout.never_offsets final.instructions) (fun offsets => ?_) middle fault h
      hmisses.1
    split
    · exact .throw (by simp [Fault.IsMissingFrame])
    · exact Assembly.never_write version method offsets (Assembly.reaches_of_settled hlabelled hsettled)

end ClassInstrument
