import ClassInstrument.Proofs.Analysis.FittingTransfer
import ClassInstrument.Proofs.Analysis.Dataflow
import ClassInstrument.Proofs.Assembly.Closed

/-!
# Typed bodies are accepted

A typing gives frames to positions of a body so that every instruction runs on the frame before it, and
the frame after it has its place among those that fit the frames of whatever may run next.  An analysis
of a typed body succeeds: all frames that it brings to a position fit the frame that the typing gives to
it, so each merge has a result and each instruction runs.

The creation sites in the frames of a typing are those of a source code.  So a typing of one body is
turned into one of a body with more instructions by moving its frames.
-/

namespace ClassInstrument

open Outcome

/-! ## Problems that cannot fail -/

/-- Nothing can go wrong with frames that fit their positions. -/
structure FlowProblem.Safe (problem : FlowProblem) (fits : Nat → FlowFrame → Prop) : Prop where
  /-- The frames are in canonical form. -/
  canonical : ∀ {position frame}, fits position frame → frame.Canonical
  /-- Merges succeed. -/
  merges : ∀ {position existing incoming}, fits position existing → fits position incoming →
    ∃ found, mergeFrames problem.hierarchy position existing incoming = .ok found ∧
      ∀ merged, found = some merged → fits position merged
  /-- Instructions run. -/
  runs : ∀ {position : Nat} {instruction before}, problem.code[position]? = some instruction →
    instruction.isReal → fits position before →
      ∃ after, Transfer.execute problem.method problem.code position instruction before = .ok after
  /-- Jumps lead to places of the code. -/
  targets : ∀ {position : Nat} {instruction before}, problem.code[position]? = some instruction →
    instruction.isReal → fits position before →
      ∀ target ∈ instruction.targets, ∃ place, problem.positions.find target = .ok place
  /-- Control does not fall off the end of the code. -/
  falls : ∀ {position : Nat} {instruction before}, problem.code[position]? = some instruction →
    instruction.isReal → fits position before → instruction.fallsThrough →
      position + 1 < problem.code.size
  /-- What a visit brings fits the place that it is brought to. -/
  sends : ∀ {position before next frame}, fits position before →
    problem.Sends position before next frame → fits next frame

namespace FlowProblem.Safe

variable {problem : FlowProblem} {fits : Nat → FlowFrame → Prop} {work : Worklist}

/-- The frames of a safe problem follow laws about their positions alone. -/
theorem laws (safe : problem.Safe fits) : problem.Laws fits fun _ _ => True where
  refl _ := trivial
  trans _ _ := trivial
  covers _ _ _ := trivial
  merges hexisting hincoming hmerge := by
    obtain ⟨found, hfound, hfits⟩ := safe.merges hexisting hincoming
    rw [hmerge, Except.ok.injEq] at hfound
    exact ⟨hfits _ hfound.symm, trivial, trivial⟩
  sends := safe.sends

/-- The worklists of a safe problem are tidy. -/
theorem tidy (safe : problem.Safe fits) (h : work.Consistent problem fits) : work.Tidy problem :=
  ⟨h.frames_size, h.waiting_size, fun hframe => safe.canonical (h.fits hframe), h.queued⟩

/-- Frames that fit can be brought. -/
theorem exists_bring (safe : problem.Safe fits) (h : work.Consistent problem fits) {position : Nat}
    {incoming : FlowFrame} (hlt : position < problem.code.size) (hfits : fits position incoming) :
    ∃ next, work.bring problem.hierarchy position incoming = .ok next ∧
      next.Consistent problem fits := by
  suffices hnext : ∃ next, work.bring problem.hierarchy position incoming = .ok next by
    obtain ⟨next, hnext⟩ := hnext
    exact ⟨next, hnext, (Worklist.step_bring safe.laws h hlt hfits hnext).1.consistent⟩
  cases hframe : work.frame? position with
  | none => exact ⟨_, Worklist.bring_eq_ok.mpr (Or.inl ⟨hframe, rfl⟩)⟩
  | some existing =>
    obtain ⟨found, hfound, -⟩ := safe.merges (h.fits hframe) hfits
    cases found with
    | none =>
      exact ⟨work, Worklist.bring_eq_ok.mpr (Or.inr ⟨existing, hframe, Or.inl ⟨hfound, rfl⟩⟩)⟩
    | some merged =>
      exact ⟨_, Worklist.bring_eq_ok.mpr
        (Or.inr ⟨existing, hframe, Or.inr ⟨merged, hfound, rfl⟩⟩)⟩

/-- Steps that succeed and keep worklists consistent succeed one after the other. -/
theorem exists_foldlM {α : Type} (action : Worklist → α → Except Fault Worklist) (items : List α)
    (hstep : ∀ work item, item ∈ items → work.Consistent problem fits →
      ∃ next, action work item = .ok next ∧ next.Consistent problem fits)
    (h : work.Consistent problem fits) :
    ∃ next, items.foldlM action work = .ok next ∧ next.Consistent problem fits := by
  induction items generalizing work with
  | nil => exact ⟨work, rfl, h⟩
  | cons item items ih =>
    obtain ⟨middle, hmiddle, hconsistent⟩ := hstep work item List.mem_cons_self h
    obtain ⟨next, hnext, hlast⟩ :=
      ih (fun work item hmem => hstep work item (List.mem_cons_of_mem _ hmem)) hconsistent
    exact ⟨next, by rw [List.foldlM_cons, bind_eq_ok]; exact ⟨middle, hmiddle, hnext⟩, hlast⟩

/-- The frame before an instruction can be carried on. -/
theorem exists_flow (safe : problem.Safe fits) (hplaced : problem.Placed)
    (h : work.Consistent problem fits) {position : Nat} {instruction : Instruction}
    {before : FlowFrame} (here : problem.code[position]? = some instruction)
    (real : instruction.isReal) (hfits : fits position before) :
    ∃ next, problem.flow position instruction before work = .ok next ∧
      next.Consistent problem fits := by
  obtain ⟨after, runs⟩ := safe.runs here real hfits
  have hnoted := (Worklist.step_noteSizes safe.laws h before after).consistent
  obtain ⟨thrown, hthrown, hconsistent⟩ := exists_foldlM
    (problem.bringToHandler before after) (problem.handlers.filter (·.covers position))
    (fun work handler hmem hwork => by
      obtain ⟨hlisted, hcovers⟩ := List.mem_filter.mp hmem
      have hlt := hplaced.handler_lt hlisted
      obtain ⟨middle, hmiddle, hconsistent⟩ :=
        safe.exists_bring hwork hlt (safe.sends hfits (.throwBefore here real hlisted hcovers))
      obtain ⟨next, hnext, hlast⟩ := safe.exists_bring hconsistent hlt
        (safe.sends hfits (.throwAfter here real runs hlisted hcovers))
      exact ⟨next, bind_eq_ok.mpr ⟨middle, hmiddle, hnext⟩, hlast⟩) hnoted
  obtain ⟨jumped, hjumped, hconsistent⟩ := exists_foldlM
    (problem.bringToTarget after) instruction.targets
    (fun work target hmem hwork => by
      obtain ⟨place, hplace⟩ := safe.targets here real hfits target hmem
      obtain ⟨next, hnext, hlast⟩ := safe.exists_bring hwork (hplaced.find_lt hplace)
        (safe.sends hfits (.jump here real runs hmem hplace))
      exact ⟨next, bind_eq_ok.mpr ⟨place, hplace, hnext⟩, hlast⟩) hconsistent
  have hflow : ∀ next, (if instruction.fallsThrough then
        if position + 1 < problem.code.size then
          jumped.bring problem.hierarchy (position + 1) after
        else throw (.invalidFrame position .fallsOffEnd)
      else return jumped) = .ok next →
      problem.flow position instruction before work = .ok next := fun next hnext =>
    bind_eq_ok.mpr ⟨after, runs, bind_eq_ok.mpr ⟨thrown, hthrown,
      bind_eq_ok.mpr ⟨jumped, hjumped, hnext⟩⟩⟩
  by_cases falls : instruction.fallsThrough
  · have hroom := safe.falls here real hfits falls
    obtain ⟨next, hnext, hlast⟩ := safe.exists_bring hconsistent hroom
      (safe.sends hfits (.next here real runs falls hroom))
    exact ⟨next, hflow next (by rw [if_pos falls, if_pos hroom, hnext]), hlast⟩
  · exact ⟨jumped, hflow jumped (by rw [if_neg falls]; rfl), hconsistent⟩

/-- Positions can be visited. -/
theorem exists_visit (safe : problem.Safe fits) (hplaced : problem.Placed)
    (h : work.Consistent problem fits) (position : Nat) :
    ∃ next, problem.visit position work = .ok next ∧ next.Consistent problem fits := by
  unfold FlowProblem.visit
  split
  · next instruction before here hframe =>
    have hfits := h.fits hframe
    split
    · next real => exact safe.exists_flow hplaced h here real hfits
    · next unreal =>
      split
      · next hroom =>
        exact safe.exists_bring h hroom
          (safe.sends hfits (.pass here (Bool.not_eq_true _ ▸ unreal) hroom))
      · exact ⟨work, rfl, h⟩
  · exact ⟨work, rfl, h⟩

/-- **Safe problems settle.**  In a well formed hierarchy the frames of a safe problem settle without
an error. -/
theorem exists_settle (safe : problem.Safe fits) (hwf : problem.hierarchy.WellFormed)
    (hplaced : problem.Placed) (h : work.Consistent problem fits) :
    ∃ result, problem.settle work = some (.ok result) := by
  induction hmeasure : Worklist.measure problem work using WellFoundedLT.induction
    generalizing work with
  | ind bound ih =>
    subst hmeasure
    rw [FlowProblem.settle]
    split
    · exact ⟨_, rfl⟩
    · next position others hfront =>
      obtain ⟨htidy, hless⟩ := Worklist.tidy_leave (safe.tidy h) hfront
      obtain ⟨next, hnext, hconsistent⟩ :=
        safe.exists_visit hplaced (h.leave hfront) position
      have hends := Worklist.ends_visit hwf hplaced htidy position
      rw [hnext] at hends
      simp only [hnext]
      exact ih _ (hends.2.trans_lt hless) hconsistent rfl

end FlowProblem.Safe

/-! ## Typings -/

section

variable (hierarchy : Hierarchy) (typing : Nat → Option FlowFrame)

/-- Whatever fits a frame fits the frame that a typing gives to a position. -/
def Arrives (position : Nat) (frame : FlowFrame) : Prop :=
  ∃ super, typing position = some super ∧
    ∀ site own, FrameFits hierarchy site own frame → FrameFits hierarchy site own super

/-- The frames before and after an entry of a body, and those of what may run next, go together. -/
structure Body.TypedAt (body : Body) (position : Nat) (instruction : Instruction)
    (before after : FlowFrame) : Prop where
  /-- The next entry, if control continues there. -/
  falls : instruction.fallsThrough → position + 1 < body.instructions.length ∧
    Arrives hierarchy typing (position + 1) after
  /-- The targets of a jump. -/
  jumps : ∀ target ∈ instruction.targets, ∃ place, body.Places target place ∧
    Arrives hierarchy typing place after
  /-- The handlers. -/
  throws : instruction.isReal → ∀ handler ∈ body.handlers, ∀ start stop place,
    body.Places handler.start start → body.Places handler.stop stop →
      body.Places handler.handler place → start ≤ position ∧ position < stop →
        Arrives hierarchy typing place (handler.entryFrame before.locals) ∧
        Arrives hierarchy typing place (handler.entryFrame after.locals)

/-- The labels of a handler are placed, and the class that it catches is known. -/
structure Body.HandlerTyped (body : Body) (handler : Handler) : Prop where
  start : ∃ place, body.Places handler.start place
  stop : ∃ place, body.Places handler.stop place
  entry : ∃ place, body.Places handler.handler place
  caught : NameKnown hierarchy (handler.caught.getD Name.throwable)

/-- Frames for the positions of a body that control can reach, with the creation sites of a source
code. -/
structure Body.Typing (body : Body) (method : MethodContext) (source : Array Instruction)
    (site : Nat → Nat) : Prop where
  /-- The creation sites are kept. -/
  sites : SitesKept hierarchy site source body.instructions.toArray
  /-- There are frames for positions of the body only. -/
  inside : ∀ {position frame}, typing position = some frame → position < body.instructions.length
  /-- The frames are in canonical form. -/
  canonical : ∀ {position frame}, typing position = some frame → frame.Canonical
  /-- The classes of what instructions give are known. -/
  known : ∀ instruction ∈ body.instructions, instruction.IsKnown hierarchy
  /-- The handlers are typed. -/
  handlers : ∀ handler ∈ body.handlers, body.HandlerTyped hierarchy handler
  /-- Each entry runs on the frame before it, and goes together with what may run next.  An entry of the
  source runs as it does there, and so does every creation. -/
  step : ∀ {position instruction before}, body.instructions[position]? = some instruction →
    typing position = some before → ∃ origin after,
      Transfer.execute method source origin instruction before = .ok after ∧
      (∀ place, position = site place → origin = place) ∧
      (∀ name, instruction = .type Opcode.create name → position = site origin) ∧
      instruction.FindsReferences before ∧
      body.TypedAt hierarchy typing position instruction before after

end

section

variable {hierarchy : Hierarchy} {site : Nat → Nat} {typing : Nat → Option FlowFrame} {body : Body}
  {method : MethodContext} {source : Array Instruction}

/-- The frame on entry to a handler that catches a known class fits that with variables that fit. -/
theorem FrameFits.entryFrame {frame super : FlowFrame} (h : FrameFits hierarchy site frame super)
    {placed : PlacedHandler} {handler : Handler}
    (hcaught : placed.caught = handler.caught.getD Name.throwable)
    (hknown : NameKnown hierarchy (handler.caught.getD Name.throwable)) :
    FrameFits hierarchy site (placed.entryFrame frame.locals) (handler.entryFrame super.locals) := by
  have hbare : FrameFits hierarchy site ⟨frame.locals, Slots.empty⟩ ⟨super.locals, Slots.empty⟩ :=
    ⟨.nil, h.locals, h.known, rfl, h.canonical.locals_eq⟩
  rw [PlacedHandler.entryFrame, Handler.entryFrame, hcaught]
  exact hbare.push (.refl hknown (by simp))

/-- A frame that arrives at a position fits there. -/
theorem Arrives.fits {position : Nat} {frame own : FlowFrame}
    (h : Arrives hierarchy typing position frame) (hown : FrameFits hierarchy site own frame) :
    ∃ super, typing position = some super ∧ FrameFits hierarchy site own super := by
  obtain ⟨super, hsuper, hfits⟩ := h
  exact ⟨super, hsuper, hfits site own hown⟩

/-- A typed body leaves an analysis nothing that could go wrong. -/
theorem Body.Typing.safe (hwf : hierarchy.WellFormed) (hroot : hierarchy.Knows Name.object)
    (howner : NameKnown hierarchy method.owner)
    (h : body.Typing hierarchy typing method source site) {handlers : List PlacedHandler}
    (hhandlers : body.placedHandlers = .ok handlers) :
    (body.flowProblem method hierarchy handlers).Safe fun position frame =>
      ∃ super, typing position = some super ∧ FrameFits hierarchy site frame super := by
  have hruns : ∀ {position : Nat} {instruction : Instruction} {frame before : FlowFrame},
      body.instructions[position]? = some instruction → typing position = some before →
        FrameFits hierarchy site frame before → ∃ own after,
          Transfer.execute method body.instructions.toArray position instruction frame = .ok own ∧
          FrameFits hierarchy site own after ∧
          body.TypedAt hierarchy typing position instruction before after := by
    intro position instruction frame before here hbefore hfits
    obtain ⟨origin, after, runs, -, hcreation, harray, htyped⟩ := h.step here hbefore
    obtain ⟨own, hown, hafter⟩ := hfits.execute h.sites howner
      (h.known instruction (List.mem_of_getElem? here)) harray hcreation runs
    exact ⟨own, after, hown, hafter, htyped⟩
  refine ⟨?_, ?_, ?_, ?_, ?_, ?_⟩
  · rintro position frame ⟨super, -, hfits⟩
    exact hfits.canonical
  · rintro position existing incoming ⟨super, hsuper, hexisting⟩ ⟨super', hsuper', hincoming⟩
    obtain rfl := Option.some.inj (hsuper.symm.trans hsuper')
    obtain ⟨found, hfound, hfits⟩ :=
      exists_mergeFrames hwf hroot position (h.canonical hsuper) hexisting hincoming
    exact ⟨found, hfound, fun merged hmerged => ⟨super, hsuper, hfits merged hmerged⟩⟩
  · rintro position instruction frame here - ⟨super, hsuper, hfits⟩
    obtain ⟨own, -, hown, -⟩ := hruns (Body.getElem?_code.symm.trans here) hsuper hfits
    exact ⟨own, hown⟩
  · rintro position instruction frame here - ⟨super, hsuper, hfits⟩ target htarget
    obtain ⟨-, after, -, -, htyped⟩ := hruns (Body.getElem?_code.symm.trans here) hsuper hfits
    obtain ⟨place, hplace, -⟩ := htyped.jumps target htarget
    exact ⟨place, Body.find_labelPositions.mpr hplace⟩
  · rintro position instruction frame here - ⟨super, hsuper, hfits⟩ falls
    obtain ⟨-, after, -, -, htyped⟩ := hruns (Body.getElem?_code.symm.trans here) hsuper hfits
    rw [Body.size_code]
    exact (htyped.falls falls).1
  · rintro position frame next brought ⟨super, hsuper, hfits⟩ hsends
    have hthrows : ∀ {instruction placed}, body.instructions[position]? = some instruction →
        instruction.isReal → placed ∈ handlers → placed.covers position →
        ∃ handler ∈ body.handlers, body.PlacesHandler handler placed ∧
          ∃ own after, Transfer.execute method body.instructions.toArray position instruction frame =
              .ok own ∧ FrameFits hierarchy site own after ∧
            Arrives hierarchy typing placed.handler (handler.entryFrame super.locals) ∧
            Arrives hierarchy typing placed.handler (handler.entryFrame after.locals) := by
      intro instruction placed here real hlisted hcovers
      obtain ⟨handler, hhandler, hplaces⟩ :=
        exists_left_of_forall₂ (Body.placedHandlers_eq_ok hhandlers) hlisted
      obtain ⟨own, after, hown, hafter, htyped⟩ := hruns here hsuper hfits
      exact ⟨handler, hhandler, hplaces, own, after, hown, hafter,
        htyped.throws real handler hhandler _ _ _ hplaces.start hplaces.stop hplaces.entry
          (by simpa [PlacedHandler.covers] using hcovers)⟩
    cases hsends with
    | @pass instruction here unreal room =>
      have here' := Body.getElem?_code.symm.trans here
      obtain ⟨own, after, hown, hafter, htyped⟩ := hruns here' hsuper hfits
      obtain rfl : frame = own := by
        cases instruction <;> first | exact pure_eq_ok.mp hown | simp [Instruction.isReal] at unreal
      exact (htyped.falls (Instruction.fallsThrough_of_unreal unreal)).2.fits hafter
    | next here real runs falls room =>
      obtain ⟨own, after, hown, hafter, htyped⟩ :=
        hruns (Body.getElem?_code.symm.trans here) hsuper hfits
      obtain rfl := Except.ok.inj (hown.symm.trans runs)
      exact (htyped.falls falls).2.fits hafter
    | jump here real runs targeted placed =>
      obtain ⟨own, after, hown, hafter, htyped⟩ :=
        hruns (Body.getElem?_code.symm.trans here) hsuper hfits
      obtain rfl := Except.ok.inj (hown.symm.trans runs)
      obtain ⟨place, hplace, harrives⟩ := htyped.jumps _ targeted
      obtain rfl := hplace.unique (Body.find_labelPositions.mp placed)
      exact harrives.fits hafter
    | throwBefore here real listed covered =>
      obtain ⟨handler, hhandler, hplaces, -, -, -, -, harrives, -⟩ :=
        hthrows (Body.getElem?_code.symm.trans here) real listed covered
      exact harrives.fits (hfits.entryFrame hplaces.caught (h.handlers handler hhandler).caught)
    | throwAfter here real runs listed covered =>
      obtain ⟨handler, hhandler, hplaces, own, after, hown, hafter, -, harrives⟩ :=
        hthrows (Body.getElem?_code.symm.trans here) real listed covered
      obtain rfl := Except.ok.inj (hown.symm.trans runs)
      exact harrives.fits (hafter.entryFrame hplaces.caught (h.handlers handler hhandler).caught)

/-- Frames that fit a typing can be brought to their positions, and the analysis that they enter succeeds. -/
theorem Body.Typing.exists_analyze_of_roots (hwf : hierarchy.WellFormed)
    (hroot : hierarchy.Knows Name.object) (howner : NameKnown hierarchy method.owner)
    (h : body.Typing hierarchy typing method source site) (hnonempty : body.instructions ≠ [])
    {initial : FlowFrame} {roots : List Root} (hinitial : method.initialFrame = .ok initial)
    (hroots : ∀ root ∈ (0, initial) :: roots, ∃ super, typing root.1 = some super ∧
      FrameFits hierarchy site root.2 super) :
    ∃ analysis, analyze body method hierarchy roots = .ok analysis := by
  obtain ⟨handlers, hhandlers⟩ := Body.exists_placedHandlers fun handler hmem => by
    obtain ⟨hstart, hstop, hentry, -⟩ := h.handlers handler hmem
    exact ⟨hstart, hstop, hentry⟩
  have safe := h.safe hwf hroot howner hhandlers
  have hstart : (Worklist.start body.instructions.length initial).Invariant
      (body.flowProblem method hierarchy handlers)
      (fun position frame => ∃ super, typing position = some super ∧
        FrameFits hierarchy site frame super) fun _ _ => True := Worklist.invariant_start initial
  obtain ⟨entered, hentered, hconsistent⟩ := FlowProblem.Safe.exists_foldlM
    (fun work root => work.bring hierarchy root.1 root.2) ((0, initial) :: roots)
    (fun work root hmem hwork => by
      obtain ⟨super, hsuper, hfits⟩ := hroots root hmem
      exact safe.exists_bring hwork (Body.size_code.symm ▸ h.inside hsuper) ⟨super, hsuper, hfits⟩)
    hstart.consistent
  obtain ⟨settled, hsettled⟩ :=
    safe.exists_settle hwf (Body.placed_flowProblem hhandlers) hconsistent
  exact ⟨settled.outcome, analyze_eq_ok.mpr ⟨initial, handlers, entered, settled, hinitial,
    hhandlers, hnonempty, hentered, hsettled, rfl⟩⟩

/-- **Typed bodies are accepted.**  If a typing of a body has a frame at the start that the frame on
entry to the method fits, then the analysis of the body succeeds. -/
theorem Body.Typing.exists_analyze (hwf : hierarchy.WellFormed) (hroot : hierarchy.Knows Name.object)
    (howner : NameKnown hierarchy method.owner)
    (h : body.Typing hierarchy typing method source site) (hnonempty : body.instructions ≠ [])
    {initial first : FlowFrame} (hinitial : method.initialFrame = .ok initial)
    (hfirst : typing 0 = some first) (hfits : FrameFits hierarchy site initial first) :
    ∃ analysis, analyze body method hierarchy [] = .ok analysis := by
  refine h.exists_analyze_of_roots hwf hroot howner hnonempty hinitial fun root hmem => ?_
  rw [List.mem_singleton.mp hmem]
  exact ⟨first, hfirst, hfits⟩

/-- The frames of an analysis that is entered with frames that fit a typing fit it, too. -/
theorem Body.Typing.fits_of_analyze (hwf : hierarchy.WellFormed) (hroot : hierarchy.Knows Name.object)
    (howner : NameKnown hierarchy method.owner)
    (h : body.Typing hierarchy typing method source site) {initial : FlowFrame} {roots : List Root}
    (hinitial : method.initialFrame = .ok initial)
    (hroots : ∀ root ∈ (0, initial) :: roots, ∃ super, typing root.1 = some super ∧
      FrameFits hierarchy site root.2 super)
    {analysis : Analysis} (hanalysis : analyze body method hierarchy roots = .ok analysis)
    {position : ℕ} {frame : FlowFrame} (hframe : analysis.frames[position]? = some (some frame)) :
    ∃ super, typing position = some super ∧ FrameFits hierarchy site frame super := by
  obtain ⟨_, handlers, settled, -, -, rfl, hconsistent, -⟩ := exists_settled
    (fun handlers hhandlers => (h.safe hwf hroot howner hhandlers).laws)
    (fun other hother root hmem _ => by
      obtain rfl := Except.ok.inj (hinitial.symm.trans hother)
      obtain ⟨super, hsuper, hfits⟩ := hroots root hmem
      exact ⟨h.inside hsuper, super, hsuper, hfits⟩) hanalysis
  exact hconsistent.fits (frames_outcome.mp hframe)

/-! ## Accepted bodies -/

/-- The classes that a body mentions are known. -/
structure Body.ClassesKnown (body : Body) (hierarchy : Hierarchy) : Prop where
  /-- The classes of what instructions give are known. -/
  instructions : ∀ instruction ∈ body.instructions, instruction.IsKnown hierarchy
  /-- The classes that handlers catch are known. -/
  handlers : ∀ handler ∈ body.handlers, NameKnown hierarchy (handler.caught.getD Name.throwable)

/-- Loads of elements of arrays of references find arrays of references, or the null reference. -/
def Analysis.FindsReferences (analysis : Analysis) (body : Body) : Prop :=
  ∀ (position : Nat) instruction before, body.instructions[position]? = some instruction →
    analysis.frames[position]? = some (some before) → instruction.FindsReferences before

/-- An analysis that absorbs a frame at a position has a frame there that fits what fits it. -/
theorem Worklist.Holds.arrives {work : Worklist} {position : Nat} {frame : FlowFrame}
    (h : work.Holds (fun existing incoming => FrameBelow hierarchy incoming existing) position frame) :
    Arrives hierarchy work.frame? position frame := by
  obtain ⟨existing, hexisting, hbelow⟩ := h
  exact ⟨existing, hexisting, fun site own hown => hown.below hbelow⟩

/-- The frames of an analysis with roots are a typing, unless control reaches a label or line number at the
end of the body. -/
theorem exists_typing_of_roots (hwf : hierarchy.WellFormed) {roots : List Root} {analysis : Analysis}
    (hroots : ∀ root ∈ roots, root.1 < body.instructions.length ∧ root.2.Canonical)
    (hanalysis : analyze body method hierarchy roots = .ok analysis)
    (hroom : ∀ {position : ℕ} {instruction : Instruction}, body.instructions[position]? = some instruction →
      instruction.isReal = false → analysis.reaches position → position + 1 < body.instructions.length)
    (hknown : body.ClassesKnown hierarchy) (harrays : analysis.FindsReferences body) :
    body.Typing hierarchy (fun position => analysis.frames[position]?.join) method
        body.instructions.toArray id ∧
      ∃ initial, method.initialFrame = .ok initial ∧ ∀ root ∈ (0, initial) :: roots,
        ∃ super, analysis.frames[root.1]? = some (some super) ∧ FrameBelow hierarchy root.2 super := by
  have hlaws : ∀ handlers, body.placedHandlers = .ok handlers →
      (body.flowProblem method hierarchy handlers).Laws (fun _ frame => frame.Canonical)
        fun existing incoming => FrameBelow hierarchy incoming existing :=
    fun handlers _ => canonicalLaws hwf
  obtain ⟨initial, handlers, settled, hinitial, hhandlers, rfl, hconsistent, hdone, hheld⟩ :=
    exists_settled hlaws (fun initial hinitial root hmem hnonempty => by
      rcases List.mem_cons.mp hmem with rfl | hmem
      · exact ⟨List.length_pos_of_ne_nil hnonempty, MethodContext.canonical_initialFrame hinitial⟩
      · exact hroots root hmem)
      hanalysis
  have hframe : ∀ position, settled.outcome.frames[position]?.join = settled.frame? position :=
    fun position => rfl
  simp only [hframe]
  refine ⟨⟨⟨Function.injective_id, ?_, ?_⟩, ?_, ?_, hknown.instructions, ?_, ?_⟩, ?_⟩
  · exact fun hcreation => hcreation
  · intro place name hcreation
    exact hknown.instructions _ (List.mem_of_getElem? (by simpa using hcreation))
  · intro position frame hbefore
    by_contra hout
    have hnone : settled.frames[position]? = none := by
      rw [Array.getElem?_eq_none_iff, hconsistent.frames_size, Body.size_code]
      omega
    rw [Worklist.frame?, hnone] at hbefore
    simp at hbefore
  · exact fun hbefore => hconsistent.fits hbefore
  · intro handler hmem
    obtain ⟨placed, -, hplaced⟩ := exists_right_of_forall₂ (Body.placedHandlers_eq_ok hhandlers) hmem
    exact ⟨⟨_, hplaced.start⟩, ⟨_, hplaced.stop⟩, ⟨_, hplaced.entry⟩, hknown.handlers handler hmem⟩
  · intro position instruction before here hbefore
    have here' : (body.flowProblem method hierarchy handlers).code[position]? = some instruction :=
      Body.getElem?_code.trans here
    have hfound := harrays position instruction before here (frames_outcome.mpr hbefore)
    have hfinished := hdone hbefore
    by_cases real : instruction.isReal
    · obtain ⟨after, runs, -⟩ := hfinished.runs here' real
      refine ⟨position, after, runs, fun place heq => heq, fun name _ => rfl, hfound, ?_, ?_, ?_⟩
      · intro falls
        have hroom := hfinished.falls here' real falls
        exact ⟨Body.size_code ▸ hroom,
          (hfinished.sends (.next here' real runs falls hroom)).arrives⟩
      · intro target htarget
        obtain ⟨place, hplace⟩ := hfinished.targets here' real htarget
        exact ⟨place, Body.find_labelPositions.mp hplace,
          (hfinished.sends (.jump here' real runs htarget hplace)).arrives⟩
      · intro _ handler hmem start stop place hstart hstop hplace hcovered
        obtain ⟨placed, hlisted, hcovers, rfl, hentry⟩ :=
          exists_covering hhandlers hmem hstart hstop hplace hcovered
        rw [← hentry, ← hentry]
        exact ⟨(hfinished.sends (.throwBefore here' real hlisted hcovers)).arrives,
          (hfinished.sends (.throwAfter here' real runs hlisted hcovers)).arrives⟩
    · have unreal := Bool.not_eq_true _ ▸ real
      have hroom := hroom here unreal (reaches_outcome.mpr ⟨before, hbefore⟩)
      refine ⟨position, before, ?_, fun place heq => heq, fun name _ => rfl, hfound, ?_, ?_, ?_⟩
      · cases instruction <;> first | rfl | simp [Instruction.isReal] at real
      · exact fun _ => ⟨hroom, (hfinished.sends
          (.pass here' unreal (Body.size_code.symm ▸ hroom))).arrives⟩
      · simp [Instruction.targets_of_unreal unreal]
      · exact fun hreal => absurd hreal real
  · refine ⟨initial, hinitial, fun root hmem => ?_⟩
    obtain ⟨super, hsuper, hbelow⟩ := hheld root hmem
    exact ⟨super, frames_outcome.mpr hsuper, hbelow⟩

/-- **Accepted bodies are typed.**  The frames of an analysis are a typing, unless control reaches a
label or line number at the end of the body. -/
theorem exists_typing (hwf : hierarchy.WellFormed) {analysis : Analysis}
    (hanalysis : analyze body method hierarchy [] = .ok analysis) (hoff : ¬ body.RunsOff)
    (hknown : body.ClassesKnown hierarchy)
    (harrays : analysis.FindsReferences body) :
    body.Typing hierarchy (fun position => analysis.frames[position]?.join) method
        body.instructions.toArray id ∧
      ∃ initial first, method.initialFrame = .ok initial ∧
        analysis.frames[0]? = some (some first) ∧ FrameBelow hierarchy initial first := by
  have hroom : ∀ {position : ℕ} {instruction : Instruction}, body.instructions[position]? = some instruction →
      instruction.isReal = false → analysis.reaches position → position + 1 < body.instructions.length := by
    intro position instruction here unreal hreaches
    have hlt := (List.getElem?_eq_some_iff.mp here).1
    by_contra hend
    exact hoff ⟨position, instruction, by omega, here, unreal,
      (reaches_iff (by simp) hanalysis position).mp hreaches⟩
  obtain ⟨htyping, initial, hinitial, hheld⟩ :=
    exists_typing_of_roots hwf (by simp) hanalysis hroom hknown harrays
  obtain ⟨first, hfirst, hbelow⟩ := hheld _ List.mem_cons_self
  exact ⟨htyping, initial, first, hinitial, hfirst, hbelow⟩

end

/-! ## The frame on entry -/

section

variable {hierarchy : Hierarchy} {site : Nat → Nat}

/-- A frame with known variables that have no creation sites fits itself. -/
theorem FrameFits.ofTypes {types : List FlowType} (hknown : ∀ type ∈ types, TypeKnown hierarchy type)
    (hplain : ∀ type ∈ types, ∀ place, type ≠ .uninit place) :
    FrameFits hierarchy site (Frame.ofTypes types []) (Frame.ofTypes types []) := by
  refine Frame.ofTypes_induction (motive := fun frame => FrameFits hierarchy site frame frame)
    ⟨.nil, by simp [VariablesFit, Frame.empty], by simp [Frame.empty], .empty⟩ (fun frame type hmem slot h => ?_) (by simp)
  exact h.setLocal (.refl (hknown type hmem) (hplain type hmem)) slot

/-- The classes that the analysis of a method takes for granted are known. -/
structure MethodContext.ClassesKnown (method : MethodContext) (hierarchy : Hierarchy) : Prop where
  /-- The root of the hierarchy. -/
  root : hierarchy.Knows Name.object
  /-- The class of the method. -/
  owner : NameKnown hierarchy method.owner
  /-- The classes of the parameters. -/
  parameters : ∀ parsed, MethodDescriptor.demand method.descriptor = .ok parsed →
    ∀ type ∈ parsed.parameters, type.IsKnown hierarchy
  /-- The class of what is caught everywhere, and thrown where there was dead code. -/
  throwable : NameKnown hierarchy Name.throwable

/-- The frame on entry to a method with known classes fits itself. -/
theorem MethodContext.ClassesKnown.fits_initialFrame {method : MethodContext} (h : method.ClassesKnown hierarchy)
    {initial : FlowFrame} (hinitial : method.initialFrame = .ok initial) :
    FrameFits hierarchy site initial initial := by
  obtain ⟨parsed, hparsed, hinitial⟩ := bind_eq_ok.mp hinitial
  obtain rfl := pure_eq_ok.mp hinitial
  have hreceiver : ∀ type ∈ (if method.isStatic then [] else [method.receiverType]),
      TypeKnown hierarchy type ∧ ∀ place, type ≠ .uninit place := by
    intro type hmem
    split at hmem
    · simp at hmem
    · rw [List.mem_singleton.mp hmem, MethodContext.receiverType]
      split
      · exact ⟨trivial, by simp⟩
      · exact ⟨h.owner, by simp⟩
  have hparameter : ∀ type ∈ parsed.parameters.map ValueType.ofFieldType,
      TypeKnown hierarchy type ∧ ∀ place, type ≠ .uninit place := by
    intro type hmem
    obtain ⟨parameter, hparameter, rfl⟩ := List.mem_map.mp hmem
    exact ⟨typeKnown_ofFieldType (h.parameters parsed hparsed parameter hparameter),
      ofFieldType_ne_uninit parameter⟩
  refine FrameFits.ofTypes (fun type hmem => ?_) (fun type hmem => ?_)
  · exact (List.mem_append.mp hmem).elim (fun h => (hreceiver type h).1) fun h => (hparameter type h).1
  · exact (List.mem_append.mp hmem).elim (fun h => (hreceiver type h).2) fun h => (hparameter type h).2

end

/-- The classes that are always known are known to a classpath without elements. -/
theorem Classpath.nameKnown_empty {name : String} (h : name ∈ ClassHeader.builtin.map ClassHeader.name) :
    NameKnown empty.hierarchy name := by
  have hnames : ∀ name ∈ ClassHeader.builtin.map ClassHeader.name,
      FieldType.ofClassConstantName name = .ok (.object name) ∧
        (name.toList ≠ [] ∧ ';' ∉ name.toList ∧ name.toList.head? ≠ some '[') ∧
        (ClassHeader.builtin? name).isSome := by decide
  obtain ⟨hread, hname, hfound⟩ := hnames name h
  obtain ⟨found, hfound⟩ := Option.isSome_iff_exists.mp hfound
  exact ⟨_, hread, hname, found.shape, by rw [shape_empty, hfound]⟩

end ClassInstrument
