import ClassInstrument.Analysis.Basic
import ClassInstrument.Proofs.Outcome

/-!
# What a settled worklist has computed

A visit to a position brings frames to other positions, as `FlowProblem.Sends` lists them.  The
invariant of `FlowProblem.settle` is that the frame of every position that does not wait has been
brought on: an instruction there has a frame after it, and each position that may run next takes that
frame in.  When nothing waits any more, this holds of every position.

What it means that a frame takes another one in is left open, and so is what the frames have in
common; `FlowProblem.Laws` says what a merge has to do with them.  So the same invariant serves
for the order of frames in well formed hierarchies, and for the mere reach of the analysis in all.

The waiting positions form a queue: the first one is visited next, and a position that is to wait goes behind
the others unless it waits already.  At first the roots of an analysis wait, in their order
(`Worklist.exists_entered`).
-/

namespace ClassInstrument

open Outcome

/-! ## What a visit brings where -/

/-- A visit to a position with a frame before it brings a frame to some position. -/
inductive FlowProblem.Sends (problem : FlowProblem) (position : Nat) (before : FlowFrame) :
    Nat → FlowFrame → Prop
  /-- Control passes a label or line number. -/
  | pass {instruction} (here : problem.code[position]? = some instruction)
      (unreal : instruction.isReal = false) (room : position + 1 < problem.code.size) :
      Sends problem position before (position + 1) before
  /-- Control continues with the next entry. -/
  | next {instruction after} (here : problem.code[position]? = some instruction)
      (real : instruction.isReal)
      (runs : Transfer.execute problem.method problem.code position instruction before = .ok after)
      (falls : instruction.fallsThrough) (room : position + 1 < problem.code.size) :
      Sends problem position before (position + 1) after
  /-- Control is transferred to a label. -/
  | jump {instruction after target place} (here : problem.code[position]? = some instruction)
      (real : instruction.isReal)
      (runs : Transfer.execute problem.method problem.code position instruction before = .ok after)
      (targeted : target ∈ instruction.targets)
      (placed : problem.positions.find target = .ok place) :
      Sends problem position before place after
  /-- The instruction throws before it has changed a variable. -/
  | throwBefore {instruction handler} (here : problem.code[position]? = some instruction)
      (real : instruction.isReal) (listed : handler ∈ problem.handlers)
      (covered : handler.covers position) :
      Sends problem position before handler.handler (handler.entryFrame before.locals)
  /-- The instruction throws after it has changed a variable. -/
  | throwAfter {instruction handler after} (here : problem.code[position]? = some instruction)
      (real : instruction.isReal)
      (runs : Transfer.execute problem.method problem.code position instruction before = .ok after)
      (listed : handler ∈ problem.handlers) (covered : handler.covers position) :
      Sends problem position before handler.handler (handler.entryFrame after.locals)

/-- Labels and handlers of a problem are placed at positions of the code. -/
structure FlowProblem.Placed (problem : FlowProblem) : Prop where
  /-- Labels are placed at positions of the code. -/
  find_lt : ∀ {label place}, problem.positions.find label = .ok place → place < problem.code.size
  /-- Handlers start at positions of the code. -/
  handler_lt : ∀ {handler}, handler ∈ problem.handlers → handler.handler < problem.code.size

/-- Frames are brought to positions of the code. -/
theorem FlowProblem.Sends.lt {problem : FlowProblem} (hplaced : problem.Placed) {position next : Nat}
    {before frame : FlowFrame} (h : problem.Sends position before next frame) :
    next < problem.code.size := by
  cases h with
  | pass _ _ room => exact room
  | next _ _ _ _ room => exact room
  | jump _ _ _ _ placed => exact hplaced.find_lt placed
  | throwBefore _ _ listed _ => exact hplaced.handler_lt listed
  | throwAfter _ _ _ listed _ => exact hplaced.handler_lt listed

/-- What the frames of a problem have in common, by position, and when one takes another one in. -/
structure FlowProblem.Laws (problem : FlowProblem) (fits : Nat → FlowFrame → Prop)
    (takes : FlowFrame → FlowFrame → Prop) : Prop where
  /-- A frame takes itself in. -/
  refl : ∀ {position frame}, fits position frame → takes frame frame
  /-- What a frame takes in was taken in with all that it has taken in before. -/
  trans : ∀ {a b c}, takes a b → takes b c → takes a c
  /-- A frame that a merge leaves as it is takes the other one in. -/
  covers : ∀ {position existing incoming}, fits position existing → fits position incoming →
    mergeFrames problem.hierarchy position existing incoming = .ok none → takes existing incoming
  /-- A merge takes both frames in. -/
  merges : ∀ {position existing incoming merged}, fits position existing → fits position incoming →
    mergeFrames problem.hierarchy position existing incoming = .ok (some merged) →
      fits position merged ∧ takes merged existing ∧ takes merged incoming
  /-- What a visit brings fits the place that it is brought to. -/
  sends : ∀ {position before next frame}, fits position before →
    problem.Sends position before next frame → fits next frame

namespace Worklist

variable {problem : FlowProblem} {fits : Nat → FlowFrame → Prop}
  {takes : FlowFrame → FlowFrame → Prop} {work work' : Worklist}

/-- The frame at a position takes a frame in. -/
def Holds (takes : FlowFrame → FlowFrame → Prop) (work : Worklist) (position : Nat)
    (frame : FlowFrame) : Prop :=
  ∃ existing, work.frame? position = some existing ∧ takes existing frame

/-- The frames fit their positions, and what waits is in the queue. -/
structure Consistent (problem : FlowProblem) (fits : Nat → FlowFrame → Prop) (work : Worklist) :
    Prop where
  frames_size : work.frames.size = problem.code.size
  waiting_size : work.waiting.size = problem.code.size
  fits : ∀ {position frame}, work.frame? position = some frame → fits position frame
  queued : ∀ {position : Nat}, work.waiting[position]? = some true →
    position ∈ work.front ∨ position ∈ work.back

/-- Frames were replaced only by frames that take them in, and the maxima have not fallen. -/
structure Grows (takes : FlowFrame → FlowFrame → Prop) (work work' : Worklist) : Prop where
  frame : ∀ {position frame}, work.frame? position = some frame → work'.Holds takes position frame
  maxStack : work.maxStack ≤ work'.maxStack
  maxLocals : work.maxLocals ≤ work'.maxLocals

/-- A position that does not wait did not wait before, and has the frame that it had. -/
def Tracks (work work' : Worklist) : Prop :=
  ∀ position : Nat, work'.waiting[position]? = some false →
    work.waiting[position]? = some false ∧ work'.frame? position = work.frame? position

/-- What a frame took in is still taken in after the frames have grown. -/
theorem Holds.mono (laws : problem.Laws fits takes) (hgrows : work.Grows takes work')
    {position : Nat} {frame : FlowFrame} (h : work.Holds takes position frame) :
    work'.Holds takes position frame := by
  obtain ⟨existing, hexisting, htakes⟩ := h
  obtain ⟨grown, hgrown, htakes'⟩ := hgrows.frame hexisting
  exact ⟨grown, hgrown, laws.trans htakes' htakes⟩

/-- Frames that stay have grown. -/
theorem Grows.refl (laws : problem.Laws fits takes) (h : work.Consistent problem fits) :
    work.Grows takes work where
  frame hframe := ⟨_, hframe, laws.refl (h.fits hframe)⟩
  maxStack := le_rfl
  maxLocals := le_rfl

/-- Frames that grow twice have grown. -/
theorem Grows.trans (laws : problem.Laws fits takes) {work'' : Worklist}
    (h : work.Grows takes work') (h' : work'.Grows takes work'') : work.Grows takes work'' where
  frame hframe := (h.frame hframe).mono laws h'
  maxStack := h.maxStack.trans h'.maxStack
  maxLocals := h.maxLocals.trans h'.maxLocals

/-- Positions are kept track of over several steps. -/
theorem Tracks.trans {work'' : Worklist} (h : work.Tracks work') (h' : work'.Tracks work'') :
    work.Tracks work'' := by
  intro position hidle
  obtain ⟨hidle', hframe'⟩ := h' position hidle
  obtain ⟨hidle, hframe⟩ := h position hidle'
  exact ⟨hidle, hframe'.trans hframe⟩

/-! ## Bringing a frame -/

/-- A position that waits already is not queued again. -/
theorem enqueue_of_waiting {position : Nat} (h : work.waiting[position]? = some true) :
    work.enqueue position = work := by
  rw [enqueue, Array.getD_eq_getD_getElem?, h, Option.getD_some, if_pos rfl]

/-- A position that does not wait is queued behind the others. -/
theorem enqueue_of_idle {position : Nat} (h : work.waiting[position]? = some false) :
    work.enqueue position =
      { work with
        back := position :: work.back
        waiting := work.waiting.setIfInBounds position true } := by
  rw [enqueue, Array.getD_eq_getD_getElem?, h, Option.getD_some, if_neg Bool.false_ne_true]

/-- Setting a frame does to the position either the one or the other. -/
theorem update_cases {position : Nat} (frame : FlowFrame) (hlt : position < work.waiting.size) :
    work.waiting[position]? = some true ∧ work.update position frame =
      { work with frames := work.frames.setIfInBounds position (some frame) } ∨
    work.waiting[position]? = some false ∧ work.update position frame =
      { work with
        frames := work.frames.setIfInBounds position (some frame)
        back := position :: work.back
        waiting := work.waiting.setIfInBounds position true } := by
  have hsome := Array.getElem?_eq_getElem hlt
  cases hwaits : work.waiting[position] with
  | true =>
    rw [hwaits] at hsome
    exact Or.inl ⟨hsome, enqueue_of_waiting hsome⟩
  | false =>
    rw [hwaits] at hsome
    exact Or.inr ⟨hsome, enqueue_of_idle hsome⟩

/-- The frames after one of them was set. -/
theorem frame?_update {position other : Nat} {frame : FlowFrame}
    (hframes : position < work.frames.size) (hwaiting : position < work.waiting.size) :
    (work.update position frame).frame? other =
      if other = position then some frame else work.frame? other := by
  have hset : (work.update position frame).frames =
      work.frames.setIfInBounds position (some frame) := by
    rcases update_cases frame hwaiting with ⟨-, h⟩ | ⟨-, h⟩ <;> rw [h]
  rw [frame?, hset, Array.getElem?_setIfInBounds]
  by_cases hsame : position = other
  · subst hsame
    simp [hframes]
  · rw [if_neg hsame, if_neg (Ne.symm hsame), frame?]

/-- What waits after a frame was set. -/
theorem waiting_update {position other : Nat} {frame : FlowFrame}
    (hlt : position < work.waiting.size) :
    (work.update position frame).waiting[other]? =
      if other = position then some true else work.waiting[other]? := by
  rcases update_cases frame hlt with ⟨hwaits, h⟩ | ⟨-, h⟩
  · rw [h]
    split
    · next hsame => rw [hsame, hwaits]
    · rfl
  · rw [h, Array.getElem?_setIfInBounds]
    by_cases hsame : position = other
    · subst hsame
      simp [hlt]
    · rw [if_neg hsame, if_neg (Ne.symm hsame)]

/-- What was queued still is after a frame was set, and the position of the frame is if it did not
wait. -/
theorem mem_queue_update {position other : Nat} {frame : FlowFrame}
    (hlt : position < work.waiting.size)
    (h : other ∈ work.front ∨ other ∈ work.back ∨
      other = position ∧ work.waiting[position]? = some false) :
    other ∈ (work.update position frame).front ∨ other ∈ (work.update position frame).back := by
  rcases update_cases frame hlt with ⟨hwaits, hupdate⟩ | ⟨-, hupdate⟩
  · rw [hupdate]
    rcases h with h | h | ⟨-, h⟩
    · exact Or.inl h
    · exact Or.inr h
    · simp [hwaits] at h
  · rw [hupdate]
    rcases h with h | h | ⟨rfl, -⟩
    · exact Or.inl h
    · exact Or.inr (List.mem_cons_of_mem _ h)
    · exact Or.inr List.mem_cons_self

/-- A frame that is brought is set, is taken in already, or is merged with the one there. -/
theorem bring_eq_ok {hierarchy : Hierarchy} {position : Nat} {incoming : FlowFrame} :
    work.bring hierarchy position incoming = .ok work' ↔
      (work.frame? position = none ∧ work' = work.update position incoming) ∨
      ∃ existing, work.frame? position = some existing ∧
        (mergeFrames hierarchy position existing incoming = .ok none ∧ work' = work ∨
        ∃ merged, mergeFrames hierarchy position existing incoming = .ok (some merged) ∧
          work' = work.update position merged) := by
  unfold bring
  cases hframe : work.frame? position with
  | none =>
    rw [pure_eq_ok]
    simp [eq_comm]
  | some existing =>
    rw [bind_eq_ok]
    constructor
    · rintro ⟨found, hfound, h⟩
      refine Or.inr ⟨existing, rfl, ?_⟩
      cases found with
      | none => exact Or.inl ⟨hfound, (pure_eq_ok.mp h).symm⟩
      | some merged => exact Or.inr ⟨merged, hfound, (pure_eq_ok.mp h).symm⟩
    · rintro (⟨h, -⟩ | ⟨_, hsame, h⟩)
      · simp at h
      · obtain rfl := Option.some.inj hsame
        rcases h with ⟨hfound, rfl⟩ | ⟨merged, hfound, rfl⟩
        · exact ⟨none, hfound, rfl⟩
        · exact ⟨some merged, hfound, rfl⟩

/-- What one step of an analysis does: the worklist stays consistent, its frames grow, and positions
are kept track of. -/
structure Step (problem : FlowProblem) (fits : Nat → FlowFrame → Prop)
    (takes : FlowFrame → FlowFrame → Prop) (work work' : Worklist) : Prop where
  consistent : work'.Consistent problem fits
  grows : work.Grows takes work'
  tracks : work.Tracks work'

/-- Doing nothing is a step. -/
theorem Step.refl (laws : problem.Laws fits takes) (h : work.Consistent problem fits) :
    Step problem fits takes work work :=
  ⟨h, .refl laws h, fun _ hidle => ⟨hidle, rfl⟩⟩

/-- Two steps are a step. -/
theorem Step.trans (laws : problem.Laws fits takes) {work'' : Worklist}
    (h : Step problem fits takes work work') (h' : Step problem fits takes work' work'') :
    Step problem fits takes work work'' :=
  ⟨h'.consistent, h.grows.trans laws h'.grows, h.tracks.trans h'.tracks⟩

/-- Setting a frame that takes in the one there, if there is one, is a step. -/
theorem step_update (laws : problem.Laws fits takes) (h : work.Consistent problem fits)
    {position : Nat} {frame : FlowFrame} (hlt : position < problem.code.size)
    (hfits : fits position frame)
    (htakes : ∀ existing, work.frame? position = some existing → takes frame existing) :
    Step problem fits takes work (work.update position frame) := by
  have hframes : position < work.frames.size := h.frames_size ▸ hlt
  have hwaiting : position < work.waiting.size := h.waiting_size ▸ hlt
  have hmaxima : (work.update position frame).maxStack = work.maxStack ∧
      (work.update position frame).maxLocals = work.maxLocals ∧
      (work.update position frame).frames.size = work.frames.size ∧
      (work.update position frame).waiting.size = work.waiting.size := by
    rcases update_cases frame hwaiting with ⟨-, hupdate⟩ | ⟨-, hupdate⟩ <;> simp [hupdate]
  obtain ⟨hstack, hlocals, hsize, hsize'⟩ := hmaxima
  refine ⟨⟨hsize.trans h.frames_size, hsize'.trans h.waiting_size, ?_, ?_⟩,
    ⟨?_, hstack.ge, hlocals.ge⟩, ?_⟩
  · intro other found hfound
    rw [frame?_update hframes hwaiting] at hfound
    split at hfound
    · next hsame =>
      obtain rfl := Option.some.inj hfound
      exact hsame ▸ hfits
    · exact h.fits hfound
  · intro other hwaits
    refine mem_queue_update hwaiting ?_
    rw [waiting_update hwaiting] at hwaits
    cases hbefore : work.waiting[other]? with
    | none =>
      have hout := Array.getElem?_eq_none_iff.mp hbefore
      grind
    | some waits =>
      cases waits with
      | true => exact (h.queued hbefore).imp_right Or.inl
      | false =>
        split at hwaits
        · next hsame => exact Or.inr (Or.inr ⟨hsame, hsame ▸ hbefore⟩)
        · simp [hbefore] at hwaits
  · intro other found hfound
    by_cases hsame : other = position
    · subst hsame
      exact ⟨frame, by rw [frame?_update hframes hwaiting, if_pos rfl], htakes found hfound⟩
    · exact ⟨found, by rw [frame?_update hframes hwaiting, if_neg hsame, hfound],
        laws.refl (h.fits hfound)⟩
  · intro other hidle
    rw [waiting_update hwaiting] at hidle
    split at hidle
    · simp at hidle
    · next hdiffer =>
      exact ⟨hidle, by rw [frame?_update hframes hwaiting, if_neg hdiffer]⟩

/-- Bringing a frame is a step after which the frame is taken in. -/
theorem step_bring (laws : problem.Laws fits takes) (h : work.Consistent problem fits)
    {position : Nat} {incoming : FlowFrame} (hlt : position < problem.code.size)
    (hfits : fits position incoming)
    (hbring : work.bring problem.hierarchy position incoming = .ok work') :
    Step problem fits takes work work' ∧ work'.Holds takes position incoming := by
  have hframes : position < work.frames.size := h.frames_size ▸ hlt
  have hwaiting : position < work.waiting.size := h.waiting_size ▸ hlt
  rcases bring_eq_ok.mp hbring with ⟨hnone, rfl⟩ | ⟨existing, hexisting, hmerge⟩
  · refine ⟨step_update laws h hlt hfits fun existing hexisting => ?_, incoming, ?_,
      laws.refl hfits⟩
    · simp [hnone] at hexisting
    · rw [frame?_update hframes hwaiting, if_pos rfl]
  rcases hmerge with ⟨hmerge, rfl⟩ | ⟨merged, hmerge, rfl⟩
  · exact ⟨.refl laws h, existing, hexisting, laws.covers (h.fits hexisting) hfits hmerge⟩
  · obtain ⟨hmerged, htakes, htakes'⟩ := laws.merges (h.fits hexisting) hfits hmerge
    refine ⟨step_update laws h hlt hmerged fun other hother => ?_, merged, ?_, htakes'⟩
    · obtain rfl := Option.some.inj (hexisting.symm.trans hother)
      exact htakes
    · rw [frame?_update hframes hwaiting, if_pos rfl]

/-- Steps for the items of a list, one after the other, achieve what each is to achieve. -/
theorem step_foldlM (laws : problem.Laws fits takes) {α : Type}
    (goal : α → Worklist → Prop) {action : Worklist → α → Except Fault Worklist} {items : List α}
    (hmono : ∀ {item work work'}, goal item work → work.Grows takes work' → goal item work')
    (hstep : ∀ {work item work'}, item ∈ items → work.Consistent problem fits →
      action work item = .ok work' → Step problem fits takes work work' ∧ goal item work')
    (h : work.Consistent problem fits) (hfold : items.foldlM action work = .ok work') :
    Step problem fits takes work work' ∧ ∀ item ∈ items, goal item work' := by
  induction items generalizing work with
  | nil =>
    obtain rfl := pure_eq_ok.mp hfold
    exact ⟨.refl laws h, fun item hitem => absurd hitem List.not_mem_nil⟩
  | cons item items ih =>
    rw [List.foldlM_cons] at hfold
    obtain ⟨next, hnext, hfold⟩ := bind_eq_ok.mp hfold
    obtain ⟨hfirst, hgoal⟩ := hstep List.mem_cons_self h hnext
    obtain ⟨hrest, hgoals⟩ := ih (fun hmem => hstep (List.mem_cons_of_mem _ hmem))
      hfirst.consistent hfold
    refine ⟨hfirst.trans laws hrest, fun other hother => ?_⟩
    rcases List.mem_cons.mp hother with rfl | hother
    · exact hmono hgoal hrest.grows
    · exact hgoals other hother

/-- Taking sizes into account is a step. -/
theorem step_noteSizes (laws : problem.Laws fits takes) (h : work.Consistent problem fits)
    (before after : FlowFrame) : Step problem fits takes work (work.noteSizes before after) :=
  ⟨⟨h.frames_size, h.waiting_size, h.fits, h.queued⟩,
    ⟨(Grows.refl laws h).frame, (le_max_left _ _).trans (le_max_left _ _), le_max_left _ _⟩,
    fun _ hidle => ⟨hidle, rfl⟩⟩

/-! ## Visiting a position -/

/-- A position is done with: an instruction there runs on the frame, its sizes are taken into account,
what it leads to is there, and what it brings is taken in. -/
structure Done (problem : FlowProblem) (takes : FlowFrame → FlowFrame → Prop) (work : Worklist)
    (position : Nat) (frame : FlowFrame) : Prop where
  runs : ∀ {instruction}, problem.code[position]? = some instruction → instruction.isReal →
    ∃ after, Transfer.execute problem.method problem.code position instruction frame = .ok after ∧
      frame.stack.used ≤ work.maxStack ∧ after.stack.used ≤ work.maxStack ∧
        after.locals.length ≤ work.maxLocals
  targets : ∀ {instruction target}, problem.code[position]? = some instruction →
    instruction.isReal → target ∈ instruction.targets →
      ∃ place, problem.positions.find target = .ok place
  falls : ∀ {instruction}, problem.code[position]? = some instruction → instruction.isReal →
    instruction.fallsThrough → position + 1 < problem.code.size
  sends : ∀ {next brought}, problem.Sends position frame next brought → work.Holds takes next brought

/-- A position that is done with stays so while the frames grow. -/
theorem Done.mono (laws : problem.Laws fits takes) (hgrows : work.Grows takes work')
    {position : Nat} {frame : FlowFrame} (h : work.Done problem takes position frame) :
    work'.Done problem takes position frame where
  runs here real := by
    obtain ⟨after, hafter, hbefore, hstack, hlocals⟩ := h.runs here real
    exact ⟨after, hafter, hbefore.trans hgrows.maxStack, hstack.trans hgrows.maxStack,
      hlocals.trans hgrows.maxLocals⟩
  targets := h.targets
  falls := h.falls
  sends hsends := (h.sends hsends).mono laws hgrows

/-- Carrying the frame before an instruction on is a step after which the position is done with. -/
theorem step_flow (laws : problem.Laws fits takes) (hplaced : problem.Placed)
    (h : work.Consistent problem fits) {position : Nat} {instruction : Instruction}
    {before : FlowFrame} (here : problem.code[position]? = some instruction)
    (real : instruction.isReal) (hfits : fits position before)
    (hflow : problem.flow position instruction before work = .ok work') :
    Step problem fits takes work work' ∧ work'.Done problem takes position before := by
  unfold FlowProblem.flow at hflow
  obtain ⟨after, hafter, hflow⟩ := bind_eq_ok.mp hflow
  obtain ⟨thrown, hthrown, hflow⟩ := bind_eq_ok.mp hflow
  obtain ⟨jumped, hjumped, hflow⟩ := bind_eq_ok.mp hflow
  have hnoted := step_noteSizes laws h before after
  -- the handlers that cover the position
  obtain ⟨hthrow, hthrows⟩ := step_foldlM laws
    (fun (handler : PlacedHandler) (work : Worklist) =>
      work.Holds takes handler.handler (handler.entryFrame before.locals) ∧
        work.Holds takes handler.handler (handler.entryFrame after.locals))
    (fun {handler work work'} hgoal hgrows =>
      ⟨Holds.mono laws hgrows hgoal.1, Holds.mono laws hgrows hgoal.2⟩)
    (fun {work handler work'} hmem hwork hbring => by
      obtain ⟨hlisted, hcovers⟩ := List.mem_filter.mp hmem
      obtain ⟨middle, hmiddle, hbring⟩ := bind_eq_ok.mp hbring
      have hlt := hplaced.handler_lt hlisted
      obtain ⟨hfirst, hbefore⟩ := step_bring laws hwork hlt
        (laws.sends hfits (.throwBefore here real hlisted hcovers)) hmiddle
      obtain ⟨hsecond, hafter'⟩ := step_bring laws hfirst.consistent hlt
        (laws.sends hfits (.throwAfter here real hafter hlisted hcovers)) hbring
      exact ⟨hfirst.trans laws hsecond, hbefore.mono laws hsecond.grows, hafter'⟩)
    hnoted.consistent hthrown
  -- the targets of a jump
  obtain ⟨hjump, hjumps⟩ := step_foldlM laws
    (fun (target : Label) (work : Worklist) => ∃ place, problem.positions.find target = .ok place ∧
      work.Holds takes place after)
    (fun ⟨place, hplace, hholds⟩ hgrows => ⟨place, hplace, hholds.mono laws hgrows⟩)
    (fun {work target work'} hmem hwork hbring => by
      obtain ⟨place, hplace, hbring⟩ := bind_eq_ok.mp hbring
      obtain ⟨hstep, hholds⟩ := step_bring laws hwork (hplaced.find_lt hplace)
        (laws.sends hfits (.jump here real hafter hmem hplace)) hbring
      exact ⟨hstep, place, hplace, hholds⟩)
    hthrow.consistent hjumped
  -- the next entry
  have hnext : Step problem fits takes jumped work' ∧ (instruction.fallsThrough →
      position + 1 < problem.code.size ∧ work'.Holds takes (position + 1) after) := by
    split at hflow
    · next hfalls =>
      split at hflow
      · next hroom =>
        obtain ⟨hstep, hholds⟩ := step_bring laws hjump.consistent hroom
          (laws.sends hfits (.next here real hafter hfalls hroom)) hflow
        exact ⟨hstep, fun _ => ⟨hroom, hholds⟩⟩
      · simp [throw, throwThe, MonadExceptOf.throw] at hflow
    · next hends =>
      obtain rfl := pure_eq_ok.mp hflow
      exact ⟨.refl laws hjump.consistent, fun hfalls => absurd hfalls hends⟩
  obtain ⟨hlast, hfall⟩ := hnext
  have hafterThrow := (hjump.trans laws hlast).grows
  have hgrows := hafterThrow.maxStack.trans' hthrow.grows.maxStack
  have hgrows' := hafterThrow.maxLocals.trans' hthrow.grows.maxLocals
  refine ⟨((hnoted.trans laws hthrow).trans laws hjump).trans laws hlast, ?_, ?_, ?_, ?_⟩
  · intro other hother _
    obtain rfl := Option.some.inj (here.symm.trans hother)
    exact ⟨after, hafter, hgrows.trans' ((le_max_right _ _).trans (le_max_left _ _)),
      hgrows.trans' (le_max_right _ _), hgrows'.trans' (le_max_right _ _)⟩
  · intro other target hother _ hmem
    obtain rfl := Option.some.inj (here.symm.trans hother)
    obtain ⟨place, hplace, -⟩ := hjumps target hmem
    exact ⟨place, hplace⟩
  · intro other hother _ hfalls
    obtain rfl := Option.some.inj (here.symm.trans hother)
    exact (hfall hfalls).1
  · intro next brought hsends
    cases hsends with
    | pass hother unreal _ =>
      obtain rfl := Option.some.inj (here.symm.trans hother)
      simp [real] at unreal
    | next hother _ hruns hfalls _ =>
      obtain rfl := Option.some.inj (here.symm.trans hother)
      obtain rfl := Except.ok.inj (hafter.symm.trans hruns)
      exact (hfall hfalls).2
    | jump hother _ hruns hmem hplace =>
      obtain rfl := Option.some.inj (here.symm.trans hother)
      obtain rfl := Except.ok.inj (hafter.symm.trans hruns)
      obtain ⟨place, hplace', hholds⟩ := hjumps _ hmem
      obtain rfl := Except.ok.inj (hplace'.symm.trans hplace)
      exact hholds.mono laws hlast.grows
    | throwBefore _ _ hlisted hcovers =>
      exact (hthrows _ (List.mem_filter.mpr ⟨hlisted, hcovers⟩)).1.mono laws hafterThrow
    | throwAfter hother _ hruns hlisted hcovers =>
      obtain rfl := Option.some.inj (here.symm.trans hother)
      obtain rfl := Except.ok.inj (hafter.symm.trans hruns)
      exact (hthrows _ (List.mem_filter.mpr ⟨hlisted, hcovers⟩)).2.mono laws hafterThrow

/-- A visit is a step after which the position is done with, as far as the frame from before the
visit goes. -/
theorem step_visit (laws : problem.Laws fits takes) (hplaced : problem.Placed)
    (h : work.Consistent problem fits) {position : Nat}
    (hvisit : problem.visit position work = .ok work') :
    Step problem fits takes work work' ∧ ∀ before, work.frame? position = some before →
      work'.Done problem takes position before := by
  unfold FlowProblem.visit at hvisit
  split at hvisit
  · next instruction before here hframe =>
    have hfits := h.fits hframe
    have hdone : ∀ found, work.frame? position = some found → found = before :=
      fun found hfound => Option.some.inj (hfound.symm.trans hframe)
    split at hvisit
    · next real =>
      obtain ⟨hstep, hdone'⟩ := step_flow laws hplaced h here real hfits hvisit
      exact ⟨hstep, fun found hfound => hdone found hfound ▸ hdone'⟩
    · next unreal =>
      rw [Bool.not_eq_true] at unreal
      have hnever : ∀ {other}, problem.code[position]? = some other → ¬ other.isReal := by
        intro other hother
        obtain rfl := Option.some.inj (here.symm.trans hother)
        simp [unreal]
      have hpass : Step problem fits takes work work' ∧ (position + 1 < problem.code.size →
          work'.Holds takes (position + 1) before) := by
        split at hvisit
        · next hroom =>
          obtain ⟨hstep, hholds⟩ := step_bring laws h hroom
            (laws.sends hfits (.pass here unreal hroom)) hvisit
          exact ⟨hstep, fun _ => hholds⟩
        · next hend =>
          obtain rfl := pure_eq_ok.mp hvisit
          exact ⟨.refl laws h, fun hroom => absurd hroom hend⟩
      refine ⟨hpass.1, fun found hfound => ⟨?_, ?_, ?_, ?_⟩⟩
      · exact fun hother real => absurd real (hnever hother)
      · exact fun hother real => absurd real (hnever hother)
      · exact fun hother real => absurd real (hnever hother)
      · intro next brought hsends
        cases hsends with
        | pass _ _ hroom => exact hdone found hfound ▸ hpass.2 hroom
        | next hother real => exact absurd real (hnever hother)
        | jump hother real => exact absurd real (hnever hother)
        | throwBefore hother real => exact absurd real (hnever hother)
        | throwAfter hother real => exact absurd real (hnever hother)
  · next hnothing =>
    obtain rfl := pure_eq_ok.mp hvisit
    refine ⟨.refl laws h, fun before hframe => ⟨?_, ?_, ?_, ?_⟩⟩
    · exact fun here => absurd hframe (hnothing _ _ here)
    · exact fun here => absurd hframe (hnothing _ _ here)
    · exact fun here => absurd hframe (hnothing _ _ here)
    · intro next brought hsends
      cases hsends with
      | pass here => exact absurd hframe (hnothing _ _ here)
      | next here => exact absurd hframe (hnothing _ _ here)
      | jump here => exact absurd hframe (hnothing _ _ here)
      | throwBefore here => exact absurd hframe (hnothing _ _ here)
      | throwAfter here => exact absurd hframe (hnothing _ _ here)

/-! ## Settling -/

/-- The invariant of settling: whatever does not wait is done with. -/
structure Invariant (problem : FlowProblem) (fits : Nat → FlowFrame → Prop)
    (takes : FlowFrame → FlowFrame → Prop) (work : Worklist) : Prop where
  consistent : work.Consistent problem fits
  done : ∀ {position : Nat} {frame}, work.waiting[position]? = some false →
    work.frame? position = some frame → work.Done problem takes position frame

/-- Turning the queue round loses nothing of it. -/
theorem mem_turned {position : Nat} :
    position ∈ work.turned.front ∨ position ∈ work.turned.back ↔
      position ∈ work.front ∨ position ∈ work.back := by
  unfold turned
  split
  · next hempty =>
    rw [List.isEmpty_iff] at hempty
    simp [hempty]
  · rfl

/-- Turning the queue round changes nothing else. -/
theorem turned_eq : work.turned =
    { work with front := work.turned.front, back := work.turned.back } := by
  unfold turned
  split <;> rfl

/-- Turning the queue round keeps the invariant. -/
theorem Invariant.turned (h : work.Invariant problem fits takes) :
    work.turned.Invariant problem fits takes := by
  have hqueue := @mem_turned work
  rw [turned_eq] at hqueue ⊢
  refine ⟨⟨h.consistent.frames_size, h.consistent.waiting_size, h.consistent.fits,
    fun hwaits => hqueue.mpr (h.consistent.queued hwaits)⟩, fun hidle hframe => ?_⟩
  have hdone := h.done hidle hframe
  exact ⟨hdone.runs, hdone.targets, hdone.falls, hdone.sends⟩

/-- Turning the queue round changes no frame. -/
theorem Invariant.grows_turned (laws : problem.Laws fits takes)
    (h : work.Invariant problem fits takes) : work.Grows takes work.turned := by
  have hgrows := Grows.refl laws h.consistent
  rw [turned_eq]
  exact ⟨hgrows.frame, hgrows.maxStack, hgrows.maxLocals⟩

/-- When nothing is left in the queue, every position with a frame is done with. -/
theorem Invariant.done_of_empty (h : work.Invariant problem fits takes)
    (hfront : work.turned.front = []) {position : Nat} {frame : FlowFrame}
    (hframe : work.turned.frame? position = some frame) :
    work.turned.Done problem takes position frame := by
  have hback : work.turned.back = [] := by
    unfold Worklist.turned at hfront ⊢
    split at hfront
    · next hempty => rw [if_pos hempty]
    · next hnonempty => simp [hfront] at hnonempty
  have hlt : position < work.turned.waiting.size := by
    rw [h.turned.consistent.waiting_size, ← h.turned.consistent.frames_size]
    by_contra hout
    rw [frame?, Array.getElem?_eq_none_iff.mpr (by omega)] at hframe
    simp at hframe
  have hsome := Array.getElem?_eq_getElem hlt
  cases hwaits : work.turned.waiting[position] with
  | true =>
    rw [hwaits] at hsome
    have hqueued := h.turned.consistent.queued hsome
    simp [hfront, hback] at hqueued
  | false =>
    rw [hwaits] at hsome
    exact h.turned.done hsome hframe

/-- Turning the queue round keeps its length. -/
theorem length_turned :
    work.turned.front.length + work.turned.back.length = work.front.length + work.back.length := by
  unfold Worklist.turned
  split
  · next hempty =>
    rw [List.isEmpty_iff] at hempty
    simp [hempty]
  · rfl

/-- What is left after a position was taken off the queue. -/
theorem leave_turned {position : Nat} {others : List Nat} :
    work.turned.leave position others =
      { work with
        front := others
        back := work.turned.back
        waiting := work.waiting.setIfInBounds position false } := by
  rw [leave, turned_eq]

/-- Taking the first position off the queue keeps a worklist consistent. -/
theorem Consistent.leave (h : work.Consistent problem fits) {position : Nat} {others : List Nat}
    (hfront : work.turned.front = position :: others) :
    (work.turned.leave position others).Consistent problem fits := by
  rw [leave_turned]
  refine ⟨h.frames_size, Array.size_setIfInBounds.trans h.waiting_size, h.fits, ?_⟩
  intro other hother
  dsimp only at hother
  rw [Array.getElem?_setIfInBounds] at hother
  obtain ⟨hdiffer, hwaits⟩ : other ≠ position ∧ work.waiting[other]? = some true := by grind
  rcases mem_turned.mpr (h.queued hwaits) with hmem | hmem
  · rw [hfront, List.mem_cons] at hmem
    exact Or.inl (hmem.resolve_left hdiffer)
  · exact Or.inr hmem

/-- **The step of settling.**  A visit to the first position of the queue keeps the invariant. -/
theorem Invariant.visit (laws : problem.Laws fits takes) (hplaced : problem.Placed)
    (h : work.Invariant problem fits takes) {position : Nat} {others : List Nat}
    (hfront : work.turned.front = position :: others)
    (hvisit : problem.visit position (work.turned.leave position others) = .ok work') :
    work'.Invariant problem fits takes ∧ work.Grows takes work' := by
  have hidle : ∀ {other : Nat}, (work.turned.leave position others).waiting[other]? = some false →
      other = position ∨ work.waiting[other]? = some false := by
    intro other hother
    rw [leave_turned] at hother
    dsimp only at hother
    rw [Array.getElem?_setIfInBounds] at hother
    grind
  have hframe : ∀ other, (work.turned.leave position others).frame? other = work.frame? other := by
    intro other
    rw [leave_turned]
    rfl
  have hconsistent := h.consistent.leave hfront
  obtain ⟨hstep, hdone⟩ := step_visit laws hplaced hconsistent hvisit
  have hgrows : work.Grows takes work' := by
    refine ⟨fun hfound => hstep.grows.frame (hframe _ ▸ hfound), ?_, ?_⟩
    · exact hstep.grows.maxStack.trans' (by rw [leave_turned])
    · exact hstep.grows.maxLocals.trans' (by rw [leave_turned])
  refine ⟨⟨hstep.consistent, ?_⟩, hgrows⟩
  intro other frame hother hfound
  obtain ⟨hbefore, hsame⟩ := hstep.tracks other hother
  rw [hsame] at hfound
  rcases hidle hbefore with rfl | hidle
  · exact hdone frame hfound
  · exact (h.done hidle (hframe other ▸ hfound)).mono laws hgrows

/-- **What settling computes.**  When nothing waits any more, every position with a frame is done
with, and what was taken in before still is. -/
theorem Invariant.settle (laws : problem.Laws fits takes) (hplaced : problem.Placed)
    {result : Worklist} (hsettle : problem.settle work = some (.ok result))
    (h : work.Invariant problem fits takes) :
    result.Consistent problem fits ∧ work.Grows takes result ∧
      ∀ {position frame}, result.frame? position = some frame →
        result.Done problem takes position frame := by
  suffices hall : ∀ (work : Worklist) (outcome : Except Fault Worklist),
      problem.settle work = some outcome → ∀ result, outcome = .ok result →
        work.Invariant problem fits takes →
          result.Consistent problem fits ∧ work.Grows takes result ∧
            ∀ {position frame}, result.frame? position = some frame →
              result.Done problem takes position frame from
    hall work (.ok result) hsettle result rfl h
  refine FlowProblem.settle.partial_correctness problem _ ?_
  intro settle ih work outcome houtcome result hresult h
  split at houtcome
  · next hfront =>
    obtain rfl := Except.ok.inj ((Option.some.inj houtcome).trans hresult)
    exact ⟨h.turned.consistent, h.grows_turned laws, fun hframe => h.done_of_empty hfront hframe⟩
  · next position others hfront =>
    split at houtcome
    · cases houtcome
      simp at hresult
    · next work' hvisit =>
      obtain ⟨hinvariant, hgrows⟩ := h.visit laws hplaced hfront hvisit
      obtain ⟨hconsistent, hgrows', hdone⟩ := ih work' outcome houtcome result hresult hinvariant
      exact ⟨hconsistent, hgrows.trans laws hgrows', hdone⟩

end Worklist

/-! ## The queue -/

namespace Worklist

variable {work : Worklist} {problem : FlowProblem}

/-- The waiting positions, the one that has waited longest first. -/
def queue (work : Worklist) : List ℕ := work.front ++ work.back.reverse

/-- Turning the queue round keeps the order. -/
theorem queue_turned : work.turned.queue = work.queue := by
  unfold turned queue
  split
  · next hempty => simp [List.isEmpty_iff.mp hempty]
  · rfl

/-- The queue is empty if it is so after it was turned round. -/
theorem queue_eq_nil (h : work.turned.front = []) : work.queue = [] := by
  rw [← queue_turned]
  unfold turned at h ⊢
  split at h
  · next hempty =>
    rw [if_pos hempty]
    simpa [queue] using h
  · next hnonempty => simp [h] at hnonempty

/-- The first position of the queue, and the others. -/
theorem queue_eq_cons {position : ℕ} {others : List ℕ} (h : work.turned.front = position :: others) :
    work.queue = position :: (work.turned.leave position others).queue := by
  rw [← queue_turned, queue, h]
  rfl

/-- An empty queue is settled. -/
theorem settle_of_queue_nil (h : work.queue = []) : problem.settle work = some (.ok work.turned) := by
  have hfront : work.turned.front = [] := by
    cases hfront : work.turned.front with
    | nil => rfl
    | cons position others => simp [queue_eq_cons hfront] at h
  rw [FlowProblem.settle, hfront]

/-- Otherwise settling visits the first position of the queue. -/
theorem exists_settle_of_queue_cons (problem : FlowProblem) {position : ℕ} {others : List ℕ}
    (h : work.queue = position :: others) :
    ∃ left : Worklist, left.queue = others ∧ left.frames = work.frames ∧
      left.waiting = work.waiting.setIfInBounds position false ∧
      ∀ next, problem.visit position left = .ok next → problem.settle work = problem.settle next := by
  cases hfront : work.turned.front with
  | nil => simp [queue_eq_nil hfront] at h
  | cons first rest =>
    obtain ⟨rfl, hrest⟩ := List.cons.inj ((queue_eq_cons hfront).symm.trans h)
    refine ⟨work.turned.leave first rest, hrest, by rw [leave_turned], by rw [leave_turned], ?_⟩
    intro next hnext
    rw [FlowProblem.settle, hfront]
    simp only [hnext]

/-- A position that is to wait comes last in the queue, unless it waits already. -/
theorem queue_update {position : ℕ} (frame : FlowFrame) (hlt : position < work.waiting.size) :
    (work.update position frame).queue =
      if work.waiting[position]? = some true then work.queue else work.queue ++ [position] := by
  rcases update_cases frame hlt with ⟨hwaits, hupdate⟩ | ⟨hidle, hupdate⟩
  · rw [hupdate, if_pos hwaits]
    rfl
  · rw [hupdate, hidle, if_neg (by simp)]
    simp [queue]

theorem size_update {position : ℕ} (frame : FlowFrame) (hlt : position < work.waiting.size) :
    (work.update position frame).frames.size = work.frames.size ∧
      (work.update position frame).waiting.size = work.waiting.size := by
  rcases update_cases frame hlt with ⟨-, hupdate⟩ | ⟨-, hupdate⟩ <;> simp [hupdate]

/-- A worklist for a code of some size has frames for some roots, which wait in their order, and for no other
position. -/
structure Entered (size : ℕ) (roots : List Root) (work : Worklist) : Prop where
  frames_size : work.frames.size = size
  waiting_size : work.waiting.size = size
  queue : work.queue = roots.map Prod.fst
  rooted : ∀ root ∈ roots, work.frame? root.1 = some root.2 ∧ work.waiting[root.1]? = some true
  free : ∀ {position}, position < size → position ∉ roots.map Prod.fst →
    work.frame? position = none ∧ work.waiting[position]? = some false

/-- At the start there are no frames. -/
theorem entered_start (size : ℕ) (initial : FlowFrame) : Entered size [] (start size initial) where
  frames_size := by simp [start]
  waiting_size := by simp [start]
  queue := rfl
  rooted root hmem := by cases hmem
  free hlt _ := by simp [start, frame?, hlt]

/-- A frame that is brought to another position is set there. -/
theorem Entered.update {size : ℕ} {roots : List Root} (h : Entered size roots work) {root : Root}
    (hlt : root.1 < size) (hnew : root.1 ∉ roots.map Prod.fst) :
    Entered size (roots ++ [root]) (work.update root.1 root.2) := by
  have hframes : root.1 < work.frames.size := h.frames_size ▸ hlt
  have hwaiting : root.1 < work.waiting.size := h.waiting_size ▸ hlt
  have hsize := size_update root.2 hwaiting
  refine ⟨hsize.1.trans h.frames_size, hsize.2.trans h.waiting_size, ?_, ?_, ?_⟩
  · rw [queue_update _ hwaiting, (h.free hlt hnew).2, if_neg (by simp), h.queue, List.map_append]
    rfl
  · intro other hmem
    rw [frame?_update hframes hwaiting, waiting_update hwaiting]
    rcases List.mem_append.mp hmem with hmem | hmem
    · have hne : other.1 ≠ root.1 := fun hsame => hnew (hsame ▸ List.mem_map_of_mem hmem)
      rw [if_neg hne, if_neg hne]
      exact h.rooted other hmem
    · rw [List.mem_singleton.mp hmem, if_pos rfl, if_pos rfl]
      exact ⟨rfl, rfl⟩
  · intro position hlt hmem
    rw [List.map_append, List.mem_append, not_or] at hmem
    have hne : position ≠ root.1 := fun hsame => hmem.2 (hsame ▸ List.mem_cons_self)
    rw [frame?_update hframes hwaiting, waiting_update hwaiting, if_neg hne, if_neg hne]
    exact h.free hlt hmem.1

/-- Frames are brought to different roots one after the other. -/
theorem exists_entered (hierarchy : Hierarchy) {size : ℕ} (initial : FlowFrame) {roots : List Root}
    (hlt : ∀ root ∈ roots, root.1 < size) (hapart : (roots.map Prod.fst).Nodup) :
    ∃ entered : Worklist, roots.foldlM (fun work root => work.bring hierarchy root.1 root.2)
      (start size initial) = .ok entered ∧ Entered size roots entered := by
  induction roots using List.reverseRecOn with
  | nil => exact ⟨_, rfl, entered_start size initial⟩
  | append_singleton roots root ih =>
    rw [List.map_append, List.nodup_append] at hapart
    have hnew : root.1 ∉ roots.map Prod.fst := fun hmem => hapart.2.2 _ hmem _ List.mem_cons_self rfl
    have hroot := hlt root (List.mem_append_right _ List.mem_cons_self)
    obtain ⟨work, hwork, h⟩ := ih (fun other hmem => hlt other (List.mem_append_left _ hmem)) hapart.1
    have hbring : work.bring hierarchy root.1 root.2 = .ok (work.update root.1 root.2) :=
      bring_eq_ok.mpr (.inl ⟨(h.free hroot hnew).1, rfl⟩)
    refine ⟨_, ?_, h.update hroot hnew⟩
    rw [List.foldlM_append]
    exact bind_eq_ok.mpr ⟨work, hwork, bind_eq_ok.mpr ⟨_, hbring, rfl⟩⟩

end Worklist

end ClassInstrument
