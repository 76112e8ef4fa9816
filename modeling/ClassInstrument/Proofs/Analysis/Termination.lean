import ClassInstrument.Proofs.Analysis.CanonicalFrames
import ClassInstrument.Proofs.Analysis.Reach

/-!
# Analyses end

In a well formed hierarchy every analysis ends.  Each visit takes a position off the queue.  It puts
others there only when their frame is set for the first time, or changes; and a frame that changes
loses weight.  So the weights of the frames, position by position, and then the length of the queue
go down in a well-founded order.
-/

namespace ClassInstrument

open Outcome

variable {hierarchy : Hierarchy} {problem : FlowProblem} {work work' : Worklist}

/-- That frames are in canonical form, and take in what is below them, is a law of every problem with
a well formed hierarchy. -/
theorem canonicalLaws (hwf : problem.hierarchy.WellFormed) :
    problem.Laws (fun _ frame => frame.Canonical)
      (fun existing incoming => FrameBelow problem.hierarchy incoming existing) where
  refl _ := .refl _
  trans hab hbc := hbc.trans hwf hab
  covers h _ hmerge := (mergeFrames_eq_none_iff hwf h).mp hmerge
  merges _ _ hmerge := ⟨canonical_of_mergeFrames hmerge, below_of_mergeFrames hwf hmerge⟩
  sends := by
    intro position before next frame h hsends
    have hexecute : ∀ {instruction after},
        Transfer.execute problem.method problem.code position instruction before = .ok after →
          after.Canonical := by
      intro instruction after runs
      have hends := (canonicalRules position instruction).execute h problem.method problem.code
      rwa [runs] at hends
    cases hsends with
    | pass _ _ _ => exact h
    | next _ _ runs _ _ => exact hexecute runs
    | jump _ _ runs _ _ => exact hexecute runs
    | throwBefore _ _ _ _ => exact PlacedHandler.canonical_entryFrame _ h
    | throwAfter _ _ runs _ _ => exact PlacedHandler.canonical_entryFrame _ (hexecute runs)

namespace Worklist

/-! ## The measure -/

/-- What a frame may still lose; more than any frame if there is none yet. -/
noncomputable def cost (hierarchy : Hierarchy) : Option FlowFrame → WithTop (ℕ ×ₗ ℕ)
  | none => ⊤
  | some frame => frameWeight hierarchy frame

/-- What the frames at the positions of a code may still lose, then the length of the queue. -/
noncomputable def measure (problem : FlowProblem) (work : Worklist) :
    (Fin problem.code.size → WithTop (ℕ ×ₗ ℕ)) ×ₗ ℕ :=
  toLex (fun position => cost problem.hierarchy (work.frame? position),
    work.front.length + work.back.length)

/-- What is common to the frames of an analysis in a well formed hierarchy. -/
abbrev Tidy (problem : FlowProblem) (work : Worklist) : Prop :=
  work.Consistent problem fun _ frame => frame.Canonical

/-- A later worklist is as tidy as an earlier one, and its measure is not higher. -/
def Descends (problem : FlowProblem) (work work' : Worklist) : Prop :=
  work'.Tidy problem ∧ measure problem work' ≤ measure problem work

/-- A frame that is set at a lower cost takes the measure down. -/
theorem measure_update_lt (h : work.Tidy problem) {position : Nat} {frame : FlowFrame}
    (hlt : position < problem.code.size)
    (hcost : cost problem.hierarchy (some frame) < cost problem.hierarchy (work.frame? position)) :
    measure problem (work.update position frame) < measure problem work := by
  have hframe : ∀ other, (work.update position frame).frame? other =
      if other = position then some frame else work.frame? other :=
    fun other => frame?_update (h.frames_size ▸ hlt) (h.waiting_size ▸ hlt)
  refine Prod.Lex.toLex_lt_toLex.mpr (Or.inl (Pi.lt_def.mpr ⟨fun other => ?_, ⟨position, hlt⟩, ?_⟩))
  · dsimp only
    rw [hframe]
    split
    · next hsame => exact hsame ▸ hcost.le
    · exact le_rfl
  · dsimp only
    rw [hframe, if_pos rfl]
    exact hcost

/-- Bringing a frame ends, and does not take the measure up. -/
theorem ends_bring (hwf : problem.hierarchy.WellFormed) (h : work.Tidy problem) {position : Nat}
    {incoming : FlowFrame} (hlt : position < problem.code.size) (hcanonical : incoming.Canonical) :
    Ends (Descends problem work)
      (work.bring problem.hierarchy position incoming) := by
  cases hbring : work.bring problem.hierarchy position incoming with
  | error fault =>
    unfold bring at hbring
    split at hbring
    · exact absurd hbring pure_ne_error
    · next existing hexisting =>
      rcases bind_eq_error.mp hbring with hmerge | ⟨found, -, hfound⟩
      · exact isEndless_of_mergeFrames hwf hmerge
      · split at hfound <;> exact absurd hfound pure_ne_error
  | ok work' =>
    refine ⟨(step_bring (canonicalLaws hwf) h hlt hcanonical hbring).1.consistent, ?_⟩
    rcases bring_eq_ok.mp hbring with ⟨hnone, rfl⟩ | ⟨existing, hexisting, hmerge⟩
    · exact (measure_update_lt h hlt (by rw [hnone]; exact WithTop.coe_lt_top _)).le
    rcases hmerge with ⟨-, rfl⟩ | ⟨merged, hmerge, rfl⟩
    · exact le_rfl
    · refine (measure_update_lt h hlt ?_).le
      rw [hexisting]
      exact WithTop.coe_lt_coe.mpr (frameWeight_lt hwf (h.fits hexisting) hmerge)

/-- A fold ends if its steps do. -/
theorem ends_foldlM {α : Type} (post : Worklist → Prop)
    {action : Worklist → α → Except Fault Worklist} {items : List α}
    (hstep : ∀ work item, item ∈ items → post work → Ends post (action work item))
    (h : post work) : Ends post (items.foldlM action work) := by
  induction items generalizing work with
  | nil => exact h
  | cons item items ih =>
    rw [List.foldlM_cons]
    refine Ends.bind (hstep work item List.mem_cons_self h) fun next hnext => ?_
    exact ih (fun work other hother => hstep work other (List.mem_cons_of_mem _ hother)) hnext

/-! ## Visits -/

/-- Carrying the frame before an instruction on ends, and does not take the measure up. -/
theorem ends_flow (hwf : problem.hierarchy.WellFormed) (hplaced : problem.Placed)
    (h : work.Tidy problem) {position : Nat} {instruction : Instruction} {before : FlowFrame}
    (hbefore : before.Canonical) :
    Ends (Descends problem work)
      (problem.flow position instruction before work) := by
  have hbring : ∀ (middle : Worklist) {place : Nat} {frame : FlowFrame},
      place < problem.code.size → frame.Canonical →
      Descends problem work middle → Ends (Descends problem work)
        (middle.bring problem.hierarchy place frame) := by
    rintro middle place frame hlt hcanonical ⟨htidy, hle⟩
    exact (ends_bring hwf htidy hlt hcanonical).mono fun next hnext => ⟨hnext.1, hnext.2.trans hle⟩
  unfold FlowProblem.flow
  refine Ends.bind ((canonicalRules position instruction).execute hbefore _ _) fun after hafter => ?_
  have hnoted : Descends problem work (work.noteSizes before after) :=
    ⟨(step_noteSizes (canonicalLaws hwf) h before after).consistent, le_rfl⟩
  refine Ends.bind (ends_foldlM (Descends problem work) (fun middle handler hmem hmiddle => ?_) hnoted)
    fun thrown hthrown => ?_
  · have hlt := hplaced.handler_lt (List.mem_of_mem_filter hmem)
    exact Ends.bind (hbring middle hlt (handler.canonical_entryFrame hbefore) hmiddle)
      fun next hnext => hbring next hlt (handler.canonical_entryFrame hafter) hnext
  refine Ends.bind (ends_foldlM (Descends problem work) (fun middle target _ hmiddle => ?_) hthrown) fun jumped hjumped => ?_
  · exact Ends.bind (Ends.find _ target) fun place hplace =>
      hbring middle (hplaced.find_lt hplace) hafter hmiddle
  split
  · split
    · next hroom => exact hbring jumped hroom hafter hjumped
    · rfl
  · exact hjumped

/-- A visit ends, and does not take the measure up. -/
theorem ends_visit (hwf : problem.hierarchy.WellFormed) (hplaced : problem.Placed)
    (h : work.Tidy problem) (position : Nat) :
    Ends (Descends problem work)
      (problem.visit position work) := by
  unfold FlowProblem.visit
  split
  · next instruction before _ hframe =>
    split
    · exact ends_flow hwf hplaced h (h.fits hframe)
    · split
      · next hroom => exact ends_bring hwf h hroom (h.fits hframe)
      · exact ⟨h, le_rfl⟩
  · exact ⟨h, le_rfl⟩

/-! ## Settling -/

/-- Taking a position off the queue takes the measure down. -/
theorem tidy_leave (h : work.Tidy problem) {position : Nat} {others : List Nat}
    (hfront : work.turned.front = position :: others) :
    (work.turned.leave position others).Tidy problem ∧
      measure problem (work.turned.leave position others) < measure problem work := by
  refine ⟨h.leave hfront, ?_⟩
  have hlength := @length_turned work
  rw [hfront, List.length_cons] at hlength
  rw [leave_turned]
  refine Prod.Lex.toLex_lt_toLex.mpr (Or.inr ⟨rfl, ?_⟩)
  dsimp only
  omega

/-- **Settling ends.**  In a well formed hierarchy no worklist goes on for ever. -/
theorem exists_settle (hwf : problem.hierarchy.WellFormed) (hplaced : problem.Placed)
    (h : work.Tidy problem) :
    ∃ outcome, problem.settle work = some outcome ∧ Ends (fun _ => True) outcome := by
  induction hmeasure : measure problem work using WellFoundedLT.induction generalizing work with
  | ind bound ih =>
    subst hmeasure
    rw [FlowProblem.settle]
    split
    · exact ⟨_, rfl, trivial⟩
    · next position others hfront =>
      obtain ⟨htidy, hless⟩ := tidy_leave h hfront
      have hends := ends_visit hwf hplaced htidy position
      split
      · next fault hvisit =>
        rw [hvisit] at hends
        exact ⟨_, rfl, hends⟩
      · next work' hvisit =>
        rw [hvisit] at hends
        exact ih _ (hends.2.trans_lt hless) hends.1 rfl

end Worklist

section

variable {body : Body} {method : MethodContext}

end

end ClassInstrument
