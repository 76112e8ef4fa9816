import ClassInstrument.Proofs.Analysis.Prologue

/-!
# Frames that are never merged

If every path brings the same frame to a position, then the analysis of a body asks nothing of the class
hierarchy: each position gets its frame once, and takes the same frame in whenever it is brought again.
`FlowProblem.Fixed` says so of frames that are given to positions.  An analysis then has the same result in
every hierarchy, even in one that answers no question (`Body.exists_analyze_of_fixed`).

Such frames are written beside the instructions of a body, and `Annotated` checks them from one instruction to
the next; the frames at labels are agreed on beforehand.
-/

namespace ClassInstrument

open Outcome

/-! ## Frames that are brought once -/

namespace Worklist

variable {given : ℕ → Option FlowFrame} {size : ℕ} {work : Worklist} {root : Root}

/-- Sets a frame at a position, unless there is one. -/
def put (work : Worklist) (root : Root) : Worklist :=
  if work.frame? root.1 = none then work.update root.1 root.2 else work

/-- A worklist has no frames but those that are given. -/
structure Keeps (given : ℕ → Option FlowFrame) (size : ℕ) (work : Worklist) : Prop where
  sized : work.Sized size
  frames : ∀ {position frame}, work.frame? position = some frame → given position = some frame

/-- The positions without frames, and those that wait. -/
def pending (size : ℕ) (work : Worklist) : ℕ :=
  {position ∈ Finset.range size | work.frame? position = none}.card + work.queue.length

/-- A given frame that is brought is set, or is there already. -/
theorem Keeps.bring_eq (h : work.Keeps given size) (hgiven : given root.1 = some root.2)
    (hcanonical : root.2.Canonical) (hierarchy : Hierarchy) :
    work.bring hierarchy root.1 root.2 = .ok (work.put root) := by
  rw [put]
  cases hframe : work.frame? root.1 with
  | none => exact bring_eq_ok.mpr (.inl ⟨hframe, by rw [if_pos rfl]⟩)
  | some existing =>
    obtain rfl : existing = root.2 := Option.some.inj ((h.frames hframe).symm.trans hgiven)
    exact bring_eq_ok.mpr (.inr ⟨_, hframe, .inl ⟨mergeFrames_self hcanonical _ _, by rw [if_neg (by simp)]⟩⟩)

/-- Setting a given frame keeps to the given frames. -/
theorem Keeps.put (h : work.Keeps given size) (hgiven : given root.1 = some root.2) (hlt : root.1 < size) :
    (work.put root).Keeps given size := by
  unfold Worklist.put
  split
  · refine ⟨h.sized.update hlt _, fun {position frame} hframe => ?_⟩
    rw [frame?_update (h.sized.frames.symm ▸ hlt) (h.sized.waiting.symm ▸ hlt)] at hframe
    split at hframe
    · next hsame =>
      rw [hsame, hgiven, hframe]
    · exact h.frames hframe
  · exact h

/-- Setting a frame makes no more pending. -/
theorem pending_put_le (hsized : work.Sized size) (hlt : root.1 < size) :
    (work.put root).pending size ≤ work.pending size := by
  unfold Worklist.put
  split
  · next hnone =>
    have hframes : root.1 < work.frames.size := hsized.frames.symm ▸ hlt
    have hwaiting : root.1 < work.waiting.size := hsized.waiting.symm ▸ hlt
    have hfewer : {position ∈ Finset.range size | (work.update root.1 root.2).frame? position = none}.card <
        {position ∈ Finset.range size | work.frame? position = none}.card := by
      refine Finset.card_lt_card (Finset.ssubset_iff_of_subset ?_ |>.mpr ⟨root.1, ?_, ?_⟩)
      · intro position hmem
        rw [Finset.mem_filter, frame?_update hframes hwaiting] at hmem
        split at hmem
        · simp at hmem
        · exact Finset.mem_filter.mpr hmem
      · exact Finset.mem_filter.mpr ⟨Finset.mem_range.mpr hlt, hnone⟩
      · simp [frame?_update hframes hwaiting]
    have hqueue : (work.update root.1 root.2).queue.length ≤ work.queue.length + 1 := by
      rw [queue_update _ hwaiting]
      split <;> simp
    rw [pending, pending]
    omega
  · exact le_rfl

/-- Turning the queue round changes no frames. -/
theorem frame?_turned (work : Worklist) (position : ℕ) :
    work.turned.frame? position = work.frame? position := by
  unfold turned
  split <;> rfl

/-- Turning the queue round keeps to the given frames. -/
theorem Keeps.turned (h : work.Keeps given size) : work.turned.Keeps given size := by
  refine ⟨?_, fun hframe => h.frames (frame?_turned work _ ▸ hframe)⟩
  unfold Worklist.turned
  split
  · exact ⟨h.sized.frames, h.sized.waiting⟩
  · exact h.sized

/-- Once a position is taken off the queue, less is pending. -/
theorem Keeps.leave (h : work.Keeps given size) {position : ℕ} {others : List ℕ}
    (hfront : work.turned.front = position :: others) :
    (work.turned.leave position others).Keeps given size ∧
      (work.turned.leave position others).pending size < work.pending size := by
  have hturned := h.turned
  refine ⟨⟨⟨hturned.sized.frames, ?_⟩, hturned.frames⟩, ?_⟩
  · simp [Worklist.leave, hturned.sized.waiting]
  · have hframe (place : ℕ) : (work.turned.leave position others).frame? place = work.frame? place :=
      frame?_turned work place
    have hqueue := congrArg List.length (queue_eq_cons hfront)
    simp only [pending, hframe, hqueue, List.length_cons]
    omega

/-- Given frames that are delivered are set one after the other. -/
theorem Keeps.deliver_eq {sent : List Root} (h : work.Keeps given size)
    (hsent : ∀ root ∈ sent, given root.1 = some root.2 ∧ root.2.Canonical ∧ root.1 < size)
    (hierarchy : Hierarchy) : work.deliver hierarchy sent = .ok (sent.foldl Worklist.put work) ∧
      (sent.foldl Worklist.put work).Keeps given size ∧
      (sent.foldl Worklist.put work).pending size ≤ work.pending size := by
  induction sent generalizing work with
  | nil => exact ⟨rfl, h, le_rfl⟩
  | cons root sent ih =>
    obtain ⟨⟨hgiven, hcanonical, hlt⟩, hothers⟩ := List.forall_mem_cons.mp hsent
    obtain ⟨hdeliver, hkeeps, hpending⟩ := ih (h.put hgiven hlt) hothers
    refine ⟨bind_eq_ok.mpr ⟨_, h.bring_eq hgiven hcanonical hierarchy, hdeliver⟩, hkeeps,
      hpending.trans (pending_put_le h.sized hlt)⟩

end Worklist

/-! ## Settling in every hierarchy -/

namespace FlowProblem

variable {problem : FlowProblem} {given : ℕ → Option FlowFrame} {work : Worklist}

/-- The same problem in another hierarchy. -/
def under (problem : FlowProblem) (hierarchy : Hierarchy) : FlowProblem := { problem with hierarchy }

/-- Given frames are fixed if a visit to a position brings the frames that are given to the others. -/
structure Fixed (problem : FlowProblem) (given : ℕ → Option FlowFrame) : Prop where
  canonical : ∀ {position frame}, given position = some frame → frame.Canonical
  inside : ∀ {position frame}, given position = some frame → position < problem.code.size
  delivers : ∀ {position before}, given position = some before → ∃ sent noted,
    problem.Delivers position before sent noted ∧ ∀ root ∈ sent, given root.1 = some root.2

/-- What a visit brings where does not depend on the hierarchy. -/
theorem Delivers.under {position : ℕ} {before : FlowFrame} {sent : List Root} {noted : Option FlowFrame}
    (h : problem.Delivers position before sent noted) (hierarchy : Hierarchy) :
    (problem.under hierarchy).Delivers position before sent noted := by
  cases h with
  | pass here unreal => exact .pass here unreal
  | flow here real runs placed room => exact .flow here real runs placed room

/-- A visit that keeps to fixed frames is the same in every hierarchy, and makes no more pending. -/
theorem Fixed.exists_visit (h : problem.Fixed given) (hkeeps : work.Keeps given problem.code.size)
    (position : ℕ) : ∃ next : Worklist,
      (∀ hierarchy, (problem.under hierarchy).visit position work = .ok next) ∧
        next.Keeps given problem.code.size ∧
          next.pending problem.code.size ≤ work.pending problem.code.size := by
  cases hbefore : work.frame? position with
  | none =>
    refine ⟨work, fun hierarchy => ?_, hkeeps, le_rfl⟩
    unfold visit
    rw [hbefore]
    split <;> simp_all [pure, Except.pure]
  | some before =>
    have hgiven := hkeeps.frames hbefore
    obtain ⟨sent, noted, hdelivers, hsent⟩ := h.delivers hgiven
    have hnoted : (work.note before noted).Keeps given problem.code.size := by
      cases noted with
      | none => exact hkeeps
      | some after => exact ⟨⟨hkeeps.sized.1, hkeeps.sized.2⟩, hkeeps.frames⟩
    have hsame : (work.note before noted).pending problem.code.size = work.pending problem.code.size := by
      cases noted <;> rfl
    have hdeliver := hnoted.deliver_eq fun root hmem =>
      ⟨hsent root hmem, h.canonical (hsent root hmem), h.inside (hsent root hmem)⟩
    refine ⟨sent.foldl Worklist.put (work.note before noted), fun hierarchy => ?_,
      (hdeliver problem.hierarchy).2.1, (hdeliver problem.hierarchy).2.2.trans_eq hsame⟩
    exact (@visit_eq_ok (problem.under hierarchy) _ _ _ _ (h.inside hgiven) hbefore).mpr
      ⟨sent, noted, hdelivers.under hierarchy, (hdeliver hierarchy).1⟩

/-- **Fixed frames settle**, in every hierarchy with the same result. -/
theorem Fixed.exists_settle (h : problem.Fixed given) (hkeeps : work.Keeps given problem.code.size) :
    ∃ result : Worklist, (∀ hierarchy, (problem.under hierarchy).settle work = some (.ok result)) ∧
      result.Keeps given problem.code.size := by
  -- The induction is on what is pending: a visit takes a position off the queue, and puts one on it for each
  -- position that gets its frame.
  induction hmeasure : work.pending problem.code.size using Nat.strong_induction_on generalizing work with
  | h bound ih =>
    subst hmeasure
    cases hfront : work.turned.front with
    | nil => exact ⟨work.turned, fun hierarchy => by rw [settle, hfront], hkeeps.turned⟩
    | cons position others =>
      obtain ⟨hleft, hfewer⟩ := hkeeps.leave hfront
      obtain ⟨next, hnext, hkeepsNext, hle⟩ := h.exists_visit hleft position
      obtain ⟨result, hresult, hkeepsResult⟩ := ih _ (hle.trans_lt hfewer) hkeepsNext rfl
      refine ⟨result, fun hierarchy => ?_, hkeepsResult⟩
      rw [settle, hfront]
      simp only [hnext hierarchy]
      exact hresult hierarchy

end FlowProblem

/-- A hierarchy that answers no question. -/
def Hierarchy.silent : Hierarchy where
  shape name := .error (.typeNotFound name)

/-- **Fixed frames are found in every hierarchy.**  If the frame on entry is the one that is given to the
start, all analyses of a body have the same result, and its frames are given ones. -/
theorem Body.exists_analyze_of_fixed {body : Body} {method : MethodContext} {given : ℕ → Option FlowFrame}
    {initial : FlowFrame} {handlers : List PlacedHandler}
    (hinitial : method.initialFrame = .ok initial) (hhandlers : body.placedHandlers = .ok handlers)
    (hfixed : (body.flowProblem method .silent handlers).Fixed given) (hstart : given 0 = some initial) :
    ∃ analysis, (∀ hierarchy, analyze body method hierarchy [] = .ok analysis) ∧
      ∀ {position frame}, analysis.frames[position]? = some (some frame) → given position = some frame := by
  have hlt : 0 < body.instructions.length := size_code.symm ▸ hfixed.inside hstart
  have hempty : (Worklist.start body.instructions.length initial).Keeps given body.instructions.length := by
    refine ⟨⟨by simp [Worklist.start], by simp [Worklist.start]⟩, fun {position frame} hframe => ?_⟩
    rw [Worklist.frame?, Worklist.start, Array.getElem?_replicate] at hframe
    split at hframe <;> cases hframe
  have hentered (hierarchy : Hierarchy) :=
    @Worklist.Keeps.bring_eq _ _ _ (0, initial) hempty hstart (hfixed.canonical hstart) hierarchy
  obtain ⟨result, hresult, hkeeps⟩ := hfixed.exists_settle
    (size_code.symm ▸ @Worklist.Keeps.put _ _ _ (0, initial) hempty hstart hlt)
  refine ⟨result.outcome, fun other => ?_, fun hframe => hkeeps.frames (frames_outcome.mp hframe)⟩
  refine analyze_eq_ok.mpr ⟨initial, handlers, _, result, hinitial, hhandlers, List.ne_nil_of_length_pos hlt,
    bind_eq_ok.mpr ⟨_, hentered other, rfl⟩, hresult other, rfl⟩

/-! ## Frames beside instructions -/

/-- Instructions with the frames before them.  Each instruction runs from its frame to that of the next one,
or to the one behind all of them, if control continues there, and to the frames that are marked at its
targets.  What is marked at a label is the frame before it. -/
inductive Annotated (method : MethodContext) (source : Array Instruction)
    (marked : Label → Option FlowFrame) (behind : Option FlowFrame) :
    List Instruction → List FlowFrame → Prop
  /-- No instructions have no frames. -/
  | nil : Annotated method source marked behind [] []
  /-- An instruction comes with its frame. -/
  | cons {instruction code before after frames}
      (runs : ∀ origin, Transfer.execute method source origin instruction before = .ok after)
      (falls : instruction.fallsThrough → frames.head?.or behind = some after)
      (jumps : ∀ target ∈ instruction.targets, marked target = some after)
      (stands : ∀ label frame, instruction = .label label → marked label = some frame → before = frame)
      (rest : Annotated method source marked behind code frames) :
      Annotated method source marked behind (instruction :: code) (before :: frames)

namespace Annotated

variable {method : MethodContext} {source : Array Instruction} {marked : Label → Option FlowFrame}
  {behind : Option FlowFrame} {code others : List Instruction} {frames more : List FlowFrame}
  {position : ℕ} {instruction : Instruction} {before : FlowFrame}

/-- What is no label asks for no frame that is marked at it. -/
theorem stands_of_unplaced (h : instruction.placed? = none) (label : Label) (frame : FlowFrame)
    (heq : instruction = .label label) : marked label = some frame → before = frame := by
  rw [heq] at h
  cases h

/-- What leads nowhere else and is no label only goes on. -/
theorem plain {after : FlowFrame}
    (runs : ∀ origin, Transfer.execute method source origin instruction before = .ok after)
    (falls : instruction.fallsThrough → frames.head?.or behind = some after)
    (targets : instruction.targets = []) (unplaced : instruction.placed? = none)
    (rest : Annotated method source marked behind code frames) :
    Annotated method source marked behind (instruction :: code) (before :: frames) :=
  .cons runs falls (by simp [targets]) (stands_of_unplaced unplaced) rest

/-- Instructions may be followed by others. -/
theorem append (h : Annotated method source marked (more.head?.or behind) code frames)
    (hothers : Annotated method source marked behind others more) :
    Annotated method source marked behind (code ++ others) (frames ++ more) := by
  induction h with
  | nil => exact hothers
  | @cons _ _ _ _ frames runs falls jumps stands _ ih =>
    refine .cons runs (fun h => ?_) jumps stands ih
    change (frames ++ more).head?.or behind = _
    rw [List.head?_append, Option.or_assoc]
    exact falls h

/-- There is a frame beside each instruction. -/
theorem length_eq (h : Annotated method source marked behind code frames) :
    frames.length = code.length := by
  induction h with
  | nil => rfl
  | cons _ _ _ _ _ ih => rw [List.length_cons, List.length_cons, ih]

/-- Straight code without jumps and marked labels has the frames that it runs through beside it. -/
theorem of_straight {block : List Instruction} {first last : FlowFrame}
    (h : Straight method source block first frames last)
    (hplain : ∀ instruction ∈ block,
      instruction.targets = [] ∧ ∀ label, instruction = .label label → marked label = none) :
    Annotated method source marked (some last) block frames := by
  induction h with
  | nil => exact .nil
  | cons runs rest ih =>
    obtain ⟨⟨htargets, hlabel⟩, hothers⟩ := List.forall_mem_cons.mp hplain
    refine .cons runs (fun _ => ?_) (by simp [htargets]) ?_ (ih hothers)
    · cases rest <;> rfl
    · intro label frame hsame hframe
      rw [hlabel label hsame] at hframe
      cases hframe

/-- What an instruction leads to. -/
theorem step (h : Annotated method source marked behind code frames)
    (here : code[position]? = some instruction) (hbefore : frames[position]? = some before) :
    ∃ after, (∀ origin, Transfer.execute method source origin instruction before = .ok after) ∧
      (instruction.fallsThrough → (frames ++ behind.toList)[position + 1]? = some after) ∧
      (∀ target ∈ instruction.targets, marked target = some after) ∧
      ∀ label frame, instruction = .label label → marked label = some frame → before = frame := by
  induction h generalizing position with
  | nil => simp at here
  | @cons _ _ _ after frames runs falls jumps stands _ ih =>
    cases position with
    | zero =>
      obtain rfl := Option.some.inj here
      obtain rfl := Option.some.inj hbefore
      refine ⟨after, runs, fun h => ?_, jumps, stands⟩
      rw [List.cons_append, List.getElem?_cons_succ, ← List.head?_eq_getElem?, List.head?_append,
        ← falls h]
      cases behind <;> rfl
    | succ position => exact ih here hbefore

/-- **Frames beside the instructions of a body are fixed**, if handlers are entered with the frames beside
them. -/
theorem fixed {body : Body} {handlers : List PlacedHandler} {hierarchy : Hierarchy}
    (h : Annotated method body.instructions.toArray marked none body.instructions frames)
    (hlabelled : body.WellLabelled)
    (hmarked : ∀ label frame, marked label = some frame → label ∈ placedLabels body.instructions)
    (hcanonical : ∀ frame ∈ frames, frame.Canonical)
    (hcaught : ∀ handler ∈ handlers, ∀ position, handler.covers position →
      ∀ frame, frames[position]? = some frame ∨ frames[position + 1]? = some frame →
        frames[handler.handler]? = some (handler.entryFrame frame.locals))
    (hcovered : ∀ handler ∈ handlers, ∀ position, handler.covers position →
      ∀ instruction ∈ body.instructions[position]?, instruction.fallsThrough) :
    (body.flowProblem method hierarchy handlers).Fixed (frames[·]?) where
  canonical hframe := hcanonical _ (List.mem_of_getElem? hframe)
  inside hframe := by
    rw [Body.size_code, ← h.length_eq]
    exact (List.getElem?_eq_some_iff.mp hframe).1
  delivers {position before} hbefore := by
    have hlt : position < body.instructions.length := by
      rw [← h.length_eq]
      exact (List.getElem?_eq_some_iff.mp hbefore).1
    have here := List.getElem?_eq_getElem hlt
    set instruction := body.instructions[position] with hinstruction
    obtain ⟨after, runs, hfalls, hjumps, -⟩ := h.step here hbefore
    rw [Option.toList_none, List.append_nil] at hfalls
    have here' : (body.flowProblem method hierarchy handlers).code[position]? = some instruction :=
      Body.getElem?_code.trans here
    by_cases real : instruction.isReal
    · have hplace : ∀ target ∈ instruction.targets, ∃ place,
          body.labelPositions.find target = .ok place ∧ frames[place]? = some after := by
        intro target htarget
        obtain ⟨place, hplace⟩ := List.mem_iff_getElem?.mp
          (mem_placedLabels.mp (hmarked target after (hjumps target htarget)))
        refine ⟨place, Body.find_labelPositions.mpr (hlabelled.places_iff.mpr hplace), ?_⟩
        obtain ⟨found, hfound⟩ : ∃ found, frames[place]? = some found := by
          refine ⟨_, List.getElem?_eq_getElem ?_⟩
          rw [h.length_eq]
          exact (List.getElem?_eq_some_iff.mp hplace).1
        obtain ⟨-, -, -, -, hstands⟩ := h.step hplace hfound
        rw [hfound, hstands target after rfl (hjumps target htarget)]
      obtain ⟨places, hplaces⟩ : ∃ places, List.Forall₂ (fun target place =>
          body.labelPositions.find target = .ok place ∧ frames[place]? = some after)
            instruction.targets places := by
        choose! place hplace using hplace
        exact ⟨instruction.targets.map place, List.forall₂_map_right_iff.mpr (List.forall₂_same.mpr hplace)⟩
      refine ⟨_, _, .flow here' real (runs position) (hplaces.imp fun _ _ h => h.1) (fun falls => ?_), ?_⟩
      · rw [Body.size_code, ← h.length_eq]
        exact (List.getElem?_eq_some_iff.mp (hfalls falls)).1
      · intro root hmem
        rw [List.mem_append, List.mem_append] at hmem
        rcases hmem with hthrown | hjumped | hnext
        · obtain ⟨handler, hhandler, hmem⟩ := List.mem_flatMap.mp hthrown
          obtain ⟨hlisted, hcovers⟩ := List.mem_filter.mp hhandler
          simp only [List.mem_cons, List.not_mem_nil, or_false] at hmem
          rcases hmem with rfl | rfl
          · exact hcaught handler hlisted position hcovers before (.inl hbefore)
          · exact hcaught handler hlisted position hcovers after
              (.inr (hfalls (hcovered handler hlisted position hcovers _ here)))
        · obtain ⟨place, hplace, rfl⟩ := List.mem_map.mp hjumped
          obtain ⟨target, -, -, hframe⟩ := exists_left_of_forall₂ hplaces hplace
          exact hframe
        · split at hnext
          · next falls =>
            obtain rfl := List.mem_singleton.mp hnext
            exact hfalls falls
          · cases hnext
    · refine ⟨_, _, .pass here' (by simpa using real), fun root hmem => ?_⟩
      split at hmem
      · obtain rfl := List.mem_singleton.mp hmem
        have hsame : after = before := by
          have hrun := runs 0
          cases hcase : instruction <;> rw [hcase] at real hrun <;>
            first | exact (pure_eq_ok.mp hrun).symm | simp [Instruction.isReal] at real
        exact hsame ▸ hfalls (Instruction.fallsThrough_of_unreal (by simpa using real))
      · cases hmem

end Annotated

end ClassInstrument
