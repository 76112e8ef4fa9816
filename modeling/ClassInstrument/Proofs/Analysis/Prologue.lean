import ClassInstrument.Proofs.Analysis.Confinement
import ClassInstrument.Proofs.Analysis.Embedding
import ClassInstrument.Proofs.Execution.Insertion

/-!
# Code in front of a body

Code that is put in front of a body runs first, and hands the frame on entry over to what was the first entry
of the body.  Nothing leads back into it: the labels of the body are all behind it, and no handler covers it.
So from then on an analysis makes the visits that it made without that code, in the same order, with every
position moved; between them it may follow a trail that is left in the new code.

`FlowProblem.Unrolls` lists what is visited first and what waits then.  A body is accepted with code in front
of it if that code hands over and leaves a trail (`FlowProblem.HandsOver`), and then all of its frames are
those that it had (`exists_analyze_insertAt_zero`).
-/

namespace ClassInstrument

open Outcome

/-! ## Merging what is there -/

/-- A frame in canonical form takes itself in. -/
theorem mergeFrames_self {frame : FlowFrame} (h : frame.Canonical) (hierarchy : Hierarchy)
    (position : ℕ) : mergeFrames hierarchy position frame frame = .ok none := by
  have htypes : ∀ type, Merge.types hierarchy type type = .ok (some type) := fun type => by
    unfold Merge.types
    exact if_pos rfl
  have hself : ∀ {f : FlowType × FlowType → Except Fault FlowType}, (∀ type, f (type, type) = .ok type) →
      ∀ types : List FlowType, (types.zip types).mapM f = .ok types := by
    intro f hf types
    rw [mapM_eq_ok]
    induction types with
    | nil => exact .nil
    | cons type types ih => exact .cons (hf type) ih
  refine mergeFrames_eq_ok.mpr ⟨rfl, frame.stack.toList, frame.locals, hself (fun type => ?_) _,
    hself (fun type => ?_) _, ?_⟩
  · rw [Merge.stackValues, htypes]
    rfl
  · rw [Merge.locals, htypes]
    rfl
  · rw [if_pos ⟨h.locals_eq, by rw [h.stack_eq]⟩]

/-! ## First visits -/

/-- From a position with a frame where something waits at first, a list of positions is visited, and what waits
then are the others. -/
inductive FlowProblem.Unrolls (problem : FlowProblem) (first : Root) : List Root → List Root → Prop
  /-- At first the position itself waits. -/
  | start : Unrolls problem first [] [first]
  /-- What is visited next brings frames to new positions. -/
  | visit {done root waiting sent noted} (before : Unrolls problem first done (root :: waiting))
      (delivers : problem.Delivers root.1 root.2 sent noted) :
      Unrolls problem first (done ++ [root]) (waiting ++ sent)

/-- A run of positions is visited, each of which brings a frame to the next one only. -/
theorem FlowProblem.Unrolls.along {problem : FlowProblem} {first root last : Root} {done : List Root}
    (run : List Root) (h : problem.Unrolls first done [root])
    (hchain : (root :: (run ++ [last])).IsChain fun root next =>
      ∃ noted, problem.Delivers root.1 root.2 [next] noted) :
    problem.Unrolls first (done ++ root :: run) [last] := by
  induction run generalizing done root with
  | nil =>
    obtain ⟨noted, hdelivers⟩ := (List.isChain_cons_cons.mp hchain).1
    exact h.visit hdelivers
  | cons next run ih =>
    obtain ⟨⟨noted, hdelivers⟩, hchain⟩ := List.isChain_cons_cons.mp hchain
    have hnext : problem.Unrolls first (done ++ [root]) [next] := h.visit hdelivers
    simpa using ih hnext hchain

namespace Worklist

variable {problem : FlowProblem} {size : ℕ} {work : Worklist} {done waiting sent : List Root} {root : Root}

/-- A worklist has frames for some positions, and a part of them waits. -/
structure Visited (size : ℕ) (done waiting : List Root) (work : Worklist) : Prop where
  sized : work.Sized size
  queue : work.queue = waiting.map Prod.fst
  frame : ∀ root ∈ done ++ waiting, work.frame? root.1 = some root.2
  free : ∀ {position}, position < size → position ∉ (done ++ waiting).map Prod.fst →
    work.frame? position = none
  idle : ∀ {position}, position < size → position ∉ waiting.map Prod.fst →
    work.waiting[position]? = some false
  waits : ∀ root ∈ waiting, work.waiting[root.1]? = some true

/-- At the start some roots wait. -/
theorem Entered.visited {roots : List Root} (h : Entered size roots work) : work.Visited size [] roots where
  sized := ⟨h.frames_size, h.waiting_size⟩
  queue := h.queue
  frame root hmem := (h.rooted root hmem).1
  free hlt hmem := (h.free hlt hmem).1
  idle hlt hmem := (h.free hlt hmem).2
  waits root hmem := (h.rooted root hmem).2

/-- Noting sizes changes nothing in what was visited. -/
theorem Visited.note (h : work.Visited size done waiting) (before : FlowFrame) (after : Option FlowFrame) :
    (work.note before after).Visited size done waiting := by
  cases after with
  | none => exact h
  | some after => exact ⟨⟨h.sized.1, h.sized.2⟩, h.queue, h.frame, h.free, h.idle, h.waits⟩

/-- A frame that is brought to a new position waits there. -/
theorem Visited.bring (h : work.Visited size done waiting) (hierarchy : Hierarchy) (hlt : root.1 < size)
    (hnew : root.1 ∉ (done ++ waiting).map Prod.fst) :
    ∃ next, work.bring hierarchy root.1 root.2 = .ok next ∧ next.Visited size done (waiting ++ [root]) := by
  have hframes : root.1 < work.frames.size := h.sized.frames.symm ▸ hlt
  have hwaiting : root.1 < work.waiting.size := h.sized.waiting.symm ▸ hlt
  have hidle : root.1 ∉ waiting.map Prod.fst := fun hmem =>
    hnew (by rw [List.map_append]; exact List.mem_append_right _ hmem)
  have hne : ∀ other ∈ done ++ waiting, other.1 ≠ root.1 := fun other hmem heq =>
    hnew (heq ▸ List.mem_map_of_mem hmem)
  refine ⟨_, bring_eq_ok.mpr (.inl ⟨h.free hlt hnew, rfl⟩), h.sized.update hlt _, ?_, ?_, ?_, ?_, ?_⟩
  · rw [queue_update _ hwaiting, h.idle hlt hidle, if_neg (by simp), h.queue, List.map_append]
    rfl
  · intro other hmem
    rw [frame?_update hframes hwaiting]
    rw [← List.append_assoc, List.mem_append, List.mem_singleton] at hmem
    rcases hmem with hmem | rfl
    · rw [if_neg (hne other hmem), h.frame other hmem]
    · rw [if_pos rfl]
  · intro position hposition hmem
    rw [← List.append_assoc, List.map_append, List.mem_append, not_or] at hmem
    rw [frame?_update hframes hwaiting, if_neg (by simpa using hmem.2), h.free hposition hmem.1]
  · intro position hposition hmem
    rw [List.map_append, List.mem_append, not_or] at hmem
    rw [waiting_update hwaiting, if_neg (by simpa using hmem.2), h.idle hposition hmem.1]
  · intro other hmem
    rw [waiting_update hwaiting]
    rcases List.mem_append.mp hmem with hmem | hmem
    · rw [if_neg (hne other (List.mem_append_right _ hmem)), h.waits other hmem]
    · rw [List.mem_singleton.mp hmem, if_pos rfl]

/-- Frames that are delivered to new positions wait there. -/
theorem Visited.deliver (h : work.Visited size done waiting) (hierarchy : Hierarchy)
    (hlt : ∀ root ∈ sent, root.1 < size) (hnew : ((done ++ (waiting ++ sent)).map Prod.fst).Nodup) :
    ∃ next, work.deliver hierarchy sent = .ok next ∧ next.Visited size done (waiting ++ sent) := by
  induction sent generalizing work waiting with
  | nil => exact ⟨work, rfl, by rwa [List.append_nil]⟩
  | cons root sent ih =>
    obtain ⟨hroot, hothers⟩ := List.forall_mem_cons.mp hlt
    have hfresh : root.1 ∉ (done ++ waiting).map Prod.fst := by
      intro hmem
      rw [← List.append_assoc, List.map_append, List.nodup_append] at hnew
      exact hnew.2.2 _ hmem _ (List.mem_map_of_mem List.mem_cons_self) rfl
    obtain ⟨middle, hmiddle, hvisited⟩ := h.bring hierarchy hroot hfresh
    obtain ⟨next, hnext, hvisited⟩ := ih hvisited hothers (by simpa using hnew)
    exact ⟨next, bind_eq_ok.mpr ⟨middle, hmiddle, hnext⟩, by simpa using hvisited⟩

/-- A visit to what waits first leaves the others. -/
theorem Visited.leave (h : work.Visited size done (root :: waiting))
    (hapart : ((done ++ root :: waiting).map Prod.fst).Nodup) {left : Worklist}
    (hleft : left.queue = waiting.map Prod.fst) (hframes : left.frames = work.frames)
    (hwaiting : left.waiting = work.waiting.setIfInBounds root.1 false) :
    left.Visited size (done ++ [root]) waiting := by
  have hframe (place : ℕ) : left.frame? place = work.frame? place := by rw [frame?, frame?, hframes]
  have hsame : (done ++ [root]) ++ waiting = done ++ root :: waiting := by simp
  have hroot : root.1 ∉ waiting.map Prod.fst := by
    rw [List.map_append, List.nodup_append] at hapart
    exact (List.nodup_cons.mp hapart.2.1).1
  refine ⟨⟨hframes ▸ h.sized.frames, by simp [hwaiting, h.sized.waiting]⟩, hleft, ?_, ?_, ?_, ?_⟩
  · intro other hmem
    rw [hframe, h.frame other (hsame ▸ hmem)]
  · intro position hlt hmem
    rw [hframe, h.free hlt (hsame ▸ hmem)]
  · intro position hlt hmem
    rw [hwaiting, Array.getElem?_setIfInBounds, h.sized.waiting]
    split
    · next heq => rw [if_pos (heq ▸ hlt)]
    · next hne =>
      refine h.idle hlt fun hfound => ?_
      rcases List.mem_cons.mp hfound with heq | hfound
      · exact hne heq.symm
      · exact hmem hfound
  · intro other hmem
    rw [hwaiting, Array.getElem?_setIfInBounds, if_neg, h.waits other (List.mem_cons_of_mem _ hmem)]
    intro heq
    exact hroot (heq ▸ List.mem_map_of_mem hmem)

/-- **First visits are made.**  An analysis that starts at some position makes the visits that are listed. -/
theorem Visited.exists_settle {first : Root} (hunrolls : problem.Unrolls first done waiting)
    (h : work.Visited problem.code.size [] [first])
    (hlt : ∀ root ∈ done ++ waiting, root.1 < problem.code.size)
    (hapart : ((done ++ waiting).map Prod.fst).Nodup) :
    ∃ next, problem.settle work = problem.settle next ∧ next.Visited problem.code.size done waiting := by
  induction hunrolls with
  | start => exact ⟨work, rfl, h⟩
  | @visit done root waiting sent noted before delivers ih =>
    have hsame : (done ++ [root]) ++ (waiting ++ sent) = (done ++ root :: waiting) ++ sent := by simp
    rw [hsame] at hlt
    have hbefore : ((done ++ root :: waiting).map Prod.fst).Nodup := by
      rw [hsame, List.map_append] at hapart
      exact (List.nodup_append.mp hapart).1
    obtain ⟨middle, hmiddle, hvisited⟩ := ih (fun other hmem => hlt other (List.mem_append_left _ hmem)) hbefore
    obtain ⟨left, hleft, hframes, hwaiting, hsettle⟩ :=
      exists_settle_of_queue_cons problem (hvisited.queue.trans (List.map_cons ..))
    have hleave := hvisited.leave hbefore hleft hframes hwaiting
    have hframe : left.frame? root.1 = some root.2 := hleave.frame root (by simp)
    obtain ⟨next, hnext, hvisited⟩ := (hleave.note root.2 noted).deliver problem.hierarchy
      (fun other hmem => hlt other (List.mem_append_right _ hmem)) hapart
    exact ⟨next, hmiddle.trans (hsettle next ((FlowProblem.visit_eq_ok (hlt root (by simp)) hframe).mpr
      ⟨sent, noted, delivers, hnext⟩)), hvisited⟩

/-- When some roots wait that fit their positions, and nothing else is there, the invariant holds. -/
theorem Entered.invariant {fits : ℕ → FlowFrame → Prop} {takes : FlowFrame → FlowFrame → Prop}
    {roots : List Root} (h : Entered problem.code.size roots work)
    (hfits : ∀ root ∈ roots, fits root.1 root.2) : work.Invariant problem fits takes := by
  have hsized : work.Sized problem.code.size := ⟨h.frames_size, h.waiting_size⟩
  have hroot : ∀ {position frame}, work.frame? position = some frame → (position, frame) ∈ roots := by
    intro position frame hframe
    by_cases hmem : position ∈ roots.map Prod.fst
    · obtain ⟨root, hroot, rfl⟩ := List.mem_map.mp hmem
      obtain rfl := Option.some.inj ((h.rooted root hroot).1.symm.trans hframe)
      exact hroot
    · rw [(h.free (hsized.lt hframe) hmem).1] at hframe
      cases hframe
  refine ⟨⟨h.frames_size, h.waiting_size, fun hframe => hfits _ (hroot hframe), ?_⟩, ?_⟩
  · intro position hwaits
    have hlt : position < problem.code.size := h.waiting_size ▸ (Array.getElem?_eq_some_iff.mp hwaits).1
    have hmem : position ∈ work.queue := by
      rw [h.queue]
      by_contra hfree
      rw [(h.free hlt hfree).2] at hwaits
      cases hwaits
    rwa [Worklist.queue, List.mem_append, List.mem_reverse] at hmem
  · intro position frame hidle hframe
    rw [(h.rooted _ (hroot hframe)).2] at hidle
    cases hidle

end Worklist

/-! ## The code behind -/

/-- A handler with moved positions. -/
def PlacedHandler.moved (move : ℕ → ℕ) (handler : PlacedHandler) : PlacedHandler where
  start := move handler.start
  stop := move handler.stop
  handler := move handler.handler
  caught := handler.caught

section

variable {body : Body} {method : MethodContext} {hierarchy : Hierarchy} {handlers : List PlacedHandler}
  {front : List Instruction} (howns : body.OwnsLabels) (howns' : (body.insertAt 0 front).OwnsLabels)

/-- Code in front of everything else moves everything else. -/
theorem shiftBehind_zero (count place : ℕ) : shiftBehind 0 count place = place + count := by
  rw [shiftBehind, if_pos (Nat.zero_le _)]

/-- What was there stands behind the code in front of it. -/
theorem Body.getElem?_insertAt_zero (body : Body) (front : List Instruction) (place : ℕ) :
    (body.insertAt 0 front).instructions[place + front.length]? = body.instructions[place]? := by
  rw [← shiftBehind_zero]
  exact getElem?_insertAt_shift (Nat.zero_le _) place

include howns howns'

/-- Labels are placed behind the code in front of them. -/
theorem Body.OwnsLabels.places_insertAt_zero {label : Label} {place : ℕ} :
    (body.insertAt 0 front).Places label (place + front.length) ↔ body.Places label place := by
  rw [← shiftBehind_zero]
  exact places_insertAt_iff howns.wellLabelled howns'.wellLabelled (Nat.zero_le _)

/-- Handlers are placed behind the code in front of them. -/
theorem Body.OwnsLabels.placedHandlers_insertAt_zero (hhandlers : body.placedHandlers = .ok handlers) :
    (body.insertAt 0 front).placedHandlers =
      .ok (handlers.map (PlacedHandler.moved (· + front.length))) := by
  refine mapM_eq_ok.mpr (List.forall₂_map_right_iff.mpr
    ((placedHandlers_eq_ok hhandlers).imp fun handler placed hplaces => ?_))
  have hfind : ∀ {label place}, body.Places label place →
      (body.insertAt 0 front).labelPositions.find label = .ok (place + front.length) := fun hplace =>
    find_labelPositions.mpr ((howns.places_insertAt_zero howns').mpr hplace)
  rw [hfind hplaces.start, hfind hplaces.stop, hfind hplaces.entry]
  exact congrArg Except.ok (by rw [PlacedHandler.moved, hplaces.caught])

/-- **The body is found again behind the code in front of it.** -/
theorem Body.OwnsLabels.embeds_insertAt_zero :
    (body.flowProblem method hierarchy handlers).Embeds ((body.insertAt 0 front).flowProblem method
      hierarchy (handlers.map (PlacedHandler.moved (· + front.length))))
      (· < body.instructions.length) (· + front.length) [] where
  injective := add_left_injective _
  method := rfl
  hierarchy := rfl
  lt hlt := size_code.symm ▸ hlt
  code _ here := by
    rw [getElem?_code] at here ⊢
    exact (getElem?_insertAt_zero body front _).trans here
  next _ _ _ := by
    rw [size_code, size_code, length_insertAt (Nat.zero_le _)]
    exact ⟨by omega, fun _ => by omega⟩
  labels hfind _ :=
    find_labelPositions.mpr ((howns.places_insertAt_zero howns').mpr (find_labelPositions.mp hfind))
  handlers {position _} _ _ _ := by
    have hsame : (handlers.map (PlacedHandler.moved (· + front.length))).filter
        (·.covers (position + front.length)) =
          (handlers.filter (·.covers position)).map (PlacedHandler.moved (· + front.length)) := by
      rw [List.filter_map]
      refine congrArg _ (List.filter_congr fun handler _ => ?_)
      simp [PlacedHandler.covers, PlacedHandler.moved]
    change List.Forall₂ _ (handlers.filter (·.covers position)) ((handlers.map _).filter _)
    rw [hsame]
    exact List.forall₂_map_right_iff.mpr (List.forall₂_same.mpr fun _ _ => ⟨rfl, rfl⟩)
  apart root hmem := by cases hmem
  stops root hmem := by cases hmem

omit howns howns' in
/-- What stands behind the code in front of it leads to nothing in that code. -/
theorem Body.OwnsLabels.le_of_sends (hnew : ∀ label ∈ placedLabels front, label ∉ body.labels)
    {position place : ℕ} {before frame : FlowFrame} (hbehind : front.length ≤ position)
    (hsends : ((body.insertAt 0 front).flowProblem method hierarchy
      (handlers.map (PlacedHandler.moved (· + front.length)))).Sends position before place frame) :
    front.length ≤ place := by
  have hthrown : ∀ {handler}, handler ∈ handlers.map (PlacedHandler.moved (· + front.length)) →
      front.length ≤ handler.handler := by
    rintro _ hmem
    obtain ⟨handler, -, rfl⟩ := List.mem_map.mp hmem
    exact Nat.le_add_left _ _
  cases hsends with
  | pass => omega
  | next => omega
  | throwBefore _ _ listed => exact hthrown listed
  | throwAfter _ _ _ listed => exact hthrown listed
  | @jump instruction _ target _ here _ _ targeted placed =>
    obtain ⟨old, rfl⟩ := Nat.exists_eq_add_of_le' hbehind
    rw [getElem?_code, getElem?_insertAt_zero] at here
    obtain ⟨old', rfl, -⟩ := (getElem?_insertAt_label_iff (Nat.zero_le _) hnew
      (mem_labels_of_target (List.mem_of_getElem? here) targeted)).mp (find_labelPositions.mp placed).1
    rw [shiftBehind_zero]
    exact Nat.le_add_left _ _

end

/-! ## Handing over -/

/-- Code in front of a body hands over: the positions that are visited first bring the frame on entry to what
is behind the code, and nothing else; what else waits then leads along a trail. -/
structure FlowProblem.HandsOver (problem : FlowProblem) (initial : FlowFrame) (count : ℕ)
    (done waiting trail : List Root) (last : Root) : Prop where
  unrolls : problem.Unrolls (0, initial) done waiting
  apart : ((done ++ waiting).map Prod.fst).Nodup
  lt : ∀ root ∈ done ++ waiting, root.1 < problem.code.size
  inside : ∀ root ∈ done, root.1 < count
  behind : waiting.filter (count ≤ ·.1) = [(count, initial)]
  first : waiting.filter (¬ count ≤ ·.1) = trail.take 1
  later : ∀ root ∈ trail.tail, root.1 ∉ (done ++ waiting).map Prod.fst
  ends : last ∈ done
  trail : problem.Trail (count ≤ ·) last trail

namespace Worklist

variable {problem : FlowProblem} {initial : FlowFrame} {count : ℕ} {done waiting trail : List Root}
  {last : Root} {work : Worklist}

/-- The worklist without what waits outside a side. -/
def restricted (side : ℕ → Prop) [DecidablePred side] (work : Worklist) : Worklist :=
  { work with front := work.queue.filter (side ·), back := [] }

/-- What waits on a side still does, in the same order. -/
theorem queue_restricted (side : ℕ → Prop) [DecidablePred side] (work : Worklist) :
    (work.restricted side).queue = work.queue.filter (side ·) :=
  List.append_nil _

/-- On the side a restricted worklist is the same. -/
theorem agreeOn_restricted {side : ℕ → Prop} [DecidablePred side] {size : ℕ} (h : work.Sized size) :
    AgreeOn side size (work.restricted side) work := by
  refine ⟨⟨h.1, h.2⟩, h, fun _ => rfl, fun _ => rfl, ?_⟩
  rw [queue_restricted, List.filter_filter]
  simp

/-- When the code in front has handed over, the worklist follows the trail that is left. -/
theorem Visited.follows (h : work.Visited problem.code.size done waiting)
    (hhands : problem.HandsOver initial count done waiting trail last) :
    work.Follows (count ≤ ·) last trail := by
  have hfirst : ∀ root ∈ trail.head?, root ∈ waiting := by
    intro root hmem
    obtain ⟨rest, rfl⟩ := List.head?_eq_some_iff.mp hmem
    have hmem' : root ∈ waiting.filter (¬ count ≤ ·.1) := by
      rw [hhands.first]
      simp
    exact (List.mem_filter.mp hmem').1
  refine ⟨?_, ?_, ?_, h.frame last (List.mem_append_left _ hhands.ends)⟩
  · rw [h.queue, ← hhands.first, List.filter_map]
    rfl
  · exact fun root hmem => h.frame root (List.mem_append_right _ (hfirst root hmem))
  · intro root hmem
    have hlt := hhands.trail.lt root (List.mem_append_left _ (List.mem_of_mem_tail hmem))
    have hnew := hhands.later root hmem
    refine ⟨h.free hlt hnew, h.idle hlt fun hfound => hnew ?_⟩
    rw [List.map_append]
    exact List.mem_append_right _ hfound

/-- When the code in front has handed over, what is behind it is as at the start of the body alone. -/
theorem Visited.moved {alone : FlowProblem} (h : work.Visited problem.code.size done waiting)
    (hhands : problem.HandsOver initial count done waiting trail last) {before : Worklist}
    (hbefore : Entered alone.code.size [(0, initial)] before)
    (hplain : initial.mapSites (· + count) = initial) {length : ℕ} (hsize : alone.code.size = length)
    (hsize' : problem.code.size = length + count) (hpos : 0 < length) :
    Moved alone problem (· < length) (· + count) [] [] before (work.restricted (count ≤ ·)) := by
  have hstart : (count, initial) ∈ waiting := by
    have hmem : (count, initial) ∈ waiting.filter (count ≤ ·.1) := by simp [hhands.behind]
    exact (List.mem_filter.mp hmem).1
  -- of what is behind the code, only the start was visited
  have honly : ∀ {position}, position ≠ 0 → position + count ∉ (done ++ waiting).map Prod.fst := by
    intro position hne hmem
    obtain ⟨root, hroot, heq⟩ := List.mem_map.mp hmem
    rcases List.mem_append.mp hroot with hroot | hroot
    · have := hhands.inside root hroot
      omega
    · have hfound : root ∈ waiting.filter (count ≤ ·.1) :=
        List.mem_filter.mpr ⟨hroot, by simp [heq]⟩
      rw [hhands.behind, List.mem_singleton] at hfound
      rw [hfound] at heq
      dsimp only at heq
      omega
  have hzero := hbefore.rooted (0, initial) (by simp)
  refine ⟨hbefore.frames_size, hbefore.waiting_size, h.sized.frames, h.sized.waiting, ?_, ?_,
    ⟨[0], [], hbefore.queue, ?_⟩, ?_, fun _ => id, by simp⟩
  · intro position hlt
    change work.frame? (position + count) = _
    by_cases hposition : position = 0
    · rw [hposition, Nat.zero_add, h.frame _ (List.mem_append_right _ hstart), hzero.1, Option.map_some,
        hplain]
    · rw [(hbefore.free (hsize.symm ▸ hlt) (by simpa using hposition)).1, h.free (by omega) (honly hposition)]
      rfl
  · intro position hlt
    change work.waiting[position + count]? = _
    by_cases hposition : position = 0
    · rw [hposition, Nat.zero_add, h.waits _ hstart, hzero.2]
    · rw [(hbefore.free (hsize.symm ▸ hlt) (by simpa using hposition)).2, h.idle (by omega) fun hmem => ?_]
      refine honly hposition ?_
      rw [List.map_append]
      exact List.mem_append_right _ hmem
  · have hqueue : (work.restricted (count ≤ ·)).queue = (waiting.filter (count ≤ ·.1)).map Prod.fst := by
      rw [queue_restricted, h.queue, List.filter_map]
      rfl
    rw [hqueue, hhands.behind]
    simp
  · intro position hmem
    rw [hbefore.queue, List.map_singleton, List.mem_singleton] at hmem
    exact hmem ▸ hpos

end Worklist

section

variable {body : Body} {method : MethodContext} {hierarchy : Hierarchy} {handlers : List PlacedHandler}

/-- A frame at a position of the code that names creation sites in it. -/
def FlowProblem.Inside (problem : FlowProblem) (position : ℕ) (frame : FlowFrame) : Prop :=
  position < problem.code.size ∧
    frame.Sound fun type => ∀ site, type = .uninit site → site < problem.code.size

/-- That frames are at positions of the code and name creation sites in it is a law of every problem. -/
theorem insideLaws {problem : FlowProblem} (hplaced : problem.Placed) :
    problem.Laws problem.Inside fun _ _ => True := by
  refine soundLaws (fun hplain site hsite => absurd hsite (hplain site)) problem ?_
    fun _ hsends => hsends.lt hplaced
  rintro position name hlt - site ⟨⟩
  exact hlt

/-- The frames of a worklist for some code are its outcome. -/
theorem Worklist.Sized.getElem?_frames {size position : ℕ} {work : Worklist} (h : work.Sized size)
    (hlt : position < size) : work.frames[position]? = some (work.frame? position) := by
  rw [Worklist.frame?, Array.getElem?_eq_getElem (h.frames.symm ▸ hlt)]
  rfl

/-- **Code in front of a body.**  A body that is accepted is accepted with code in front of it that hands over,
and then each of its entries has the frame that it had. -/
theorem exists_analyze_insertAt_zero {front : List Instruction} {analysis : Analysis}
    (howns : body.OwnsLabels) (howns' : (body.insertAt 0 front).OwnsLabels)
    (hnew : ∀ label ∈ placedLabels front, label ∉ body.labels)
    (h : analyze body method hierarchy [] = .ok analysis)
    (hhands : ∀ (initial : FlowFrame) (handlers : List PlacedHandler), method.initialFrame = .ok initial → 0 < body.instructions.length →
      ∃ done waiting trail last, ((body.insertAt 0 front).flowProblem method hierarchy
        (handlers.map (PlacedHandler.moved (· + front.length)))).HandsOver initial front.length done waiting
          trail last) :
    ∃ analysis', analyze (body.insertAt 0 front) method hierarchy [] = .ok analysis' ∧
      ∀ place < body.instructions.length, analysis'.frames[place + front.length]? =
        (analysis.frames[place]?).map (Option.map (·.mapSites (· + front.length))) := by
  obtain ⟨initial, handlers, entered, settled, hinitial, hhandlers, hnonempty, hentered, hsettled, rfl⟩ :=
    analyze_eq_ok.mp h
  have hpos : 0 < body.instructions.length := List.length_pos_of_ne_nil hnonempty
  have hlength : (body.insertAt 0 front).instructions.length = body.instructions.length + front.length :=
    Body.length_insertAt (Nat.zero_le _)
  have hhandlers' := howns.placedHandlers_insertAt_zero howns' hhandlers
  have hplain := MethodContext.sound_initialFrame hinitial
  obtain ⟨done, waiting, trail, last, hhands⟩ := hhands initial handlers hinitial hpos
  have embeds := @Body.OwnsLabels.embeds_insertAt_zero body method hierarchy handlers front howns howns'
  have hplaced := @Body.placed_flowProblem body method hierarchy handlers hhandlers
  have hplaced' := @Body.placed_flowProblem _ method hierarchy _ hhandlers'
  have hclosed := fun {position before place frame} => @Body.OwnsLabels.le_of_sends body method hierarchy
    handlers front hnew position place before frame
  have hsize := @Body.size_code body method hierarchy handlers
  have hsize' := @Body.size_code (body.insertAt 0 front) method hierarchy
    (handlers.map (PlacedHandler.moved (· + front.length)))
  -- both analyses start with the frame on entry
  obtain ⟨first, hfirst, hrooted⟩ := Worklist.exists_entered hierarchy initial
    (List.forall_mem_singleton.mpr hpos) (List.nodup_singleton (0, initial).1)
  obtain rfl := Except.ok.inj (hfirst.symm.trans hentered)
  obtain ⟨second, hsecond, hrooted'⟩ := Worklist.exists_entered hierarchy initial
    (List.forall_mem_singleton.mpr (hlength ▸ Nat.add_pos_left hpos _ :
      0 < (body.insertAt 0 front).instructions.length)) (List.nodup_singleton (0, initial).1)
  suffices hsettles : ∃ settled', ((body.insertAt 0 front).flowProblem method hierarchy
      (handlers.map (PlacedHandler.moved (· + front.length)))).settle second = some (.ok settled') ∧
        ∀ place < body.instructions.length, settled'.frames[place + front.length]? =
          (settled.frames[place]?).map (Option.map (·.mapSites (· + front.length))) by
    obtain ⟨settled', hsettled', hframes⟩ := hsettles
    exact ⟨settled'.outcome, analyze_eq_ok.mpr ⟨initial, _, second, settled', hinitial, hhandlers',
      List.ne_nil_of_length_pos (by omega), hsecond, hsettled', rfl⟩, hframes⟩
  rw [← hsize] at hrooted
  rw [← hsize'] at hrooted'
  rw [hlength] at hsize'
  generalize body.flowProblem method hierarchy handlers = problem at *
  generalize (body.insertAt 0 front).flowProblem method hierarchy
    (handlers.map (PlacedHandler.moved (· + front.length))) = problem' at *
  -- the code in front runs, and from then on both analyses visit the body in lock-step
  obtain ⟨handed, hhanded, hvisited⟩ := hrooted'.visited.exists_settle hhands.unrolls hhands.lt hhands.apart
  have hmoved := hvisited.moved hhands hrooted (Frame.mapSites_of_plain hplain.locals hplain.stack) hsize
    hsize' hpos
  have hinvariant : first.Invariant problem problem.Inside fun _ _ => True :=
    hrooted.invariant (List.forall_mem_singleton.mpr
      ⟨hsize.symm ▸ hpos, hplain.mono fun type hplain site hsite => absurd hsite (hplain site)⟩)
  obtain ⟨alone, halone, hmoved⟩ := hmoved.settle embeds (insideLaws hplaced) hplaced
    (fun hfits => ⟨hsize ▸ hfits.1, fun hmem => hsize ▸ hfits.2.stack _ hmem _ rfl⟩) hinvariant hsettled
  -- the trail that is left leads nowhere
  obtain ⟨settled', hsettled', hagree⟩ := (Worklist.agreeOn_restricted hvisited.sized).settle hplaced'
    (fun hside hsends => hclosed hside hsends)
    (fun position hmem => by
      rw [Worklist.queue_restricted] at hmem
      simpa using (List.mem_filter.mp hmem).2)
    (hvisited.follows hhands) hhands.trail halone
  refine ⟨settled', hhanded.trans hsettled', fun place hlt => ?_⟩
  have hsized : settled.Sized problem.code.size := ⟨hmoved.frames_size, hmoved.waiting_size⟩
  rw [hagree.sized'.getElem?_frames (by omega), hsized.getElem?_frames (by omega),
    hagree.frame (Nat.le_add_left _ _), hmoved.frame hlt]
  rfl

end

end ClassInstrument
