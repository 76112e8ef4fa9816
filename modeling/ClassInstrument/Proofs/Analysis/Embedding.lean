import ClassInstrument.Proofs.Analysis.FrameShape
import ClassInstrument.Proofs.Analysis.Worklist
import ClassInstrument.Proofs.Analysis.Renumbering

/-!
# Analyses in lock-step

What an analysis does depends on the order in which positions are visited.  If all that it reaches is found
again in another code, somewhere else but with the same connections, then an analysis of that code makes the
same visits in the same order.  The other code may have further roots, from where control goes nowhere: they
are visited between the others and change no frame.

So the frames are the same, up to creation sites that have moved.
-/

namespace ClassInstrument

open Outcome

/-! ## Embeddings -/

/-- Control ends at a position that is entered with a frame: no handler catches what is thrown there. -/
structure FlowProblem.Stops (problem : FlowProblem) (position : ℕ) (frame : FlowFrame) : Prop where
  runs : ∃ instruction after, problem.code[position]? = some instruction ∧ instruction.isReal ∧
    instruction.fallsThrough = false ∧ instruction.targets = [] ∧
      Transfer.execute problem.method problem.code position instruction frame = .ok after
  uncovered : ∀ handler ∈ problem.handlers, handler.covers position = false

/-- What a problem has at its kept positions is found again in another one, where these positions are moved
to, and so is what control goes to from there.  The roots that the other one has in addition are elsewhere,
and control ends there. -/
structure FlowProblem.Embeds (problem problem' : FlowProblem) (kept : ℕ → Prop) (move : ℕ → ℕ)
    (roots : List Root) : Prop where
  injective : Function.Injective move
  method : problem'.method = problem.method
  hierarchy : problem'.hierarchy = problem.hierarchy
  /-- Only positions of the code are kept. -/
  lt : ∀ {position}, kept position → position < problem.code.size
  /-- The same instructions are there. -/
  code : ∀ {position : ℕ} {instruction}, kept position → problem.code[position]? = some instruction →
    problem'.code[move position]? = some instruction
  /-- What comes next comes next, or there is nothing. -/
  next : ∀ {position : ℕ} {instruction}, kept position → problem.code[position]? = some instruction →
    instruction.fallsThrough → (position + 1 < problem.code.size ↔ move position + 1 < problem'.code.size) ∧
      (position + 1 < problem.code.size → move (position + 1) = move position + 1)
  /-- Labels are where their places have moved to. -/
  labels : ∀ {label place}, problem.positions.find label = .ok place → kept place →
    problem'.positions.find label = .ok (move place)
  /-- The same handlers cover an instruction, in the same order. -/
  handlers : ∀ {position : ℕ} {instruction}, kept position →
    problem.code[position]? = some instruction → instruction.isReal →
      List.Forall₂ (fun handler handler' : PlacedHandler =>
          handler'.handler = move handler.handler ∧ handler'.caught = handler.caught)
        (problem.handlers.filter (·.covers position)) (problem'.handlers.filter (·.covers (move position)))
  /-- The additional roots are no positions that were kept. -/
  apart : ∀ root ∈ roots, ∀ {position}, kept position → move position ≠ root.1
  /-- Control ends at the additional roots. -/
  stops : ∀ root ∈ roots, problem'.Stops root.1 root.2

/-- A frame at a kept position whose creation sites are kept, too. -/
structure Keeps (kept : ℕ → Prop) (position : ℕ) (frame : FlowFrame) : Prop where
  position : kept position
  sites : ∀ {site}, .uninit site ∈ frame.stack.toList → kept site

namespace Worklist

/-- A worklist has made the visits that another one has made, and some of the additional roots are still in
its queue. -/
structure Moved (problem problem' : FlowProblem) (kept : ℕ → Prop) (move : ℕ → ℕ) (roots : List Root)
    (pending : List Root) (work work' : Worklist) : Prop where
  frames_size : work.frames.size = problem.code.size
  waiting_size : work.waiting.size = problem.code.size
  frames_size' : work'.frames.size = problem'.code.size
  waiting_size' : work'.waiting.size = problem'.code.size
  /-- The frames are the same, up to creation sites. -/
  frame : ∀ {position}, kept position →
    work'.frame? (move position) = (work.frame? position).map (·.mapSites move)
  /-- The same positions wait. -/
  waiting : ∀ {position}, kept position → work'.waiting[move position]? = work.waiting[position]?
  /-- They wait in the same order. -/
  queue : ∃ before behind, work.queue = before ++ behind ∧
    work'.queue = before.map move ++ pending.map Prod.fst ++ behind.map move
  /-- Only kept positions wait. -/
  kept : ∀ position ∈ work.queue, kept position
  /-- Only additional roots wait in addition. -/
  pending : pending ⊆ roots
  /-- The additional roots keep their frames. -/
  rooted : ∀ root ∈ roots, work'.frame? root.1 = some root.2

namespace Moved

variable {problem problem' : FlowProblem} {kept : ℕ → Prop} {move : ℕ → ℕ} {roots pending : List Root}
  {work work' : Worklist} {position : ℕ}

/-- Lock-step is about frames, waiting positions and their order only. -/
theorem congr (h : Moved problem problem' kept move roots pending work work') {same same' : Worklist}
    (hframes : same.frames = work.frames) (hwaiting : same.waiting = work.waiting)
    (hqueue : same.queue = work.queue) (hframes' : same'.frames = work'.frames)
    (hwaiting' : same'.waiting = work'.waiting) (hqueue' : same'.queue = work'.queue) :
    Moved problem problem' kept move roots pending same same' := by
  have hframe (place : ℕ) : same.frame? place = work.frame? place := by rw [frame?, frame?, hframes]
  have hframe' (place : ℕ) : same'.frame? place = work'.frame? place := by rw [frame?, frame?, hframes']
  refine ⟨hframes ▸ h.frames_size, hwaiting ▸ h.waiting_size, hframes' ▸ h.frames_size',
    hwaiting' ▸ h.waiting_size', ?_, ?_, hqueue ▸ hqueue' ▸ h.queue, hqueue ▸ h.kept, h.pending, ?_⟩
  · intro place hkept
    rw [hframe, hframe', h.frame hkept]
  · intro place hkept
    rw [hwaiting, hwaiting', h.waiting hkept]
  · intro root hroot
    rw [hframe', h.rooted root hroot]

section

variable (embeds : problem.Embeds problem' kept move roots)
include embeds

/-- Kept positions are within the other code. -/
theorem move_lt (hkept : kept position) : move position < problem'.code.size :=
  (Array.getElem?_eq_some_iff.mp (embeds.code hkept (Array.getElem?_eq_getElem (embeds.lt hkept)))).1

/-- Frames are set in lock-step. -/
theorem update (h : Moved problem problem' kept move roots pending work work') (hkept : kept position)
    (frame : FlowFrame) : Moved problem problem' kept move roots pending (work.update position frame)
      (work'.update (move position) (frame.mapSites move)) := by
  have hframes : position < work.frames.size := h.frames_size ▸ embeds.lt hkept
  have hwaiting : position < work.waiting.size := h.waiting_size ▸ embeds.lt hkept
  have hframes' : move position < work'.frames.size := h.frames_size' ▸ move_lt embeds hkept
  have hwaiting' : move position < work'.waiting.size := h.waiting_size' ▸ move_lt embeds hkept
  have hsize := size_update frame hwaiting
  have hsize' := size_update (frame.mapSites move) hwaiting'
  have hqueue := queue_update frame hwaiting
  refine ⟨hsize.1.trans h.frames_size, hsize.2.trans h.waiting_size, hsize'.1.trans h.frames_size',
    hsize'.2.trans h.waiting_size', ?_, ?_, ?_, ?_, h.pending, ?_⟩
  · intro other hother
    rw [frame?_update hframes' hwaiting', frame?_update hframes hwaiting]
    simp only [embeds.injective.eq_iff]
    split
    · rfl
    · exact h.frame hother
  · intro other hother
    rw [waiting_update hwaiting', waiting_update hwaiting]
    simp only [embeds.injective.eq_iff]
    split
    · rfl
    · exact h.waiting hother
  · obtain ⟨before, behind, hold, hnew⟩ := h.queue
    rw [queue_update _ hwaiting', hqueue, h.waiting hkept]
    split
    · exact ⟨before, behind, hold, hnew⟩
    · exact ⟨before, behind ++ [position], by rw [hold, List.append_assoc], by
        rw [hnew, List.map_append, List.append_assoc]; rfl⟩
  · intro other hmem
    rw [hqueue] at hmem
    split at hmem
    · exact h.kept other hmem
    · rcases List.mem_append.mp hmem with hmem | hmem
      · exact h.kept other hmem
      · exact List.mem_singleton.mp hmem ▸ hkept
  · intro root hroot
    rw [frame?_update hframes' hwaiting', if_neg (embeds.apart root hroot hkept).symm]
    exact h.rooted root hroot

/-- Frames are brought in lock-step. -/
theorem bring (h : Moved problem problem' kept move roots pending work work') (hkept : kept position)
    {incoming : FlowFrame} {next : Worklist}
    (hbring : work.bring problem.hierarchy position incoming = .ok next) :
    ∃ next', work'.bring problem'.hierarchy (move position) (incoming.mapSites move) = .ok next' ∧
      Moved problem problem' kept move roots pending next next' := by
  have hframe := h.frame hkept
  simp only [bring_eq_ok, embeds.hierarchy]
  rcases bring_eq_ok.mp hbring with ⟨hnone, rfl⟩ | ⟨existing, hexisting, hmerge⟩
  · rw [hnone] at hframe
    exact ⟨_, .inl ⟨hframe, rfl⟩, h.update embeds hkept incoming⟩
  rw [hexisting] at hframe
  rcases hmerge with ⟨hmerge, rfl⟩ | ⟨merged, hmerge, rfl⟩
  · exact ⟨work', .inr ⟨_, hframe, .inl ⟨mergeFrames_mapSites embeds.injective hmerge, rfl⟩⟩, h⟩
  · exact ⟨_, .inr ⟨_, hframe, .inr ⟨_, mergeFrames_mapSites embeds.injective hmerge, rfl⟩⟩,
      h.update embeds hkept merged⟩

/-- Frames are brought to handlers in lock-step. -/
theorem bringToHandler (h : Moved problem problem' kept move roots pending work work')
    {handler handler' : PlacedHandler} (hkept : kept handler.handler)
    (hsame : handler'.handler = move handler.handler ∧ handler'.caught = handler.caught)
    {before after : FlowFrame} {next : Worklist}
    (hbring : problem.bringToHandler before after work handler = .ok next) :
    ∃ next', problem'.bringToHandler (before.mapSites move) (after.mapSites move) work' handler' =
      .ok next' ∧ Moved problem problem' kept move roots pending next next' := by
  have hentry (frame : FlowFrame) : handler'.entryFrame (frame.mapSites move).locals =
      (handler.entryFrame frame.locals).mapSites move := by
    rw [PlacedHandler.entryFrame, PlacedHandler.entryFrame, Frame.mapSites_push, hsame.2]
    rfl
  obtain ⟨middle, hmiddle, hbring⟩ := bind_eq_ok.mp hbring
  obtain ⟨middle', hmiddle', hmoved⟩ := h.bring embeds hkept hmiddle
  obtain ⟨next', hnext', hmoved⟩ := hmoved.bring embeds hkept hbring
  refine ⟨next', bind_eq_ok.mpr ⟨middle', ?_, ?_⟩, hmoved⟩
  · rw [hsame.1, hentry]
    exact hmiddle'
  · rw [hsame.1, hentry]
    exact hnext'

/-- A visit to an instruction is made in lock-step. -/
theorem flow {fits : ℕ → FlowFrame → Prop} {takes : FlowFrame → FlowFrame → Prop}
    (laws : problem.Laws fits takes) (hfits : ∀ {position frame}, fits position frame → Keeps kept position frame)
    (h : Moved problem problem' kept move roots pending work work') {instruction : Instruction}
    (here : problem.code[position]? = some instruction) (real : instruction.isReal) {before : FlowFrame}
    (hbefore : fits position before) {next : Worklist}
    (hflow : problem.flow position instruction before work = .ok next) :
    ∃ next', problem'.flow (move position) instruction (before.mapSites move) work' = .ok next' ∧
      Moved problem problem' kept move roots pending next next' := by
  obtain ⟨after, runs, hflow⟩ := bind_eq_ok.mp hflow
  obtain ⟨thrown, hthrown, hflow⟩ := bind_eq_ok.mp hflow
  obtain ⟨jumped, hjumped, hflow⟩ := bind_eq_ok.mp hflow
  have hkept := (hfits hbefore).position
  have runs' : Transfer.execute problem'.method problem'.code (move position) instruction
      (before.mapSites move) = .ok (after.mapSites move) := by
    rw [embeds.method]
    exact Transfer.execute_mapSites embeds.injective
      (fun site hsite name => embeds.code ((hfits hbefore).sites hsite)) runs
  have hnoted : Moved problem problem' kept move roots pending (work.noteSizes before after)
      (work'.noteSizes (before.mapSites move) (after.mapSites move)) :=
    h.congr rfl rfl rfl rfl rfl rfl
  -- the handlers that cover the position
  obtain ⟨thrown', hthrown', hmoved⟩ := exists_foldlM_of_forall₂ (embeds.handlers hkept here real)
    (fun {handler handler' state state' next} hmem hsame hmoved hbring => by
      obtain ⟨hmem, hcovers⟩ := List.mem_filter.mp hmem
      have hlisted := (hfits (laws.sends hbefore (.throwBefore here real hmem hcovers))).position
      exact bringToHandler embeds hmoved hlisted hsame hbring) hnoted hthrown
  -- the targets of a jump
  obtain ⟨jumped', hjumped', hmoved⟩ := exists_foldlM_of_forall₂
    (g := problem'.bringToTarget (after.mapSites move))
    (List.forall₂_same.mpr fun target _ => rfl)
    (fun {target target' state state' next} hmem hsame hmoved hbring => by
      obtain ⟨place, hplace, hbring⟩ := bind_eq_ok.mp hbring
      have hkept := (hfits (laws.sends hbefore (.jump here real runs hmem hplace))).position
      obtain ⟨next', hnext', hmoved⟩ := bring embeds hmoved hkept hbring
      exact ⟨next', bind_eq_ok.mpr ⟨_, hsame ▸ embeds.labels hplace hkept, hnext'⟩, hmoved⟩)
    hmoved hjumped
  -- the next entry
  suffices hlast : ∃ next', (if instruction.fallsThrough then
      if move position + 1 < problem'.code.size then
        jumped'.bring problem'.hierarchy (move position + 1) (after.mapSites move)
      else throw (.invalidFrame (move position) .fallsOffEnd)
      else return jumped' : Except Fault Worklist) = .ok next' ∧
        Moved problem problem' kept move roots pending next next' by
    obtain ⟨next', hnext', hmoved⟩ := hlast
    exact ⟨next', bind_eq_ok.mpr ⟨_, runs', bind_eq_ok.mpr ⟨thrown', hthrown',
      bind_eq_ok.mpr ⟨jumped', hjumped', hnext'⟩⟩⟩, hmoved⟩
  split at hflow
  · next hfalls =>
    obtain ⟨hroom, hnext⟩ := embeds.next hkept here hfalls
    split at hflow
    · next hlt =>
      rw [if_pos hfalls, if_pos (hroom.mp hlt), ← hnext hlt]
      exact hmoved.bring embeds
        (hfits (laws.sends hbefore (.next here real runs hfalls hlt))).position hflow
    · cases hflow
  · next hends =>
    obtain rfl := pure_eq_ok.mp hflow
    rw [if_neg hends]
    exact ⟨jumped', rfl, hmoved⟩

/-- A visit is made in lock-step. -/
theorem visit {fits : ℕ → FlowFrame → Prop} {takes : FlowFrame → FlowFrame → Prop}
    (laws : problem.Laws fits takes) (hfits : ∀ {position frame}, fits position frame → Keeps kept position frame)
    (hconsistent : work.Consistent problem fits)
    (h : Moved problem problem' kept move roots pending work work') (hkept : kept position) {next : Worklist}
    (hvisit : problem.visit position work = .ok next) :
    ∃ next', problem'.visit (move position) work' = .ok next' ∧
      Moved problem problem' kept move roots pending next next' := by
  have hlt := embeds.lt hkept
  have here := Array.getElem?_eq_getElem hlt
  have here' := embeds.code hkept here
  have hframe := h.frame hkept
  unfold FlowProblem.visit at hvisit ⊢
  simp only [here, here', hframe] at hvisit ⊢
  cases hbefore : work.frame? position with
  | none =>
    simp only [hbefore] at hvisit
    obtain rfl := pure_eq_ok.mp hvisit
    exact ⟨work', rfl, h⟩
  | some before =>
    simp only [hbefore, Option.map_some] at hvisit ⊢
    split at hvisit
    · next real =>
      rw [if_pos real]
      exact h.flow embeds laws hfits here real (hconsistent.fits hbefore) hvisit
    · next unreal =>
      have unreal := Bool.not_eq_true _ ▸ unreal
      obtain ⟨hroom, hnext⟩ := embeds.next hkept here (Instruction.fallsThrough_of_unreal unreal)
      rw [if_neg (by simp [unreal])]
      split at hvisit
      · next hlt =>
        rw [if_pos (hroom.mp hlt), ← hnext hlt]
        exact h.bring embeds
          (hfits (laws.sends (hconsistent.fits hbefore) (.pass here unreal hlt))).position hvisit
      · next hend =>
        obtain rfl := pure_eq_ok.mp hvisit
        rw [if_neg (mt hroom.mpr hend)]
        exact ⟨work', rfl, h⟩

/-- Taking the first position off both queues keeps the lock-step. -/
theorem leave (h : Moved problem problem' kept move roots pending work work') {others : List ℕ}
    {left left' : Worklist} (hqueue : work.queue = position :: others) (hleft : left.queue = others)
    (hframes : left.frames = work.frames) (hwaiting : left.waiting = work.waiting.setIfInBounds position false)
    (hframes' : left'.frames = work'.frames)
    (hwaiting' : left'.waiting = work'.waiting.setIfInBounds (move position) false)
    (hleft' : ∃ before behind, others = before ++ behind ∧
      left'.queue = before.map move ++ pending.map Prod.fst ++ behind.map move) :
    Moved problem problem' kept move roots pending left left' := by
  have hkept := h.kept position (hqueue ▸ List.mem_cons_self)
  have hlt : position < work.waiting.size := h.waiting_size ▸ embeds.lt hkept
  have hlt' : move position < work'.waiting.size := h.waiting_size' ▸ move_lt embeds hkept
  have hframe (place : ℕ) : left.frame? place = work.frame? place := by rw [frame?, frame?, hframes]
  have hframe' (place : ℕ) : left'.frame? place = work'.frame? place := by rw [frame?, frame?, hframes']
  refine ⟨hframes ▸ h.frames_size, by simp [hwaiting, h.waiting_size], hframes' ▸ h.frames_size',
    by simp [hwaiting', h.waiting_size'], ?_, ?_, hleft ▸ hleft', ?_, h.pending, ?_⟩
  · intro place hkept
    rw [hframe, hframe', h.frame hkept]
  · intro place hkept
    rw [hwaiting, hwaiting', Array.getElem?_setIfInBounds, Array.getElem?_setIfInBounds]
    simp only [embeds.injective.eq_iff, hlt, hlt', if_true]
    split
    · rfl
    · exact h.waiting hkept
  · intro place hmem
    exact h.kept place (hqueue ▸ List.mem_cons_of_mem _ (hleft ▸ hmem))
  · intro root hroot
    rw [hframe', h.rooted root hroot]

/-- A visit to an additional root changes no frame, and makes nothing wait. -/
theorem exists_visit_root {root : Root} (hroot : root ∈ roots)
    (hframe : work'.frame? root.1 = some root.2) :
    ∃ after, problem'.visit root.1 work' = .ok (work'.noteSizes root.2 after) := by
  obtain ⟨instruction, after, here, real, hends, hstraight, runs⟩ := (embeds.stops root hroot).runs
  refine ⟨after, ?_⟩
  have hnone : problem'.handlers.filter (·.covers root.1) = [] :=
    List.filter_eq_nil_iff.mpr fun handler hmem => by
      simp [(embeds.stops root hroot).uncovered handler hmem]
  unfold FlowProblem.visit
  simp only [here, hframe, real, if_true]
  unfold FlowProblem.flow
  rw [runs, hnone, hstraight, hends]
  rfl

/-- The additional roots at the head of the queue are visited before all others. -/
theorem exists_settle_pending (h : Moved problem problem' kept move roots pending work work')
    (hqueue : work'.queue = pending.map Prod.fst ++ work.queue.map move) :
    ∃ left', problem'.settle work' = problem'.settle left' ∧ left'.queue = work.queue.map move ∧
      Moved problem problem' kept move roots [] work left' := by
  induction pending generalizing work' with
  | nil => exact ⟨work', rfl, hqueue, h⟩
  | cons root pending ih =>
    have hroot : root ∈ roots := h.pending List.mem_cons_self
    obtain ⟨left', hleft', hframes', hwaiting', hsettle⟩ :=
      exists_settle_of_queue_cons problem' hqueue
    have hframe' (place : ℕ) : left'.frame? place = work'.frame? place := by
      rw [frame?, frame?, hframes']
    obtain ⟨after, hvisit⟩ := exists_visit_root embeds hroot
      ((hframe' root.1).trans (h.rooted root hroot))
    have hmoved : Moved problem problem' kept move roots pending work left' := by
      refine ⟨h.frames_size, h.waiting_size, hframes' ▸ h.frames_size', by simp [hwaiting', h.waiting_size'],
        ?_, ?_, ⟨[], work.queue, rfl, hleft'⟩, h.kept, List.subset_of_cons_subset h.pending,
        fun other hmem => (hframe' other.1).trans (h.rooted other hmem)⟩
      · exact fun hkept => (hframe' _).trans (h.frame hkept)
      · intro place hkept
        rw [hwaiting', Array.getElem?_setIfInBounds, if_neg (embeds.apart root hroot hkept).symm,
          h.waiting hkept]
    have hnoted : Moved problem problem' kept move roots pending work (left'.noteSizes root.2 after) :=
      hmoved.congr rfl rfl rfl rfl rfl rfl
    obtain ⟨last', hlast', hqueue', hmoved⟩ := ih hnoted hleft'
    exact ⟨last', (hsettle _ hvisit).trans hlast', hqueue', hmoved⟩

/-- Unless nothing waits, the second analysis comes to visit what the first one visits next. -/
theorem exists_settle_front (h : Moved problem problem' kept move roots pending work work')
    {others : List ℕ} (hqueue : work.queue = position :: others) :
    ∃ left' pending before behind, problem'.settle work' = problem'.settle left' ∧
      Moved problem problem' kept move roots pending work left' ∧ others = before ++ behind ∧
        left'.queue = move position :: (before.map move ++ pending.map Prod.fst ++ behind.map move) := by
  obtain ⟨before, behind, hold, hnew⟩ := h.queue
  rw [hqueue] at hold
  cases before with
  | nil =>
    obtain ⟨left', hleft', hqueue', hmoved⟩ :=
      h.exists_settle_pending embeds (by rw [hnew, hqueue, hold]; rfl)
    exact ⟨left', [], others, [], hleft', hmoved, by simp, by rw [hqueue', hqueue]; simp⟩
  | cons first before =>
    obtain ⟨rfl, rfl⟩ := List.cons.inj hold
    exact ⟨work', pending, before, behind, rfl, h, rfl, hnew⟩

/-- **Settling in lock-step.**  When the first analysis comes to an end, so does the second one, with the
same frames at the positions that were kept. -/
theorem settle {fits : ℕ → FlowFrame → Prop} {takes : FlowFrame → FlowFrame → Prop}
    (laws : problem.Laws fits takes) (hplaced : problem.Placed)
    (hfits : ∀ {position frame}, fits position frame → Keeps kept position frame)
    (hinvariant : work.Invariant problem fits takes) {result : Worklist}
    (hsettle : problem.settle work = some (.ok result))
    (h : Moved problem problem' kept move roots pending work work') :
    ∃ result', problem'.settle work' = some (.ok result') ∧
      Moved problem problem' kept move roots [] result result' := by
  suffices hall : ∀ (work : Worklist) (outcome : Except Fault Worklist),
      problem.settle work = some outcome → ∀ result, outcome = .ok result →
        work.Invariant problem fits takes → ∀ (pending : List Root) (work' : Worklist),
          Moved problem problem' kept move roots pending work work' →
            ∃ result', problem'.settle work' = some (.ok result') ∧
              Moved problem problem' kept move roots [] result result' from
    hall work (.ok result) hsettle result rfl hinvariant pending work' h
  clear h hsettle hinvariant
  refine FlowProblem.settle.partial_correctness problem _ ?_
  intro settle ih work outcome houtcome result hresult hinvariant pending work' h
  split at houtcome
  · next hfront =>
    obtain rfl := Except.ok.inj ((Option.some.inj houtcome).trans hresult)
    have hnil := queue_eq_nil hfront
    obtain ⟨before, behind, hold, hnew⟩ := h.queue
    obtain ⟨rfl, rfl⟩ := List.append_eq_nil_iff.mp (hold.symm.trans hnil)
    obtain ⟨left', hleft', hqueue', hmoved⟩ :=
      h.exists_settle_pending embeds (by rw [hnew, hnil]; rfl)
    refine ⟨left'.turned, ?_, hmoved.congr ?_ ?_ queue_turned ?_ ?_ queue_turned⟩
    · rw [hleft', settle_of_queue_nil (by rw [hqueue', hnil]; rfl)]
    all_goals rw [turned_eq]
  · next position others hfront =>
    split at houtcome
    · cases houtcome
      cases hresult
    · next next hvisit =>
      have hqueue := queue_eq_cons hfront
      obtain ⟨left', pending, before, behind, hsettle, hmoved, hothers, hqueue'⟩ :=
        h.exists_settle_front embeds hqueue
      obtain ⟨last', hlast', hframes', hwaiting', hgoes⟩ :=
        exists_settle_of_queue_cons problem' hqueue'
      have hmoved : Moved problem problem' kept move roots pending (work.turned.leave position others) last' :=
        hmoved.leave embeds hqueue rfl (by rw [leave_turned]) (by rw [leave_turned]) hframes' hwaiting'
          ⟨before, behind, hothers, hlast'⟩
      obtain ⟨next', hvisit', hmoved⟩ := hmoved.visit embeds laws hfits (hinvariant.consistent.leave hfront)
        (h.kept position (hqueue ▸ List.mem_cons_self)) hvisit
      rw [hsettle, hgoes next' hvisit']
      exact ih next outcome houtcome result hresult (hinvariant.visit laws hplaced hfront hvisit).1 pending
        next' hmoved

/-- Analyses start in lock-step. -/
theorem of_entered {initial : FlowFrame} (hplain : initial.mapSites move = initial) (hkept : kept 0)
    (hstart : move 0 = 0) {work work' : Worklist} (h : Entered problem.code.size [(0, initial)] work)
    (h' : Entered problem'.code.size ((0, initial) :: roots) work') :
    Moved problem problem' kept move roots roots work work' := by
  -- apart from the start, no kept position has a frame or waits
  have hother : ∀ {position}, kept position → position ≠ 0 →
      (work.frame? position = none ∧ work.waiting[position]? = some false) ∧
        work'.frame? (move position) = none ∧ work'.waiting[move position]? = some false := by
    intro position hposition hne
    refine ⟨h.free (embeds.lt hposition) (by simpa using hne), h'.free (move_lt embeds hposition) ?_⟩
    rw [List.map_cons, List.mem_cons, not_or]
    refine ⟨fun hsame => hne (embeds.injective (hsame.trans hstart.symm)), fun hmem => ?_⟩
    obtain ⟨root, hroot, hsame⟩ := List.mem_map.mp hmem
    exact embeds.apart root hroot hposition hsame.symm
  have hzero := h.rooted (0, initial) (List.mem_singleton.mpr rfl)
  have hzero' := h'.rooted (0, initial) List.mem_cons_self
  refine ⟨h.frames_size, h.waiting_size, h'.frames_size, h'.waiting_size, ?_, ?_,
    ⟨[0], [], h.queue, by simp [h'.queue, hstart]⟩, ?_, fun _ => id, ?_⟩
  · intro position hposition
    by_cases hne : position = 0
    · rw [hne, hstart, hzero.1, hzero'.1, Option.map_some, hplain]
    · rw [(hother hposition hne).1.1, (hother hposition hne).2.1]
      rfl
  · intro position hposition
    by_cases hne : position = 0
    · rw [hne, hstart, hzero.2, hzero'.2]
    · rw [(hother hposition hne).1.2, (hother hposition hne).2.2]
  · intro position hmem
    rw [h.queue] at hmem
    exact List.mem_singleton.mp hmem ▸ hkept
  · exact fun root hroot => (h'.rooted root (List.mem_cons_of_mem _ hroot)).1

end

end Moved

end Worklist

/-- A frame at a reachable position that names reachable creation sites only. -/
def Body.SoundAt (body : Body) (position : ℕ) (frame : FlowFrame) : Prop :=
  body.Reachable [0] position ∧
    frame.Sound fun type => ∀ site, type = .uninit site → body.Reachable [0] site

section

variable {body body' : Body} {method : MethodContext} {hierarchy : Hierarchy}

/-- The creation sites at a reachable position are kept if the reachable positions are. -/
theorem Body.SoundAt.keeps {position : ℕ} {frame : FlowFrame} (h : body.SoundAt position frame) :
    Keeps (body.Reachable [0]) position frame :=
  ⟨h.1, fun hmem => h.2.stack _ hmem _ rfl⟩

/-- That frames name reachable creation sites only is a law of every problem. -/
theorem Body.soundAtLaws {handlers : List PlacedHandler} (hhandlers : body.placedHandlers = .ok handlers) :
    (body.flowProblem method hierarchy handlers).Laws body.SoundAt fun _ _ => True := by
  refine soundLaws (fun hplain site hsite => absurd hsite (hplain site)) _ ?_
    fun hreach hsends => hreach.flows (hsends.flows hhandlers)
  rintro position name hreach - site ⟨⟩
  exact hreach

/-- **Analyses in lock-step.**  If what an analysis reaches is found again in another body, then the analysis
of that body succeeds, too.  Its frames are the same where it is found, up to creation sites, which are all
within what was reached; and the additional roots have the frames that they were given. -/
theorem exists_analyze_moved {handlers' : List PlacedHandler} {move : ℕ → ℕ} {roots : List Root}
    {analysis : Analysis} (h : analyze body method hierarchy [] = .ok analysis)
    (hhandlers' : body'.placedHandlers = .ok handlers')
    (embeds : ∀ handlers, body.placedHandlers = .ok handlers →
      (body.flowProblem method hierarchy handlers).Embeds (body'.flowProblem method hierarchy handlers')
        (body.Reachable [0]) move roots)
    (hstart : move 0 = 0) (hroots : (roots.map Prod.fst).Nodup) :
    ∃ analysis', analyze body' method hierarchy roots = .ok analysis' ∧
      (∀ {position : ℕ} {frame}, analysis.frames[position]? = some (some frame) →
        body.SoundAt position frame ∧
          analysis'.frames[move position]? = some (some (frame.mapSites move))) ∧
      ∀ root ∈ roots, analysis'.frames[root.1]? = some (some root.2) := by
  obtain ⟨initial, handlers, entered, settled, hinitial, hhandlers, hnonempty, hentered, hsettled, rfl⟩ :=
    analyze_eq_ok.mp h
  have embeds := embeds handlers hhandlers
  have laws := @Body.soundAtLaws body method hierarchy handlers hhandlers
  have hreach : body.Reachable [0] 0 := Body.reachable_entry (List.mem_singleton.mpr rfl)
  have hplain := MethodContext.sound_initialFrame hinitial
  have hsize : (body.flowProblem method hierarchy handlers).code.size = body.instructions.length :=
    Body.size_code
  have hsize' : (body'.flowProblem method hierarchy handlers').code.size = body'.instructions.length :=
    Body.size_code
  have hzero : 0 < body.instructions.length := hsize ▸ embeds.lt hreach
  have hzero' : 0 < body'.instructions.length := hsize' ▸ hstart ▸ Worklist.Moved.move_lt embeds hreach
  -- both analyses start with the frame on entry, and the second one with the roots behind it
  obtain ⟨first, hfirst, hrooted⟩ := Worklist.exists_entered hierarchy initial
    (List.forall_mem_singleton.mpr hzero) (List.nodup_singleton (0, initial).1)
  obtain rfl := Except.ok.inj (hfirst.symm.trans hentered)
  have hwithin : ∀ root ∈ (0, initial) :: roots, root.1 < body'.instructions.length :=
    List.forall_mem_cons.mpr ⟨hzero', fun root hmem => by
      obtain ⟨instruction, -, here, -⟩ := (embeds.stops root hmem).runs
      exact hsize' ▸ (Array.getElem?_eq_some_iff.mp here).1⟩
  have hapart : (((0, initial) :: roots).map Prod.fst).Nodup :=
    List.nodup_cons.mpr ⟨fun hmem => by
      obtain ⟨root, hroot, hsame⟩ := List.mem_map.mp hmem
      exact embeds.apart root hroot hreach (hstart.trans hsame.symm), hroots⟩
  obtain ⟨second, hsecond, hrooted'⟩ := Worklist.exists_entered hierarchy initial hwithin hapart
  have hmoved := Worklist.Moved.of_entered embeds (Frame.mapSites_of_plain hplain.locals hplain.stack) hreach
    hstart (hsize ▸ hrooted) (hsize' ▸ hrooted')
  have hnone : (Worklist.start body.instructions.length initial).Invariant
      (body.flowProblem method hierarchy handlers) body.SoundAt fun _ _ => True :=
    Worklist.invariant_start initial
  have hinvariant := hnone.step laws (Worklist.step_foldlM laws (fun _ _ => True) (fun _ _ => trivial)
    (fun {work root work'} hmem hwork hbring => by
      obtain rfl := List.mem_singleton.mp hmem
      have hsound : body.SoundAt 0 initial :=
        ⟨hreach, hplain.mono fun type hplain site hsite => absurd hsite (hplain site)⟩
      exact ⟨(Worklist.step_bring laws hwork (embeds.lt hreach) hsound hbring).1, trivial⟩)
    hnone.consistent hfirst).1
  have hplaced : (body.flowProblem method hierarchy handlers).Placed := Body.placed_flowProblem hhandlers
  obtain ⟨settled', hsettled', hmoved⟩ :=
    hmoved.settle embeds laws hplaced Body.SoundAt.keeps hinvariant hsettled
  refine ⟨settled'.outcome, ?_, ?_, ?_⟩
  · exact analyze_eq_ok.mpr ⟨initial, handlers', second, settled', hinitial, hhandlers',
      List.ne_nil_of_length_pos hzero', hsecond, hsettled', rfl⟩
  · intro position frame hframe
    have hfound := frames_outcome.mp hframe
    have hsound := (hinvariant.settle laws hplaced hsettled).1.fits hfound
    refine ⟨hsound, frames_outcome.mpr ?_⟩
    rw [hmoved.frame hsound.1, hfound, Option.map_some]
  · exact fun root hroot => frames_outcome.mpr (hmoved.rooted root hroot)

end

end ClassInstrument
