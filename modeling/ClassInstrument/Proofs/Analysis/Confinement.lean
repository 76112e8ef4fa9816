import ClassInstrument.Proofs.Analysis.Worklist
import ClassInstrument.Proofs.Analysis.Reach

/-!
# Visits that do not meet

A visit brings a list of frames to their positions, one after the other (`FlowProblem.visit_eq_ok`), and
bringing a frame changes nothing at other positions.  So if what waits on one side of a code never brings
anything to the other side, an analysis does on each side what it would do there alone.

`Worklist.AgreeOn` says that two worklists are the same on one side: the frames there, and what waits there
with its order.  Between its visits to one side, an analysis may follow a trail on the other one, a run of
positions of which each brings a frame to the next one only.  Trails come to an end, so such an analysis
settles whenever it does so without the trail, with the same frames (`Worklist.AgreeOn.settle`).
-/

namespace ClassInstrument

open Outcome

/-! ## Deliveries -/

/-- Brings frames to positions, one after the other. -/
def Worklist.deliver (hierarchy : Hierarchy) (work : Worklist) (sent : List Root) : Except Fault Worklist :=
  sent.foldlM (fun work root => work.bring hierarchy root.1 root.2) work

/-- Two deliveries are one after the other. -/
theorem Worklist.deliver_append_eq_ok {hierarchy : Hierarchy} {work next : Worklist}
    {first second : List Root} : work.deliver hierarchy (first ++ second) = .ok next ↔
      ∃ middle, work.deliver hierarchy first = .ok middle ∧ middle.deliver hierarchy second = .ok next := by
  rw [deliver, List.foldlM_append, bind_eq_ok]
  rfl

/-- A delivery of one frame brings it. -/
theorem Worklist.deliver_singleton {hierarchy : Hierarchy} {work : Worklist} (root : Root) :
    work.deliver hierarchy [root] = work.bring hierarchy root.1 root.2 := by
  rw [deliver, List.foldlM_cons]
  exact bind_pure _

/-- Takes the sizes of the frames around an instruction into account, if there is one. -/
def Worklist.note (work : Worklist) (before : FlowFrame) : Option FlowFrame → Worklist
  | some after => work.noteSizes before after
  | none => work

namespace FlowProblem

variable {problem : FlowProblem} {position : ℕ} {before after : FlowFrame} {work next : Worklist}

/-- What is brought to handlers, from the frames around an instruction. -/
def toHandlers (handlers : List PlacedHandler) (before after : FlowFrame) : List Root :=
  handlers.flatMap fun handler =>
    [(handler.handler, handler.entryFrame before.locals), (handler.handler, handler.entryFrame after.locals)]

/-- What a visit to a position with a frame before it brings where, and the frame after the instruction there
if it is one. -/
inductive Delivers (problem : FlowProblem) (position : ℕ) (before : FlowFrame) :
    List Root → Option FlowFrame → Prop
  /-- Control passes a label or line number. -/
  | pass {instruction} (here : problem.code[position]? = some instruction)
      (unreal : instruction.isReal = false) :
      Delivers problem position before
        (if position + 1 < problem.code.size then [(position + 1, before)] else []) none
  /-- Handlers come first, then targets, and then the next entry. -/
  | flow {instruction after places} (here : problem.code[position]? = some instruction)
      (real : instruction.isReal)
      (runs : Transfer.execute problem.method problem.code position instruction before = .ok after)
      (placed : List.Forall₂ (fun target place => problem.positions.find target = .ok place)
        instruction.targets places)
      (room : instruction.fallsThrough → position + 1 < problem.code.size) :
      Delivers problem position before
        (toHandlers (problem.handlers.filter (·.covers position)) before after ++
          (places.map (·, after) ++ if instruction.fallsThrough then [(position + 1, after)] else []))
        (some after)

/-- Frames are delivered to handlers one by one. -/
theorem foldlM_bringToHandler (handlers : List PlacedHandler) :
    handlers.foldlM (problem.bringToHandler before after) work =
      work.deliver problem.hierarchy (toHandlers handlers before after) := by
  induction handlers generalizing work with
  | nil => rfl
  | cons handler handlers ih =>
    rw [List.foldlM_cons, toHandlers, List.flatMap_cons, Worklist.deliver, List.foldlM_append,
      bringToHandler, bind_assoc]
    simp only [List.foldlM_cons, List.foldlM_nil, bind_assoc, pure_bind, ih]
    rfl

/-- Frames are delivered to targets one by one, wherever these are placed. -/
theorem foldlM_bringToTarget_eq_ok {targets : List Label} :
    targets.foldlM (problem.bringToTarget after) work = .ok next ↔ ∃ places,
      List.Forall₂ (fun target place => problem.positions.find target = .ok place) targets places ∧
        work.deliver problem.hierarchy (places.map (·, after)) = .ok next := by
  induction targets generalizing work with
  | nil =>
    simp only [List.forall₂_nil_left_iff, exists_eq_left]
    rfl
  | cons target targets ih =>
    rw [List.foldlM_cons, bind_eq_ok]
    constructor
    · rintro ⟨middle, hmiddle, h⟩
      obtain ⟨place, hplace, hbring⟩ := bind_eq_ok.mp hmiddle
      obtain ⟨places, hplaces, hdeliver⟩ := ih.mp h
      exact ⟨place :: places, .cons hplace hplaces, bind_eq_ok.mpr ⟨middle, hbring, hdeliver⟩⟩
    · rintro ⟨_, _ | ⟨hplace, hplaces⟩, hdeliver⟩
      obtain ⟨middle, hbring, hdeliver⟩ := bind_eq_ok.mp hdeliver
      exact ⟨middle, bind_eq_ok.mpr ⟨_, hplace, hbring⟩, ih.mpr ⟨_, hplaces, hdeliver⟩⟩

/-- Carrying a frame through an instruction is a delivery. -/
theorem flow_eq_ok {instruction : Instruction} :
    problem.flow position instruction before work = .ok next ↔ ∃ after places,
      Transfer.execute problem.method problem.code position instruction before = .ok after ∧
      List.Forall₂ (fun target place => problem.positions.find target = .ok place) instruction.targets
        places ∧
      (instruction.fallsThrough → position + 1 < problem.code.size) ∧
      (work.noteSizes before after).deliver problem.hierarchy
        (toHandlers (problem.handlers.filter (·.covers position)) before after ++
          (places.map (·, after) ++ if instruction.fallsThrough then [(position + 1, after)] else [])) =
        .ok next := by
  have hlast : ∀ {jumped : Worklist} {after : FlowFrame}, (if instruction.fallsThrough then
      if position + 1 < problem.code.size then jumped.bring problem.hierarchy (position + 1) after
      else throw (.invalidFrame position .fallsOffEnd)
      else return jumped : Except Fault Worklist) = .ok next ↔
        (instruction.fallsThrough → position + 1 < problem.code.size) ∧
          jumped.deliver problem.hierarchy
            (if instruction.fallsThrough then [(position + 1, after)] else []) = .ok next := by
    intro jumped after
    by_cases falls : instruction.fallsThrough
    · by_cases hroom : position + 1 < problem.code.size
      · simp [falls, hroom, Worklist.deliver_singleton]
      · simp [falls, hroom, throw, throwThe, MonadExceptOf.throw]
    · simp only [falls, if_false, Bool.false_eq_true, false_implies, true_and]
      rfl
  simp only [flow, bind_eq_ok, foldlM_bringToHandler, foldlM_bringToTarget_eq_ok, hlast,
    Worklist.deliver_append_eq_ok]
  constructor
  · rintro ⟨after, runs, thrown, hthrown, jumped, ⟨places, hplaces, hjumped⟩, hroom, hnext⟩
    exact ⟨after, places, runs, hplaces, hroom, thrown, hthrown, jumped, hjumped, hnext⟩
  · rintro ⟨after, places, runs, hplaces, hroom, thrown, hthrown, jumped, hjumped, hnext⟩
    exact ⟨after, runs, thrown, hthrown, jumped, ⟨places, hplaces, hjumped⟩, hroom, hnext⟩

/-- **A visit is a delivery.** -/
theorem visit_eq_ok (hlt : position < problem.code.size) (hframe : work.frame? position = some before) :
    problem.visit position work = .ok next ↔ ∃ sent noted, problem.Delivers position before sent noted ∧
      (work.note before noted).deliver problem.hierarchy sent = .ok next := by
  have here := Array.getElem?_eq_getElem hlt
  have hsame : ∀ {instruction}, problem.code[position]? = some instruction →
      problem.code[position] = instruction := fun here' => Option.some.inj (here.symm.trans here')
  unfold visit
  rw [here, hframe]
  dsimp only
  split
  · next real =>
    rw [flow_eq_ok]
    constructor
    · rintro ⟨after, places, runs, hplaces, hroom, h⟩
      exact ⟨_, _, .flow here real runs hplaces hroom, h⟩
    · rintro ⟨sent, noted, hdelivers, h⟩
      cases hdelivers with
      | pass here' unreal => simp [hsame here', unreal] at real
      | flow here' _ runs placed room =>
        rw [hsame here']
        exact ⟨_, _, runs, placed, room, h⟩
  · next unreal =>
    have hpass : (if position + 1 < problem.code.size then
        work.bring problem.hierarchy (position + 1) before else pure work) =
        work.deliver problem.hierarchy
          (if position + 1 < problem.code.size then [(position + 1, before)] else []) := by
      split
      · rw [Worklist.deliver_singleton]
      · rfl
    rw [hpass]
    constructor
    · exact fun h => ⟨_, _, .pass here (by simpa using unreal), h⟩
    · rintro ⟨sent, noted, hdelivers, h⟩
      cases hdelivers with
      | pass => exact h
      | flow here' real => exact absurd (hsame here' ▸ real) unreal

/-- What is delivered is brought to where control may go. -/
theorem Delivers.sends {sent : List Root} {noted : Option FlowFrame}
    (h : problem.Delivers position before sent noted) {root : Root} (hmem : root ∈ sent) :
    problem.Sends position before root.1 root.2 := by
  cases h with
  | pass here unreal =>
    split at hmem
    · next room =>
      obtain rfl := List.mem_singleton.mp hmem
      exact .pass here unreal room
    · cases hmem
  | flow here real runs placed room =>
    rw [List.mem_append, List.mem_append] at hmem
    rcases hmem with hthrown | hjumped | hnext
    · obtain ⟨handler, hhandler, hmem⟩ := List.mem_flatMap.mp hthrown
      obtain ⟨hlisted, hcovers⟩ := List.mem_filter.mp hhandler
      simp only [List.mem_cons, List.not_mem_nil, or_false] at hmem
      rcases hmem with rfl | rfl
      · exact .throwBefore here real hlisted hcovers
      · exact .throwAfter here real runs hlisted hcovers
    · obtain ⟨place, hplace, rfl⟩ := List.mem_map.mp hjumped
      obtain ⟨target, htarget, hplaced⟩ := exists_left_of_forall₂ placed hplace
      exact .jump here real runs htarget hplaced
    · split at hnext
      · next falls =>
        obtain rfl := List.mem_singleton.mp hnext
        exact .next here real runs falls (room falls)
      · cases hnext

end FlowProblem

/-! ## Two sides -/

namespace Worklist

variable {problem : FlowProblem} {hierarchy : Hierarchy} {size position : ℕ} {frame : FlowFrame}
  {side : ℕ → Prop} [DecidablePred side] {work work' next : Worklist} {sent : List Root}

/-- A worklist is one for a code of some size. -/
structure Sized (size : ℕ) (work : Worklist) : Prop where
  frames : work.frames.size = size
  waiting : work.waiting.size = size

/-- Setting a frame does not change sizes. -/
theorem Sized.update (h : work.Sized size) (hlt : position < size) (frame : FlowFrame) :
    (work.update position frame).Sized size := by
  obtain ⟨hframes, hwaiting⟩ := size_update frame (h.waiting ▸ hlt : position < work.waiting.size)
  exact ⟨hframes.trans h.frames, hwaiting.trans h.waiting⟩

/-- Frames are at positions of the code. -/
theorem Sized.lt (h : work.Sized size) (hframe : work.frame? position = some frame) : position < size := by
  rw [← h.frames]
  by_contra hout
  rw [frame?, Array.getElem?_eq_none (Nat.not_lt.mp hout)] at hframe
  cases hframe

/-- Two worklists are the same on one side: the frames are, and the same positions wait in the same order. -/
structure AgreeOn (side : ℕ → Prop) [DecidablePred side] (size : ℕ) (work work' : Worklist) : Prop where
  sized : work.Sized size
  sized' : work'.Sized size
  frame : ∀ {position}, side position → work'.frame? position = work.frame? position
  waiting : ∀ {position}, side position → work'.waiting[position]? = work.waiting[position]?
  queue : work'.queue.filter (side ·) = work.queue.filter (side ·)

namespace AgreeOn

/-- A worklist is the same as itself. -/
theorem refl (h : work.Sized size) : AgreeOn side size work work := ⟨h, h, fun _ => rfl, fun _ => rfl, rfl⟩

/-- What agrees with something agrees with it the other way round. -/
theorem symm (h : AgreeOn side size work work') : AgreeOn side size work' work :=
  ⟨h.sized', h.sized, fun hside => (h.frame hside).symm, fun hside => (h.waiting hside).symm, h.queue.symm⟩

/-- Agreeing is transitive. -/
theorem trans {work'' : Worklist} (h : AgreeOn side size work work') (h' : AgreeOn side size work' work'') :
    AgreeOn side size work work'' :=
  ⟨h.sized, h'.sized', fun hside => (h'.frame hside).trans (h.frame hside),
    fun hside => (h'.waiting hside).trans (h.waiting hside), h'.queue.trans h.queue⟩

/-- Noting sizes changes nothing. -/
theorem noted (h : work.Sized size) (before : FlowFrame) (after : Option FlowFrame) :
    AgreeOn side size work (work.note before after) := by
  cases after with
  | none => exact refl h
  | some after => exact ⟨h, ⟨h.1, h.2⟩, fun _ => rfl, fun _ => rfl, rfl⟩

/-- Sizes that were noted do not matter. -/
theorem note (h : AgreeOn side size work work') (before : FlowFrame) (after : Option FlowFrame) :
    AgreeOn side size (work.note before after) (work'.note before after) :=
  (noted h.sized before after).symm.trans (h.trans (noted h.sized' before after))

/-- Setting a frame elsewhere changes nothing on a side. -/
theorem update_of_not (h : work.Sized size) (hlt : position < size) (hside : ¬ side position)
    (frame : FlowFrame) : AgreeOn side size work (work.update position frame) := by
  have hwaiting : position < work.waiting.size := h.waiting.symm ▸ hlt
  have hne : ∀ {other}, side other → other ≠ position := by
    rintro other hother rfl
    exact hside hother
  refine ⟨h, h.update hlt frame, ?_, ?_, ?_⟩
  · intro other hother
    rw [frame?_update (h.frames.symm ▸ hlt) hwaiting, if_neg (hne hother)]
  · intro other hother
    rw [waiting_update hwaiting, if_neg (hne hother)]
  · rw [queue_update frame hwaiting]
    split
    · rfl
    · simp [hside]

/-- Setting the same frame on both sides keeps them the same. -/
theorem update (h : AgreeOn side size work work') (hlt : position < size) (hside : side position)
    (frame : FlowFrame) : AgreeOn side size (work.update position frame) (work'.update position frame) := by
  have hwaiting : position < work.waiting.size := h.sized.waiting.symm ▸ hlt
  have hwaiting' : position < work'.waiting.size := h.sized'.waiting.symm ▸ hlt
  refine ⟨h.sized.update hlt frame, h.sized'.update hlt frame, ?_, ?_, ?_⟩
  · intro other hother
    rw [frame?_update (h.sized.frames.symm ▸ hlt) hwaiting,
      frame?_update (h.sized'.frames.symm ▸ hlt) hwaiting', h.frame hother]
  · intro other hother
    rw [waiting_update hwaiting, waiting_update hwaiting', h.waiting hother]
  · rw [queue_update frame hwaiting, queue_update frame hwaiting', h.waiting hside]
    split
    · exact h.queue
    · rw [List.filter_append, List.filter_append, h.queue]

/-- Bringing a frame elsewhere changes nothing on a side. -/
theorem bring_of_not (h : work.Sized size) (hlt : position < size) (hside : ¬ side position)
    (hbring : work.bring hierarchy position frame = .ok next) : AgreeOn side size work next := by
  rcases bring_eq_ok.mp hbring with ⟨-, rfl⟩ | ⟨existing, -, ⟨-, rfl⟩ | ⟨merged, -, rfl⟩⟩
  · exact update_of_not h hlt hside _
  · exact refl h
  · exact update_of_not h hlt hside _

/-- A frame that is brought to a side is brought in both worklists. -/
theorem bring (h : AgreeOn side size work work') (hlt : position < size) (hside : side position)
    (hbring : work.bring hierarchy position frame = .ok next) :
    ∃ next', work'.bring hierarchy position frame = .ok next' ∧ AgreeOn side size next next' := by
  rcases bring_eq_ok.mp hbring with ⟨hnone, rfl⟩ | ⟨existing, hexisting, ⟨hmerge, rfl⟩ | ⟨merged, hmerge, rfl⟩⟩
  · exact ⟨_, bring_eq_ok.mpr (.inl ⟨(h.frame hside).trans hnone, rfl⟩), h.update hlt hside _⟩
  · exact ⟨work', bring_eq_ok.mpr (.inr ⟨existing, (h.frame hside).trans hexisting, .inl ⟨hmerge, rfl⟩⟩), h⟩
  · exact ⟨_, bring_eq_ok.mpr (.inr ⟨existing, (h.frame hside).trans hexisting, .inr ⟨merged, hmerge, rfl⟩⟩),
      h.update hlt hside _⟩

/-- **Deliveries agree.**  What is delivered to a side is delivered in both worklists, and what is delivered
elsewhere may be left out. -/
theorem deliver (h : AgreeOn side size work work') (hlt : ∀ root ∈ sent, root.1 < size)
    (hdeliver : work.deliver hierarchy sent = .ok next) :
    ∃ next', work'.deliver hierarchy (sent.filter (side ·.1)) = .ok next' ∧
      AgreeOn side size next next' := by
  induction sent generalizing work work' with
  | nil =>
    obtain rfl := pure_eq_ok.mp hdeliver
    exact ⟨work', rfl, h⟩
  | cons root sent ih =>
    obtain ⟨hroot, hothers⟩ := List.forall_mem_cons.mp hlt
    obtain ⟨middle, hmiddle, hdeliver⟩ := bind_eq_ok.mp hdeliver
    by_cases hside : side root.1
    · obtain ⟨middle', hmiddle', hagree⟩ := h.bring hroot hside hmiddle
      obtain ⟨next', hnext', hagree⟩ := ih hagree hothers hdeliver
      refine ⟨next', ?_, hagree⟩
      rw [List.filter_cons_of_pos (by simpa using hside)]
      exact bind_eq_ok.mpr ⟨middle', hmiddle', hnext'⟩
    · have haside : AgreeOn side size work middle := bring_of_not h.sized hroot hside hmiddle
      rw [List.filter_cons_of_neg (by simpa using hside)]
      exact ih (haside.symm.trans h) hothers hdeliver

/-- A delivery that does not come to a side changes nothing there. -/
theorem of_deliver (h : work.Sized size) (hlt : ∀ root ∈ sent, root.1 < size)
    (haside : ∀ root ∈ sent, ¬ side root.1) {before : FlowFrame} {after : Option FlowFrame}
    (hdeliver : (work.note before after).deliver hierarchy sent = .ok next) :
    AgreeOn side size work next := by
  have hnoted : AgreeOn side size (work.note before after) work := (noted h before after).symm
  obtain ⟨next', hnext', hagree⟩ := hnoted.deliver hlt hdeliver
  rw [List.filter_eq_nil_iff.mpr fun root hmem => by simpa using haside root hmem] at hnext'
  obtain rfl := pure_eq_ok.mp hnext'
  exact hagree.symm

/-- A delivery to a side is made in both worklists. -/
theorem exists_deliver (h : AgreeOn side size work work') (hlt : ∀ root ∈ sent, root.1 < size)
    (hinside : ∀ root ∈ sent, side root.1) (hdeliver : work.deliver hierarchy sent = .ok next) :
    ∃ next', work'.deliver hierarchy sent = .ok next' ∧ AgreeOn side size next next' := by
  have hall : sent.filter (side ·.1) = sent :=
    List.filter_eq_self.mpr fun root hmem => by simpa using hinside root hmem
  have hsame := h.deliver hlt hdeliver
  rwa [hall] at hsame

/-- Turning the queues round keeps worklists the same. -/
theorem turned (h : AgreeOn side size work work') : AgreeOn side size work.turned work'.turned := by
  have hsame : ∀ {work : Worklist}, work.Sized size → AgreeOn side size work work.turned := by
    intro work hsized
    have hqueue := @queue_turned work
    rw [turned_eq] at hqueue ⊢
    exact ⟨hsized, ⟨hsized.1, hsized.2⟩, fun _ => rfl, fun _ => rfl, congrArg _ hqueue⟩
  exact (hsame h.sized).symm.trans (h.trans (hsame h.sized'))

/-- The first position of a queue is taken off the queues of both worklists. -/
theorem leave (h : AgreeOn side size work work') {others others' : List ℕ} (hside : side position)
    (hqueue : work.queue = position :: others) (hqueue' : work'.queue = position :: others')
    {left left' : Worklist} (hleft : left.queue = others) (hframes : left.frames = work.frames)
    (hwaiting : left.waiting = work.waiting.setIfInBounds position false) (hleft' : left'.queue = others')
    (hframes' : left'.frames = work'.frames)
    (hwaiting' : left'.waiting = work'.waiting.setIfInBounds position false) :
    AgreeOn side size left left' := by
  have hsame := h.queue
  rw [hqueue, hqueue', List.filter_cons_of_pos (by simpa using hside),
    List.filter_cons_of_pos (by simpa using hside)] at hsame
  refine ⟨⟨hframes ▸ h.sized.frames, by simp [hwaiting, h.sized.waiting]⟩,
    ⟨hframes' ▸ h.sized'.frames, by simp [hwaiting', h.sized'.waiting]⟩, ?_, ?_, ?_⟩
  · intro other hother
    rw [frame?, frame?, hframes, hframes']
    exact h.frame hother
  · intro other hother
    rw [hwaiting, hwaiting', Array.getElem?_setIfInBounds, Array.getElem?_setIfInBounds, h.waiting hother,
      h.sized.waiting, h.sized'.waiting]
  · rw [hleft, hleft']
    exact (List.cons.inj hsame).2

/-- Taking a position off the queue changes nothing on the other side. -/
theorem leave_of_not (h : work.Sized size) {others : List ℕ} (hside : ¬ side position)
    (hqueue : work.queue = position :: others) {left : Worklist} (hleft : left.queue = others)
    (hframes : left.frames = work.frames)
    (hwaiting : left.waiting = work.waiting.setIfInBounds position false) :
    AgreeOn side size work left := by
  refine ⟨h, ⟨hframes ▸ h.frames, by simp [hwaiting, h.waiting]⟩, ?_, ?_, ?_⟩
  · intro other hother
    rw [frame?, frame?, hframes]
  · intro other hother
    rw [hwaiting, Array.getElem?_setIfInBounds, if_neg]
    rintro rfl
    exact hside hother
  · rw [hleft, hqueue, List.filter_cons_of_neg (by simpa using hside)]

/-- **Visits agree.**  If a visit to a side comes nowhere else, it is made in both worklists, and changes
nothing on the other side. -/
theorem visit (h : AgreeOn side problem.code.size work work') (hplaced : problem.Placed)
    (hclosed : ∀ {before place frame}, problem.Sends position before place frame → side place)
    (hside : side position)
    (hvisit : problem.visit position work = .ok next) :
    ∃ next', problem.visit position work' = .ok next' ∧ AgreeOn side problem.code.size next next' ∧
      AgreeOn (¬ side ·) problem.code.size work next ∧
      AgreeOn (¬ side ·) problem.code.size work' next' := by
  have hframe := h.frame hside
  cases hbefore : work.frame? position with
  | none =>
    have hnone : ∀ {work : Worklist}, work.frame? position = none → problem.visit position work = .ok work := by
      intro work hframe
      unfold FlowProblem.visit
      rw [hframe]
      split <;> simp_all [pure, Except.pure]
    rw [hnone hbefore] at hvisit
    obtain rfl := Except.ok.inj hvisit
    exact ⟨work', hnone (hframe.trans hbefore), h, refl h.sized, refl h.sized'⟩
  | some before =>
    have hlt : position < problem.code.size := h.sized.lt hbefore
    obtain ⟨sent, noted, hdelivers, hdeliver⟩ := (FlowProblem.visit_eq_ok hlt hbefore).mp hvisit
    have hinside : ∀ root ∈ sent, side root.1 := fun root hmem => hclosed (hdelivers.sends hmem)
    have hwithin : ∀ root ∈ sent, root.1 < problem.code.size := fun root hmem =>
      (hdelivers.sends hmem).lt hplaced
    obtain ⟨next', hdeliver', hagree⟩ := (h.note before noted).exists_deliver hwithin hinside hdeliver
    refine ⟨next', (FlowProblem.visit_eq_ok hlt (hframe.trans hbefore)).mpr ⟨sent, noted, hdelivers, hdeliver'⟩,
      hagree, of_deliver h.sized hwithin (by simpa using hinside) hdeliver,
      of_deliver h.sized' hwithin (by simpa using hinside) hdeliver'⟩

end AgreeOn

end Worklist

/-! ## Trails -/

/-- A trail is a run of positions outside a side, each of which brings a frame to the next one only.  The last
position has the frame already that is brought there. -/
structure FlowProblem.Trail (problem : FlowProblem) (side : ℕ → Prop) (last : Root) (trail : List Root) :
    Prop where
  delivers : (trail ++ [last]).IsChain fun root next => ∃ noted, problem.Delivers root.1 root.2 [next] noted
  apart : ((trail ++ [last]).map Prod.fst).Nodup
  aside : ∀ root ∈ trail ++ [last], ¬ side root.1
  lt : ∀ root ∈ trail ++ [last], root.1 < problem.code.size
  covered : mergeFrames problem.hierarchy last.1 last.2 last.2 = .ok none

/-- What is left of a trail is one. -/
theorem FlowProblem.Trail.tail {problem : FlowProblem} {side : ℕ → Prop} {last root : Root}
    {trail : List Root} (h : problem.Trail side last (root :: trail)) : problem.Trail side last trail where
  delivers := h.delivers.tail
  apart := (List.nodup_cons.mp h.apart).2
  aside other hmem := h.aside other (List.mem_cons_of_mem _ hmem)
  lt other hmem := h.lt other (List.mem_cons_of_mem _ hmem)
  covered := h.covered

namespace Worklist

variable {problem : FlowProblem} {side : ℕ → Prop} [DecidablePred side] {size position : ℕ}
  {work work' left next : Worklist} {root last : Root} {trail : List Root} {others : List ℕ}

/-- A worklist follows a trail: outside the side its first position is the only one that waits, and there are
no frames yet at the later ones. -/
structure Follows (side : ℕ → Prop) [DecidablePred side] (last : Root) (trail : List Root)
    (work : Worklist) : Prop where
  queue : work.queue.filter (¬ side ·) = (trail.take 1).map Prod.fst
  first : ∀ root ∈ trail.head?, work.frame? root.1 = some root.2
  later : ∀ root ∈ trail.tail, work.frame? root.1 = none ∧ work.waiting[root.1]? = some false
  last : work.frame? last.1 = some last.2

/-- What happens on the side does not matter to a trail. -/
theorem Follows.congr (h : work.Follows side last trail) (htrail : problem.Trail side last trail)
    (hagree : AgreeOn (¬ side ·) size work work') : work'.Follows side last trail := by
  have haside : ∀ {root}, root ∈ trail → ¬ side root.1 := fun hmem =>
    htrail.aside _ (List.mem_append_left _ hmem)
  refine ⟨hagree.queue.trans h.queue, ?_, ?_, ?_⟩
  · intro root hmem
    rw [hagree.frame (haside (List.mem_of_head? hmem)), h.first root hmem]
  · intro root hmem
    rw [hagree.frame (haside (List.mem_of_mem_tail hmem)),
      hagree.waiting (haside (List.mem_of_mem_tail hmem))]
    exact h.later root hmem
  · rw [hagree.frame (htrail.aside last (by simp)), h.last]

/-- A visit to the first position of a trail leaves the rest of it, and changes nothing on the side. -/
theorem Follows.exists_visit (h : work.Follows side last (root :: trail))
    (htrail : problem.Trail side last (root :: trail)) (hsized : work.Sized problem.code.size)
    (hqueue : work.queue = root.1 :: others) (hleft : left.queue = others)
    (hframes : left.frames = work.frames)
    (hwaiting : left.waiting = work.waiting.setIfInBounds root.1 false) :
    ∃ next, problem.visit root.1 left = .ok next ∧ AgreeOn side problem.code.size left next ∧
      next.Follows side last trail := by
  have hframe (place : ℕ) : left.frame? place = work.frame? place := by rw [frame?, frame?, hframes]
  have hbelow := h.queue
  rw [hqueue, List.filter_cons_of_pos (by simpa using htrail.aside root (by simp))] at hbelow
  have hnone : others.filter (¬ side ·) = [] := by simpa using hbelow
  have hsized' : left.Sized problem.code.size :=
    ⟨hframes ▸ hsized.frames, by simp [hwaiting, hsized.waiting]⟩
  have hbefore : left.frame? root.1 = some root.2 := (hframe _).trans (h.first root (by simp))
  have hlast : left.frame? last.1 = some last.2 := (hframe _).trans h.last
  cases trail with
  | nil =>
    obtain ⟨noted, hdelivers⟩ := (List.isChain_cons_cons.mp htrail.delivers).1
    have hbring : (left.note root.2 noted).bring problem.hierarchy last.1 last.2 =
        .ok (left.note root.2 noted) := by
      refine bring_eq_ok.mpr (.inr ⟨last.2, ?_, .inl ⟨htrail.covered, rfl⟩⟩)
      cases noted <;> exact hlast
    refine ⟨left.note root.2 noted, (FlowProblem.visit_eq_ok (htrail.lt root (by simp)) hbefore).mpr
      ⟨_, noted, hdelivers, (deliver_singleton last).trans hbring⟩, .noted hsized' _ _, ?_, by simp, by simp, ?_⟩
    · cases noted <;> exact (congrArg _ hleft).trans hnone
    · cases noted <;> exact hlast
  | cons second trail =>
    obtain ⟨noted, hdelivers⟩ := (List.isChain_cons_cons.mp htrail.delivers).1
    have hnoted : AgreeOn (fun _ => True) problem.code.size left (left.note root.2 noted) :=
      .noted hsized' _ _
    have hnew : second.1 < problem.code.size := htrail.lt second (by simp)
    have hsecond : ¬ side second.1 := htrail.aside second (by simp)
    -- the positions behind the second one are neither the first nor the second one
    obtain ⟨hroot, happart⟩ := List.nodup_cons.mp htrail.apart
    have hlater : ∀ other ∈ (second :: trail) ++ [last], root.1 ≠ other.1 := fun other hmem heq =>
      hroot (heq ▸ List.mem_map_of_mem hmem)
    have hbehind : ∀ other ∈ trail ++ [last], other.1 ≠ second.1 := fun other hmem heq =>
      (List.nodup_cons.mp happart).1 (heq ▸ List.mem_map_of_mem hmem)
    have hidle : ∀ other ∈ second :: trail, (left.note root.2 noted).frame? other.1 = none ∧
        (left.note root.2 noted).waiting[other.1]? = some false := by
      intro other hmem
      obtain ⟨hfree, hidle⟩ := h.later other hmem
      rw [hnoted.frame trivial, hnoted.waiting trivial, hframe, hwaiting, Array.getElem?_setIfInBounds,
        if_neg (hlater other (List.mem_append_left _ hmem))]
      exact ⟨hfree, hidle⟩
    have hbring : (left.note root.2 noted).bring problem.hierarchy second.1 second.2 =
        .ok ((left.note root.2 noted).update second.1 second.2) :=
      bring_eq_ok.mpr (.inl ⟨(hidle second (by simp)).1, rfl⟩)
    have hsized'' := hnoted.sized'
    have hframes' : second.1 < (left.note root.2 noted).frames.size := hsized''.frames.symm ▸ hnew
    have hwaiting' : second.1 < (left.note root.2 noted).waiting.size := hsized''.waiting.symm ▸ hnew
    refine ⟨_, (FlowProblem.visit_eq_ok (htrail.lt root (by simp)) hbefore).mpr
      ⟨_, noted, hdelivers, (deliver_singleton second).trans hbring⟩,
      (AgreeOn.noted hsized' _ _).trans (.update_of_not hsized'' hnew hsecond _), ?_, ?_, ?_, ?_⟩
    · have hqueue' := hnoted.queue
      simp only [decide_true, List.filter_true] at hqueue'
      rw [queue_update _ hwaiting', (hidle second (by simp)).2, if_neg (by simp), hqueue', hleft,
        List.filter_append, hnone]
      simp [hsecond]
    · intro other hmem
      obtain rfl : second = other := by simpa using hmem
      rw [frame?_update hframes' hwaiting', if_pos rfl]
    · intro other hmem
      rw [frame?_update hframes' hwaiting', waiting_update hwaiting',
        if_neg (hbehind other (List.mem_append_left _ hmem)),
        if_neg (hbehind other (List.mem_append_left _ hmem))]
      exact hidle other (List.mem_cons_of_mem _ hmem)
    · rw [frame?_update hframes' hwaiting', if_neg (hbehind last (by simp)), hnoted.frame trivial]
      exact hlast

/-- The first position outside the side that waits is that of the trail. -/
theorem Follows.exists_cons (h : work.Follows side last trail) (hqueue : work.queue = position :: others)
    (hside : ¬ side position) : ∃ root rest, trail = root :: rest ∧ root.1 = position := by
  have hfirst := h.queue
  rw [hqueue, List.filter_cons_of_pos (by simpa using hside)] at hfirst
  cases trail with
  | nil => simp at hfirst
  | cons root rest => exact ⟨root, rest, rfl, (List.cons.inj hfirst).1.symm⟩

/-- A worklist that follows a trail comes to visit the side, unless nothing waits any more. -/
theorem Follows.exists_settle_side (h : work.Follows side last trail)
    (htrail : problem.Trail side last trail) (hsized : work.Sized problem.code.size) :
    ∃ (left : Worklist) (rest : List Root), problem.settle work = problem.settle left ∧
      AgreeOn side problem.code.size work left ∧ left.Follows side last rest ∧
      problem.Trail side last rest ∧ ∀ position ∈ left.queue.head?, side position := by
  induction trail generalizing work with
  | nil =>
    refine ⟨work, [], rfl, .refl hsized, h, htrail, fun position hmem => ?_⟩
    obtain ⟨others, hqueue⟩ := List.head?_eq_some_iff.mp hmem
    by_contra hside
    obtain ⟨root, rest, hnil, -⟩ := h.exists_cons hqueue hside
    cases hnil
  | cons root trail ih =>
    by_cases hhead : ∀ position ∈ work.queue.head?, side position
    · exact ⟨work, root :: trail, rfl, .refl hsized, h, htrail, hhead⟩
    · push Not at hhead
      obtain ⟨position, hmem, hside⟩ := hhead
      obtain ⟨others, hqueue⟩ := List.head?_eq_some_iff.mp hmem
      obtain ⟨_, _, heq, rfl⟩ := h.exists_cons hqueue hside
      obtain ⟨rfl, rfl⟩ := List.cons.inj heq
      obtain ⟨left, hleft, hframes, hwaiting, hsettle⟩ := exists_settle_of_queue_cons problem hqueue
      obtain ⟨next, hvisit, hagree, hfollows⟩ := h.exists_visit htrail hsized hqueue hleft hframes hwaiting
      obtain ⟨last', rest, hlast, hagree', hfollows', htrail', hside'⟩ := ih hfollows htrail.tail hagree.sized'
      have hleave : AgreeOn side problem.code.size work left :=
        .leave_of_not hsized hside hqueue hleft hframes hwaiting
      exact ⟨last', rest, (hsettle next hvisit).trans hlast, (hleave.trans hagree).trans hagree', hfollows',
        htrail', hside'⟩

/-- **Settling beside a trail.**  If an analysis settles whose visits stay on one side, then it settles with
the same frames there when it follows a trail elsewhere in addition. -/
theorem AgreeOn.settle (h : AgreeOn side problem.code.size work work') (hplaced : problem.Placed)
    (hclosed : ∀ {position before place frame}, side position →
      problem.Sends position before place frame → side place)
    (hinside : ∀ position ∈ work.queue, side position) (hfollows : work'.Follows side last trail)
    (htrail : problem.Trail side last trail) {result : Worklist}
    (hsettle : problem.settle work = some (.ok result)) :
    ∃ result', problem.settle work' = some (.ok result') ∧
      AgreeOn side problem.code.size result result' := by
  suffices hall : ∀ (work : Worklist) (outcome : Except Fault Worklist),
      problem.settle work = some outcome → ∀ result, outcome = .ok result →
        (∀ position ∈ work.queue, side position) → ∀ (work' : Worklist) (trail : List Root),
          AgreeOn side problem.code.size work work' → work'.Follows side last trail →
            problem.Trail side last trail → ∃ result', problem.settle work' = some (.ok result') ∧
              AgreeOn side problem.code.size result result' from
    hall work _ hsettle result rfl hinside work' trail h hfollows htrail
  clear h hfollows htrail hinside hsettle
  refine FlowProblem.settle.partial_correctness problem _ ?_
  intro settle ih work outcome houtcome result hresult hinside work' trail h hfollows htrail
  obtain ⟨left', rest, hleft', hagree, hfollows', htrail', hhead⟩ :=
    hfollows.exists_settle_side htrail h.sized'
  have h' := h.trans hagree
  rw [hleft']
  split at houtcome
  · next hfront =>
    obtain rfl := Except.ok.inj ((Option.some.inj houtcome).trans hresult)
    have hnil := h'.queue
    rw [queue_eq_nil hfront] at hnil
    have hqueue' : left'.queue = [] := by
      cases hqueue : left'.queue with
      | nil => rfl
      | cons position others =>
        have hside := hhead position (by rw [hqueue]; rfl)
        rw [hqueue, List.filter_cons_of_pos (by simpa using hside)] at hnil
        cases hnil
    exact ⟨_, settle_of_queue_nil hqueue', h'.turned⟩
  · next position others hfront =>
    split at houtcome
    · cases houtcome
      cases hresult
    · next next hvisit =>
      have hqueue := queue_eq_cons hfront
      have hside : side position := hinside position (hqueue ▸ List.mem_cons_self)
      obtain ⟨others', hqueue'⟩ : ∃ others', left'.queue = position :: others' := by
        have hsame := h'.queue
        rw [hqueue, List.filter_cons_of_pos (by simpa using hside)] at hsame
        cases hleft : left'.queue with
        | nil => simp [hleft] at hsame
        | cons first others' =>
          rw [hleft, List.filter_cons_of_pos (by simpa using hhead first (by rw [hleft]; rfl))] at hsame
          exact ⟨others', by rw [(List.cons.inj hsame).1]⟩
      obtain ⟨last', hlast', hframes', hwaiting', hgoes⟩ := exists_settle_of_queue_cons problem hqueue'
      have hleave : AgreeOn side problem.code.size (work.turned.leave position others) last' :=
        h'.leave hside hqueue hqueue' rfl (by rw [leave_turned]) (by rw [leave_turned]) hlast' hframes' hwaiting'
      obtain ⟨next', hvisit', hnext, hapart, hapart'⟩ := hleave.visit hplaced (hclosed hside) hside hvisit
      have haside : AgreeOn (¬ side ·) problem.code.size left' last' :=
        .leave_of_not h'.sized' (by simpa using hside) hqueue' hlast' hframes' hwaiting'
      have hstays : AgreeOn (¬ side ·) problem.code.size work next :=
        (AgreeOn.leave_of_not h.sized (by simpa using hside) hqueue rfl (by rw [leave_turned])
          (by rw [leave_turned])).trans hapart
      rw [hgoes next' hvisit']
      refine ih next outcome houtcome result hresult ?_ next' rest hnext
        (hfollows'.congr htrail' (haside.trans hapart')) htrail'
      intro place hmem
      by_contra hout
      have hnone : work.queue.filter (¬ side ·) = [] :=
        List.filter_eq_nil_iff.mpr fun other hother => by simpa using hinside other hother
      have hfound : place ∈ next.queue.filter (¬ side ·) := List.mem_filter.mpr ⟨hmem, by simpa using hout⟩
      rw [hstays.queue, hnone] at hfound
      cases hfound

end Worklist

end ClassInstrument
