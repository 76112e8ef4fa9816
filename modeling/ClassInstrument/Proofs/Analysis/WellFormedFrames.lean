import ClassInstrument.Proofs.Analysis.Confinement
import ClassInstrument.Proofs.Analysis.FrameShape
import ClassInstrument.Proofs.Classpath.Builtin

/-!
# Frames stay well formed

A frame lists its variables slot by slot and its stack values with their offsets, and most such lists make no
sense.  In a well formed frame a wide variable has its second half behind it, and the offset of a stack value is the
number of slots below it.

`OperationsKeep` says that the operations of an analysis keep a property of frames, and being well formed is such a
property.  Stores clear what they overlap; a merge may cut the variables short, but it makes the halves of a wide
variable unusable together; and an object that is initialized is as wide as before.

`Worklist.Arises` has all worklists that an analysis goes through, also between two frames that one visit brings
and if the analysis fails later or never settles.  What the operations keep holds of every frame in these worklists
and of every frame that is passed on from them.
-/

namespace ClassInstrument

open Outcome

/-! ## Offsets -/

namespace Slots

variable {α : Type} [HasWidth α]

/-- Each entry is where the entries below it end, and as many slots are in use as all of them take. -/
structure Stacked (slots : Slots α) : Prop where
  /-- The offset of an entry is the sum of the widths of the entries below it. -/
  offset_eq : ∀ {position offset entry}, slots.get? position = some (offset, entry) →
    offset = ((slots.toList.take position).map width).sum
  /-- The slots in use are the sum of all widths. -/
  used_eq : slots.used = (slots.toList.map width).sum

omit [HasWidth α] in
/-- The last entry comes behind the others. -/
theorem toList_cons (entries : List (ℕ × α)) (entry : ℕ × α) (used : ℕ) :
    (⟨entry :: entries, used⟩ : Slots α).toList = (⟨entries, entry.1⟩ : Slots α).toList ++ [entry.2] := by
  simp [toList]

omit [HasWidth α] in
/-- The last entry has the last position, and the others keep theirs. -/
theorem get?_cons (entries : List (ℕ × α)) (entry : ℕ × α) (used position : ℕ) :
    (⟨entry :: entries, used⟩ : Slots α).get? position =
      if position = entries.length then some entry else (⟨entries, entry.1⟩ : Slots α).get? position := by
  simp only [get?, located, List.reverse_cons]
  split
  · next hlast => rw [hlast, ← List.length_reverse, List.getElem?_concat_length]
  · next hother =>
    rcases lt_or_gt_of_ne hother with hlt | hgt
    · rw [List.getElem?_append_left (by simpa using hlt)]
    · rw [List.getElem?_eq_none (by simpa using hgt), List.getElem?_eq_none (by simpa using hgt.le)]

/-- Entries are stacked if those below the last one are, it is where they end, and the slots in use end with it. -/
theorem stacked_cons_iff {entries : List (ℕ × α)} {entry : ℕ × α} {used : ℕ} :
    (⟨entry :: entries, used⟩ : Slots α).Stacked ↔
      (⟨entries, entry.1⟩ : Slots α).Stacked ∧ used = entry.1 + width entry.2 := by
  have hlength : (⟨entries, entry.1⟩ : Slots α).toList.length = entries.length := by simp [toList]
  have htake : ∀ position ≤ entries.length, (⟨entry :: entries, used⟩ : Slots α).toList.take position =
      (⟨entries, entry.1⟩ : Slots α).toList.take position := fun position hle => by
    rw [toList_cons, List.take_append_of_le_length (hlength ▸ hle)]
  have hlt : ∀ {position found}, (⟨entries, entry.1⟩ : Slots α).get? position = some found →
      position < entries.length := fun hfound => by
    simpa [located] using (List.getElem?_eq_some_iff.mp hfound).1
  constructor
  · intro h
    have hentry := h.offset_eq ((get?_cons entries entry used entries.length).trans (if_pos rfl))
    rw [htake _ le_rfl, List.take_of_length_le hlength.le] at hentry
    refine ⟨⟨fun {position _ _} hfound => ?_, hentry⟩, ?_⟩
    · rw [← htake position (hlt hfound).le]
      exact h.offset_eq (((get?_cons entries entry used position).trans (if_neg (hlt hfound).ne)).trans hfound)
    · have hused : used = _ := h.used_eq
      rwa [toList_cons, List.map_append, List.sum_append, ← hentry, List.map_singleton, List.sum_singleton] at hused
  · rintro ⟨h, rfl⟩
    refine ⟨fun {position _ _} hfound => ?_, ?_⟩
    · rw [get?_cons] at hfound
      split at hfound
      · next hlast =>
        obtain rfl := Option.some.inj hfound
        rw [hlast, htake _ le_rfl, List.take_of_length_le hlength.le]
        exact h.used_eq
      · rw [htake position (hlt hfound).le]
        exact h.offset_eq hfound
    · rw [toList_cons, List.map_append, List.sum_append, ← h.used_eq, List.map_singleton, List.sum_singleton]

/-- Entries are stacked if pushing them one after the other gives them again. -/
theorem stacked_iff {slots : Slots α} : slots.Stacked ↔ ofList slots.toList = slots := by
  obtain ⟨entries, used⟩ := slots
  induction entries generalizing used with
  | nil =>
    constructor
    · intro h
      obtain rfl : used = 0 := h.used_eq
      rfl
    · intro h
      obtain rfl : 0 = used := congrArg Slots.used h
      refine ⟨fun hfound => ?_, rfl⟩
      cases hfound
  | cons entry entries ih =>
    rw [stacked_cons_iff, ih, toList_cons, ofList_append]
    constructor
    · rintro ⟨h, rfl⟩
      rw [h, push]
    · intro h
      obtain ⟨hentries, rfl⟩ := Slots.mk.inj h
      obtain ⟨hentry, hrest⟩ := List.cons.inj hentries
      rw [← hentry]
      exact ⟨congrArg₂ Slots.mk hrest rfl, rfl⟩

end Slots

/-! ## Well formed frames -/

namespace Frame

/-- A frame whose wide variables have their second half behind them, and whose stack values are at their offsets. -/
structure WellFormed {Cls Site : Type} (frame : Frame Cls Site) : Prop where
  /-- Wide variables have their second half behind them. -/
  halved : Halved frame.locals
  /-- Each stack value is where the values below it end. -/
  stacked : frame.stack.Stacked

/-- Frames are well formed if they are sound, whatever their types are. -/
theorem wellFormed_iff {frame : FlowFrame} : frame.WellFormed ↔ frame.Sound fun _ => True := by
  constructor
  · intro h
    exact ⟨⟨Slots.stacked_iff.mp h.stacked, halved_clearWideLast h.halved⟩, h.halved, fun _ _ => trivial,
      fun _ _ => trivial⟩
  · intro h
    exact ⟨h.halved, Slots.stacked_iff.mpr h.canonical.stack_eq⟩

end Frame

/-- The operations of an analysis keep a property of frames. -/
structure OperationsKeep (holds : FlowFrame → Prop) : Prop where
  /-- The frame on entry to a method has the property. -/
  initial : ∀ {method : MethodContext} {frame}, method.initialFrame = .ok frame → holds frame
  /-- Writing a variable keeps it. -/
  setLocal : ∀ {frame : FlowFrame}, holds frame → ∀ slot type, holds (frame.setLocal slot type)
  /-- Pushing keeps it. -/
  push : ∀ {frame : FlowFrame}, holds frame → ∀ type, holds (frame.push type)
  /-- Popping keeps it. -/
  pop : ∀ {frame : FlowFrame} {type rest}, holds frame → frame.pop = .ok (type, rest) → holds rest
  /-- Instructions keep it. -/
  execute : ∀ {method code position instruction before after}, holds before →
    Transfer.execute method code position instruction before = .ok after → holds after
  /-- It is kept when an object takes the type that its constructor gives it. -/
  construct : ∀ {frame : FlowFrame} {method code position old new}, holds frame →
    Transfer.initialized method code position old = .ok new → holds (frame.replaceAll old new)
  /-- Handlers keep it on entry. -/
  enter : ∀ {frame : FlowFrame}, holds frame → ∀ handler : PlacedHandler, holds (handler.entryFrame frame.locals)
  /-- Merges keep it. -/
  merge : ∀ {hierarchy position existing incoming merged}, holds existing → holds incoming →
    mergeFrames hierarchy position existing incoming = .ok (some merged) → holds merged

/-- Frames stay well formed. -/
theorem operationsKeep_wellFormed : OperationsKeep Frame.WellFormed where
  initial h := Frame.wellFormed_iff.mpr ((MethodContext.sound_initialFrame h).mono fun _ _ => trivial)
  setLocal h slot type :=
    Frame.wellFormed_iff.mpr ((Frame.wellFormed_iff.mp h).setLocal trivial trivial slot)
  push h type := Frame.wellFormed_iff.mpr ((Frame.wellFormed_iff.mp h).push trivial)
  pop h hpop := Frame.wellFormed_iff.mpr ((Frame.wellFormed_iff.mp h).pop hpop)
  execute {method code position instruction before after} h runs := by
    have rules : FrameRules position instruction (Frame.Sound fun _ => True) fun _ => True :=
      soundRules (fun _ => trivial) fun _ => trivial
    have hends := rules.execute (Frame.wellFormed_iff.mp h) method code
    rw [runs] at hends
    exact Frame.wellFormed_iff.mpr hends
  construct {frame method code position old new} h hnew := by
    have htypes := FrameRules.initialized method code position old
    rw [hnew] at htypes
    obtain ⟨hold, name, rfl⟩ := htypes
    exact Frame.wellFormed_iff.mpr ((Frame.wellFormed_iff.mp h).replaceAll trivial hold rfl)
  enter h handler := ⟨h.halved, Slots.stacked_iff.mpr rfl⟩
  merge h h' hmerge :=
    Frame.wellFormed_iff.mpr
      (Frame.Sound.merge (fun _ => trivial) (Frame.wellFormed_iff.mp h) (Frame.wellFormed_iff.mp h') hmerge)

/-! ## Worklists that arise -/

/-- What a visit brings has a property that the operations keep and that the frame before has. -/
theorem OperationsKeep.sends {holds : FlowFrame → Prop} (hkeep : OperationsKeep holds) {problem : FlowProblem}
    {position next : ℕ} {before frame : FlowFrame} (h : holds before)
    (hsends : problem.Sends position before next frame) : holds frame := by
  cases hsends with
  | pass _ _ _ => exact h
  | next _ _ runs _ _ => exact hkeep.execute h runs
  | jump _ _ runs _ _ => exact hkeep.execute h runs
  | throwBefore _ _ _ _ => exact hkeep.enter h _
  | throwAfter _ _ runs _ _ => exact hkeep.enter (hkeep.execute h runs) _

namespace Worklist

/-- All frames of a worklist have a property. -/
def HoldsOnly (holds : FlowFrame → Prop) (work : Worklist) : Prop :=
  ∀ {position frame}, work.frame? position = some frame → holds frame

/-- The worklists that arise in an analysis. -/
inductive Arises (problem : FlowProblem) (initial : FlowFrame) (roots : List Root) : Worklist → Prop
  /-- There are no frames at first. -/
  | start : Arises problem initial roots (start problem.code.size initial)
  /-- The code is entered at its start and at the roots. -/
  | enter {work next root} (h : Arises problem initial roots work) (listed : root ∈ (0, initial) :: roots)
      (brings : work.bring problem.hierarchy root.1 root.2 = .ok next) : Arises problem initial roots next
  /-- The queue is turned round. -/
  | turn {work} (h : Arises problem initial roots work) : Arises problem initial roots work.turned
  /-- A position is visited. -/
  | leave {work position others} (h : Arises problem initial roots work)
      (first : work.front = position :: others) : Arises problem initial roots (work.leave position others)
  /-- The frames around an instruction are measured. -/
  | note {work position instruction before after} (h : Arises problem initial roots work)
      (here : problem.code[position]? = some instruction) (held : work.frame? position = some before)
      (runs : Transfer.execute problem.method problem.code position instruction before = .ok after) :
      Arises problem initial roots (work.noteSizes before after)
  /-- A frame is brought on from a position with the frame that it had when the visit to it began. -/
  | send {found work position before place frame next} (h : Arises problem initial roots found)
      (held : found.frame? position = some before) (sends : problem.Sends position before place frame)
      (h' : Arises problem initial roots work)
      (brings : work.bring problem.hierarchy place frame = .ok next) : Arises problem initial roots next

variable {holds : FlowFrame → Prop} {problem : FlowProblem} {initial : FlowFrame} {roots : List Root}
  {work next : Worklist} {position : ℕ}

/-- Setting a frame that has a property keeps it in the worklist, also if there is no such position. -/
theorem HoldsOnly.update (h : work.HoldsOnly holds) {frame : FlowFrame} (hframe : holds frame) (position : ℕ) :
    (work.update position frame).HoldsOnly holds := by
  have hframes : (work.update position frame).frames = work.frames.setIfInBounds position (some frame) := by
    unfold Worklist.update enqueue
    split <;> rfl
  intro other found hfound
  rw [frame?, hframes, Array.getElem?_setIfInBounds] at hfound
  split at hfound
  · split at hfound
    · exact Option.some.inj hfound ▸ hframe
    · cases hfound
  · exact h hfound

/-- **The step.**  Bringing a frame keeps a property of frames that the operations keep. -/
theorem HoldsOnly.bring (hkeep : OperationsKeep holds) (h : work.HoldsOnly holds) {incoming : FlowFrame}
    (hincoming : holds incoming) {hierarchy : Hierarchy}
    (hbring : work.bring hierarchy position incoming = .ok next) : next.HoldsOnly holds := by
  rcases bring_eq_ok.mp hbring with ⟨-, rfl⟩ | ⟨existing, hexisting, ⟨-, rfl⟩ | ⟨merged, hmerge, rfl⟩⟩
  · exact h.update hincoming position
  · exact h
  · exact h.update (hkeep.merge (h hexisting) hincoming hmerge) position

/-- **The run.**  What the operations keep holds of all frames of the worklists that arise. -/
theorem Arises.holdsOnly (hkeep : OperationsKeep holds) (hentries : ∀ root ∈ (0, initial) :: roots, holds root.2)
    (h : work.Arises problem initial roots) : work.HoldsOnly holds := by
  induction h with
  | start =>
    intro position frame hframe
    rw [frame?, Worklist.start, Array.getElem?_replicate] at hframe
    split at hframe <;> cases hframe
  | enter _ listed brings ih => exact HoldsOnly.bring hkeep ih (hentries _ listed) brings
  | turn _ ih =>
    rw [turned_eq]
    exact ih
  | leave _ _ ih => exact ih
  | note _ _ _ _ ih => exact ih
  | send _ held sends _ brings ih ih' => exact HoldsOnly.bring hkeep ih' (hkeep.sends (ih held) sends) brings

/-- What is delivered from a position is brought on frame by frame. -/
theorem Arises.deliver {found : Worklist} {before : FlowFrame} {sent : List Root}
    (hfound : found.Arises problem initial roots) (held : found.frame? position = some before)
    (hsent : ∀ root ∈ sent, problem.Sends position before root.1 root.2) (h : work.Arises problem initial roots)
    (hdeliver : work.deliver problem.hierarchy sent = .ok next) : next.Arises problem initial roots :=
  foldlM_induction (Worklist.Arises problem initial roots)
    (fun _ root _ hmem hstate hbring => .send hfound held (hsent root hmem) hstate hbring) h hdeliver

/-- Visits lead to worklists that arise. -/
theorem Arises.visit (h : work.Arises problem initial roots) (hvisit : problem.visit position work = .ok next) :
    next.Arises problem initial roots := by
  by_cases hheld : position < problem.code.size ∧ ∃ before, work.frame? position = some before
  · obtain ⟨hlt, before, held⟩ := hheld
    obtain ⟨sent, noted, hdelivers, hdeliver⟩ := (FlowProblem.visit_eq_ok hlt held).mp hvisit
    refine h.deliver held (fun root hmem => hdelivers.sends hmem) ?_ hdeliver
    cases hdelivers with
    | pass _ _ => exact h
    | flow here _ runs _ _ => exact h.note here held runs
  · unfold FlowProblem.visit at hvisit
    split at hvisit
    · next instruction before here held =>
      exact absurd ⟨(Array.getElem?_eq_some_iff.mp here).1, before, held⟩ hheld
    · exact pure_eq_ok.mp hvisit ▸ h

/-- What settles has arisen. -/
theorem Arises.settle (h : work.Arises problem initial roots) {result : Worklist}
    (hsettle : problem.settle work = some (.ok result)) : result.Arises problem initial roots := by
  suffices hall : ∀ (work : Worklist) (outcome : Except Fault Worklist), problem.settle work = some outcome →
      ∀ result, outcome = .ok result → work.Arises problem initial roots →
        result.Arises problem initial roots from
    hall work (.ok result) hsettle result rfl h
  refine FlowProblem.settle.partial_correctness problem _ ?_
  intro settle ih work outcome houtcome result hresult h
  split at houtcome
  · obtain rfl := Except.ok.inj ((Option.some.inj houtcome).trans hresult)
    exact h.turn
  · next position others hfront =>
    split at houtcome
    · cases houtcome
      cases hresult
    · next next hvisit => exact ih next outcome houtcome result hresult ((h.turn.leave hfront).visit hvisit)

end Worklist

/-! ## The frames of an analysis -/

/-- An analysis goes through worklists that arise only. -/
structure FlowProblem.StaysInside (problem : FlowProblem) (initial : FlowFrame) (roots : List Root) : Prop where
  /-- This is so while the code is entered. -/
  enters : ∀ {entered work}, entered <+: (0, initial) :: roots →
    (Worklist.start problem.code.size initial).deliver problem.hierarchy entered = .ok work →
      work.Arises problem initial roots
  /-- It is so within a visit, after any of the frames that it sends. -/
  delivers : ∀ {found work next : Worklist} {position before sent}, found.Arises problem initial roots →
    found.frame? position = some before → (∀ root ∈ sent, problem.Sends position before root.1 root.2) →
      work.Arises problem initial roots → work.deliver problem.hierarchy sent = .ok next →
        next.Arises problem initial roots
  /-- It stays so from each visit to the next one. -/
  visits : ∀ {work next : Worklist} {position others}, work.Arises problem initial roots →
    work.turned.front = position :: others →
      problem.visit position (work.turned.leave position others) = .ok next → next.Arises problem initial roots
  /-- It is so in the end. -/
  settles : ∀ {work result : Worklist}, work.Arises problem initial roots →
    problem.settle work = some (.ok result) → result.Arises problem initial roots

/-- All frames that an analysis holds or passes on have a property. -/
structure FlowProblem.HandlesOnly (problem : FlowProblem) (initial : FlowFrame) (roots : List Root)
    (holds : FlowFrame → Prop) : Prop where
  /-- The frames of the worklists. -/
  held : ∀ {work : Worklist} {position frame}, work.Arises problem initial roots →
    work.frame? position = some frame → holds frame
  /-- The frames behind instructions. -/
  ran : ∀ {work : Worklist} {position instruction before after}, work.Arises problem initial roots →
    work.frame? position = some before → problem.code[position]? = some instruction →
      Transfer.execute problem.method problem.code position instruction before = .ok after → holds after
  /-- The frames that visits bring to other positions. -/
  passed : ∀ {work : Worklist} {position next before frame}, work.Arises problem initial roots →
    work.frame? position = some before → problem.Sends position before next frame → holds frame

/-- Whatever the code does, it stays inside. -/
theorem FlowProblem.staysInside (problem : FlowProblem) (initial : FlowFrame) (roots : List Root) :
    problem.StaysInside initial roots where
  enters hentered hdeliver := foldlM_induction (Worklist.Arises problem initial roots)
    (fun _ _ _ hmem hstate hbring => .enter hstate (hentered.subset hmem) hbring) .start hdeliver
  delivers hfound held hsent h hdeliver := hfound.deliver held hsent h hdeliver
  visits h hfront hvisit := (h.turn.leave hfront).visit hvisit
  settles h hsettle := h.settle hsettle

/-- What the operations keep holds of all frames that an analysis handles. -/
theorem OperationsKeep.handlesOnly {holds : FlowFrame → Prop} (hkeep : OperationsKeep holds) {problem : FlowProblem}
    {initial : FlowFrame} {roots : List Root} (hentries : ∀ root ∈ (0, initial) :: roots, holds root.2) :
    problem.HandlesOnly initial roots holds where
  held h hframe := h.holdsOnly hkeep hentries hframe
  ran h hframe _ runs := hkeep.execute (h.holdsOnly hkeep hentries hframe) runs
  passed h hframe hsends := hkeep.sends (h.holdsOnly hkeep hentries hframe) hsends

/-- **Frames stay well formed.**  The operations of an analysis keep frames well formed, so if the roots are, then
all frames are that it holds or passes on, and the entries of a well formed frame stand for its variables. -/
theorem wellFormed_frames {body : Body} {method : MethodContext} {hierarchy : Hierarchy} {roots : List Root}
    (hroots : ∀ root ∈ roots, root.2.WellFormed) :
    OperationsKeep Frame.WellFormed ∧
    (∀ {initial handlers}, method.initialFrame = .ok initial → body.placedHandlers = .ok handlers →
      (body.flowProblem method hierarchy handlers).StaysInside initial roots ∧
      (body.flowProblem method hierarchy handlers).HandlesOnly initial roots Frame.WellFormed) ∧
    (∀ {analysis : Analysis} {position : ℕ} {frame}, analyze body method hierarchy roots = .ok analysis →
      analysis.frames[position]? = some (some frame) → frame.WellFormed) ∧
    ∀ frame : FlowFrame, frame.WellFormed → Frame.StandFor frame.localEntries frame.locals := by
  have hkeep := operationsKeep_wellFormed
  have hhandles : ∀ {initial handlers}, method.initialFrame = .ok initial →
      (body.flowProblem method hierarchy handlers).HandlesOnly initial roots Frame.WellFormed :=
    fun hinitial => hkeep.handlesOnly (List.forall_mem_cons.mpr ⟨hkeep.initial hinitial, hroots⟩)
  refine ⟨hkeep, fun hinitial _ => ⟨FlowProblem.staysInside _ _ _, hhandles hinitial⟩, ?_,
    fun frame h => Frame.standFor_localEntries h.halved⟩
  intro analysis position frame h hframe
  obtain ⟨initial, handlers, entered, settled, hinitial, hhandlers, -, hentered, hsettled, rfl⟩ :=
    analyze_eq_ok.mp h
  have hinside := FlowProblem.staysInside (body.flowProblem method hierarchy handlers) initial roots
  have hsettled' := hinside.settles (hinside.enters (List.prefix_refl _) (Body.size_code ▸ hentered)) hsettled
  exact (hhandles hinitial).held hsettled' (frames_outcome.mp hframe)

/-- A body that overwrites half of a variable. -/
def halfOverwritten : Body where
  instructions :=
    [.plain Opcode.iconst0, .var Opcode.istore 3, .label ⟨0⟩, .plain Opcode.returnVoid]
  handlers := []
  nextLabel := 1

/-- A root at which the variable is whole is well formed, and so is the frame there, which has lost it. -/
theorem wellFormed_frames_halfOverwritten :
    (∀ root ∈ [((2, Frame.ofTypes [.long, .long] []) : Root)], root.2.WellFormed) ∧ ∃ analysis frame,
      analyze halfOverwritten ⟨"A", "f", "(JJ)V", true⟩ Classpath.empty.hierarchy
        [(2, Frame.ofTypes [.long, .long] [])] = .ok analysis ∧
      analysis.frames[2]? = some (some frame) ∧ frame.locals = [.long, .top, .top, .top] ∧ frame.WellFormed ∧
      Frame.StandFor [.long] frame.locals := by
  have hroot : (Frame.ofTypes [.long, .long] [] : FlowFrame).WellFormed :=
    Frame.wellFormed_iff.mpr (.ofTypes trivial (fun _ _ => trivial) fun _ _ => trivial)
  have hroots : ∀ root ∈ [((2, Frame.ofTypes [.long, .long] []) : Root)], root.2.WellFormed :=
    List.forall_mem_singleton.mpr hroot
  have hanalyze : analyze halfOverwritten ⟨"A", "f", "(JJ)V", true⟩ Classpath.empty.hierarchy
      [(2, Frame.ofTypes [.long, .long] [])] = .ok ⟨#[some ⟨[.long, .top, .long, .top], ⟨[], 0⟩⟩,
        some ⟨[.long, .top, .long, .top], ⟨[(0, .int)], 1⟩⟩, some ⟨[.long, .top, .top, .top], ⟨[], 0⟩⟩,
        some ⟨[.long, .top, .top, .top], ⟨[], 0⟩⟩], 1, 4⟩ := by
    cbv
  obtain ⟨-, -, hframes, hentries⟩ := wellFormed_frames hroots
  have hframe := @hframes _ 2 _ hanalyze rfl
  exact ⟨hroots, _, _, hanalyze, rfl, rfl, hframe, hentries _ hframe⟩

end ClassInstrument
