import ClassInstrument.Proofs.Analysis.Worklist
import ClassInstrument.Proofs.Code.Placements

/-!
# Reachable positions

`Body.Flows` says which positions may run after one: the next one unless control leaves, the places of
the labels that it leads to, and the handlers that cover it.  It speaks of the body alone, not of
frames.  The positions that an analysis reaches are those to which control can flow from an entry,
whatever the hierarchy is like.
-/

namespace ClassInstrument

open Outcome

/-- Control may flow from one position of a body to another one. -/
inductive Body.Flows (body : Body) (position : Nat) : Nat → Prop
  /-- It continues with the next entry. -/
  | next {instruction} (here : body.instructions[position]? = some instruction)
      (falls : instruction.fallsThrough) (room : position + 1 < body.instructions.length) :
      Flows body position (position + 1)
  /-- It is transferred to a label. -/
  | jump {instruction target place} (here : body.instructions[position]? = some instruction)
      (targeted : target ∈ instruction.targets) (placed : body.Places target place) :
      Flows body position place
  /-- It is transferred to an exception handler. -/
  | throw {instruction handler start stop place}
      (here : body.instructions[position]? = some instruction) (real : instruction.isReal)
      (listed : handler ∈ body.handlers) (starts : body.Places handler.start start)
      (stops : body.Places handler.stop stop) (covered : start ≤ position ∧ position < stop)
      (placed : body.Places handler.handler place) : Flows body position place

/-- Control can flow to a position from one of some entries. -/
def Body.Reachable (body : Body) (entries : List Nat) (position : Nat) : Prop :=
  ∃ entry ∈ entries, Relation.ReflTransGen body.Flows entry position

/-- The entries themselves are reachable. -/
theorem Body.reachable_entry {body : Body} {entries : List Nat} {entry : Nat} (h : entry ∈ entries) :
    body.Reachable entries entry :=
  ⟨entry, h, .refl⟩

/-- Where control can flow from a reachable position is reachable. -/
theorem Body.Reachable.flows {body : Body} {entries : List Nat} {position next : Nat}
    (h : body.Reachable entries position) (hflows : body.Flows position next) :
    body.Reachable entries next := by
  obtain ⟨entry, hentry, hpath⟩ := h
  exact ⟨entry, hentry, hpath.tail hflows⟩

/-- Control passes labels and line numbers. -/
theorem Instruction.fallsThrough_of_unreal {instruction : Instruction}
    (h : instruction.isReal = false) : instruction.fallsThrough := by
  cases instruction <;> first | rfl | simp [isReal] at h

/-- Labels and line numbers lead nowhere else. -/
theorem Instruction.targets_of_unreal {instruction : Instruction} (h : instruction.isReal = false) :
    instruction.targets = [] := by
  cases instruction <;> first | rfl | simp [isReal] at h

/-- What leads elsewhere is an instruction. -/
theorem Instruction.isReal_of_target {instruction : Instruction} {target : Label}
    (h : target ∈ instruction.targets) : instruction.isReal := by
  by_contra hunreal
  simp [targets_of_unreal (Bool.not_eq_true _ ▸ hunreal)] at h

/-! ## Handlers -/

/-- An exception handler, and what becomes of it when its labels are turned into positions. -/
structure Body.PlacesHandler (body : Body) (handler : Handler) (placed : PlacedHandler) : Prop where
  start : body.Places handler.start placed.start
  stop : body.Places handler.stop placed.stop
  entry : body.Places handler.handler placed.handler
  caught : placed.caught = handler.caught.getD Name.throwable

/-- The handlers are turned into positions one by one. -/
theorem Body.placedHandlers_eq_ok {body : Body} {handlers : List PlacedHandler}
    (h : body.placedHandlers = .ok handlers) :
    List.Forall₂ body.PlacesHandler body.handlers handlers := by
  unfold Body.placedHandlers at h
  refine (mapM_eq_ok.mp h).imp fun handler placed hplaced => ?_
  obtain ⟨start, hstart, hplaced⟩ := bind_eq_ok.mp hplaced
  obtain ⟨stop, hstop, hplaced⟩ := bind_eq_ok.mp hplaced
  obtain ⟨place, hplace, hplaced⟩ := bind_eq_ok.mp hplaced
  obtain rfl := pure_eq_ok.mp hplaced
  exact ⟨find_labelPositions.mp hstart, find_labelPositions.mp hstop, find_labelPositions.mp hplace,
    rfl⟩

/-- The ranges of handlers that are turned into positions are placed. -/
theorem Body.exists_places {body : Body} {handlers : List PlacedHandler} (h : body.placedHandlers = .ok handlers)
    {handler : Handler} (hmem : handler ∈ body.handlers) :
    (∃ start, body.Places handler.start start) ∧ ∃ stop, body.Places handler.stop stop := by
  obtain ⟨placed, -, hplaces⟩ := exists_right_of_forall₂ (placedHandlers_eq_ok h) hmem
  exact ⟨⟨_, hplaces.start⟩, ⟨_, hplaces.stop⟩⟩

/-- Handlers with placed labels are turned into positions. -/
theorem Body.exists_placedHandlers {body : Body}
    (h : ∀ handler ∈ body.handlers, (∃ start, body.Places handler.start start) ∧
      (∃ stop, body.Places handler.stop stop) ∧ ∃ entry, body.Places handler.handler entry) :
    ∃ handlers, body.placedHandlers = .ok handlers := by
  cases hplaced : body.placedHandlers with
  | ok handlers => exact ⟨handlers, rfl⟩
  | error fault =>
    obtain ⟨handler, hmem, hfault⟩ := exists_of_mapM_eq_error hplaced
    obtain ⟨⟨start, hstart⟩, ⟨stop, hstop⟩, ⟨entry, hentry⟩⟩ := h handler hmem
    rw [Body.find_labelPositions.mpr hstart, Body.find_labelPositions.mpr hstop,
      Body.find_labelPositions.mpr hentry] at hfault
    exact absurd hfault (by simp [bind, Except.bind, pure, Except.pure])

section

variable {body : Body} {method : MethodContext} {hierarchy : Hierarchy}
  {handlers : List PlacedHandler}

/-- The code of a problem is that of its body. -/
theorem Body.getElem?_code {position : Nat} :
    (body.flowProblem method hierarchy handlers).code[position]? = body.instructions[position]? := by
  simp [Body.flowProblem]

/-- The code of a problem is as long as that of its body. -/
theorem Body.size_code :
    (body.flowProblem method hierarchy handlers).code.size = body.instructions.length := by
  simp [Body.flowProblem]

/-- The labels and handlers of a body are placed within it. -/
theorem Body.placed_flowProblem (h : body.placedHandlers = .ok handlers) :
    (body.flowProblem method hierarchy handlers).Placed where
  find_lt hfind := by
    rw [size_code]
    exact (find_labelPositions.mp hfind).lt
  handler_lt hmem := by
    rw [size_code]
    obtain ⟨handler, -, hplaced⟩ := exists_left_of_forall₂ (placedHandlers_eq_ok h) hmem
    exact hplaced.entry.lt

/-- A frame is brought only where control may flow. -/
theorem FlowProblem.Sends.flows (h : body.placedHandlers = .ok handlers) {position next : Nat}
    {before frame : FlowFrame}
    (hsends : (body.flowProblem method hierarchy handlers).Sends position before next frame) :
    body.Flows position next := by
  have hhandler : ∀ {instruction placed}, body.instructions[position]? = some instruction →
      instruction.isReal → placed ∈ handlers → placed.covers position →
        body.Flows position placed.handler := by
    intro instruction placed here real hmem hcovers
    obtain ⟨handler, hlisted, hplaced⟩ := exists_left_of_forall₂ (Body.placedHandlers_eq_ok h) hmem
    exact .throw here real hlisted hplaced.start hplaced.stop
      (by simpa [PlacedHandler.covers] using hcovers) hplaced.entry
  cases hsends with
  | pass here unreal room =>
    exact .next (Body.getElem?_code ▸ here) (Instruction.fallsThrough_of_unreal unreal)
      (Body.size_code ▸ room)
  | next here _ _ falls room => exact .next (Body.getElem?_code ▸ here) falls (Body.size_code ▸ room)
  | jump here _ _ targeted placed =>
    exact .jump (Body.getElem?_code ▸ here) targeted (Body.find_labelPositions.mp placed)
  | throwBefore here real listed covered =>
    exact hhandler (Body.getElem?_code ▸ here) real listed covered
  | throwAfter here real _ listed covered =>
    exact hhandler (Body.getElem?_code ▸ here) real listed covered

/-- From a position that is done with, a frame is brought wherever control may flow. -/
theorem Worklist.Done.exists_sends (h : body.placedHandlers = .ok handlers)
    {takes : FlowFrame → FlowFrame → Prop} {work : Worklist} {position next : Nat}
    {before : FlowFrame}
    (hdone : work.Done (body.flowProblem method hierarchy handlers) takes position before)
    (hflows : body.Flows position next) :
    ∃ frame, (body.flowProblem method hierarchy handlers).Sends position before next frame := by
  have hcode : ∀ {instruction}, body.instructions[position]? = some instruction →
      (body.flowProblem method hierarchy handlers).code[position]? = some instruction :=
    fun here => Body.getElem?_code.trans here
  cases hflows with
  | @next instruction here falls room =>
    have here' := hcode here
    by_cases real : instruction.isReal
    · obtain ⟨after, runs, -⟩ := hdone.runs here' real
      exact ⟨after, .next here' real runs falls (hdone.falls here' real falls)⟩
    · exact ⟨before, .pass here' (by simpa using real) (Body.size_code.symm ▸ room)⟩
  | @jump instruction target place here targeted placed =>
    have here' := hcode here
    have real := Instruction.isReal_of_target targeted
    obtain ⟨after, runs, -⟩ := hdone.runs here' real
    exact ⟨after, .jump here' real runs targeted (Body.find_labelPositions.mpr placed)⟩
  | throw here real listed starts stops covered placed =>
    obtain ⟨found, hfound, hplaced⟩ := exists_right_of_forall₂ (Body.placedHandlers_eq_ok h) listed
    obtain rfl := placed.unique hplaced.entry
    obtain rfl := starts.unique hplaced.start
    obtain rfl := stops.unique hplaced.stop
    exact ⟨_, .throwBefore (hcode here) real hfound
      (by simpa [PlacedHandler.covers] using covered)⟩

/-! ## The outcome of an analysis -/

/-- What becomes of a settled worklist. -/
def Worklist.outcome (work : Worklist) : Analysis :=
  ⟨work.frames, work.maxStack, work.maxLocals⟩

/-- An analysis brings the frames of the entries to their positions, and settles. -/
theorem analyze_eq_ok {roots : List Root} {analysis : Analysis} :
    analyze body method hierarchy roots = .ok analysis ↔
      ∃ initial handlers entered settled, method.initialFrame = .ok initial ∧
        body.placedHandlers = .ok handlers ∧ body.instructions ≠ [] ∧
        ((0, initial) :: roots).foldlM
          (fun work root => work.bring hierarchy root.1 root.2)
          (Worklist.start body.instructions.length initial) = .ok entered ∧
        (body.flowProblem method hierarchy handlers).settle entered = some (.ok settled) ∧
        analysis = settled.outcome := by
  unfold analyze
  constructor
  · intro h
    obtain ⟨initial, hinitial, h⟩ := bind_eq_ok.mp h
    obtain ⟨handlers, hhandlers, h⟩ := bind_eq_ok.mp h
    split at h
    · simp [throw, throwThe, MonadExceptOf.throw, bind, Except.bind] at h
    · next hnonempty =>
      obtain ⟨entered, hentered, h⟩ := bind_eq_ok.mp h
      obtain ⟨settled, hsettled, h⟩ := bind_eq_ok.mp h
      refine ⟨initial, handlers, entered, settled, hinitial, hhandlers, by simpa using hnonempty,
        hentered, ?_, (pure_eq_ok.mp h).symm⟩
      cases hsettle : (body.flowProblem method hierarchy handlers).settle entered with
      | none => simp [hsettle] at hsettled
      | some outcome => rw [hsettle, Option.getD_some] at hsettled; rw [hsettled]
  · rintro ⟨initial, handlers, entered, settled, hinitial, hhandlers, hnonempty, hentered, hsettled,
      rfl⟩
    refine bind_eq_ok.mpr ⟨initial, hinitial, bind_eq_ok.mpr ⟨handlers, hhandlers, ?_⟩⟩
    rw [if_neg (by simpa using hnonempty)]
    exact bind_eq_ok.mpr ⟨entered, hentered, bind_eq_ok.mpr ⟨settled, by simp [hsettled], rfl⟩⟩

namespace Worklist

variable {fits : Nat → FlowFrame → Prop} {takes : FlowFrame → FlowFrame → Prop}

/-- A worklist without frames keeps the invariant. -/
theorem invariant_start (initial : FlowFrame) :
    (start body.instructions.length initial).Invariant (body.flowProblem method hierarchy handlers)
      fits takes := by
  have hframe : ∀ position,
      (start body.instructions.length initial).frame? position = none := by
    intro position
    simp only [frame?, start, Array.getElem?_replicate]
    split <;> rfl
  refine ⟨⟨?_, ?_, ?_, ?_⟩, ?_⟩
  · simp [start, Body.size_code]
  · simp [start, Body.size_code]
  · intro position frame hfound
    simp [hframe] at hfound
  · intro position hwaits
    simp [start, Array.getElem?_replicate] at hwaits
  · intro position frame _ hfound
    simp [hframe] at hfound

/-- A step keeps the invariant. -/
theorem Invariant.step {problem : FlowProblem} {work work' : Worklist}
    (laws : problem.Laws fits takes) (h : work.Invariant problem fits takes)
    (hstep : Step problem fits takes work work') : work'.Invariant problem fits takes := by
  refine ⟨hstep.consistent, fun hidle hframe => ?_⟩
  obtain ⟨hidle, hsame⟩ := hstep.tracks _ hidle
  exact (h.done hidle (hsame ▸ hframe)).mono laws hstep.grows

end Worklist

/-- What an analysis has computed: its frames fit their positions, every position with a frame is done
with, and the frames of the entries are taken in. -/
theorem exists_settled {roots : List Root} {analysis : Analysis}
    {fits : Nat → FlowFrame → Prop} {takes : FlowFrame → FlowFrame → Prop}
    (laws : ∀ handlers, body.placedHandlers = .ok handlers →
      (body.flowProblem method hierarchy handlers).Laws fits takes)
    (hroots : ∀ initial, method.initialFrame = .ok initial →
      ∀ root ∈ (0, initial) :: roots, body.instructions ≠ [] →
        root.1 < body.instructions.length ∧ fits root.1 root.2)
    (h : analyze body method hierarchy roots = .ok analysis) :
    ∃ initial handlers settled, method.initialFrame = .ok initial ∧
      body.placedHandlers = .ok handlers ∧ analysis = Worklist.outcome settled ∧
      settled.Consistent (body.flowProblem method hierarchy handlers) fits ∧
      (∀ {position frame}, settled.frame? position = some frame →
        settled.Done (body.flowProblem method hierarchy handlers) takes position frame) ∧
      ∀ root ∈ (0, initial) :: roots, settled.Holds takes root.1 root.2 := by
  obtain ⟨initial, handlers, entered, settled, hinitial, hhandlers, hnonempty, hentered, hsettled,
    rfl⟩ := analyze_eq_ok.mp h
  have laws := laws handlers hhandlers
  have hstart : (Worklist.start body.instructions.length initial).Invariant
      (body.flowProblem method hierarchy handlers) fits takes := Worklist.invariant_start initial
  obtain ⟨hstep, hheld⟩ := Worklist.step_foldlM laws
    (fun (root : Root) (work : Worklist) => work.Holds takes root.1 root.2)
    (fun hgoal hgrows => hgoal.mono laws hgrows)
    (fun {work root work'} hmem hwork hbring => by
      obtain ⟨hlt, hfits⟩ := hroots initial hinitial root hmem hnonempty
      exact Worklist.step_bring laws hwork (Body.size_code.symm ▸ hlt) hfits hbring)
    hstart.consistent hentered
  obtain ⟨hconsistent, hgrows, hdone⟩ := (hstart.step laws hstep).settle laws
    (Body.placed_flowProblem hhandlers) hsettled
  exact ⟨initial, handlers, settled, hinitial, hhandlers, rfl, hconsistent, hdone,
    fun root hroot => (hheld root hroot).mono laws hgrows⟩

/-- The frames of a settled worklist are its outcome. -/
theorem frames_outcome {work : Worklist} {position : Nat} {frame : FlowFrame} :
    work.outcome.frames[position]? = some (some frame) ↔ work.frame? position = some frame := by
  unfold Worklist.outcome Worklist.frame?
  cases work.frames[position]? <;> simp

/-- A position is reached exactly if a settled worklist has a frame for it. -/
theorem reaches_outcome {work : Worklist} {position : Nat} :
    work.outcome.reaches position ↔ ∃ frame, work.frame? position = some frame := by
  unfold Analysis.reaches Worklist.outcome Worklist.frame?
  dsimp only
  split
  · next frame hframe => simp [hframe]
  · next hnone =>
    simp only [Bool.false_eq_true, false_iff, not_exists]
    intro frame hframe
    cases hfound : work.frames[position]? with
    | none => simp [hfound] at hframe
    | some found =>
      rw [hfound, Option.join_some] at hframe
      exact hnone frame (hframe ▸ hfound)

/-- That a position is reachable is a law of every problem. -/
theorem reachableLaws (hhandlers : body.placedHandlers = .ok handlers) (entries : List Nat) :
    (body.flowProblem method hierarchy handlers).Laws
      (fun position _ => body.Reachable entries position) (fun _ _ => True) where
  refl _ := trivial
  trans _ _ := trivial
  covers _ _ _ := trivial
  merges h _ _ := ⟨h, trivial, trivial⟩
  sends h hsends := h.flows (hsends.flows hhandlers)

/-- What an analysis has computed, as far as the positions that it reaches are concerned. -/
theorem exists_settled_reachable {roots : List Root} {analysis : Analysis}
    (hroots : ∀ root ∈ roots, root.1 < body.instructions.length)
    (h : analyze body method hierarchy roots = .ok analysis) :
    ∃ handlers settled, body.placedHandlers = .ok handlers ∧ analysis = Worklist.outcome settled ∧
      (∀ {position frame}, settled.frame? position = some frame →
        body.Reachable (0 :: roots.map Prod.fst) position ∧
          settled.Done (body.flowProblem method hierarchy handlers) (fun _ _ => True) position frame) ∧
      ∀ entry ∈ 0 :: roots.map Prod.fst, ∃ frame, settled.frame? entry = some frame := by
  have hentry : ∀ initial, ∀ root ∈ (0, initial) :: roots,
      root.1 ∈ 0 :: roots.map Prod.fst := by
    intro initial root hmem
    rcases List.mem_cons.mp hmem with rfl | hmem
    · exact List.mem_cons_self
    · exact List.mem_cons_of_mem _ (List.mem_map_of_mem hmem)
  obtain ⟨initial, handlers, settled, -, hhandlers, rfl, hconsistent, hdone, hheld⟩ :=
    exists_settled (fun handlers hhandlers =>
      reachableLaws hhandlers (0 :: roots.map Prod.fst)) (fun initial _ root hmem hnonempty => by
      refine ⟨?_, Body.reachable_entry (hentry initial root hmem)⟩
      rcases List.mem_cons.mp hmem with rfl | hmem
      · exact List.length_pos_of_ne_nil hnonempty
      · exact hroots root hmem) h
  refine ⟨handlers, settled, hhandlers, rfl,
    fun hframe => ⟨hconsistent.fits hframe, hdone hframe⟩, fun entry hmem => ?_⟩
  obtain ⟨root, hroot, rfl⟩ : ∃ root ∈ (0, initial) :: roots, root.1 = entry := by
    rcases List.mem_cons.mp hmem with rfl | hmem
    · exact ⟨_, List.mem_cons_self, rfl⟩
    · obtain ⟨root, hroot, rfl⟩ := List.mem_map.mp hmem
      exact ⟨root, List.mem_cons_of_mem _ hroot, rfl⟩
  obtain ⟨frame, hframe, -⟩ := hheld root hroot
  exact ⟨frame, hframe⟩

/-- An analysis reaches the positions to which control can flow from its entries, and no others. -/
theorem reaches_iff {roots : List Root} {analysis : Analysis}
    (hroots : ∀ root ∈ roots, root.1 < body.instructions.length)
    (h : analyze body method hierarchy roots = .ok analysis) (position : Nat) :
    analysis.reaches position ↔ body.Reachable (0 :: roots.map Prod.fst) position := by
  obtain ⟨handlers, settled, hhandlers, rfl, hdone, hentries⟩ := exists_settled_reachable hroots h
  rw [reaches_outcome]
  constructor
  · rintro ⟨frame, hframe⟩
    exact (hdone hframe).1
  · rintro ⟨entry, hmem, hpath⟩
    induction hpath with
    | refl => exact hentries entry hmem
    | tail _ hflows ih =>
      obtain ⟨frame, hframe⟩ := ih
      obtain ⟨brought, hsends⟩ := (hdone hframe).2.exists_sends hhandlers hflows
      obtain ⟨found, hfound, -⟩ := (hdone hframe).2.sends hsends
      exact ⟨found, hfound⟩

/-- An instruction that is reached leads to places of the body only. -/
theorem goesOn_of_reaches {roots : List Root} {analysis : Analysis}
    (hroots : ∀ root ∈ roots, root.1 < body.instructions.length)
    (h : analyze body method hierarchy roots = .ok analysis) {position : Nat}
    (hreaches : analysis.reaches position) {instruction : Instruction}
    (here : body.instructions[position]? = some instruction) (real : instruction.isReal) :
    (instruction.fallsThrough → position + 1 < body.instructions.length) ∧
      ∀ target ∈ instruction.targets, ∃ place, body.Places target place := by
  obtain ⟨handlers, settled, -, rfl, hdone, -⟩ := exists_settled_reachable hroots h
  obtain ⟨frame, hframe⟩ := reaches_outcome.mp hreaches
  have here' : (body.flowProblem method hierarchy handlers).code[position]? = some instruction :=
    Body.getElem?_code.trans here
  refine ⟨fun falls => Body.size_code ▸ (hdone hframe).2.falls here' real falls,
    fun target htarget => ?_⟩
  obtain ⟨place, hplace⟩ := (hdone hframe).2.targets here' real htarget
  exact ⟨place, Body.find_labelPositions.mp hplace⟩

end

end ClassInstrument
