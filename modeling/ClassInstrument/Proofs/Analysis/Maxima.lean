import ClassInstrument.Proofs.Analysis.Acceptance

/-!
# The most slots in use

An analysis counts the stack slots before and after every instruction that it runs, and the local variables behind
it.  Only stores make a frame longer, and how long depends on the width of what is stored.  So two analyses whose
frames fit the same typing find the same maxima (`Body.Typing.maxima_le` and `Body.Typing.le_maxima`).
-/

namespace ClassInstrument

open Outcome

/-! ## What an analysis counts -/

namespace Worklist

variable {problem : FlowProblem} {fits : ℕ → FlowFrame → Prop} {takes : FlowFrame → FlowFrame → Prop}
  {work work' : Worklist} {position : ℕ}

/-- The maxima of two worklists are the same. -/
def SameMaxima (work work' : Worklist) : Prop :=
  work'.maxStack = work.maxStack ∧ work'.maxLocals = work.maxLocals

/-- Bringing a frame does not change the maxima. -/
theorem sameMaxima_bring {hierarchy : Hierarchy} {incoming : FlowFrame}
    (h : work.bring hierarchy position incoming = .ok work') : work.SameMaxima work' := by
  have hupdate (frame : FlowFrame) : work.SameMaxima (work.update position frame) := by
    unfold update enqueue
    split <;> exact ⟨rfl, rfl⟩
  rcases bring_eq_ok.mp h with ⟨-, rfl⟩ | ⟨_, -, ⟨-, rfl⟩ | ⟨merged, -, rfl⟩⟩
  · exact hupdate incoming
  · exact ⟨rfl, rfl⟩
  · exact hupdate merged

/-- Steps that do not change the maxima do not do so one after the other. -/
theorem sameMaxima_foldlM {α : Type} {action : Worklist → α → Except Fault Worklist} {items : List α}
    (hstep : ∀ {work item work'}, action work item = .ok work' → work.SameMaxima work')
    (h : items.foldlM action work = .ok work') : work.SameMaxima work' := by
  induction items generalizing work with
  | nil =>
    obtain rfl := pure_eq_ok.mp h
    exact ⟨rfl, rfl⟩
  | cons item items ih =>
    rw [List.foldlM_cons] at h
    obtain ⟨next, hnext, h⟩ := bind_eq_ok.mp h
    exact ⟨(ih h).1.trans (hstep hnext).1, (ih h).2.trans (hstep hnext).2⟩

/-- Carrying the frame before an instruction on counts its slots once. -/
theorem sameMaxima_flow {instruction : Instruction} {before : FlowFrame}
    (h : problem.flow position instruction before work = .ok work') : ∃ after,
      Transfer.execute problem.method problem.code position instruction before = .ok after ∧
        (work.noteSizes before after).SameMaxima work' := by
  unfold FlowProblem.flow at h
  obtain ⟨after, runs, h⟩ := bind_eq_ok.mp h
  obtain ⟨thrown, hthrown, h⟩ := bind_eq_ok.mp h
  obtain ⟨jumped, hjumped, h⟩ := bind_eq_ok.mp h
  have hthrow := sameMaxima_foldlM (fun h => by
    obtain ⟨middle, hmiddle, h⟩ := bind_eq_ok.mp h
    exact ⟨(sameMaxima_bring h).1.trans (sameMaxima_bring hmiddle).1,
      (sameMaxima_bring h).2.trans (sameMaxima_bring hmiddle).2⟩) hthrown
  have hjump := sameMaxima_foldlM (fun h => by
    obtain ⟨place, -, h⟩ := bind_eq_ok.mp h
    exact sameMaxima_bring h) hjumped
  have hfall : jumped.SameMaxima work' := by
    split at h
    · split at h
      · exact sameMaxima_bring h
      · cases h
    · obtain rfl := pure_eq_ok.mp h
      exact ⟨rfl, rfl⟩
  exact ⟨after, runs, hfall.1.trans (hjump.1.trans hthrow.1), hfall.2.trans (hjump.2.trans hthrow.2)⟩

/-- What holds of the maxima and is kept when an instruction is counted holds when nothing waits any more. -/
theorem maxima_settle {p : ℕ → ℕ → Prop} (laws : problem.Laws fits takes) (hplaced : problem.Placed)
    (hcount : ∀ {position : ℕ} {instruction before after stack locals}, problem.code[position]? = some instruction →
      instruction.isReal → fits position before →
        Transfer.execute problem.method problem.code position instruction before = .ok after → p stack locals →
          p (max (max stack before.stack.used) after.stack.used) (max locals after.locals.length))
    (h : work.Consistent problem fits) (hmaxima : p work.maxStack work.maxLocals) {result : Worklist}
    (hsettle : problem.settle work = some (.ok result)) : p result.maxStack result.maxLocals := by
  suffices hall : ∀ (work : Worklist) (outcome : Except Fault Worklist), problem.settle work = some outcome →
      ∀ result, outcome = .ok result → work.Consistent problem fits → p work.maxStack work.maxLocals →
        p result.maxStack result.maxLocals from hall work (.ok result) hsettle result rfl h hmaxima
  refine FlowProblem.settle.partial_correctness problem _ ?_
  intro settle ih work outcome houtcome result hresult h hmaxima
  split at houtcome
  · obtain rfl := Except.ok.inj ((Option.some.inj houtcome).trans hresult)
    rw [turned_eq]
    exact hmaxima
  · next position others hfront =>
    split at houtcome
    · cases houtcome
      cases hresult
    · next work' hvisit =>
      have hleft := h.leave hfront
      refine ih work' outcome houtcome result hresult (step_visit laws hplaced hleft hvisit).1.consistent ?_
      rw [leave_turned] at hvisit hleft
      unfold FlowProblem.visit at hvisit
      split at hvisit
      · next instruction before here hframe =>
        split at hvisit
        · next real =>
          obtain ⟨after, runs, hsame⟩ := sameMaxima_flow hvisit
          rw [hsame.1, hsame.2]
          exact hcount here real (hleft.fits hframe) runs hmaxima
        · split at hvisit
          · rw [(sameMaxima_bring hvisit).1, (sameMaxima_bring hvisit).2]
            exact hmaxima
          · obtain rfl := pure_eq_ok.mp hvisit
            exact hmaxima
      · obtain rfl := pure_eq_ok.mp hvisit
        exact hmaxima

end Worklist

/-- What holds of the variables on entry, and is kept when an instruction is counted, holds of the maxima of an
analysis. -/
theorem maxima_of_analyze {body : Body} {method : MethodContext} {hierarchy : Hierarchy} {roots : List Root}
    {analysis : Analysis} {fits : ℕ → FlowFrame → Prop} {takes : FlowFrame → FlowFrame → Prop} {p : ℕ → ℕ → Prop}
    (laws : ∀ handlers, body.placedHandlers = .ok handlers →
      (body.flowProblem method hierarchy handlers).Laws fits takes)
    (hroots : ∀ initial, method.initialFrame = .ok initial →
      ∀ root ∈ (0, initial) :: roots, body.instructions ≠ [] →
        root.1 < body.instructions.length ∧ fits root.1 root.2)
    (hstart : ∀ initial, method.initialFrame = .ok initial → p 0 initial.locals.length)
    (hcount : ∀ {position : ℕ} {instruction before after stack locals},
      body.instructions[position]? = some instruction → instruction.isReal → fits position before →
        Transfer.execute method body.instructions.toArray position instruction before = .ok after →
          p stack locals → p (max (max stack before.stack.used) after.stack.used) (max locals after.locals.length))
    (h : analyze body method hierarchy roots = .ok analysis) : p analysis.maxStack analysis.maxLocals := by
  obtain ⟨initial, handlers, entered, settled, hinitial, hhandlers, hnonempty, hentered, hsettled, rfl⟩ :=
    analyze_eq_ok.mp h
  have laws := laws handlers hhandlers
  have hempty : (Worklist.start body.instructions.length initial).Invariant
      (body.flowProblem method hierarchy handlers) fits takes := Worklist.invariant_start initial
  obtain ⟨hstep, -⟩ := Worklist.step_foldlM laws (fun (_ : Root) (_ : Worklist) => True) (fun _ _ => trivial)
    (fun {work root work'} hmem hwork hbring => by
      obtain ⟨hlt, hfits⟩ := hroots initial hinitial root hmem hnonempty
      exact ⟨(Worklist.step_bring laws hwork (Body.size_code.symm ▸ hlt) hfits hbring).1, trivial⟩)
    hempty.consistent hentered
  have hsame := Worklist.sameMaxima_foldlM (fun h => Worklist.sameMaxima_bring h) hentered
  refine Worklist.maxima_settle laws (Body.placed_flowProblem hhandlers)
    (fun here real hfits runs => hcount (Body.getElem?_code.symm.trans here) real hfits runs)
    hstep.consistent ?_ hsettled
  rw [hsame.1, hsame.2]
  exact hstart initial hinitial

/-! ## How long frames get -/

namespace Frame

variable {frame rest : FlowFrame}

/-- The slots of local variables that a store takes, up to the last one, if it stores what is on the stack. -/
def storedTo (frame : FlowFrame) (slot : ℕ) : ℕ :=
  match frame.pop with
  | .ok (type, _) => slot + width type
  | .error _ => 0

theorem locals_drop {count : ℕ} (h : frame.drop count = .ok rest) : rest.locals = frame.locals := by
  induction count generalizing frame with
  | zero =>
    cases h
    rfl
  | succ count ih =>
    obtain ⟨⟨type, middle⟩, hpop, h⟩ := bind_eq_ok.mp h
    exact (ih h).trans (pop_eq_ok hpop).2

theorem locals_shuffle {shuffle : Shuffle} (h : frame.shuffle shuffle = .ok rest) : rest.locals = frame.locals := by
  obtain ⟨⟨taken, pushed⟩, -, h⟩ := bind_eq_ok.mp h
  obtain ⟨middle, hdrop, h⟩ := bind_eq_ok.mp h
  obtain rfl := pure_eq_ok.mp h
  exact (locals_drop hdrop :)

end Frame

theorem Effect.locals_apply {effect : Effect} {frame after : FlowFrame} (h : effect.apply frame = .ok after) :
    after.locals = frame.locals := by
  cases effect with
  | keep =>
    obtain rfl := pure_eq_ok.mp h
    rfl
  | pops count => exact Frame.locals_drop h
  | gives count type =>
    obtain ⟨rest, hdrop, h⟩ := bind_eq_ok.mp h
    obtain rfl := pure_eq_ok.mp h
    exact (Frame.locals_drop hdrop :)
  | loadsElement =>
    obtain ⟨⟨index, middle⟩, hindex, h⟩ := bind_eq_ok.mp h
    obtain ⟨⟨array, rest⟩, harray, h⟩ := bind_eq_ok.mp h
    obtain rfl := pure_eq_ok.mp h
    exact (Frame.pop_eq_ok harray).2.trans (Frame.pop_eq_ok hindex).2
  | shuffles shuffle => exact Frame.locals_shuffle h

/-- The slots of local variables that an instruction takes, up to the last one. -/
def Instruction.extent (instruction : Instruction) (frame : FlowFrame) : ℕ :=
  match instruction with
  | .var opcode slot => if opcode.isStore then frame.storedTo slot.toNat else 0
  | _ => 0

namespace Transfer

variable {method : MethodContext} {code : Array Instruction} {position : ℕ} {frame after : FlowFrame}

theorem locals_dropped {count : ℕ} (h : blame position (frame.drop count) = .ok after) :
    after.locals = frame.locals :=
  Frame.locals_drop (FrameFits.blame_eq_ok.mp h)

@[simp] theorem locals_pushResult (frame : FlowFrame) (result : Option FieldType) :
    (pushResult frame result).locals = frame.locals := by
  cases result <;> rfl

theorem length_accessVariable {opcode : Opcode} {slot : ℕ}
    (h : accessVariable position opcode slot frame = .ok after) :
    after.locals.length = max frame.locals.length (if opcode.isStore then frame.storedTo slot else 0) := by
  unfold accessVariable at h
  split at h
  case h_6 =>
    split at h
    · next hstore =>
      obtain ⟨⟨type, rest⟩, hpop, h⟩ := bind_eq_ok.mp h
      obtain rfl := pure_eq_ok.mp h
      have hpop := FrameFits.blame_eq_ok.mp hpop
      rw [if_pos hstore, Frame.storedTo, hpop, Frame.length_setLocal, (Frame.pop_eq_ok hpop).2]
    · cases h
  case h_5 =>
    rw [if_neg (by decide), Nat.max_zero]
    split at h
    · split at h
      · obtain rfl := pure_eq_ok.mp h
        rfl
      · cases h
    · cases h
  all_goals
    obtain rfl := pure_eq_ok.mp h
    exact (Nat.max_zero _).symm

theorem locals_useType {opcode : Opcode} {name : String} (h : useType position opcode name frame = .ok after) :
    after.locals = frame.locals := by
  unfold useType at h
  split at h
  · obtain rfl := pure_eq_ok.mp h
    rfl
  · obtain ⟨rest, hdrop, h⟩ := bind_eq_ok.mp h
    obtain ⟨element, -, h⟩ := bind_eq_ok.mp h
    obtain rfl := pure_eq_ok.mp h
    exact (locals_dropped hdrop :)
  all_goals
    obtain ⟨rest, hdrop, h⟩ := bind_eq_ok.mp h
    obtain rfl := pure_eq_ok.mp h
    exact (locals_dropped hdrop :)

theorem locals_accessField {opcode : Opcode} {accessed : Member}
    (h : accessField position opcode accessed frame = .ok after) : after.locals = frame.locals := by
  unfold accessField at h
  obtain ⟨type, -, h⟩ := bind_eq_ok.mp h
  split at h
  · obtain rfl := pure_eq_ok.mp h
    rfl
  · exact locals_dropped h
  · obtain ⟨rest, hdrop, h⟩ := bind_eq_ok.mp h
    obtain rfl := pure_eq_ok.mp h
    exact (locals_dropped hdrop :)
  · exact locals_dropped h

theorem length_call {opcode : Opcode} {callee : Member}
    (h : call method code position opcode callee frame = .ok after) :
    after.locals.length = frame.locals.length := by
  obtain ⟨descriptor, -, h⟩ := bind_eq_ok.mp h
  obtain ⟨rest, hdrop, h⟩ := bind_eq_ok.mp h
  have hrest := congrArg List.length (locals_dropped hdrop)
  split at h
  · obtain rfl := pure_eq_ok.mp h
    simpa using hrest
  · obtain ⟨⟨receiver, below⟩, hpop, h⟩ := bind_eq_ok.mp h
    have hbelow := congrArg List.length (Frame.pop_eq_ok (FrameFits.blame_eq_ok.mp hpop)).2
    dsimp only at h
    split at h
    · obtain ⟨type, -, h⟩ := bind_eq_ok.mp h
      obtain rfl := pure_eq_ok.mp h
      simpa [Frame.replaceAll] using hbelow.trans hrest
    · obtain rfl := pure_eq_ok.mp h
      simpa using hbelow.trans hrest

theorem locals_jump {opcode : Opcode} (h : jump position opcode frame = .ok after) :
    after.locals = frame.locals := by
  unfold jump at h
  dsimp only at h
  split_ifs at h
  · exact locals_dropped h
  · exact locals_dropped h
  · cases h
    rfl

/-- An instruction makes a frame as long as the slots that it takes, unless the frame is longer. -/
theorem length_execute {instruction : Instruction}
    (h : execute method code position instruction frame = .ok after) :
    after.locals.length = max frame.locals.length (instruction.extent frame) := by
  have hsame {count : ℕ} (hkept : count = frame.locals.length) : count = max frame.locals.length 0 :=
    hkept.trans (Nat.max_zero _).symm
  unfold execute at h
  split at h
  · obtain rfl := pure_eq_ok.mp h
    exact hsame rfl
  · obtain rfl := pure_eq_ok.mp h
    exact hsame rfl
  · split at h
    · exact hsame (congrArg List.length (Effect.locals_apply (FrameFits.blame_eq_ok.mp h)))
    · cases h
  · obtain ⟨rest, hdrop, h⟩ := bind_eq_ok.mp h
    split at h
    · obtain rfl := pure_eq_ok.mp h
      exact hsame (congrArg List.length (locals_dropped hdrop) :)
    · cases h
  · obtain rfl := pure_eq_ok.mp h
    exact hsame rfl
  · exact length_accessVariable h
  · obtain rfl := pure_eq_ok.mp h
    exact hsame rfl
  · exact hsame (congrArg List.length (locals_useType h))
  · exact hsame (congrArg List.length (locals_accessField h))
  · exact hsame (length_call h)
  · obtain ⟨parsed, -, h⟩ := bind_eq_ok.mp h
    obtain ⟨rest, hdrop, h⟩ := bind_eq_ok.mp h
    obtain rfl := pure_eq_ok.mp h
    exact hsame (by rw [locals_pushResult, locals_dropped hdrop])
  · exact hsame (congrArg List.length (locals_jump h))
  · obtain ⟨type, -, h⟩ := bind_eq_ok.mp h
    obtain rfl := pure_eq_ok.mp h
    exact hsame rfl
  · exact hsame (congrArg List.length (locals_dropped h))
  · exact hsame (congrArg List.length (locals_dropped h))
  · obtain ⟨rest, hdrop, h⟩ := bind_eq_ok.mp h
    obtain rfl := pure_eq_ok.mp h
    exact hsame (congrArg List.length (locals_dropped hdrop) :)

end Transfer

/-- A merge makes no frame longer. -/
theorem length_locals_of_mergeFrames {hierarchy : Hierarchy} {position : ℕ} {existing incoming merged : FlowFrame}
    (h : mergeFrames hierarchy position existing incoming = .ok (some merged)) :
    merged.locals.length ≤ existing.locals.length := by
  obtain ⟨-, stack, locals, -, hlocals, hfound⟩ := mergeFrames_eq_ok.mp h
  split at hfound
  · cases hfound
  · obtain rfl := Option.some.inj hfound
    rw [mergedFrame, Merge.clearWideLast, Frame.length_clearWideAt, ← (mapM_eq_ok.mp hlocals).length_eq]
    simp

/-! ## Frames that fit -/

section

variable {hierarchy : Hierarchy} {site : ℕ → ℕ} {frame super : FlowFrame}

theorem Slots.used_ofList {α : Type} [HasWidth α] (entries : List α) :
    (Slots.ofList entries).used = (entries.map width).sum := by
  induction entries using List.reverseRecOn with
  | nil => rfl
  | append_singleton entries entry ih =>
    rw [Slots.ofList_append, Slots.push, ih]
    simp

theorem TypeFits.width_eq {sub type : FlowType} (h : TypeFits hierarchy site sub type) : width sub = width type := by
  simp only [width, h.isWide]

/-- Frames that fit use as many stack slots. -/
theorem FrameFits.used_eq (h : FrameFits hierarchy site frame super) (hcanonical : super.Canonical) :
    frame.stack.used = super.stack.used := by
  rw [← h.canonical.stack_eq, ← hcanonical.stack_eq, Slots.used_ofList, Slots.used_ofList,
    map_eq_map_of_forall₂ h.stack fun _ _ hfits => hfits.width_eq]

/-- On frames that fit, stores take as many variables. -/
theorem FrameFits.storedTo_eq (h : FrameFits hierarchy site frame super) (slot : ℕ) :
    frame.storedTo slot = super.storedTo slot := by
  unfold Frame.storedTo
  cases hpop : super.pop with
  | ok popped =>
    obtain ⟨own, below, hown, hfits, -⟩ := h.pop hpop
    rw [hown]
    exact congrArg (slot + ·) hfits.width_eq
  | error defect =>
    have hvalues := h.values
    have hnone : super.stack.entries.map Prod.snd = [] := by
      cases hentries : super.stack.entries.map Prod.snd with
      | nil => rfl
      | cons type below =>
        obtain ⟨rest, hrest, -⟩ := Frame.exists_pop hentries
        cases hpop.symm.trans hrest
    rw [hnone] at hvalues
    have hempty := List.map_eq_nil_iff.mp (List.forall₂_nil_right_iff.mp hvalues)
    simp [Frame.pop, Slots.pop?, hempty]

/-- On frames that fit, instructions take as many variables. -/
theorem FrameFits.extent_eq (h : FrameFits hierarchy site frame super) (instruction : Instruction) :
    instruction.extent frame = instruction.extent super := by
  cases instruction with
  | var opcode slot => simp only [Instruction.extent, h.storedTo_eq]
  | _ => rfl

end

/-! ## Analyses of typed bodies -/

namespace Body.Typing

variable {body : Body} {hierarchy : Hierarchy} {typing : ℕ → Option FlowFrame} {method : MethodContext}
  {source : Array Instruction} {site : ℕ → ℕ} (hwf : hierarchy.WellFormed)
  (hroot : hierarchy.Knows Name.object) (howner : NameKnown hierarchy method.owner)
  (h : body.Typing hierarchy typing method source site) {initial : FlowFrame} {roots : List Root}
  (hinitial : method.initialFrame = .ok initial)
  (hroots : ∀ root ∈ (0, initial) :: roots, ∃ super, typing root.1 = some super ∧
    FrameFits hierarchy site root.2 super)
  {analysis : Analysis} (hanalysis : analyze body method hierarchy roots = .ok analysis)
include hwf hroot howner h hinitial hroots hanalysis

/-- A typing that is within some bounds keeps the maxima of an analysis within them. -/
theorem maxima_le {stack locals : ℕ}
    (hlocals : ∀ root ∈ (0, initial) :: roots, root.2.locals.length ≤ locals)
    (hbound : ∀ {position : ℕ} {instruction : Instruction} {origin : ℕ} {before after : FlowFrame},
      body.instructions[position]? = some instruction → instruction.isReal → typing position = some before →
        Transfer.execute method source origin instruction before = .ok after →
          (∀ place, position = site place → origin = place) →
            before.stack.used ≤ stack ∧ after.stack.used ≤ stack ∧ instruction.extent before ≤ locals) :
    analysis.maxStack ≤ stack ∧ analysis.maxLocals ≤ locals := by
  let fits : ℕ → FlowFrame → Prop := fun position frame =>
    (∃ super, typing position = some super ∧ FrameFits hierarchy site frame super) ∧
      frame.locals.length ≤ locals
  have hruns : ∀ {position : ℕ} {instruction : Instruction} {frame own : FlowFrame},
      body.instructions[position]? = some instruction → instruction.isReal → fits position frame →
        Transfer.execute method body.instructions.toArray position instruction frame = .ok own →
          frame.stack.used ≤ stack ∧ own.stack.used ≤ stack ∧ own.locals.length ≤ locals := by
    rintro position instruction frame own here real ⟨⟨super, hsuper, hfits⟩, hlength⟩ hown
    obtain ⟨origin, after, runs, horigin, hcreation, harray, -⟩ := h.step here hsuper
    obtain ⟨own', hown', hafter⟩ := hfits.execute h.sites howner
      (h.known instruction (List.mem_of_getElem? here)) harray hcreation runs
    obtain rfl := Except.ok.inj (hown.symm.trans hown')
    obtain ⟨hbefore, hbehind, hextent⟩ := hbound here real hsuper runs horigin
    have hcanonical := h.canonical hsuper
    have hends := (canonicalRules origin instruction).execute hcanonical method source
    rw [runs] at hends
    rw [hfits.used_eq hcanonical, hafter.used_eq hends, Transfer.length_execute hown,
      hfits.extent_eq instruction]
    exact ⟨hbefore, hbehind, Nat.max_le.mpr ⟨hlength, hextent⟩⟩
  have laws : ∀ handlers, body.placedHandlers = .ok handlers →
      (body.flowProblem method hierarchy handlers).Laws fits fun _ _ => True := by
    intro handlers hhandlers
    have laws := (h.safe hwf hroot howner hhandlers).laws
    refine ⟨fun _ => trivial, fun _ _ => trivial, fun _ _ _ => trivial, ?_, ?_⟩
    · rintro position existing incoming merged ⟨hexisting, hlength⟩ ⟨hincoming, -⟩ hmerge
      refine ⟨⟨(laws.merges hexisting hincoming hmerge).1, ?_⟩, trivial, trivial⟩
      exact (length_locals_of_mergeFrames hmerge).trans hlength
    · rintro position frame next brought ⟨hfits, hlength⟩ hsends
      refine ⟨laws.sends hfits hsends, ?_⟩
      cases hsends with
      | pass => exact hlength
      | next here real runs =>
        exact (hruns (Body.getElem?_code.symm.trans here) real ⟨hfits, hlength⟩ runs).2.2
      | jump here real runs =>
        exact (hruns (Body.getElem?_code.symm.trans here) real ⟨hfits, hlength⟩ runs).2.2
      | throwBefore => exact hlength
      | throwAfter here real runs =>
        exact (hruns (Body.getElem?_code.symm.trans here) real ⟨hfits, hlength⟩ runs).2.2
  refine maxima_of_analyze (p := fun most more => most ≤ stack ∧ more ≤ locals) laws ?_ ?_ ?_ hanalysis
  · intro other hother root hmem _
    obtain rfl := Except.ok.inj (hinitial.symm.trans hother)
    obtain ⟨super, hsuper, hfits⟩ := hroots root hmem
    exact ⟨h.inside hsuper, ⟨super, hsuper, hfits⟩, hlocals root hmem⟩
  · intro other hother
    obtain rfl := Except.ok.inj (hinitial.symm.trans hother)
    exact ⟨Nat.zero_le _, hlocals _ List.mem_cons_self⟩
  · rintro position instruction before after most more here real hfits runs ⟨hmost, hmore⟩
    obtain ⟨hbefore, hafter, hlength⟩ := hruns here real hfits runs
    exact ⟨Nat.max_le.mpr ⟨Nat.max_le.mpr ⟨hmost, hbefore⟩, hafter⟩, Nat.max_le.mpr ⟨hmore, hlength⟩⟩

/-- The maxima of an analysis are not below what a typing has where the analysis gets to. -/
theorem le_maxima : initial.locals.length ≤ analysis.maxLocals ∧
    ∀ {position : ℕ} {instruction : Instruction} {before : FlowFrame},
      body.instructions[position]? = some instruction → instruction.isReal → typing position = some before →
        analysis.reaches position → ∃ origin after,
          Transfer.execute method source origin instruction before = .ok after ∧
            (∀ place, position = site place → origin = place) ∧ before.stack.used ≤ analysis.maxStack ∧
              after.stack.used ≤ analysis.maxStack ∧ instruction.extent before ≤ analysis.maxLocals := by
  have laws (handlers : List PlacedHandler) (hhandlers : body.placedHandlers = .ok handlers) :=
    (h.safe hwf hroot howner hhandlers).laws
  have hfit : ∀ other, method.initialFrame = .ok other → ∀ root ∈ (0, other) :: roots,
      body.instructions ≠ [] → root.1 < body.instructions.length ∧
        ∃ super, typing root.1 = some super ∧ FrameFits hierarchy site root.2 super := by
    intro other hother root hmem _
    obtain rfl := Except.ok.inj (hinitial.symm.trans hother)
    obtain ⟨super, hsuper, hfits⟩ := hroots root hmem
    exact ⟨h.inside hsuper, super, hsuper, hfits⟩
  constructor
  · refine maxima_of_analyze (p := fun _ locals => initial.locals.length ≤ locals) laws hfit ?_ ?_ hanalysis
    · intro other hother
      obtain rfl := Except.ok.inj (hinitial.symm.trans hother)
      exact le_rfl
    · intro _ _ _ _ _ _ _ _ _ _ hle
      exact hle.trans (le_max_left _ _)
  · intro position instruction before here real hbefore hreaches
    obtain ⟨_, handlers, settled, -, -, rfl, hconsistent, hdone, -⟩ := exists_settled laws hfit hanalysis
    obtain ⟨frame, hframe⟩ := reaches_outcome.mp hreaches
    obtain ⟨super, hsuper, hfits⟩ := hconsistent.fits hframe
    obtain rfl := Option.some.inj (hbefore.symm.trans hsuper)
    obtain ⟨own, hown, hstack, hstack', hlocals⟩ := (hdone hframe).runs (Body.getElem?_code.trans here) real
    obtain ⟨origin, after, runs, horigin, hcreation, harray, -⟩ := h.step here hbefore
    obtain ⟨own', hown', hafter⟩ := hfits.execute h.sites howner
      (h.known instruction (List.mem_of_getElem? here)) harray hcreation runs
    obtain rfl := Except.ok.inj (hown.symm.trans hown')
    have hcanonical := h.canonical hbefore
    have hends := (canonicalRules origin instruction).execute hcanonical method source
    rw [runs] at hends
    refine ⟨origin, after, runs, horigin, hfits.used_eq hcanonical ▸ hstack, hafter.used_eq hends ▸ hstack', ?_⟩
    rw [← hfits.extent_eq]
    exact (le_max_right _ _).trans (Transfer.length_execute hown ▸ hlocals)

end Body.Typing

end ClassInstrument
