import ClassInstrument.Policy.CallLogger
import ClassInstrument.Policy.ThreadCheck
import ClassInstrument.Proofs.Analysis.Prologue

/-!
# Entry guards are transparent

The check of the thread and the report to a logger are put in front of a body.  Both take off the stack what
they put there, so the first entry of the body is entered with the frame on entry, as it was before.

The report is straight code.  The check of the thread branches: it leads on behind itself at once, and what it
does on the wrong thread is a trail that comes back to its end with the frame on entry.
-/

namespace ClassInstrument

open Outcome

/-! ## Transparent code -/

/-- Code of some length in front of a body is transparent: all entries of the body are there, each with the
frame that it had, up to the creation sites, which have moved; and nothing in the body leads to that code. -/
structure Transparent (body edited : Body) (count : ℕ) (analysis analysis' : Analysis) : Prop where
  /-- Every entry of the body is there. -/
  kept : ∀ place < body.instructions.length,
    edited.instructions[place + count]? = body.instructions[place]?
  /-- It is reached exactly if it was before. -/
  reached : ∀ place < body.instructions.length, analysis'.reaches (place + count) = analysis.reaches place
  /-- It has the frame that it had. -/
  frame : ∀ place < body.instructions.length, analysis'.frames[place + count]? =
    (analysis.frames[place]?).map (Option.map (·.mapSites (· + count)))
  /-- No jump or switch of the body leads into the code in front. -/
  jumps : ∀ instruction ∈ body.instructions, ∀ target ∈ instruction.targets, ∀ place,
    edited.Places target place → count ≤ place
  /-- No handler of the body starts there. -/
  handlers : ∀ handler ∈ edited.handlers, ∀ place, edited.Places handler.handler place → count ≤ place
  /-- No handler covers it. -/
  uncovered : ∀ position < count, edited.catchers position = []

section

variable {body : Body} {method : MethodContext} {hierarchy : Hierarchy} {front : List Instruction}
  {analysis analysis' : Analysis}

/-- Code with new labels in front of a body is transparent if the frames are the same. -/
theorem transparent_insertAt_zero (howns : body.OwnsLabels) (howns' : (body.insertAt 0 front).OwnsLabels)
    (hnew : ∀ label ∈ placedLabels front, label ∉ body.labels)
    (hframes : ∀ place < body.instructions.length, analysis'.frames[place + front.length]? =
      (analysis.frames[place]?).map (Option.map (·.mapSites (· + front.length)))) :
    Transparent body (body.insertAt 0 front) front.length analysis analysis' := by
  have hlabel : ∀ {label}, label ∈ body.labels → ∀ place, (body.insertAt 0 front).Places label place →
      front.length ≤ place := by
    intro label hmem place hplaces
    obtain ⟨old, rfl, -⟩ :=
      (Body.getElem?_insertAt_label_iff (Nat.zero_le _) hnew hmem).mp hplaces.1
    rw [shiftBehind_zero]
    exact Nat.le_add_left _ _
  refine ⟨fun place _ => Body.getElem?_insertAt_zero body front place, ?_, hframes, ?_, ?_, ?_⟩
  · intro place hlt
    rw [Analysis.reaches, Analysis.reaches, hframes place hlt]
    rcases analysis.frames[place]? with _ | _ | frame <;> rfl
  · exact fun instruction hmem target htarget => hlabel (Body.mem_labels_of_target hmem htarget)
  · exact fun handler hmem => hlabel (Body.mem_labels_of_handler hmem (by simp))
  · intro position hlt
    have hnone := howns.catchers_insertAt_block howns' (Nat.zero_le _) hnew (Or.inl rfl) hlt
    rwa [Nat.zero_add] at hnone

end

/-! ## Running in front of a body -/

section

variable {body : Body} {method : MethodContext} {hierarchy : Hierarchy} {handlers : List PlacedHandler}
  {front : List Instruction} {position : ℕ} {instruction : Instruction} {before after : FlowFrame}

/-- The code of a body with code in front of it. -/
def Body.fronted (body : Body) (front : List Instruction) (method : MethodContext) (hierarchy : Hierarchy)
    (handlers : List PlacedHandler) : FlowProblem :=
  (body.insertAt 0 front).flowProblem method hierarchy
    (handlers.map (PlacedHandler.moved (· + front.length)))

/-- The code in front stands there. -/
theorem Body.getElem?_fronted (here : front[position]? = some instruction) :
    (body.fronted front method hierarchy handlers).code[position]? = some instruction := by
  have hlt := (List.getElem?_eq_some_iff.mp here).1
  have hblock := @getElem?_insertAt_block body 0 front (Nat.zero_le _) position hlt
  rw [Nat.zero_add, here] at hblock
  exact getElem?_code.trans hblock

/-- A position in the code in front is one of the code. -/
theorem Body.lt_size_fronted (hlt : position < body.instructions.length + front.length) :
    position < (body.fronted front method hierarchy handlers).code.size := by
  rw [fronted, size_code, length_insertAt (Nat.zero_le _)]
  exact hlt

/-- No handler covers the code in front. -/
theorem Body.filter_covers_fronted (hlt : position < front.length) :
    (body.fronted front method hierarchy handlers).handlers.filter (·.covers position) = [] := by
  refine List.filter_eq_nil_iff.mpr fun handler hmem hcovers => ?_
  obtain ⟨handler, -, rfl⟩ := List.mem_map.mp hmem
  have hstart := of_decide_eq_true (Bool.and_eq_true_iff.mp hcovers).1
  simp only [PlacedHandler.moved] at hstart
  omega

/-- A visit to straight code in front brings a frame to what stands behind it. -/
theorem Body.delivers_fronted (here : front[position]? = some instruction) (real : instruction.isReal)
    (falls : instruction.fallsThrough) {places : List ℕ}
    (hplaces : List.Forall₂ (fun target place => (body.fronted front method hierarchy
      handlers).positions.find target = .ok place) instruction.targets places)
    (hbody : 0 < body.instructions.length)
    (runs : Transfer.execute method (body.fronted front method hierarchy handlers).code position instruction
      before = .ok after) :
    ∃ noted, (body.fronted front method hierarchy handlers).Delivers position before
      (places.map (·, after) ++ [(position + 1, after)]) noted := by
  have hlt := (List.getElem?_eq_some_iff.mp here).1
  have hdelivers := FlowProblem.Delivers.flow (getElem?_fronted here) real runs hplaces
    fun _ => lt_size_fronted (by omega)
  rw [filter_covers_fronted hlt, if_pos falls] at hdelivers
  exact ⟨_, hdelivers⟩

/-- The positions of instructions that stand one behind the other, with the frames before them. -/
def rootsFrom (start : ℕ) : List FlowFrame → List Root
  | [] => []
  | frame :: frames => (start, frame) :: rootsFrom (start + 1) frames

/-- The positions of instructions one behind the other. -/
theorem map_fst_rootsFrom (start : ℕ) (frames : List FlowFrame) :
    (rootsFrom start frames).map Prod.fst = List.range' start frames.length := by
  induction frames generalizing start with
  | nil => rfl
  | cons frame frames ih => rw [rootsFrom, List.map_cons, ih, List.length_cons, List.range'_succ]

/-- Straight code in front brings a frame from each of its instructions to the next one only. -/
theorem Body.isChain_fronted {start : ℕ} {block : List Instruction} {first last : FlowFrame}
    {frames : List FlowFrame}
    (h : Straight method (body.fronted front method hierarchy handlers).code block first frames last)
    (hstands : ∀ {index : ℕ} {instruction}, block[index]? = some instruction →
      front[start + index]? = some instruction)
    (hplain : ∀ instruction ∈ block, instruction.isReal ∧ instruction.fallsThrough ∧ instruction.targets = [])
    (hbody : 0 < body.instructions.length) :
    (rootsFrom start frames ++ [(start + block.length, last)]).IsChain fun root next =>
      ∃ noted, (body.fronted front method hierarchy handlers).Delivers root.1 root.2 [next] noted := by
  induction h generalizing start with
  | nil => exact .singleton _
  | @cons instruction block before after frames last runs rest ih =>
    obtain ⟨⟨real, falls, straight⟩, hplain⟩ := List.forall_mem_cons.mp hplain
    have hnext : (rootsFrom (start + 1) frames ++ [(start + 1 + block.length, last)]).head? =
        some (start + 1, after) := by
      cases rest <;> rfl
    rw [List.length_cons, Nat.add_comm block.length, ← Nat.add_assoc]
    refine List.isChain_cons.mpr ⟨fun next hmem => ?_, ih (fun {index _} here => ?_) hplain⟩
    · obtain rfl := Option.some.inj (hnext.symm.trans hmem)
      exact delivers_fronted (@hstands 0 _ rfl) real falls (by rw [straight]; exact .nil) hbody (runs _)
    · have hshifted := @hstands (index + 1) _ here
      rwa [Nat.add_comm index, ← Nat.add_assoc] at hshifted

/-- **Straight code hands over**, if it comes back to the frame on entry. -/
theorem Body.handsOver_of_straight {initial : FlowFrame} {frames : List FlowFrame}
    (hcanonical : initial.Canonical) (hfront : front ≠ [])
    (h : Straight method (body.fronted front method hierarchy handlers).code front initial frames initial)
    (hplain : ∀ instruction ∈ front, instruction.isReal ∧ instruction.fallsThrough ∧ instruction.targets = [])
    (hbody : 0 < body.instructions.length) :
    (body.fronted front method hierarchy handlers).HandsOver initial front.length (rootsFrom 0 frames)
      [(front.length, initial)] [] (0, initial) := by
  obtain ⟨others, rfl⟩ : ∃ others, frames = initial :: others :=
    ⟨_, List.eq_cons_of_mem_head? (h.head? hfront)⟩
  have hlength := h.length_eq
  have hchain := @isChain_fronted body method hierarchy handlers front 0 _ _ _ _ h
    (fun here => by rwa [Nat.zero_add]) hplain hbody
  rw [Nat.zero_add] at hchain
  have hsize : ∀ {position}, position ≤ front.length →
      position < (body.fronted front method hierarchy handlers).code.size := fun hle =>
    lt_size_fronted (by omega)
  have hinside : ∀ root ∈ rootsFrom 0 (initial :: others), root.1 < front.length := by
    intro root hmem
    have hrange := List.mem_map_of_mem (f := Prod.fst) hmem
    rw [map_fst_rootsFrom, List.mem_range'_1] at hrange
    omega
  refine ⟨FlowProblem.Unrolls.start.along _ hchain, ?_, ?_, hinside, by simp, by simp, by simp,
    List.mem_cons_self, .singleton _, by simp, ?_, ?_, mergeFrames_self hcanonical _ _⟩
  · rw [List.map_append, map_fst_rootsFrom]
    refine List.nodup_append.mpr ⟨List.nodup_range', List.nodup_singleton _, ?_⟩
    intro first hfirst second hsecond heq
    rw [List.mem_range'_1] at hfirst
    rw [List.map_singleton, List.mem_singleton] at hsecond
    omega
  · intro root hmem
    rcases List.mem_append.mp hmem with hmem | hmem
    · exact hsize (hinside root hmem).le
    · rw [List.mem_singleton.mp hmem]
      exact hsize le_rfl
  · simpa using List.length_pos_of_ne_nil hfront
  · simpa using hsize (Nat.zero_le _)

/-- **Code that hands over is transparent.** -/
theorem Body.exists_transparent {analysis : Analysis} (howns : body.OwnsLabels)
    (howns' : (body.insertAt 0 front).OwnsLabels)
    (hnew : ∀ label ∈ placedLabels front, label ∉ body.labels)
    (h : analyze body method hierarchy [] = .ok analysis)
    (hhands : ∀ (initial : FlowFrame) (handlers : List PlacedHandler), initial.Canonical →
      0 < body.instructions.length → ∃ done waiting trail last,
        (body.fronted front method hierarchy handlers).HandsOver initial front.length done waiting trail last) :
    ∃ analysis', analyze (body.insertAt 0 front) method hierarchy [] = .ok analysis' ∧
      Transparent body (body.insertAt 0 front) front.length analysis analysis' := by
  obtain ⟨analysis', hanalysis', hframes⟩ := exists_analyze_insertAt_zero howns howns' hnew h
    fun initial handlers hinitial => hhands initial handlers (MethodContext.canonical_initialFrame hinitial)
  exact ⟨analysis', hanalysis', transparent_insertAt_zero howns howns' hnew hframes⟩

end

/-! ## Reports to a logger -/

namespace CallLogger

/-- A report takes three objects. -/
theorem demand_logCall : MethodDescriptor.demand logCall.descriptor =
    .ok ⟨[.object Name.string, .object Name.string, .object Name.string], none⟩ := by decide

/-- A report runs from the frame on entry and comes back to it. -/
theorem exists_straight_logEntry {method : MethodContext} {source : Array Instruction} {initial : FlowFrame}
    (logger owner : String) (declared : Method) (mark : Annotation) :
    ∃ frames, Straight method source (logEntry logger owner declared mark) initial frames initial := by
  obtain ⟨type, hdescription⟩ : ∃ type, ∀ instruction ∈ (logEntry logger owner declared mark)[1]?,
      ∀ origin, Transfer.execute method source origin instruction (initial.push (.object Name.string)) =
        .ok ((initial.push (.object Name.string)).push type) := by
    unfold logEntry
    cases description? mark with
    | none =>
      refine ⟨.null, ?_⟩
      rintro _ ⟨⟩ origin
      rfl
    | some text =>
      refine ⟨.object Name.string, ?_⟩
      rintro _ ⟨⟩ origin
      rfl
  refine ⟨_, .cons (fun _ => rfl) (.cons (hdescription _ rfl) (.cons (fun _ => rfl)
    (.cons (fun _ => ?_) (.nil _))))⟩
  simp only [Callback.call, Instruction.invokeStatic, Transfer.execute, Transfer.call, demand_logCall]
  rfl

/-- A report is straight. -/
theorem plain_logEntry (logger owner : String) (declared : Method) (mark : Annotation) :
    ∀ instruction ∈ logEntry logger owner declared mark,
      instruction.isReal ∧ instruction.fallsThrough ∧ instruction.targets = [] ∧
        instruction.labels = [] := by
  intro instruction hmem
  simp only [logEntry, List.mem_cons, List.not_mem_nil, or_false] at hmem
  rcases hmem with rfl | rfl | rfl | rfl
  · exact ⟨rfl, rfl, rfl, rfl⟩
  · cases description? mark <;> exact ⟨rfl, rfl, rfl, rfl⟩
  · exact ⟨rfl, rfl, rfl, rfl⟩
  · exact ⟨rfl, rfl, rfl, rfl⟩

end CallLogger

/-! ## Checks of the thread -/

namespace ThreadCheck

/-- The looper of a thread is an object. -/
theorem demand_looper : MethodDescriptor.demand myLooper.descriptor = .ok ⟨[], some (.object looper)⟩ ∧
    MethodDescriptor.demand mainLooper.descriptor = .ok ⟨[], some (.object looper)⟩ := by decide

/-- A violation is told with three objects. -/
theorem demand_violation {violation : Callback} (h : violation = uiViolation ∨ violation = workerViolation) :
    MethodDescriptor.demand violation.descriptor =
      .ok ⟨[.object Name.classObject, .object Name.string, .object Name.string], none⟩ := by
  rcases h with rfl | rfl <;> decide

section

variable {body : Body} {method : MethodContext} {hierarchy : Hierarchy} {handlers : List PlacedHandler}
  {source : Array Instruction} {initial : FlowFrame} {owner name descriptor handler : String} {jump : Opcode}
  {violation : Callback} {passed : Label}

/-- The loopers of the thread and of the main thread are put on the stack. -/
theorem straight_loopers (initial : FlowFrame) : Straight method source [myLooper.call looper, mainLooper.call looper] initial
    [initial, initial.push (.object looper)]
      ((initial.push (.object looper)).push (.object looper)) := by
  refine .cons (fun _ => ?_) (.cons (fun _ => ?_) (.nil _))
  all_goals
    simp only [Callback.call, Instruction.invokeStatic, Transfer.execute, Transfer.call, demand_looper.1,
      demand_looper.2]
    rfl

/-- A violation is told from the frame on entry, which is there again afterwards. -/
theorem straight_violation (hviolation : violation = uiViolation ∨ violation = workerViolation)
    (initial : FlowFrame) (owner name descriptor handler : String) : Straight method source
      [.pushClass owner, .pushString name, .pushString descriptor, violation.call handler] initial
      [initial, initial.push (.object Name.classObject),
        (initial.push (.object Name.classObject)).push (.object Name.string),
        ((initial.push (.object Name.classObject)).push (.object Name.string)).push (.object Name.string)]
      initial := by
  refine .cons (fun _ => rfl) (.cons (fun _ => rfl) (.cons (fun _ => rfl) (.cons (fun _ => ?_) (.nil _))))
  simp only [Callback.call, Instruction.invokeStatic, Transfer.execute, Transfer.call,
    demand_violation hviolation]
  rfl

/-- The comparison takes both loopers off the stack. -/
theorem execute_compare (hjump : jump = Opcode.ifAcmpeq ∨ jump = Opcode.ifAcmpne) (position : ℕ) :
    Transfer.execute method source position (.jump jump passed)
      ((initial.push (.object looper)).push (.object looper)) = .ok initial := by
  rcases hjump with rfl | rfl <;> rfl

/-- **A check hands over.**  It leads on behind itself at once, and leaves a trail that comes back to its
end. -/
theorem handsOver_looperGuard {front : List Instruction}
    (hfront : front = looperGuard owner name descriptor handler jump violation passed)
    (hcanonical : initial.Canonical) (hbody : 0 < body.instructions.length)
    (howns : (body.insertAt 0 front).OwnsLabels) (hjump : jump = Opcode.ifAcmpeq ∨ jump = Opcode.ifAcmpne)
    (hviolation : violation = uiViolation ∨ violation = workerViolation) :
    ∃ done waiting trail last, (body.fronted front method hierarchy handlers).HandsOver initial 8 done waiting
      trail last := by
  have hget : ∀ {index : ℕ} {instruction}, (looperGuard owner name descriptor handler jump violation
      passed)[index]? = some instruction → front[index]? = some instruction := fun here => hfront ▸ here
  have hsize : ∀ {position}, position ≤ 8 →
      position < (body.fronted front method hierarchy handlers).code.size := by
    intro position hle
    refine Body.lt_size_fronted ?_
    rw [hfront]
    simp only [looperGuard, List.length_cons, List.length_nil]
    omega
  have hplaced : (body.fronted front method hierarchy handlers).positions.find passed = .ok 7 :=
    Body.find_labelPositions.mpr (howns.wellLabelled.places_iff.mpr
      (Body.getElem?_code.symm.trans (@Body.getElem?_fronted body method hierarchy handlers front 7 _
        (hget rfl))))
  have hloopers := @Body.isChain_fronted body method hierarchy handlers front 0 _ _ _ _ (straight_loopers initial)
    (fun {index _} here => hget (by
      rcases index with _ | _ | index
      · exact here
      · exact here
      · cases here))
    (by simp [Callback.call, Instruction.invokeStatic, Instruction.isReal, Instruction.fallsThrough,
      Instruction.targets]) hbody
  have htrail := @Body.isChain_fronted body method hierarchy handlers front 3 _ _ _ _
    (straight_violation hviolation initial owner name descriptor handler)
    (fun {index _} here => hget (by
      rcases index with _ | _ | _ | _ | index
      · exact here
      · exact here
      · exact here
      · exact here
      · cases here))
    (by simp [Callback.call, Instruction.invokeStatic, Instruction.pushClass, Instruction.pushString,
      Instruction.isReal, Instruction.fallsThrough, Instruction.targets]) hbody
  obtain ⟨_, hcompare⟩ := @Body.delivers_fronted body method hierarchy handlers front 2 _ _ initial
    (hget rfl) rfl (by rcases hjump with rfl | rfl <;> rfl) [7] (.cons hplaced .nil) hbody
    (execute_compare hjump 2)
  have hpass : (body.fronted front method hierarchy handlers).Delivers 7 initial [(8, initial)] none := by
    have hlabel := @FlowProblem.Delivers.pass _ 7 initial _ (@Body.getElem?_fronted body method hierarchy
      handlers front 7 _ (hget rfl)) rfl
    rwa [if_pos (hsize le_rfl)] at hlabel
  have hunrolls := ((FlowProblem.Unrolls.start.along _ hloopers).visit hcompare).visit hpass
  refine ⟨_, _, rootsFrom 3 _, (7, initial), hunrolls, ?_, ?_, ?_, ?_, ?_, ?_, ?_, htrail, ?_, ?_, ?_,
    mergeFrames_self hcanonical _ _⟩
  · simp [rootsFrom]
  · simp [rootsFrom, hsize]
  · simp [rootsFrom]
  · simp
  · simp [rootsFrom]
  · simp [rootsFrom]
  · simp
  · simp [rootsFrom]
  · simp [rootsFrom]
  · simp [rootsFrom, hsize]

/-- The only label in a check is the one at its end. -/
theorem eq_of_mem_labels_looperGuard {label : Label} {instruction : Instruction}
    (hmem : instruction ∈ looperGuard owner name descriptor handler jump violation passed)
    (hlabel : label ∈ instruction.labels) : label = passed := by
  simp only [looperGuard, List.mem_cons, List.not_mem_nil, or_false] at hmem
  rcases hmem with rfl | rfl | rfl | rfl | rfl | rfl | rfl | rfl
  case inr.inr.inl | inr.inr.inr.inr.inr.inr.inr => exact List.mem_singleton.mp hlabel
  all_goals exact absurd hlabel List.not_mem_nil

/-- A check is for one of two comparisons and tells one of two violations. -/
theorem exists_guardFor {requirement : ThreadRequirement} (hrequirement : requirement ≠ .any)
    (owner : String) (declared : Method) (handler : String) (passed : Label) : ∃ jump violation,
      guardFor owner declared handler passed requirement =
        looperGuard owner declared.name declared.descriptor handler jump violation passed ∧
      (jump = Opcode.ifAcmpeq ∨ jump = Opcode.ifAcmpne) ∧
      (violation = uiViolation ∨ violation = workerViolation) := by
  cases requirement with
  | ui => exact ⟨_, _, rfl, Or.inl rfl, Or.inl rfl⟩
  | worker => exact ⟨_, _, rfl, Or.inr rfl, Or.inr rfl⟩
  | any => exact absurd rfl hrequirement

end

end ThreadCheck

/-- What a body is does not depend on the next fresh label. -/
theorem Transparent.of_moreLabels {body edited : Body} {count next : ℕ} {analysis analysis' : Analysis}
    (h : Transparent { body with nextLabel := next } edited count analysis analysis') :
    Transparent body edited count analysis analysis' :=
  ⟨h.kept, h.reached, h.frame, h.jumps, h.handlers, h.uncovered⟩

/-- **Entry guards are transparent.**  A body that is accepted is accepted with the check of a thread or the
report to a logger in front of it, which are transparent. -/
theorem analyze_entryGuards {body : Body} {method : MethodContext} {hierarchy : Hierarchy}
    {analysis : Analysis} (howns : body.OwnsLabels) (h : analyze body method hierarchy [] = .ok analysis) :
    (∀ owner declared handler requirement, requirement ≠ .any → ∃ analysis',
      analyze (ThreadCheck.guardBody owner declared handler requirement body) method hierarchy [] =
        .ok analysis' ∧
      Transparent body (ThreadCheck.guardBody owner declared handler requirement body) 8 analysis
        analysis') ∧
    ∀ logger owner declared mark, ∃ analysis',
      analyze (body.insertAt 0 (CallLogger.logEntry logger owner declared mark)) method hierarchy [] =
        .ok analysis' ∧
      Transparent body (body.insertAt 0 (CallLogger.logEntry logger owner declared mark)) 4 analysis
        analysis' := by
  constructor
  · intro owner declared handler requirement hrequirement
    obtain ⟨jump, violation, hguard, hjump, hviolation⟩ :=
      ThreadCheck.exists_guardFor hrequirement owner declared handler ⟨body.nextLabel⟩
    have hroom : Body.OwnsLabels { body with nextLabel := body.nextLabel + 1 } :=
      howns.moreLabels (Nat.le_add_right _ 1)
    have hplaced : placedLabels (ThreadCheck.looperGuard owner declared.name declared.descriptor handler jump
        violation ⟨body.nextLabel⟩) = [⟨body.nextLabel⟩] := rfl
    have hnew : ∀ label ∈ placedLabels (ThreadCheck.looperGuard owner declared.name declared.descriptor
        handler jump violation ⟨body.nextLabel⟩), label ∉ body.labels := by
      intro label hmem
      rw [hplaced, List.mem_singleton] at hmem
      exact hmem ▸ howns.not_mem_of_le le_rfl
    have howns' := hroom.insertAt 0 (fun instruction hmem label hlabel => by
      rw [ThreadCheck.eq_of_mem_labels_looperGuard hmem hlabel]
      exact Nat.lt_succ_self _) hnew (hplaced ▸ List.nodup_singleton _)
    obtain ⟨analysis', hanalysis', htransparent⟩ := Body.exists_transparent hroom howns' hnew h
      fun initial handlers hcanonical hbody =>
        ThreadCheck.handsOver_looperGuard rfl hcanonical hbody howns' hjump hviolation
    have hbody : ThreadCheck.guardBody owner declared handler requirement body =
        Body.insertAt { body with nextLabel := body.nextLabel + 1 } 0 (ThreadCheck.looperGuard owner
          declared.name declared.descriptor handler jump violation ⟨body.nextLabel⟩) :=
      congrArg (Body.insertAt _ 0) hguard
    rw [hbody]
    exact ⟨analysis', hanalysis', htransparent.of_moreLabels⟩
  · intro logger owner declared mark
    have hplain := CallLogger.plain_logEntry logger owner declared mark
    have hplaced : placedLabels (CallLogger.logEntry logger owner declared mark) = [] :=
      List.filterMap_eq_nil_iff.mpr fun instruction hmem =>
        Instruction.placed?_of_real (hplain instruction hmem).1
    have hnew : ∀ label ∈ placedLabels (CallLogger.logEntry logger owner declared mark),
        label ∉ body.labels := by simp [hplaced]
    have howns' := howns.insertAt 0 (fun instruction hmem label hlabel => by
      rw [(hplain instruction hmem).2.2.2] at hlabel
      cases hlabel) hnew (by simp [hplaced])
    refine Body.exists_transparent howns howns' hnew h fun initial handlers hcanonical hbody => ?_
    obtain ⟨frames, hstraight⟩ := @CallLogger.exists_straight_logEntry method
      (body.fronted (CallLogger.logEntry logger owner declared mark) method hierarchy handlers).code initial
      logger owner declared mark
    exact ⟨_, _, _, _, Body.handsOver_of_straight hcanonical (by simp [CallLogger.logEntry]) hstraight
      (fun instruction hmem => ⟨(hplain _ hmem).1, (hplain _ hmem).2.1, (hplain _ hmem).2.2.1⟩) hbody⟩

/-- A static method that runs for ever. -/
def runsForever : Method where
  access := ⟨9⟩
  name := "run"
  descriptor := "()V"
  body := .edited { instructions := [.label ⟨0⟩, .jump Opcode.goto ⟨0⟩], nextLabel := 1 }

/-- A loop back to the first entry of a body stays behind a check and behind a report. -/
theorem analyze_entryGuards_runsForever :
    (∃ analysis', analyze (ThreadCheck.guardBody "a/A" runsForever "h/H" .ui
        { instructions := [.label ⟨0⟩, .jump Opcode.goto ⟨0⟩], nextLabel := 1 })
        (runsForever.context "a/A") Classpath.empty.hierarchy [] = .ok analysis' ∧ analysis'.reaches 9) ∧
    ∃ analysis', analyze (Body.insertAt { instructions := [.label ⟨0⟩, .jump Opcode.goto ⟨0⟩], nextLabel := 1 }
        0 (CallLogger.logEntry "l/L" "a/A" runsForever ⟨"Lm/Logged;", []⟩))
        (runsForever.context "a/A") Classpath.empty.hierarchy [] = .ok analysis' ∧ analysis'.reaches 5 := by
  have hanalysis : analyze { instructions := [.label ⟨0⟩, .jump Opcode.goto ⟨0⟩], nextLabel := 1 }
      (runsForever.context "a/A") Classpath.empty.hierarchy [] =
        .ok ⟨#[some (Frame.ofTypes [] []), some (Frame.ofTypes [] [])], 0, 0⟩ := by
    cbv
  obtain ⟨hchecks, hreports⟩ := analyze_entryGuards ⟨by decide, by decide⟩ hanalysis
  obtain ⟨checked, hchecked, hguard⟩ := hchecks "a/A" runsForever "h/H" .ui (by decide)
  obtain ⟨reported, hreported, hreport⟩ := hreports "l/L" "a/A" runsForever ⟨"Lm/Logged;", []⟩
  exact ⟨⟨checked, hchecked, hguard.reached 1 (by decide)⟩, reported, hreported,
    hreport.reached 1 (by decide)⟩

end ClassInstrument
