import ClassInstrument.Proofs.Analysis.Acceptance

/-!
# Typings of bodies with more instructions

Straight code that is put into a typed body leaves it typed: what stands behind the new instructions moves
with its frames, and the new instructions get the frames that they run through.  Control enters them from
the entry in front; jumps and exceptions pass them, since labels keep their place in front of what they
marked.  A handler may be added to a typed body if its own frame takes in what arrives there.
-/

namespace ClassInstrument

open Outcome

/-! ## Straight code -/

/-- Instructions run one after the other from a frame to another one, wherever they stand.  The list holds
the frame before each of them. -/
inductive Straight (method : MethodContext) (source : Array Instruction) :
    List Instruction → FlowFrame → List FlowFrame → FlowFrame → Prop
  /-- Nothing runs. -/
  | nil (frame) : Straight method source [] frame [] frame
  /-- An instruction runs, and then others. -/
  | cons {instruction block before after frames last}
      (runs : ∀ origin, Transfer.execute method source origin instruction before = .ok after)
      (rest : Straight method source block after frames last) :
      Straight method source (instruction :: block) before (before :: frames) last

namespace Straight

variable {method : MethodContext} {source : Array Instruction} {block rest : List Instruction}
  {first middle last : FlowFrame} {frames others : List FlowFrame}

/-- A single instruction is straight code if it runs wherever it stands. -/
theorem single {instruction : Instruction} {before after : FlowFrame}
    (runs : ∀ origin, Transfer.execute method source origin instruction before = .ok after) :
    Straight method source [instruction] before [before] after :=
  .cons runs (.nil after)

/-- Straight code may be followed by more of it. -/
theorem append (h : Straight method source block first frames middle)
    (hrest : Straight method source rest middle others last) :
    Straight method source (block ++ rest) first (frames ++ others) last := by
  induction h with
  | nil => exact hrest
  | cons runs _ ih => exact .cons runs (ih hrest)

/-- There is a frame before each instruction. -/
theorem length_eq (h : Straight method source block first frames last) :
    frames.length = block.length := by
  induction h with
  | nil => rfl
  | cons _ _ ih => rw [List.length_cons, List.length_cons, ih]

/-- The frame before the first instruction is the one at which the code starts. -/
theorem head? (h : Straight method source block first frames last) (hblock : block ≠ []) :
    frames.head? = some first := by
  cases h with
  | nil => exact absurd rfl hblock
  | cons _ _ => rfl

/-- The frames of straight code are in canonical form if the first one is. -/
theorem canonical (h : Straight method source block first frames last) (hfirst : first.Canonical) :
    ∀ frame ∈ frames, frame.Canonical := by
  induction h with
  | nil => simp
  | @cons instruction _ before after _ _ runs _ ih =>
    intro frame hmem
    rcases List.mem_cons.mp hmem with rfl | hmem
    · exact hfirst
    · have hends := (canonicalRules 0 instruction).execute hfirst method source
      rw [runs 0] at hends
      exact ih hends frame hmem

/-- Each instruction leads to the frame before the next one. -/
theorem runs_of_getElem? (h : Straight method source block first frames last) {index : Nat}
    {instruction : Instruction} {before : FlowFrame} (here : block[index]? = some instruction)
    (hbefore : frames[index]? = some before) :
    ∃ after, (∀ origin, Transfer.execute method source origin instruction before = .ok after) ∧
      (frames ++ [last])[index + 1]? = some after := by
  induction h generalizing index with
  | nil => simp at here
  | @cons _ block _ after frames last runs rest ih =>
    cases index with
    | zero =>
      obtain rfl := Option.some.inj here
      obtain rfl := Option.some.inj hbefore
      refine ⟨after, runs, ?_⟩
      cases rest with
      | nil => rfl
      | cons _ _ => rfl
    | succ index => exact ih here hbefore

end Straight

/-! ## Positions -/

/-- The position of what stood at a place before entries were put in. -/
def shiftBehind (start count place : Nat) : Nat := if start ≤ place then place + count else place

/-- Nothing is moved to the place of something else. -/
theorem shiftBehind_injective (start count : Nat) : Function.Injective (shiftBehind start count) := by
  intro first second h
  unfold shiftBehind at h
  split at h <;> split at h <;> omega

/-- What stood in front of something else still does. -/
theorem shiftBehind_lt_iff {start count first second : Nat} :
    shiftBehind start count first < shiftBehind start count second ↔ first < second := by
  unfold shiftBehind
  split <;> split <;> omega

/-- What stood in front of something else or at its place still does. -/
theorem shiftBehind_le_iff {start count first second : Nat} :
    shiftBehind start count first ≤ shiftBehind start count second ↔ first ≤ second := by
  rw [← not_lt, ← not_lt, shiftBehind_lt_iff]

namespace Body

variable {body : Body} {start : Nat} {block : List Instruction}

/-- The entries that are put in come behind those in front of the position. -/
theorem instructions_insertAt (body : Body) (start : Nat) (block : List Instruction) :
    (body.insertAt start block).instructions =
      body.instructions.take start ++ (block ++ body.instructions.drop start) := by
  simp [insertAt, List.splitAt_eq]

/-- Appending is putting in at the end. -/
theorem append_eq_insertAt (body : Body) (block : List Instruction) :
    body.append block = body.insertAt body.instructions.length block := by
  simp [append, insertAt, List.splitAt_eq]

/-- A body has as many entries more as were put in. -/
theorem length_insertAt (hstart : start ≤ body.instructions.length) :
    (body.insertAt start block).instructions.length = body.instructions.length + block.length := by
  rw [instructions_insertAt]
  simp only [List.length_append, List.length_take, List.length_drop]
  omega

/-- What was there before has moved. -/
theorem getElem?_insertAt_shift (hstart : start ≤ body.instructions.length) (place : Nat) :
    (body.insertAt start block).instructions[shiftBehind start block.length place]? =
      body.instructions[place]? := by
  rw [instructions_insertAt]
  unfold shiftBehind
  split
  · next hbehind =>
    rw [List.getElem?_append_right (by simp; omega), List.length_take,
      List.getElem?_append_right (by omega), List.getElem?_drop]
    congr 1
    omega
  · next hfront =>
    rw [List.getElem?_append_left (by simp; omega), List.getElem?_take_of_lt (by omega)]

/-- What was put in stands at the position. -/
theorem getElem?_insertAt_block (hstart : start ≤ body.instructions.length) {index : Nat}
    (hindex : index < block.length) :
    (body.insertAt start block).instructions[start + index]? = block[index]? := by
  rw [instructions_insertAt, List.getElem?_append_right (by simp), List.length_take,
    List.getElem?_append_left (by omega)]
  congr 1
  omega

/-- A position is that of what was there before, or of what was put in. -/
theorem exists_shift_or_block (start : Nat) (block : List Instruction) (position : Nat) :
    (∃ place, position = shiftBehind start block.length place) ∨
      ∃ index, index < block.length ∧ position = start + index := by
  by_cases hfront : position < start
  · exact Or.inl ⟨position, by rw [shiftBehind, if_neg (by omega)]⟩
  by_cases hinside : position < start + block.length
  · exact Or.inr ⟨position - start, by omega, by omega⟩
  · exact Or.inl ⟨position - block.length, by rw [shiftBehind, if_pos (by omega)]; omega⟩

/-- The labels of entries that are put in come in the midst of the others. -/
theorem placedLabels_insertAt (body : Body) (start : Nat) (block : List Instruction) :
    (placedLabels (body.insertAt start block).instructions).Perm
      (placedLabels block ++ placedLabels body.instructions) := by
  rw [instructions_insertAt, placedLabels_append, placedLabels_append]
  have hsplit := placedLabels_append (body.instructions.take start) (body.instructions.drop start)
  rw [List.take_append_drop] at hsplit
  rw [hsplit]
  exact List.perm_append_comm_assoc _ _ _

/-- A body with new labels put in is well labelled. -/
theorem WellLabelled.insertAt (h : body.WellLabelled)
    (hnew : ∀ label ∈ placedLabels block, label ∉ placedLabels body.instructions ∧
      label.number < body.nextLabel) (hnodup : (placedLabels block).Nodup) (start : Nat) :
    (body.insertAt start block).WellLabelled where
  handedOut label hmem := by
    rcases List.mem_append.mp ((body.placedLabels_insertAt start block).mem_iff.mp hmem) with hmem | hmem
    · exact (hnew label hmem).2
    · exact h.handedOut label hmem
  placedOnce := (body.placedLabels_insertAt start block).nodup_iff.mpr
    (List.nodup_append.mpr ⟨hnodup, h.placedOnce, fun label hmem other hother heq =>
      (hnew label hmem).1 (heq ▸ hother)⟩)

/-- Labels are placed where they have moved. -/
theorem places_insertAt_iff (hlabelled : body.WellLabelled)
    (hlabelled' : (body.insertAt start block).WellLabelled)
    (hstart : start ≤ body.instructions.length) {label : Label} {place : Nat} :
    (body.insertAt start block).Places label (shiftBehind start block.length place) ↔
      body.Places label place := by
  rw [hlabelled'.places_iff, hlabelled.places_iff, getElem?_insertAt_shift hstart]

end Body

/-! ## Typings -/

/-- The frames of a body after straight code with frames of its own was put in. -/
def insertTyping (start count : Nat) (frames : List FlowFrame) (typing : Nat → Option FlowFrame)
    (position : Nat) : Option FlowFrame :=
  if position < start then typing position
  else if position < start + count then frames[position - start]?
  else typing (position - count)

/-- Frames have moved with what they are in front of. -/
theorem insertTyping_shift {start count : Nat} {frames : List FlowFrame}
    {typing : Nat → Option FlowFrame} (place : Nat) :
    insertTyping start count frames typing (shiftBehind start count place) = typing place := by
  unfold insertTyping shiftBehind
  split
  · rw [if_neg (by omega), if_neg (by omega)]
    congr 1
    omega
  · rw [if_pos (by omega)]

/-- The frames of what was put in are its own. -/
theorem insertTyping_block {start count index : Nat} {frames : List FlowFrame}
    {typing : Nat → Option FlowFrame} (hindex : index < count) :
    insertTyping start count frames typing (start + index) = frames[index]? := by
  unfold insertTyping
  rw [if_neg (by omega), if_pos (by omega)]
  congr 1
  omega

section

variable {hierarchy : Hierarchy} {typing : Nat → Option FlowFrame} {body : Body}
  {method : MethodContext} {source : Array Instruction} {site : Nat → Nat}

/-- An instruction does nothing that depends on where it stands, or that could need more than the
classes it mentions to be known. -/
structure Instruction.IsInert (hierarchy : Hierarchy) (instruction : Instruction) : Prop where
  /-- The classes of what it gives are known. -/
  known : instruction.IsKnown hierarchy
  /-- It creates no object. -/
  creates : ∀ name, instruction ≠ .type Opcode.create name
  /-- It loads no element of an array. -/
  loads : ∀ opcode, instruction = .plain opcode → Effect.ofOpcode? opcode ≠ some .loadsElement

/-- Straight code with frames of its own may be put into a typed body at a position. -/
structure Body.Fits (body : Body) (hierarchy : Hierarchy) (typing : Nat → Option FlowFrame)
    (method : MethodContext) (source : Array Instruction) (start : Nat) (block : List Instruction)
    (first : FlowFrame) (frames : List FlowFrame) (last : FlowFrame) : Prop where
  /-- The code is straight. -/
  straight : Straight method source block first frames last
  /-- There is some. -/
  nonempty : block ≠ []
  /-- It starts with a frame in canonical form. -/
  canonical : first.Canonical
  /-- Its instructions are inert. -/
  inert : ∀ instruction ∈ block, instruction.IsInert hierarchy
  /-- Jumps in it lead to labels in it. -/
  jumps : ∀ {index : Nat} {instruction after}, block[index]? = some instruction →
    (frames ++ [last])[index + 1]? = some after → ∀ target ∈ instruction.targets,
      ∃ place : Nat, block[place]? = some (Instruction.label target) ∧ frames[place]? = some after
  /-- No handler covers an instruction in it. -/
  free : (∀ instruction ∈ block, instruction.isReal = false) ∨ start = 0 ∨
    start = body.instructions.length
  /-- It takes in what falls into it. -/
  enters : 0 < start → start < body.instructions.length → typing start = some first
  /-- It leads to what stood at the position. -/
  leaves : ∀ instruction, block.getLast? = some instruction → instruction.fallsThrough →
    start < body.instructions.length ∧ Arrives hierarchy typing start last

/-- A handler with moved labels is typed. -/
theorem Body.HandlerTyped.insertAt {start : Nat} {block : List Instruction} {handler : Handler}
    (h : body.HandlerTyped hierarchy handler) (hlabelled : body.WellLabelled)
    (hlabelled' : (body.insertAt start block).WellLabelled)
    (hstart : start ≤ body.instructions.length) :
    (body.insertAt start block).HandlerTyped hierarchy handler := by
  obtain ⟨⟨first, hfirst⟩, ⟨stop, hstop⟩, ⟨entry, hentry⟩, hcaught⟩ := h
  have hplaces : ∀ {label place}, body.Places label place → ∃ place',
      (body.insertAt start block).Places label place' := fun hplace =>
    ⟨_, (Body.places_insertAt_iff hlabelled hlabelled' hstart).mpr hplace⟩
  exact ⟨hplaces hfirst, hplaces hstop, hplaces hentry, hcaught⟩

/-- A typed body stays typed when entries with frames of their own are put in, if the new frames take in
what falls into them and the new entries go together with what may run next. -/
theorem Body.Typing.insertAt_of_step (h : body.Typing hierarchy typing method source site)
    (hlabelled : body.WellLabelled) {start : Nat} {block : List Instruction} {frames : List FlowFrame}
    (hlabelled' : (body.insertAt start block).WellLabelled)
    (hstart : start ≤ body.instructions.length) (hnonempty : block ≠ [])
    (hcanonical : ∀ frame ∈ frames, frame.Canonical)
    (hinert : ∀ instruction ∈ block, instruction.IsInert hierarchy)
    (henters : 0 < start → start < body.instructions.length → frames.head? = typing start)
    (hstep : ∀ {index : Nat} {instruction before}, block[index]? = some instruction →
      frames[index]? = some before → ∃ origin after,
        Transfer.execute method source origin instruction before = .ok after ∧
        instruction.FindsReferences before ∧
        (body.insertAt start block).TypedAt hierarchy
          (insertTyping start block.length frames typing) (start + index) instruction before after) :
    (body.insertAt start block).Typing hierarchy (insertTyping start block.length frames typing)
      method source (shiftBehind start block.length ∘ site) := by
  have hcount : 0 < block.length := List.length_pos_of_ne_nil hnonempty
  have hhandlers : (body.insertAt start block).handlers = body.handlers := rfl
  have harrives : ∀ {place frame}, Arrives hierarchy typing place frame →
      Arrives hierarchy (insertTyping start block.length frames typing)
        (shiftBehind start block.length place) frame := by
    rintro place frame ⟨super, hsuper, hfits⟩
    exact ⟨super, (insertTyping_shift place).trans hsuper, hfits⟩
  have hnext : ∀ {place frame}, place + 1 < body.instructions.length →
      Arrives hierarchy typing (place + 1) frame →
      Arrives hierarchy (insertTyping start block.length frames typing)
        (shiftBehind start block.length place + 1) frame := by
    rintro place frame hroom ⟨super, hsuper, hfits⟩
    by_cases hfalls : place + 1 = start
    · refine ⟨super, ?_, hfits⟩
      have hblock := @insertTyping_block start block.length 0 frames typing hcount
      rw [Nat.add_zero] at hblock
      rw [shiftBehind, if_neg (by omega), hfalls, hblock, ← List.head?_eq_getElem?,
        henters (by omega) (by omega), ← hfalls, hsuper]
    · have hmoved : shiftBehind start block.length place + 1 =
          shiftBehind start block.length (place + 1) := by
        unfold shiftBehind
        split <;> split <;> omega
      rw [hmoved]
      exact harrives ⟨super, hsuper, hfits⟩
  refine ⟨⟨(shiftBehind_injective _ _).comp h.sites.injective, ?_, h.sites.known⟩, ?_, ?_, ?_, ?_,
    ?_⟩
  · intro place name hcreation
    have hkept := h.sites.kept hcreation
    simp only [List.getElem?_toArray] at hkept ⊢
    rw [Function.comp_apply, Body.getElem?_insertAt_shift hstart, hkept]
  · intro position frame hframe
    rw [Body.length_insertAt hstart]
    rcases Body.exists_shift_or_block start block position with ⟨place, rfl⟩ | ⟨index, hindex, rfl⟩
    · rw [insertTyping_shift] at hframe
      have := h.inside hframe
      unfold shiftBehind
      split <;> omega
    · omega
  · intro position frame hframe
    rcases Body.exists_shift_or_block start block position with ⟨place, rfl⟩ | ⟨index, hindex, rfl⟩
    · rw [insertTyping_shift] at hframe
      exact h.canonical hframe
    · rw [insertTyping_block hindex] at hframe
      exact hcanonical frame (List.mem_of_getElem? hframe)
  · intro instruction hmem
    rw [Body.instructions_insertAt] at hmem
    rcases List.mem_append.mp hmem with hmem | hmem
    · exact h.known instruction (List.mem_of_mem_take hmem)
    · rcases List.mem_append.mp hmem with hmem | hmem
      · exact (hinert instruction hmem).known
      · exact h.known instruction (List.mem_of_mem_drop hmem)
  · exact fun handler hmem => (h.handlers handler hmem).insertAt hlabelled hlabelled' hstart
  · intro position instruction before here hbefore
    rcases Body.exists_shift_or_block start block position with ⟨place, rfl⟩ | ⟨index, hindex, rfl⟩
    · rw [Body.getElem?_insertAt_shift hstart] at here
      rw [insertTyping_shift] at hbefore
      obtain ⟨origin, after, runs, horigin, hcreation, hfound, htyped⟩ := h.step here hbefore
      refine ⟨origin, after, runs, ?_, ?_, hfound, ?_, ?_, ?_⟩
      · exact fun place heq => horigin place (shiftBehind_injective _ _ heq)
      · exact fun name heq => congrArg _ (hcreation name heq)
      · intro falls
        obtain ⟨hroom, hfall⟩ := htyped.falls falls
        refine ⟨?_, hnext hroom hfall⟩
        rw [Body.length_insertAt hstart]
        unfold shiftBehind
        split <;> omega
      · intro target htarget
        obtain ⟨place, hplace, hjump⟩ := htyped.jumps target htarget
        exact ⟨_, (Body.places_insertAt_iff hlabelled hlabelled' hstart).mpr hplace,
          harrives hjump⟩
      · intro real handler hmem first stop entry hfirst hstop hentry hcovered
        obtain ⟨⟨first', hfirst'⟩, ⟨stop', hstop'⟩, ⟨entry', hentry'⟩, -⟩ := h.handlers handler hmem
        have hmoved : ∀ {label place}, body.Places label place →
            (body.insertAt start block).Places label (shiftBehind start block.length place) :=
          fun hplace => (Body.places_insertAt_iff hlabelled hlabelled' hstart).mpr hplace
        obtain rfl := (hmoved hfirst').unique hfirst
        obtain rfl := (hmoved hstop').unique hstop
        obtain rfl := (hmoved hentry').unique hentry
        rw [shiftBehind_le_iff, shiftBehind_lt_iff] at hcovered
        obtain ⟨hthrow, hthrow'⟩ :=
          htyped.throws real handler hmem _ _ _ hfirst' hstop' hentry' hcovered
        exact ⟨harrives hthrow, harrives hthrow'⟩
    · rw [Body.getElem?_insertAt_block hstart hindex] at here
      rw [insertTyping_block hindex] at hbefore
      obtain ⟨origin, after, runs, hfound, htyped⟩ := hstep here hbefore
      refine ⟨origin, after, runs, ?_, ?_, hfound, htyped⟩
      · intro place heq
        rw [Function.comp_apply, shiftBehind] at heq
        split at heq <;> omega
      · rintro name rfl
        exact absurd rfl ((hinert _ (List.mem_of_getElem? here)).creates name)

/-- A typed body stays typed when code that control does not reach is put in. -/
theorem Body.Typing.insertUnreached (h : body.Typing hierarchy typing method source site)
    (hlabelled : body.WellLabelled) {start : Nat} {block : List Instruction}
    (hlabelled' : (body.insertAt start block).WellLabelled)
    (hstart : start ≤ body.instructions.length) (hnonempty : block ≠ [])
    (hinert : ∀ instruction ∈ block, instruction.IsInert hierarchy)
    (hunreached : typing start = none) :
    (body.insertAt start block).Typing hierarchy (insertTyping start block.length [] typing)
      method source (shiftBehind start block.length ∘ site) :=
  h.insertAt_of_step hlabelled hlabelled' hstart hnonempty (by simp) hinert
    (fun _ _ => hunreached.symm) (by simp)

/-- **Insertion of straight code.**  A typed body stays typed when straight code that may be put in
is. -/
theorem Body.Typing.insertAt (h : body.Typing hierarchy typing method source site)
    (hlabelled : body.WellLabelled) {start : Nat} {block : List Instruction} {first last : FlowFrame}
    {frames : List FlowFrame} (hlabelled' : (body.insertAt start block).WellLabelled)
    (hstart : start ≤ body.instructions.length)
    (hfits : body.Fits hierarchy typing method source start block first frames last) :
    (body.insertAt start block).Typing hierarchy (insertTyping start block.length frames typing)
      method source (shiftBehind start block.length ∘ site) := by
  refine h.insertAt_of_step hlabelled hlabelled' hstart hfits.nonempty
    (hfits.straight.canonical hfits.canonical) hfits.inert
    (fun hpos hlt => (hfits.straight.head? hfits.nonempty).trans (hfits.enters hpos hlt).symm) ?_
  intro index instruction before here hbefore
  obtain ⟨after, runs, hafter⟩ := hfits.straight.runs_of_getElem? here hbefore
  have hindex := (List.getElem?_eq_some_iff.mp here).1
  have hlength := hfits.straight.length_eq
  have hown : ∀ {place frame}, place < block.length → frames[place]? = some frame →
      Arrives hierarchy (insertTyping start block.length frames typing) (start + place) frame :=
    fun hplace hframe => ⟨_, (insertTyping_block hplace).trans hframe, fun _ _ hown => hown⟩
  refine ⟨0, after, runs 0, ?_, ?_, ?_, ?_⟩
  · rintro opcode rfl heffect
    exact absurd heffect ((hfits.inert _ (List.mem_of_getElem? here)).loads opcode rfl)
  · intro falls
    rw [Body.length_insertAt hstart]
    by_cases hlast : index + 1 < block.length
    · refine ⟨by omega, ?_⟩
      rw [List.getElem?_append_left (by omega)] at hafter
      exact hown hlast hafter
    · have hend : index + 1 = block.length := by omega
      rw [hend, ← hlength, List.getElem?_append_right le_rfl, Nat.sub_self] at hafter
      obtain rfl := Option.some.inj hafter
      have hgetLast : block.getLast? = some instruction := by
        rw [List.getLast?_eq_getElem?, ← here]
        congr 1
        omega
      obtain ⟨hroom, super, hsuper, hfit⟩ := hfits.leaves instruction hgetLast falls
      refine ⟨by omega, super, ?_, hfit⟩
      have hmoved := @insertTyping_shift start block.length frames typing start
      rw [shiftBehind, if_pos le_rfl] at hmoved
      rw [Nat.add_assoc, hend, hmoved, hsuper]
  · intro target htarget
    obtain ⟨place, hplace, hframe⟩ := hfits.jumps here hafter target htarget
    have hlt := (List.getElem?_eq_some_iff.mp hplace).1
    refine ⟨start + place, hlabelled'.places_iff.mpr ?_, hown hlt hframe⟩
    rw [Body.getElem?_insertAt_block hstart hlt, hplace]
  · intro real handler hmem from' stop entry hfrom hstop hentry hcovered
    exfalso
    obtain ⟨⟨from'', hfrom'⟩, ⟨stop', hstop'⟩, -, -⟩ := h.handlers handler hmem
    have hmoved : ∀ {label place}, body.Places label place →
        (body.insertAt start block).Places label (shiftBehind start block.length place) :=
      fun hplace => (Body.places_insertAt_iff hlabelled hlabelled' hstart).mpr hplace
    obtain rfl := (hmoved hfrom').unique hfrom
    obtain rfl := (hmoved hstop').unique hstop
    have hlt := hstop'.lt
    unfold shiftBehind at hcovered
    rcases hfits.free with hunreal | rfl | rfl
    · simp [hunreal instruction (List.mem_of_getElem? here)] at real
    · simp only [Nat.zero_le, if_true] at hcovered
      omega
    · simp only [if_neg (Nat.not_le.mpr hlt)] at hcovered
      omega

/-- A typing is one of every body with the same instructions and handlers. -/
theorem Body.Typing.congr (h : body.Typing hierarchy typing method source site) {body' : Body}
    (hinstructions : body'.instructions = body.instructions)
    (hhandlers : body'.handlers = body.handlers) :
    body'.Typing hierarchy typing method source site := by
  obtain ⟨instructions, handlers, scopes, typeScopes, nextLabel⟩ := body
  obtain ⟨instructions', handlers', scopes', typeScopes', nextLabel'⟩ := body'
  dsimp only at hinstructions hhandlers
  subst hinstructions hhandlers
  refine ⟨h.sites, h.inside, h.canonical, h.known, fun handler hmem => ?_, fun here hbefore => ?_⟩
  · obtain ⟨hstart, hstop, hentry, hcaught⟩ := h.handlers handler hmem
    exact ⟨hstart, hstop, hentry, hcaught⟩
  · obtain ⟨origin, after, runs, horigin, hcreation, hfound, hfalls, hjumps, hthrows⟩ :=
      h.step here hbefore
    exact ⟨origin, after, runs, horigin, hcreation, hfound, hfalls, hjumps, hthrows⟩

/-! ## Handlers -/

/-- A body with a handler behind the others. -/
def Body.addHandler (body : Body) (handler : Handler) : Body :=
  { body with handlers := body.handlers ++ [handler] }

/-- **Another handler.**  A typed body stays typed with another handler if its frame takes in what arrives
from the instructions that it covers. -/
theorem Body.Typing.addHandler (h : body.Typing hierarchy typing method source site)
    {handler : Handler} (hhandler : body.HandlerTyped hierarchy handler)
    (hthrows : ∀ {position origin instruction before after start stop place},
      body.instructions[position]? = some instruction → instruction.isReal →
      typing position = some before → (∀ place, position = site place → origin = place) →
      Transfer.execute method source origin instruction before = .ok after →
      body.Places handler.start start → body.Places handler.stop stop →
      body.Places handler.handler place → start ≤ position ∧ position < stop →
        Arrives hierarchy typing place (handler.entryFrame before.locals) ∧
        Arrives hierarchy typing place (handler.entryFrame after.locals)) :
    (body.addHandler handler).Typing hierarchy typing method source site where
  sites := h.sites
  inside := h.inside
  canonical := h.canonical
  known := h.known
  handlers other hmem := by
    rcases List.mem_append.mp hmem with hmem | hmem
    · exact ⟨(h.handlers other hmem).start, (h.handlers other hmem).stop,
        (h.handlers other hmem).entry, (h.handlers other hmem).caught⟩
    · rw [List.mem_singleton.mp hmem]
      exact ⟨hhandler.start, hhandler.stop, hhandler.entry, hhandler.caught⟩
  step here hbefore := by
    obtain ⟨origin, after, runs, horigin, hcreation, hfound, htyped⟩ := h.step here hbefore
    refine ⟨origin, after, runs, horigin, hcreation, hfound, htyped.falls, htyped.jumps, ?_⟩
    intro real other hmem start stop place hstart hstop hplace hcovered
    rcases List.mem_append.mp hmem with hmem | hmem
    · exact htyped.throws real other hmem start stop place hstart hstop hplace hcovered
    · rw [List.mem_singleton.mp hmem] at hstart hstop hplace ⊢
      exact hthrows here real hbefore horigin runs hstart hstop hplace hcovered

end

end ClassInstrument
