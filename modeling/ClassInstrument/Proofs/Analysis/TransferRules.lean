import ClassInstrument.Analysis.Transfer
import ClassInstrument.Proofs.Hierarchy.Supertypes
import ClassInstrument.Proofs.Outcome

/-!
# What instructions can do to a frame

`Transfer.execute` builds the frame after an instruction from the one before it by few operations:
popping values, pushing values, writing variables, and initializing an object.  A property of frames
that these operations keep is kept by every instruction, and no instruction goes on for ever.

The types that are pushed or written come from the frame before the instruction, except for types
that do not name a creation site, and the type of what a `new` instruction has just created.
-/

namespace ClassInstrument

open Outcome

/-- A computation ends, and if it has a result then one with a property. -/
def Ends {α : Type} (post : α → Prop) : Except Fault α → Prop
  | .ok result => post result
  | .error fault => fault.isEndless = false

namespace Ends

variable {α β : Type}

/-- A computation ends if its parts do. -/
theorem bind {post : α → Prop} {post' : β → Prop} {action : Except Fault α}
    {next : α → Except Fault β} (h : Ends post action)
    (hnext : ∀ result, post result → Ends post' (next result)) : Ends post' (action >>= next) := by
  cases action with
  | error _ => exact h
  | ok result => exact hnext result h

/-- A result may be known to have less. -/
theorem mono {post post' : α → Prop} {action : Except Fault α} (h : Ends post action)
    (himp : ∀ result, post result → post' result) : Ends post' action := by
  cases action with
  | error _ => exact h
  | ok result => exact himp result h

/-- The search for the place of a label ends. -/
theorem find (placements : Placements) (label : Label) :
    Ends (fun place => placements.find label = .ok place) (placements.find label) := by
  unfold Placements.find
  split <;> rfl

/-- What is blamed on an instruction has ended. -/
theorem blame {post : α → Prop} {position : Nat} {action : Except FrameDefect α}
    (h : ∀ result, action = .ok result → post result) : Ends post (Transfer.blame position action) := by
  cases action with
  | error _ => rfl
  | ok result => exact h result rfl

/-- The reading of a method descriptor ends. -/
theorem demandMethod (descriptor : String) :
    Ends (fun _ => True) (MethodDescriptor.demand descriptor) := by
  unfold MethodDescriptor.demand
  split
  · trivial
  · rfl

/-- The reading of a field descriptor ends. -/
theorem demandField (descriptor : String) :
    Ends (fun _ => True) (FieldType.demand descriptor) := by
  unfold FieldType.demand
  split
  · trivial
  · rfl

/-- The reading of the name of a class constant ends. -/
theorem demandClass (name : String) : Ends (fun _ => True) (FieldType.demandClass name) := by
  unfold FieldType.demandClass
  split
  · trivial
  · rfl

end Ends

/-- A property of frames and one of types that go together: the operations of an instruction at a
position keep them. -/
structure FrameRules (position : Nat) (instruction : Instruction) (holds : FlowFrame → Prop)
    (admits : FlowType → Prop) : Prop where
  /-- The stack values of a frame are admitted. -/
  stack : ∀ {frame type}, holds frame → type ∈ frame.stack.toList → admits type
  /-- The variables of a frame are admitted. -/
  locals : ∀ {frame : FlowFrame} {type}, holds frame → type ∈ frame.locals → admits type
  /-- Types without a creation site are admitted. -/
  plain : ∀ {type}, (∀ site, type ≠ .uninit site) → admits type
  /-- The object that the instruction creates is admitted. -/
  created : ∀ {name}, instruction = .type Opcode.create name → admits (.uninit position)
  /-- Popping keeps the property. -/
  pop : ∀ {frame type rest}, holds frame → Frame.pop frame = .ok (type, rest) → holds rest
  /-- Pushing keeps the property. -/
  push : ∀ {frame : FlowFrame} {type}, holds frame → admits type → holds (frame.push type)
  /-- Writing a variable keeps the property. -/
  setLocal : ∀ {frame : FlowFrame} {type}, holds frame → admits type →
    ∀ slot, holds (frame.setLocal slot type)
  /-- Initializing an object keeps the property. -/
  replace : ∀ {frame : FlowFrame} {old}, holds frame →
    (old = .uninitThis ∨ ∃ site, old = .uninit site) →
      ∀ name, holds (frame.replaceAll old (.object name))

/-- The type of a value of a field type names no creation site. -/
theorem ofFieldType_ne_uninit (type : FieldType) (site : Nat) :
    (ValueType.ofFieldType type : FlowType) ≠ .uninit site := by
  cases type with
  | base type => cases type <;> simp [ValueType.ofFieldType]
  | object _ => simp [ValueType.ofFieldType]
  | array _ => simp [ValueType.ofFieldType]

/-- A popped value is the last one. -/
theorem Frame.toList_of_pop {frame rest : FlowFrame} {type : FlowType}
    (h : frame.pop = .ok (type, rest)) : frame.stack.toList = rest.stack.toList ++ [type] := by
  unfold Frame.pop Slots.pop? at h
  split at h
  · next hpop =>
    split at hpop
    · simp at hpop
    · next hentries =>
      cases hpop
      cases h
      simp [Slots.toList, hentries]
  · simp at h

/-- A shuffle pushes values that it found. -/
theorem Shuffle.mem_of_plan {shuffle : Shuffle} {values pushed : List FlowType} {taken : Nat}
    (h : shuffle.plan values = .ok (taken, pushed)) : ∀ type ∈ pushed, type ∈ values := by
  unfold Shuffle.plan at h
  repeat' split at h
  all_goals cases h
  all_goals simp

namespace Effect

/-- The element type of an array names no creation site. -/
theorem elementType_ne_uninit (type : FlowType) (site : Nat) :
    elementType type ≠ .uninit site := by
  unfold elementType
  split
  · split
    · exact ofFieldType_ne_uninit _ site
    · simp
  · simp

/-- The type that an effect pushes, if it is given by the effect alone, names no creation site. -/
def IsPlain : Effect → Prop
  | .gives _ type => ∀ site, type ≠ .uninit site
  | _ => True

/-- Each of two effects has a property if both do. -/
theorem of_ite {holds : Effect → Prop} {c : Prop} [Decidable c] {found other : Option Effect}
    (hfound : ∀ effect, found = some effect → holds effect)
    (hother : ∀ effect, other = some effect → holds effect) :
    ∀ effect, (if c then found else other) = some effect → holds effect := by
  split
  · exact hfound
  · exact hother

/-- The effects of the opcodes push types without creation sites. -/
theorem isPlain_ofOpcode? (opcode : Opcode) :
    ∀ effect, ofOpcode? opcode = some effect → effect.IsPlain := by
  have hnumeric : ∀ count n, (gives count (numeric n)).IsPlain := by
    intro count n site
    unfold numeric
    split <;> simp
  have hintegral : ∀ count n, (gives count (integral n)).IsPlain := by
    intro count n site
    unfold integral
    split <;> simp
  have hconversion : ∀ count n, (gives count (conversion n)).IsPlain := by
    intro count n site
    unfold conversion
    split <;> simp
  have hshuffle : ∀ effect, (Shuffle.ofOpcode? opcode).map shuffles = some effect →
      effect.IsPlain := by
    intro effect h
    obtain ⟨shuffle, -, rfl⟩ := Option.map_eq_some_iff.mp h
    trivial
  unfold ofOpcode?
  dsimp only
  repeat' apply of_ite
  all_goals first | exact hshuffle | rintro effect ⟨⟩
  all_goals first
    | with_reducible exact hnumeric _ _
    | with_reducible exact hintegral _ _
    | with_reducible exact hconversion _ _
    | simp [IsPlain]

end Effect

namespace FrameRules

variable {position : Nat} {instruction : Instruction} {holds : FlowFrame → Prop}
  {admits : FlowType → Prop}

/-- A popped value is admitted, and popping keeps the property. -/
theorem popped (rules : FrameRules position instruction holds admits) {frame : FlowFrame}
    (h : holds frame) : ∀ result, frame.pop = .ok result → admits result.1 ∧ holds result.2 := by
  rintro ⟨type, rest⟩ hpop
  refine ⟨rules.stack h ?_, rules.pop h hpop⟩
  rw [Frame.toList_of_pop hpop]
  exact List.mem_append_right _ List.mem_cons_self

/-- Popping values one after the other keeps the property. -/
theorem drop (rules : FrameRules position instruction holds admits) {count : Nat}
    {frame : FlowFrame} (h : holds frame) : ∀ result, frame.drop count = .ok result → holds result := by
  induction count generalizing frame with
  | zero =>
    rintro result hdrop
    cases hdrop
    exact h
  | succ count ih =>
    intro result hdrop
    obtain ⟨first, hfirst, hdrop⟩ := bind_eq_ok.mp hdrop
    exact ih (rules.popped h first hfirst).2 result hdrop

/-- Pushing values one after the other keeps the property. -/
theorem pushAll (rules : FrameRules position instruction holds admits) {frame : FlowFrame}
    {types : List FlowType} (h : holds frame) (htypes : ∀ type ∈ types, admits type) :
    holds { frame with stack := frame.stack.pushAll types } := by
  induction types generalizing frame with
  | nil => exact h
  | cons type types ih =>
    exact ih (rules.push h (htypes type List.mem_cons_self)) fun other hother =>
      htypes other (List.mem_cons_of_mem _ hother)

/-- A shuffle keeps the property. -/
theorem shuffle (rules : FrameRules position instruction holds admits) {frame : FlowFrame}
    {shuffle : Shuffle} (h : holds frame) :
    ∀ result, frame.shuffle shuffle = .ok result → holds result := by
  intro result hshuffle
  unfold Frame.shuffle at hshuffle
  obtain ⟨⟨taken, pushed⟩, hplan, hshuffle⟩ := bind_eq_ok.mp hshuffle
  obtain ⟨rest, hrest, hshuffle⟩ := bind_eq_ok.mp hshuffle
  obtain rfl := pure_eq_ok.mp hshuffle
  refine rules.pushAll (rules.drop h rest hrest) fun type htype => rules.stack h ?_
  rw [Slots.toList, List.mem_reverse]
  exact Shuffle.mem_of_plan hplan type htype

/-- The effect of an instruction without operands keeps the property. -/
theorem apply (rules : FrameRules position instruction holds admits) {opcode : Opcode}
    {effect : Effect} (heffect : Effect.ofOpcode? opcode = some effect) {frame : FlowFrame}
    (h : holds frame) : ∀ result, effect.apply frame = .ok result → holds result := by
  intro result happly
  cases effect with
  | keep =>
    obtain rfl := pure_eq_ok.mp happly
    exact h
  | pops count => exact rules.drop h result happly
  | gives count type =>
    obtain ⟨rest, hrest, happly⟩ := bind_eq_ok.mp happly
    obtain rfl := pure_eq_ok.mp happly
    exact rules.push (rules.drop h rest hrest) (rules.plain (Effect.isPlain_ofOpcode? opcode _ heffect))
  | loadsElement =>
    obtain ⟨first, hfirst, happly⟩ := bind_eq_ok.mp happly
    obtain ⟨second, hsecond, happly⟩ := bind_eq_ok.mp happly
    obtain rfl := pure_eq_ok.mp happly
    have hrest := (rules.popped h first hfirst).2
    exact rules.push (rules.popped hrest second hsecond).2
      (rules.plain (Effect.elementType_ne_uninit second.1))
  | shuffles shuffle => exact rules.shuffle h result happly

/-- Pushing a result keeps the property. -/
theorem pushResult (rules : FrameRules position instruction holds admits) {frame : FlowFrame}
    (h : holds frame) (result : Option FieldType) : holds (Transfer.pushResult frame result) := by
  cases result with
  | none => exact h
  | some type => exact rules.push h (rules.plain (ofFieldType_ne_uninit type))

/-- A load, store or return from a subroutine keeps the property. -/
theorem accessVariable (rules : FrameRules position instruction holds admits) {frame : FlowFrame}
    (h : holds frame) (opcode : Opcode) (slot : Nat) :
    Ends holds (Transfer.accessVariable position opcode slot frame) := by
  unfold Transfer.accessVariable
  split
  · exact rules.push h (rules.plain (by simp))
  · exact rules.push h (rules.plain (by simp))
  · exact rules.push h (rules.plain (by simp))
  · exact rules.push h (rules.plain (by simp))
  · split
    · next type hslot =>
      split
      · exact rules.push h (rules.locals h (List.mem_of_getElem? hslot))
      · rfl
    · rfl
  · split
    · refine Ends.bind (Ends.blame (rules.popped h)) fun popped hpopped => ?_
      exact rules.setLocal hpopped.2 hpopped.1 slot
    · rfl

/-- An instruction that names a class keeps the property. -/
theorem useType (rules : FrameRules position instruction holds admits) {frame : FlowFrame}
    (h : holds frame) {opcode : Opcode} {name : String} (hinstruction : instruction = .type opcode name) :
    Ends holds (Transfer.useType position opcode name frame) := by
  unfold Transfer.useType
  split
  · exact rules.push h (rules.created hinstruction)
  · refine Ends.bind (Ends.blame (rules.drop h)) fun rest hrest => ?_
    refine Ends.bind (Ends.demandClass name) fun element _ => ?_
    exact rules.push hrest (rules.plain (by simp))
  · exact Ends.bind (Ends.blame (rules.drop h)) fun rest hrest =>
      rules.push hrest (rules.plain (by simp))
  · exact Ends.bind (Ends.blame (rules.drop h)) fun rest hrest =>
      rules.push hrest (rules.plain (by simp))

/-- An access to a field keeps the property. -/
theorem accessField (rules : FrameRules position instruction holds admits) {frame : FlowFrame}
    (h : holds frame) (opcode : Opcode) (field : Member) :
    Ends holds (Transfer.accessField position opcode field frame) := by
  unfold Transfer.accessField
  refine Ends.bind (Ends.demandField _) fun type _ => ?_
  have htype := rules.plain (ofFieldType_ne_uninit type)
  split
  · exact rules.push h htype
  · exact Ends.blame (rules.drop h)
  · exact Ends.bind (Ends.blame (rules.drop h)) fun rest hrest => rules.push hrest htype
  · exact Ends.blame (rules.drop h)

/-- The object that a constructor initializes was not initialized before, and then is of a class. -/
theorem initialized (method : MethodContext) (code : Array Instruction) (position : Nat)
    (receiver : FlowType) :
    Ends (fun type => (receiver = .uninitThis ∨ ∃ site, receiver = .uninit site) ∧
      ∃ name, type = .object name) (Transfer.initialized method code position receiver) := by
  unfold Transfer.initialized
  split
  · exact ⟨Or.inl rfl, _, rfl⟩
  · next site =>
    split
    · exact ⟨Or.inr ⟨site, rfl⟩, _, rfl⟩
    · rfl
  · rfl

/-- A call keeps the property. -/
theorem call (rules : FrameRules position instruction holds admits) {frame : FlowFrame}
    (h : holds frame) (method : MethodContext) (code : Array Instruction) (opcode : Opcode)
    (callee : Member) : Ends holds (Transfer.call method code position opcode callee frame) := by
  unfold Transfer.call
  refine Ends.bind (Ends.demandMethod _) fun descriptor _ => ?_
  refine Ends.bind (Ends.blame (rules.drop h)) fun rest hrest => ?_
  split
  · exact rules.pushResult hrest _
  · refine Ends.bind (Ends.blame (rules.popped hrest)) ?_
    rintro ⟨receiver, below⟩ ⟨-, hbelow⟩
    dsimp only
    split
    · refine Ends.bind (initialized method code position receiver) ?_
      rintro type ⟨hreceiver, name, rfl⟩
      exact rules.pushResult (rules.replace hbelow hreceiver name) _
    · exact rules.pushResult hbelow _

/-- A jump keeps the property. -/
theorem jump (rules : FrameRules position instruction holds admits) {frame : FlowFrame}
    (h : holds frame) (opcode : Opcode) : Ends holds (Transfer.jump position opcode frame) := by
  unfold Transfer.jump
  simp only
  split
  · exact Ends.blame (rules.drop h)
  · split
    · exact Ends.blame (rules.drop h)
    · split
      · exact h
      · rfl

/-- The type of a pushed constant names no creation site. -/
theorem loadedType (constant : Loadable) :
    Ends (fun type => ∀ site, type ≠ .uninit site) (Transfer.loadedType constant) := by
  cases constant with
  | pooled _ descriptor =>
    exact Ends.bind (Ends.demandField descriptor) fun type _ => ofFieldType_ne_uninit type
  | _ => exact fun site => by simp

/-- **Rules for instructions.**  An instruction keeps each property that the operations on frames
keep, and does not go on for ever. -/
theorem execute (rules : FrameRules position instruction holds admits) {frame : FlowFrame}
    (h : holds frame) (method : MethodContext) (code : Array Instruction) :
    Ends holds (Transfer.execute method code position instruction frame) := by
  unfold Transfer.execute
  split
  · exact h
  · exact h
  · split
    · next effect heffect => exact Ends.blame (rules.apply heffect h)
    · rfl
  · refine Ends.bind (Ends.blame (rules.drop h)) fun rest hrest => ?_
    split
    · exact rules.push hrest (rules.plain (by simp))
    · rfl
  · exact rules.push h (rules.plain (by simp))
  · exact rules.accessVariable h _ _
  · exact h
  · exact rules.useType h rfl
  · exact rules.accessField h _ _
  · exact rules.call h method code _ _
  · refine Ends.bind (Ends.demandMethod _) fun descriptor _ => ?_
    exact Ends.bind (Ends.blame (rules.drop h)) fun rest hrest => rules.pushResult hrest _
  · exact rules.jump h _
  · exact Ends.bind (loadedType _) fun type htype => rules.push h (rules.plain htype)
  · exact Ends.blame (rules.drop h)
  · exact Ends.blame (rules.drop h)
  · exact Ends.bind (Ends.blame (rules.drop h)) fun rest hrest =>
      rules.push hrest (rules.plain (by simp))

end FrameRules

end ClassInstrument
