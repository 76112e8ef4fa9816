import ClassInstrument.Proofs.Analysis.Fitting

/-!
# Instructions on frames that fit

An instruction that runs on a frame runs on every frame that fits it, and the frames after it fit again.
Only an array load looks closer at a class than `TypeFits` does: it has to find the null reference or an
array of references, since the elements of whatever else is an object may be of any type.
-/

namespace ClassInstrument

open Outcome

variable {hierarchy : Hierarchy} {site : Nat → Nat}

/-! ## What instructions give -/

/-- The classes of the values that an instruction gives are known. -/
def Instruction.IsKnown (hierarchy : Hierarchy) : Instruction → Prop
  | .type _ name | .multiArray name _ => NameKnown hierarchy name
  | .field _ accessed =>
    ∀ type, FieldType.demand accessed.descriptor = .ok type → type.IsKnown hierarchy
  | .method _ callee => ∀ parsed, MethodDescriptor.demand callee.descriptor = .ok parsed →
      ∀ type ∈ parsed.result, type.IsKnown hierarchy
  | .invokeDynamic _ descriptor => ∀ parsed, MethodDescriptor.demand descriptor = .ok parsed →
      ∀ type ∈ parsed.result, type.IsKnown hierarchy
  | .load constant => ∀ type, Transfer.loadedType constant = .ok type → TypeKnown hierarchy type
  | _ => True

/-- The null reference, or an array of references, of which each is of a type that a class constant
names. -/
def HoldsReferences : FlowType → Prop
  | .null => True
  | .object name =>
    ∃ element, FieldType.ofClassConstantName name = .ok (.array element) ∧ element.IsNamed
  | _ => False

/-- An instruction that loads an element of an array of references finds one, or the null reference. -/
def Instruction.FindsReferences (instruction : Instruction) (frame : FlowFrame) : Prop :=
  ∀ opcode, instruction = .plain opcode → Effect.ofOpcode? opcode = some .loadsElement →
    ∀ below array index, frame.stack.toList = below ++ [array, index] → HoldsReferences array

/-- The creation sites of a source code are in a code where `site` says, and create objects of known
classes. -/
structure SitesKept (hierarchy : Hierarchy) (site : Nat → Nat) (source code : Array Instruction) :
    Prop where
  /-- No two sites are moved to one place. -/
  injective : Function.Injective site
  /-- A site of the source is one of the code. -/
  kept : ∀ {place : Nat} {name}, source[place]? = some (Instruction.type Opcode.create name) →
    code[site place]? = some (Instruction.type Opcode.create name)
  /-- The class of the created object is known. -/
  known : ∀ {place : Nat} {name}, source[place]? = some (Instruction.type Opcode.create name) →
    NameKnown hierarchy name

/-- The type of a value of a type that a class constant names is that of an object. -/
theorem ofFieldType_of_name {type : FieldType} {name : String}
    (h : type.classConstantName? = some name) :
    (ValueType.ofFieldType type : FlowType) = .object name := by
  cases type with
  | base _ => simp [FieldType.classConstantName?] at h
  | object _ => rw [ValueType.ofFieldType, Option.some.inj h]
  | array _ => rw [ValueType.ofFieldType, Option.some.inj h]

/-- The type of a value of a known type is known. -/
theorem typeKnown_ofFieldType {type : FieldType} (h : type.IsKnown hierarchy) :
    TypeKnown hierarchy (ValueType.ofFieldType type) := by
  by_cases href : type.isReference
  · obtain ⟨name, hname, hread⟩ := h.exists_name href
    rw [ofFieldType_of_name hname]
    exact ⟨type, hread, h⟩
  · cases type with
    | base type => cases type <;> trivial
    | object _ => exact absurd rfl href
    | array _ => exact absurd rfl href

/-- The type of a value of a known type fits itself. -/
theorem typeFits_ofFieldType {type : FieldType} (h : type.IsKnown hierarchy) :
    TypeFits hierarchy site (ValueType.ofFieldType type) (ValueType.ofFieldType type) :=
  .refl (typeKnown_ofFieldType h) (ofFieldType_ne_uninit type)

/-- The elements of an array of references fit those of one that it fits. -/
theorem TypeFits.elementType {sub super : FlowType} (h : TypeFits hierarchy site sub super)
    (harray : HoldsReferences super) :
    TypeFits hierarchy site (Effect.elementType sub) (Effect.elementType super) := by
  cases super with
  | null =>
    obtain rfl := h
    exact rfl
  | object array =>
    obtain ⟨element, hread, hnamed⟩ := harray
    obtain ⟨name, hname⟩ : ∃ name, element.classConstantName? = some name := by
      cases element with
      | base _ => simp [FieldType.IsNamed] at hnamed
      | object name => exact ⟨name, rfl⟩
      | array inner => exact ⟨_, rfl⟩
    have hsuper : Effect.elementType (.object array) = .object name := by
      simp [Effect.elementType, hread, ofFieldType_of_name hname]
    rw [hsuper]
    rcases h with rfl | ⟨sub, rfl, lower, upper, hlower, hupper, hknown, hresembles⟩
    · exact Or.inl rfl
    · obtain rfl := Except.ok.inj (hread.symm.trans hupper)
      obtain ⟨inner, rfl, hinner⟩ := hresembles
      have hinnerKnown : inner.IsKnown hierarchy := hknown
      obtain ⟨own, hown, hownRead⟩ := hinnerKnown.exists_name (hinner.isReference hnamed.isReference)
      refine Or.inr ⟨own, by simp [Effect.elementType, hlower, ofFieldType_of_name hown], inner, element,
        hownRead, FieldType.ofClassConstantName_of_isNamed hnamed hname, hinnerKnown, hinner⟩
  | _ => exact absurd harray (by simp [HoldsReferences])

/-- The types that effects give by themselves name no classes. -/
theorem Effect.typeKnown_of_gives {opcode : Opcode} {count : Nat} {type : FlowType}
    (h : Effect.ofOpcode? opcode = some (.gives count type)) : TypeKnown hierarchy type := by
  have hnumeric : ∀ n, TypeKnown hierarchy (numeric n) := by
    intro n
    unfold numeric
    split <;> trivial
  have hintegral : ∀ n, TypeKnown hierarchy (integral n) := by
    intro n
    unfold integral
    split <;> trivial
  have hconversion : ∀ n, TypeKnown hierarchy (conversion n) := by
    intro n
    unfold conversion
    split <;> trivial
  suffices hall : ∀ effect, Effect.ofOpcode? opcode = some effect →
      ∀ count type, effect = .gives count type → TypeKnown hierarchy type from
    hall _ h count type rfl
  have hshuffle : ∀ effect, (Shuffle.ofOpcode? opcode).map shuffles = some effect →
      ∀ count type, effect = .gives count type → TypeKnown hierarchy type := by
    rintro effect hmap count type rfl
    obtain ⟨shuffle, -, hsame⟩ := Option.map_eq_some_iff.mp hmap
    cases hsame
  unfold ofOpcode?
  dsimp only
  repeat' apply of_ite
  all_goals first | exact hshuffle | rintro effect ⟨⟩ count type ⟨⟩
  all_goals first
    | with_reducible exact hnumeric _
    | with_reducible exact hintegral _
    | with_reducible exact hconversion _
    | trivial

/-! ## Operations on frames -/

/-- A frame with a value on its stack is popped. -/
theorem Frame.exists_pop {frame : FlowFrame} {type : FlowType} {below : List FlowType}
    (h : frame.stack.entries.map Prod.snd = type :: below) :
    ∃ rest, frame.pop = .ok (type, rest) ∧ rest.stack.entries.map Prod.snd = below ∧
      rest.locals = frame.locals := by
  unfold Frame.pop Slots.pop?
  cases hentries : frame.stack.entries with
  | nil => simp [hentries] at h
  | cons entry entries =>
    rw [hentries] at h
    obtain ⟨rfl, rfl⟩ := List.cons.inj h
    exact ⟨_, rfl, rfl, rfl⟩

/-- What is popped is the value on top. -/
theorem Frame.pop_eq_ok {frame rest : FlowFrame} {type : FlowType} (h : frame.pop = .ok (type, rest)) :
    frame.stack.entries.map Prod.snd = type :: rest.stack.entries.map Prod.snd ∧
      rest.locals = frame.locals := by
  unfold Frame.pop Slots.pop? at h
  cases hentries : frame.stack.entries with
  | nil => simp [hentries] at h
  | cons entry entries =>
    simp only [hentries] at h
    cases h
    exact ⟨rfl, rfl⟩

/-- Variables that fit others still do if both lists are made as long. -/
theorem variablesFit_padTo {owns types : List FlowType} (h : VariablesFit hierarchy site owns types)
    (count : Nat) :
    VariablesFit hierarchy site (Frame.padTo count owns) (Frame.padTo count types) := by
  intro slot type htype
  unfold Frame.padTo at htype ⊢
  by_cases hslot : slot < types.length
  · rw [List.getElem?_append_left hslot] at htype
    obtain ⟨own, hown, hfits⟩ := h slot type htype
    have hlt := (List.getElem?_eq_some_iff.mp hown).1
    exact ⟨own, by rw [List.getElem?_append_left hlt, hown], hfits⟩
  · rw [List.getElem?_append_right (Nat.le_of_not_lt hslot), List.getElem?_replicate] at htype
    split at htype
    · have hlong : slot < (owns ++ List.replicate (count - owns.length) ValueType.top).length := by
        simp only [List.length_append, List.length_replicate]
        omega
      exact ⟨_, List.getElem?_eq_getElem hlong, Or.inl (Option.some.inj htype).symm⟩
    · simp at htype

/-- A type is the one of an object that is not initialized exactly if what fits it is. -/
theorem TypeFits.eq_iff (hsite : Function.Injective site) {own old sub type : FlowType}
    (hfits : TypeFits hierarchy site own old)
    (hold : old = .uninitThis ∨ ∃ place, old = .uninit place)
    (hsub : TypeFits hierarchy site sub type) : sub = own ↔ type = old := by
  rcases hold with rfl | ⟨place, rfl⟩
  · obtain rfl := hfits
    cases type with
    | object _ => rcases hsub with rfl | ⟨name, rfl, -⟩ <;> simp
    | _ =>
      obtain rfl := hsub
      simp
  · obtain rfl := hfits
    cases type with
    | object _ => rcases hsub with rfl | ⟨name, rfl, -⟩ <;> simp
    | uninit other =>
      obtain rfl := hsub
      simp [hsite.eq_iff]
    | _ =>
      obtain rfl := hsub
      simp

/-- Shuffles of values that fit take as many and push values that fit. -/
theorem Shuffle.plan_fits {shuffle : Shuffle} {owns types pushed : List FlowType} {taken : Nat}
    (h : ValuesFit hierarchy site owns types) (hplan : shuffle.plan types = .ok (taken, pushed)) :
    ∃ own, shuffle.plan owns = .ok (taken, own) ∧ ValuesFit hierarchy site own pushed := by
  have hwide : ∀ {own type}, TypeFits hierarchy site own type → own.isWide = type.isWide :=
    TypeFits.isWide
  revert hplan
  fun_cases plan shuffle types
  all_goals
    intro hplan
    first
    | (cases hplan; done)
    | obtain ⟨rfl, rfl⟩ := Prod.mk.inj (Except.ok.inj hplan)
  -- Shuffles look at the widths of the first three values and take four at most.
  all_goals
    rcases h with _ | ⟨h1, _ | ⟨h2, _ | ⟨h3, _ | ⟨h4, h5⟩⟩⟩⟩
  all_goals
    try have := hwide h1
    try have := hwide h2
    try have := hwide h3
    simp_all [plan]

namespace FrameFits

variable {frame super : FlowFrame}

/-- The values fit from the top of the stack on. -/
theorem values (h : FrameFits hierarchy site frame super) :
    ValuesFit hierarchy site (frame.stack.entries.map Prod.snd) (super.stack.entries.map Prod.snd) :=
  List.forall₂_reverse_iff.mp h.stack

/-- What can be popped from a frame can be popped from one that fits it. -/
theorem pop (h : FrameFits hierarchy site frame super) {type : FlowType} {rest : FlowFrame}
    (hpop : super.pop = .ok (type, rest)) :
    ∃ own below, frame.pop = .ok (own, below) ∧ TypeFits hierarchy site own type ∧
      FrameFits hierarchy site below rest := by
  obtain ⟨hvalues, hlocals⟩ := Frame.pop_eq_ok hpop
  obtain ⟨own, others, hown, hothers, hsplit⟩ := List.forall₂_cons_right_iff.mp (hvalues ▸ h.values)
  obtain ⟨below, hbelow, hrest, hsame⟩ := Frame.exists_pop hsplit
  refine ⟨own, below, hbelow, hown, ?_, ?_, ?_, h.canonical.pop hbelow⟩
  · exact List.forall₂_reverse_iff.mpr (hrest ▸ hothers)
  · rw [hsame, hlocals]
    exact h.locals
  · rw [hsame]
    exact h.known

/-- As many values as can be dropped from a frame can be dropped from one that fits it. -/
theorem drop (h : FrameFits hierarchy site frame super) {count : Nat} {rest : FlowFrame}
    (hdrop : super.drop count = .ok rest) :
    ∃ below, frame.drop count = .ok below ∧ FrameFits hierarchy site below rest := by
  induction count generalizing frame super with
  | zero =>
    cases hdrop
    exact ⟨frame, rfl, h⟩
  | succ count ih =>
    obtain ⟨⟨type, middle⟩, hpop, hdrop⟩ := bind_eq_ok.mp hdrop
    obtain ⟨own, below, hown, -, hfits⟩ := h.pop hpop
    obtain ⟨last, hlast, hfits⟩ := ih hfits hdrop
    exact ⟨last, bind_eq_ok.mpr ⟨_, hown, hlast⟩, hfits⟩

/-- Pushing values that fit gives frames that fit. -/
theorem push (h : FrameFits hierarchy site frame super) {own type : FlowType}
    (hfits : TypeFits hierarchy site own type) :
    FrameFits hierarchy site (frame.push own) (super.push type) where
  stack := by
    rw [Frame.push, Frame.push, Slots.toList_push, Slots.toList_push]
    exact List.rel_append h.stack (.cons hfits .nil)
  locals := h.locals
  known := h.known
  canonical := h.canonical.push own

/-- Pushing lists of values that fit gives frames that fit. -/
theorem pushAll (h : FrameFits hierarchy site frame super) {owns types : List FlowType}
    (hfits : ValuesFit hierarchy site owns types) :
    FrameFits hierarchy site { frame with stack := frame.stack.pushAll owns }
      { super with stack := super.stack.pushAll types } := by
  induction hfits generalizing frame super with
  | nil => exact h
  | cons hfirst _ ih => exact ih (h.push hfirst)

/-- Pushing a result of a known type gives frames that fit. -/
theorem pushResult (h : FrameFits hierarchy site frame super) {result : Option FieldType}
    (hknown : ∀ type ∈ result, type.IsKnown hierarchy) :
    FrameFits hierarchy site (Transfer.pushResult frame result)
      (Transfer.pushResult super result) := by
  cases result with
  | none => exact h
  | some type => exact h.push (typeFits_ofFieldType (hknown type rfl))

/-- Writing values that fit gives frames that fit. -/
theorem setLocal (h : FrameFits hierarchy site frame super) {own type : FlowType}
    (hfits : TypeFits hierarchy site own type) (slot : Nat) :
    FrameFits hierarchy site (frame.setLocal slot own) (super.setLocal slot type) where
  stack := h.stack
  locals other found hfound := by
    have hwidth : width own = width type := by simp only [width, hfits.isWide]
    rw [Frame.getElem?_setLocal] at hfound ⊢
    rw [hfits.isWide]
    split
    · next hbehind =>
      rw [if_pos hbehind] at hfound
      exact ⟨_, rfl, Or.inl (Option.some.inj hfound).symm⟩
    · next hbehind =>
      rw [if_neg hbehind] at hfound
      split
      · next hsame =>
        rw [if_pos hsame] at hfound
        exact ⟨_, rfl, Or.inr (Option.some.inj hfound ▸ hfits)⟩
      · next hdiffer =>
        rw [if_neg hdiffer] at hfound
        obtain ⟨old, hold, rfl⟩ := Option.map_eq_some_iff.mp hfound
        obtain ⟨value, hvalue, hfit⟩ := variablesFit_padTo h.locals (slot + width type) other old hold
        rw [hwidth, hvalue]
        refine ⟨_, rfl, ?_⟩
        rcases hfit with rfl | hfit
        · exact Or.inl (by simp)
        · dsimp only
          rw [hfit.isWide]
          split
          · exact Or.inl rfl
          · exact Or.inr hfit
  known found hfound := by
    obtain ⟨other, hother⟩ := List.mem_iff_getElem?.mp hfound
    rw [Frame.getElem?_setLocal] at hother
    split at hother
    · exact Option.some.inj hother ▸ trivial
    · split at hother
      · exact Option.some.inj hother ▸ hfits.known
      · obtain ⟨old, hold, rfl⟩ := Option.map_eq_some_iff.mp hother
        split
        · trivial
        · rcases List.mem_append.mp (List.mem_of_getElem? hold) with hold | hold
          · exact h.known old hold
          · rw [List.eq_of_mem_replicate hold]
            trivial
  canonical := h.canonical.setLocal slot own

/-- Initializing an object gives frames that fit. -/
theorem replaceAll (h : FrameFits hierarchy site frame super) (hsite : Function.Injective site)
    {own old : FlowType} (hfits : TypeFits hierarchy site own old)
    (hold : old = .uninitThis ∨ ∃ place, old = .uninit place) {name : String}
    (hname : NameKnown hierarchy name) :
    FrameFits hierarchy site (frame.replaceAll own (.object name))
      (super.replaceAll old (.object name)) := by
  have hreplaced : ∀ {sub type}, TypeFits hierarchy site sub type →
      TypeFits hierarchy site (if sub = own then .object name else sub)
        (if type = old then .object name else type) := by
    intro sub type hsub
    have hsame := TypeFits.eq_iff hsite hfits hold hsub
    by_cases htype : type = old
    · rw [if_pos (hsame.mpr htype), if_pos htype]
      exact Or.inr ⟨name, rfl, hname.fits⟩
    · rw [if_neg (mt hsame.mp htype), if_neg htype]
      exact hsub
  have hnarrow : own.isWide = false := by
    rw [hfits.isWide]
    rcases hold with rfl | ⟨place, rfl⟩ <;> rfl
  refine ⟨?_, ?_, ?_, h.canonical.replaceAll hnarrow rfl⟩
  · refine List.forall₂_reverse_iff.mpr ?_
    simp only [Frame.replaceAll, Slots.replaceAll, List.map_map, Function.comp_def, decide_eq_true_eq]
    have hvalues := h.values
    unfold ValuesFit at hvalues
    rw [List.forall₂_map_left_iff, List.forall₂_map_right_iff] at hvalues ⊢
    exact hvalues.imp fun _ _ hfit => hreplaced hfit
  · intro slot type htype
    simp only [Frame.replaceAll, List.getElem?_map, Option.map_eq_some_iff] at htype ⊢
    obtain ⟨before, hbefore, rfl⟩ := htype
    obtain ⟨sub, hsub, hfit⟩ := h.locals slot before hbefore
    refine ⟨_, ⟨sub, hsub, rfl⟩, ?_⟩
    rcases hfit with rfl | hfit
    · refine Or.inl (if_neg ?_)
      rcases hold with rfl | ⟨place, rfl⟩ <;> simp
    · exact Or.inr (hreplaced hfit)
  · intro type htype
    obtain ⟨before, hbefore, rfl⟩ := List.mem_map.mp htype
    split
    · exact hname
    · exact h.known before hbefore

/-- A rearrangement of a stack is one of a stack that fits it. -/
theorem shuffle (h : FrameFits hierarchy site frame super) {shuffle : Shuffle} {rest : FlowFrame}
    (hshuffle : super.shuffle shuffle = .ok rest) :
    ∃ after, frame.shuffle shuffle = .ok after ∧ FrameFits hierarchy site after rest := by
  obtain ⟨⟨taken, pushed⟩, hplan, hshuffle⟩ := bind_eq_ok.mp hshuffle
  obtain ⟨below, hbelow, hshuffle⟩ := bind_eq_ok.mp hshuffle
  obtain rfl := pure_eq_ok.mp hshuffle
  obtain ⟨own, hown, hpushed⟩ := Shuffle.plan_fits h.values hplan
  obtain ⟨middle, hmiddle, hfits⟩ := h.drop hbelow
  exact ⟨_, bind_eq_ok.mpr ⟨_, hown, bind_eq_ok.mpr ⟨_, hmiddle, rfl⟩⟩, hfits.pushAll hpushed⟩

/-! ## Instructions -/

/-- What is blamed on an instruction has a result exactly if it has one itself. -/
theorem blame_eq_ok {α : Type} {position : Nat} {action : Except FrameDefect α} {result : α} :
    Transfer.blame position action = .ok result ↔ action = .ok result := by
  cases action <;> simp [Transfer.blame]

/-- The effect of an instruction without operands is one on a frame that fits. -/
theorem apply (h : FrameFits hierarchy site frame super) {opcode : Opcode} {effect : Effect}
    (heffect : Effect.ofOpcode? opcode = some effect)
    (harray : Instruction.FindsReferences (.plain opcode) super) {after : FlowFrame}
    (happly : effect.apply super = .ok after) :
    ∃ own, effect.apply frame = .ok own ∧ FrameFits hierarchy site own after := by
  cases effect with
  | keep =>
    obtain rfl := pure_eq_ok.mp happly
    exact ⟨frame, rfl, h⟩
  | pops count => exact h.drop happly
  | gives count type =>
    obtain ⟨rest, hrest, happly⟩ := bind_eq_ok.mp happly
    obtain rfl := pure_eq_ok.mp happly
    obtain ⟨below, hbelow, hfits⟩ := h.drop hrest
    have htype : TypeFits hierarchy site type type :=
      .refl (Effect.typeKnown_of_gives heffect) (Effect.isPlain_ofOpcode? opcode _ heffect)
    exact ⟨_, bind_eq_ok.mpr ⟨_, hbelow, rfl⟩, hfits.push htype⟩
  | loadsElement =>
    obtain ⟨⟨index, middle⟩, hindex, happly⟩ := bind_eq_ok.mp happly
    obtain ⟨⟨array, rest⟩, hrest, happly⟩ := bind_eq_ok.mp happly
    obtain rfl := pure_eq_ok.mp happly
    have hlist : super.stack.toList = rest.stack.toList ++ [array, index] := by
      rw [Frame.toList_of_pop hindex, Frame.toList_of_pop hrest]
      simp
    obtain ⟨_, below, hbelow, -, hfits⟩ := h.pop hindex
    obtain ⟨own, last, hlast, hown, hfits⟩ := hfits.pop hrest
    refine ⟨_, bind_eq_ok.mpr ⟨_, hbelow, bind_eq_ok.mpr ⟨_, hlast, rfl⟩⟩, ?_⟩
    exact hfits.push (hown.elementType (harray opcode rfl heffect _ _ _ hlist))
  | shuffles shuffle => exact h.shuffle happly

variable {method : MethodContext} {source code : Array Instruction} {position place : Nat}
  {after : FlowFrame}

/-- A load, store or return from a subroutine runs on a frame that fits. -/
theorem accessVariable (h : FrameFits hierarchy site frame super) {opcode : Opcode} {slot : Nat}
    (runs : Transfer.accessVariable position opcode slot super = .ok after) :
    ∃ own, Transfer.accessVariable place opcode slot frame = .ok own ∧
      FrameFits hierarchy site own after := by
  unfold Transfer.accessVariable at runs ⊢
  split at runs
  · obtain rfl := pure_eq_ok.mp runs
    exact ⟨_, rfl, h.push rfl⟩
  · obtain rfl := pure_eq_ok.mp runs
    exact ⟨_, rfl, h.push rfl⟩
  · obtain rfl := pure_eq_ok.mp runs
    exact ⟨_, rfl, h.push rfl⟩
  · obtain rfl := pure_eq_ok.mp runs
    exact ⟨_, rfl, h.push rfl⟩
  · split at runs
    · next type hslot =>
      split at runs
      · next href =>
        obtain rfl := pure_eq_ok.mp runs
        obtain ⟨own, hown, hfits⟩ := h.locals slot type hslot
        rcases hfits with rfl | hfits
        · simp [ValueType.isReference] at href
        · simp only [hown, hfits.isReference, href, if_true]
          exact ⟨_, rfl, h.push hfits⟩
      · simp [throw, throwThe, MonadExceptOf.throw] at runs
    · simp [throw, throwThe, MonadExceptOf.throw] at runs
  · split at runs
    · next hstore =>
      obtain ⟨⟨type, rest⟩, hpop, runs⟩ := bind_eq_ok.mp runs
      obtain rfl := pure_eq_ok.mp runs
      obtain ⟨own, below, hown, hfits, hrest⟩ := h.pop (blame_eq_ok.mp hpop)
      rw [if_pos hstore]
      exact ⟨_, bind_eq_ok.mpr ⟨_, blame_eq_ok.mpr hown, rfl⟩, hrest.setLocal hfits slot⟩
    · simp [throw, throwThe, MonadExceptOf.throw] at runs

/-- An instruction that names a class runs on a frame that fits. -/
theorem useType (h : FrameFits hierarchy site frame super) {opcode : Opcode} {name : String}
    (hname : NameKnown hierarchy name) (hplace : opcode = Opcode.create → place = site position)
    (runs : Transfer.useType position opcode name super = .ok after) :
    ∃ own, Transfer.useType place opcode name frame = .ok own ∧
      FrameFits hierarchy site own after := by
  unfold Transfer.useType at runs ⊢
  split at runs
  · obtain rfl := pure_eq_ok.mp runs
    exact ⟨_, rfl, h.push (congrArg ValueType.uninit (hplace rfl))⟩
  · obtain ⟨rest, hrest, runs⟩ := bind_eq_ok.mp runs
    obtain ⟨element, helement, runs⟩ := bind_eq_ok.mp runs
    obtain rfl := pure_eq_ok.mp runs
    obtain ⟨below, hbelow, hfits⟩ := h.drop (blame_eq_ok.mp hrest)
    have hknown : (FieldType.array element).IsKnown hierarchy := by
      obtain ⟨type, htype, hknown⟩ := hname
      obtain rfl := Except.ok.inj ((demandClass_eq_ok.mp helement).symm.trans htype)
      exact hknown
    exact ⟨_, bind_eq_ok.mpr ⟨_, blame_eq_ok.mpr hbelow, bind_eq_ok.mpr ⟨_, helement, rfl⟩⟩,
      hfits.push (typeFits_ofFieldType hknown)⟩
  · obtain ⟨rest, hrest, runs⟩ := bind_eq_ok.mp runs
    obtain rfl := pure_eq_ok.mp runs
    obtain ⟨below, hbelow, hfits⟩ := h.drop (blame_eq_ok.mp hrest)
    exact ⟨_, bind_eq_ok.mpr ⟨_, blame_eq_ok.mpr hbelow, rfl⟩,
      hfits.push (.refl hname (by simp))⟩
  · obtain ⟨rest, hrest, runs⟩ := bind_eq_ok.mp runs
    obtain rfl := pure_eq_ok.mp runs
    obtain ⟨below, hbelow, hfits⟩ := h.drop (blame_eq_ok.mp hrest)
    exact ⟨_, bind_eq_ok.mpr ⟨_, blame_eq_ok.mpr hbelow, rfl⟩, hfits.push rfl⟩

/-- An access to a field runs on a frame that fits. -/
theorem accessField (h : FrameFits hierarchy site frame super) {opcode : Opcode} {accessed : Member}
    (hknown : ∀ type, FieldType.demand accessed.descriptor = .ok type → type.IsKnown hierarchy)
    (runs : Transfer.accessField position opcode accessed super = .ok after) :
    ∃ own, Transfer.accessField place opcode accessed frame = .ok own ∧
      FrameFits hierarchy site own after := by
  unfold Transfer.accessField at runs ⊢
  obtain ⟨type, htype, runs⟩ := bind_eq_ok.mp runs
  have hfits := @typeFits_ofFieldType _ site _ (hknown type htype)
  simp only [htype]
  split at runs
  · obtain rfl := pure_eq_ok.mp runs
    exact ⟨_, rfl, h.push hfits⟩
  · obtain ⟨below, hbelow, hrest⟩ := h.drop (blame_eq_ok.mp runs)
    exact ⟨below, blame_eq_ok.mpr hbelow, hrest⟩
  · obtain ⟨rest, hrest, runs⟩ := bind_eq_ok.mp runs
    obtain rfl := pure_eq_ok.mp runs
    obtain ⟨below, hbelow, hrest⟩ := h.drop (blame_eq_ok.mp hrest)
    exact ⟨_, bind_eq_ok.mpr ⟨_, rfl, bind_eq_ok.mpr ⟨_, blame_eq_ok.mpr hbelow, rfl⟩⟩,
      hrest.push hfits⟩
  · obtain ⟨below, hbelow, hrest⟩ := h.drop (blame_eq_ok.mp runs)
    exact ⟨below, blame_eq_ok.mpr hbelow, hrest⟩

/-- What a constructor initializes in a frame, it initializes in one that fits. -/
theorem initialized (hsites : SitesKept hierarchy site source code)
    (howner : NameKnown hierarchy method.owner) {own receiver type : FlowType}
    (hfits : TypeFits hierarchy site own receiver)
    (h : Transfer.initialized method source position receiver = .ok type) :
    Transfer.initialized method code place own = .ok type ∧
      (receiver = .uninitThis ∨ ∃ creation, receiver = .uninit creation) ∧
        ∃ name, type = .object name ∧ NameKnown hierarchy name := by
  cases receiver with
  | uninitThis =>
    obtain rfl := hfits
    obtain rfl := Except.ok.inj h
    exact ⟨rfl, Or.inl rfl, _, rfl, howner⟩
  | uninit creation =>
    obtain rfl := hfits
    simp only [Transfer.initialized] at h ⊢
    split at h
    · next name hcreation =>
      obtain rfl := Except.ok.inj h
      rw [hsites.kept hcreation]
      exact ⟨rfl, Or.inr ⟨creation, rfl⟩, name, rfl, hsites.known hcreation⟩
    · simp at h
  | _ => simp [Transfer.initialized] at h

/-- A call runs on a frame that fits. -/
theorem call (h : FrameFits hierarchy site frame super) (hsites : SitesKept hierarchy site source code)
    (howner : NameKnown hierarchy method.owner) {opcode : Opcode} {callee : Member}
    (hknown : ∀ parsed, MethodDescriptor.demand callee.descriptor = .ok parsed →
      ∀ type ∈ parsed.result, type.IsKnown hierarchy)
    (runs : Transfer.call method source position opcode callee super = .ok after) :
    ∃ own, Transfer.call method code place opcode callee frame = .ok own ∧
      FrameFits hierarchy site own after := by
  unfold Transfer.call at runs ⊢
  obtain ⟨parsed, hparsed, runs⟩ := bind_eq_ok.mp runs
  obtain ⟨rest, hrest, runs⟩ := bind_eq_ok.mp runs
  obtain ⟨below, hbelow, hfits⟩ := h.drop (blame_eq_ok.mp hrest)
  have hresult := hknown parsed hparsed
  simp only [hparsed, blame_eq_ok.mpr hbelow, bind_eq_ok, Except.ok.injEq, exists_eq_left']
  split at runs
  · next hstatic =>
    obtain rfl := pure_eq_ok.mp runs
    rw [if_pos hstatic]
    exact ⟨_, rfl, hfits.pushResult hresult⟩
  · next hdynamic =>
    rw [if_neg hdynamic]
    obtain ⟨⟨receiver, last⟩, hlast, runs⟩ := bind_eq_ok.mp runs
    obtain ⟨own, bottom, hown, hreceiver, hfits⟩ := hfits.pop (blame_eq_ok.mp hlast)
    dsimp only at runs
    split at runs
    · next hconstructor =>
      obtain ⟨type, htype, runs⟩ := bind_eq_ok.mp runs
      obtain rfl := pure_eq_ok.mp runs
      obtain ⟨hinit, hold, name, rfl, hname⟩ :=
        @initialized _ _ _ _ _ _ place hsites howner _ _ _ hreceiver htype
      refine ⟨_, bind_eq_ok.mpr ⟨_, blame_eq_ok.mpr hown, ?_⟩, (hfits.replaceAll hsites.injective
        hreceiver hold hname).pushResult hresult⟩
      dsimp only
      rw [if_pos hconstructor]
      exact bind_eq_ok.mpr ⟨_, hinit, rfl⟩
    · next hordinary =>
      obtain rfl := pure_eq_ok.mp runs
      refine ⟨_, bind_eq_ok.mpr ⟨_, blame_eq_ok.mpr hown, ?_⟩, hfits.pushResult hresult⟩
      dsimp only
      rw [if_neg hordinary]
      rfl

/-- A jump runs on a frame that fits. -/
theorem jump (h : FrameFits hierarchy site frame super) {opcode : Opcode}
    (runs : Transfer.jump position opcode super = .ok after) :
    ∃ own, Transfer.jump place opcode frame = .ok own ∧ FrameFits hierarchy site own after := by
  unfold Transfer.jump at runs ⊢
  simp only at runs ⊢
  split at runs
  · next hone =>
    rw [if_pos hone]
    obtain ⟨below, hbelow, hfits⟩ := h.drop (blame_eq_ok.mp runs)
    exact ⟨below, blame_eq_ok.mpr hbelow, hfits⟩
  · next hone =>
    rw [if_neg hone]
    split at runs
    · next htwo =>
      rw [if_pos htwo]
      obtain ⟨below, hbelow, hfits⟩ := h.drop (blame_eq_ok.mp runs)
      exact ⟨below, blame_eq_ok.mpr hbelow, hfits⟩
    · next htwo =>
      rw [if_neg htwo]
      split at runs
      · next hgoto =>
        rw [if_pos hgoto]
        obtain rfl := Except.ok.inj runs
        exact ⟨frame, rfl, h⟩
      · simp at runs

/-- The array types that array creations name by number are known. -/
theorem typeKnown_primitiveArray {number : Int} {name : String}
    (h : Transfer.primitiveArray? number = some name) : TypeKnown hierarchy (.object name) := by
  have hknown : ∀ type name, FieldType.ofClassConstantName name = .ok (.array (.base type)) →
      TypeKnown hierarchy (.object name) := fun type name hread => ⟨_, hread, trivial⟩
  unfold Transfer.primitiveArray? at h
  split at h <;> cases h
  · exact hknown .boolean _ (by decide)
  · exact hknown .char _ (by decide)
  · exact hknown .float _ (by decide)
  · exact hknown .double _ (by decide)
  · exact hknown .byte _ (by decide)
  · exact hknown .short _ (by decide)
  · exact hknown .int _ (by decide)
  · exact hknown .long _ (by decide)

/-- **Instructions on frames that fit.**  An instruction that runs on a frame runs on a frame that fits
it, and the frame after it fits the one after it there. -/
theorem execute (h : FrameFits hierarchy site frame super) (hsites : SitesKept hierarchy site source code)
    (howner : NameKnown hierarchy method.owner) {instruction : Instruction}
    (hknown : instruction.IsKnown hierarchy) (harray : instruction.FindsReferences super)
    (hplace : ∀ name, instruction = .type Opcode.create name → place = site position)
    (runs : Transfer.execute method source position instruction super = .ok after) :
    ∃ own, Transfer.execute method code place instruction frame = .ok own ∧
      FrameFits hierarchy site own after := by
  unfold Transfer.execute at runs
  split at runs
  · obtain rfl := pure_eq_ok.mp runs
    exact ⟨frame, rfl, h⟩
  · obtain rfl := pure_eq_ok.mp runs
    exact ⟨frame, rfl, h⟩
  · split at runs
    · next opcode _ effect heffect =>
      obtain ⟨own, hown, hfits⟩ := h.apply heffect harray (blame_eq_ok.mp runs)
      refine ⟨own, ?_, hfits⟩
      simp only [Transfer.execute, heffect]
      exact blame_eq_ok.mpr hown
    · simp [throw, throwThe, MonadExceptOf.throw] at runs
  · obtain ⟨rest, hrest, runs⟩ := bind_eq_ok.mp runs
    obtain ⟨below, hbelow, hfits⟩ := h.drop (blame_eq_ok.mp hrest)
    split at runs
    · next name hname =>
      obtain rfl := pure_eq_ok.mp runs
      refine ⟨_, ?_, hfits.push (.refl (typeKnown_primitiveArray hname) (by simp))⟩
      simp only [Transfer.execute, hname]
      exact bind_eq_ok.mpr ⟨_, blame_eq_ok.mpr hbelow, rfl⟩
    · simp [throw, throwThe, MonadExceptOf.throw] at runs
  · next hother =>
    obtain rfl := pure_eq_ok.mp runs
    refine ⟨frame.push .int, ?_, h.push rfl⟩
    rw [Transfer.execute]
    · rfl
    · exact hother
  · exact h.accessVariable runs
  · obtain rfl := pure_eq_ok.mp runs
    exact ⟨frame, rfl, h⟩
  · exact h.useType hknown (fun hcreate => hplace _ (by rw [hcreate])) runs
  · exact h.accessField hknown runs
  · exact h.call hsites howner hknown runs
  · obtain ⟨parsed, hparsed, runs⟩ := bind_eq_ok.mp runs
    obtain ⟨rest, hrest, runs⟩ := bind_eq_ok.mp runs
    obtain rfl := pure_eq_ok.mp runs
    obtain ⟨below, hbelow, hfits⟩ := h.drop (blame_eq_ok.mp hrest)
    exact ⟨_, bind_eq_ok.mpr ⟨_, hparsed, bind_eq_ok.mpr ⟨_, blame_eq_ok.mpr hbelow, rfl⟩⟩,
      hfits.pushResult (hknown parsed hparsed)⟩
  · exact h.jump runs
  · next constant =>
    obtain ⟨type, htype, runs⟩ := bind_eq_ok.mp runs
    obtain rfl := pure_eq_ok.mp runs
    have hplain := FrameRules.loadedType constant
    rw [htype] at hplain
    exact ⟨_, bind_eq_ok.mpr ⟨_, htype, rfl⟩, h.push (.refl (hknown type htype) hplain)⟩
  · obtain ⟨below, hbelow, hfits⟩ := h.drop (blame_eq_ok.mp runs)
    exact ⟨below, blame_eq_ok.mpr hbelow, hfits⟩
  · obtain ⟨below, hbelow, hfits⟩ := h.drop (blame_eq_ok.mp runs)
    exact ⟨below, blame_eq_ok.mpr hbelow, hfits⟩
  · obtain ⟨rest, hrest, runs⟩ := bind_eq_ok.mp runs
    obtain rfl := pure_eq_ok.mp runs
    obtain ⟨below, hbelow, hfits⟩ := h.drop (blame_eq_ok.mp hrest)
    exact ⟨_, bind_eq_ok.mpr ⟨_, blame_eq_ok.mpr hbelow, rfl⟩,
      hfits.push (.refl hknown (by simp))⟩

end FrameFits

end ClassInstrument
