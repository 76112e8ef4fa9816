import ClassInstrument.Proofs.Analysis.CanonicalFrames
import ClassInstrument.Proofs.Analysis.Reach
import ClassInstrument.Proofs.Frame.Entries

/-!
# The shape of the frames of an analysis

Whatever the hierarchy is like, the frames of an analysis are in canonical form, and each wide variable has its
second half behind it.  Types that name a creation site name a position at which a `new` stands, because such a
type comes from there, and merges do not make others.  So what a frame tells can be written: the variables and
the stack at an instruction are no more than the analysis has counted.
-/

namespace ClassInstrument

open Outcome

namespace Frame

variable {admits : FlowType → Prop} {frame : FlowFrame}

/-- A frame in canonical form with halved variables, all of whose types have a property. -/
structure Sound (admits : FlowType → Prop) (frame : FlowFrame) : Prop where
  /-- The frame is in canonical form. -/
  canonical : frame.Canonical
  /-- Wide variables have their second half behind them. -/
  halved : Halved frame.locals
  /-- The types of the variables have the property. -/
  locals : ∀ type ∈ frame.locals, admits type
  /-- The types of the stack values have the property. -/
  stack : ∀ type ∈ frame.stack.toList, admits type

/-- Pushing keeps frames sound. -/
theorem Sound.push (h : frame.Sound admits) {type : FlowType} (htype : admits type) :
    (frame.push type).Sound admits where
  canonical := h.canonical.push type
  halved := h.halved
  locals := h.locals
  stack other hmem := by
    rw [Frame.push, Slots.toList_push, List.mem_append, List.mem_singleton] at hmem
    rcases hmem with hmem | rfl
    · exact h.stack other hmem
    · exact htype

/-- Popping takes nothing but a value off the stack. -/
theorem locals_of_pop {type : FlowType} {rest : FlowFrame} (hpop : frame.pop = .ok (type, rest)) :
    rest.locals = frame.locals := by
  unfold Frame.pop at hpop
  split at hpop
  · cases hpop
    rfl
  · simp at hpop

/-- Popping keeps frames sound. -/
theorem Sound.pop (h : frame.Sound admits) {type : FlowType} {rest : FlowFrame}
    (hpop : frame.pop = .ok (type, rest)) : rest.Sound admits where
  canonical := h.canonical.pop hpop
  halved := by
    rw [locals_of_pop hpop]
    exact h.halved
  locals := by
    rw [locals_of_pop hpop]
    exact h.locals
  stack other hmem := h.stack other (by rw [toList_of_pop hpop]; exact List.mem_append_left _ hmem)

/-- What slots hold behind those of a list is unusable. -/
theorem getElem?_padTo {length slot : ℕ} {slots : List FlowType} {type : FlowType}
    (h : (padTo length slots)[slot]? = some type) : slots[slot]? = some type ∨ type = .top := by
  rw [padTo, List.getElem?_append] at h
  split at h
  · exact .inl h
  · rw [List.getElem?_replicate] at h
    split at h
    · exact .inr (Option.some.inj h).symm
    · cases h

/-- Writing a variable keeps wide variables halved. -/
theorem halved_setLocal (h : Halved frame.locals) (slot : ℕ) (type : FlowType) :
    Halved (frame.setLocal slot type).locals := by
  intro other found hfound hwide
  rw [getElem?_setLocal] at hfound ⊢
  by_cases hhalf : type.isWide ∧ other = slot + 1
  · rw [if_pos hhalf] at hfound
    cases hfound
    cases hwide
  rw [if_neg hhalf] at hfound
  by_cases hsame : other = slot
  · rw [if_pos hsame] at hfound
    obtain rfl := Option.some.inj hfound
    rw [if_pos ⟨hwide, by rw [hsame]⟩]
  rw [if_neg hsame] at hfound
  obtain ⟨old, hold, rfl⟩ := Option.map_eq_some_iff.mp hfound
  split at hwide
  · cases hwide
  next hkept =>
  have hbefore : frame.locals[other]? = some old := (getElem?_padTo hold).resolve_right fun htop => by
    rw [htop] at hwide
    cases hwide
  have hbehind : (padTo (slot + width type) frame.locals)[other + 1]? = some .top := by
    have hhalf := h other old hbefore hwide
    rw [padTo, List.getElem?_append_left (List.getElem?_eq_some_iff.mp hhalf).1, hhalf]
  have hslot : other + 1 ≠ slot := fun hslot => hkept ⟨hslot, hwide⟩
  rw [if_neg (by omega), if_neg hslot, hbehind, Option.map_some, ite_self]

/-- Writing a variable keeps frames sound. -/
theorem Sound.setLocal (h : frame.Sound admits) (htop : admits .top) {type : FlowType}
    (htype : admits type) (slot : ℕ) : (frame.setLocal slot type).Sound admits where
  canonical := h.canonical.setLocal slot type
  halved := halved_setLocal h.halved slot type
  locals other hmem := by
    obtain ⟨place, hplace⟩ := List.mem_iff_getElem?.mp hmem
    rw [getElem?_setLocal] at hplace
    split at hplace
    · exact Option.some.inj hplace ▸ htop
    split at hplace
    · exact Option.some.inj hplace ▸ htype
    obtain ⟨old, hold, rfl⟩ := Option.map_eq_some_iff.mp hplace
    split
    · exact htop
    · rcases getElem?_padTo hold with hold | rfl
      · exact h.locals old (List.mem_of_getElem? hold)
      · exact htop
  stack := h.stack

/-- Initializing an object keeps frames sound. -/
theorem Sound.replaceAll (h : frame.Sound admits) {old new : FlowType} (hnew : admits new)
    (hold : old = .uninitThis ∨ ∃ site, old = .uninit site) (hnarrow : new.isWide = false) :
    (frame.replaceAll old new).Sound admits where
  canonical := h.canonical.replaceAll (by rcases hold with rfl | ⟨site, rfl⟩ <;> rfl) hnarrow
  halved slot type htype hwide := by
    simp only [Frame.replaceAll, List.getElem?_map, Option.map_eq_some_iff] at htype ⊢
    obtain ⟨before, hbefore, rfl⟩ := htype
    split at hwide
    · rw [hnarrow] at hwide
      cases hwide
    · refine ⟨.top, h.halved slot before hbefore hwide, if_neg ?_⟩
      rcases hold with rfl | ⟨site, rfl⟩ <;> simp
  locals type hmem := by
    obtain ⟨before, hbefore, rfl⟩ := List.mem_map.mp hmem
    split
    · exact hnew
    · exact h.locals before hbefore
  stack type hmem := by
    rw [Frame.replaceAll, Slots.toList_replaceAll] at hmem
    obtain ⟨before, hbefore, rfl⟩ := List.mem_map.mp hmem
    split
    · exact hnew
    · exact h.stack before hbefore

/-- The empty frame is sound. -/
theorem Sound.empty : (Frame.empty : FlowFrame).Sound admits where
  canonical := .empty
  halved slot type htype := by simp [Frame.empty] at htype
  locals type hmem := by simp [Frame.empty] at hmem
  stack type hmem := by simp [Frame.empty] at hmem

/-- A frame made of types is sound if they have the property. -/
theorem Sound.ofTypes (htop : admits .top) {locals values : List FlowType}
    (hlocals : ∀ type ∈ locals, admits type) (hvalues : ∀ type ∈ values, admits type) :
    (Frame.ofTypes locals values).Sound admits :=
  ofTypes_induction .empty (fun _ type hmem slot h => h.setLocal htop (hlocals type hmem) slot)
    fun _ type hmem h => h.push (hvalues type hmem)

end Frame

/-! ## Merges -/

section

variable {hierarchy : Hierarchy} {admits : FlowType → Prop}

/-- A merge of types is the first of them, or the type of an object. -/
theorem types_eq_ok {left right merged : FlowType}
    (h : Merge.types hierarchy left right = .ok (some merged)) :
    merged = left ∧ left = right ∨ ∃ name, merged = .object name := by
  unfold Merge.types at h
  split at h
  · next hsame =>
    obtain rfl := Option.some.inj (pure_eq_ok.mp h)
    exact .inl ⟨rfl, hsame⟩
  split at h
  · obtain rfl := Option.some.inj (pure_eq_ok.mp h)
    exact .inr ⟨_, rfl⟩
  · obtain rfl := Option.some.inj (pure_eq_ok.mp h)
    exact .inr ⟨_, rfl⟩
  · obtain ⟨name, -, h⟩ := bind_eq_ok.mp h
    obtain rfl := Option.some.inj (pure_eq_ok.mp h)
    exact .inr ⟨_, rfl⟩
  · simp [pure_eq_ok] at h

/-- A merge of variables is the first of them, or of the type of an object, or unusable. -/
theorem locals_eq_ok {left right merged : FlowType}
    (h : Merge.locals hierarchy (left, right) = .ok merged) :
    merged = left ∧ left = right ∨ (∃ name, merged = .object name) ∨ merged = .top := by
  obtain ⟨found, hfound, h⟩ := bind_eq_ok.mp h
  obtain rfl := pure_eq_ok.mp h
  cases found with
  | none => exact .inr (.inr rfl)
  | some type => exact (types_eq_ok hfound).imp_right .inl

/-- What a merge of lists holds comes from the merge of what both hold there. -/
theorem exists_of_zip_mapM {merge : FlowType × FlowType → Except Fault FlowType}
    {left right merged : List FlowType} (h : (left.zip right).mapM merge = .ok merged) {slot : ℕ}
    {type : FlowType} (htype : merged[slot]? = some type) : ∃ first second,
      left[slot]? = some first ∧ right[slot]? = some second ∧ merge (first, second) = .ok type := by
  obtain ⟨⟨first, second⟩, hpair, hmerge⟩ := getElem?_of_forall₂ (mapM_eq_ok.mp h).flip htype
  obtain ⟨hfirst, hsecond⟩ := List.getElem?_zip_eq_some.mp hpair
  exact ⟨first, second, hfirst, hsecond, hmerge⟩

/-- What both lists hold is merged. -/
theorem exists_zip_mapM {merge : FlowType × FlowType → Except Fault FlowType}
    {left right merged : List FlowType} (h : (left.zip right).mapM merge = .ok merged) {slot : ℕ}
    {first second : FlowType} (hfirst : left[slot]? = some first) (hsecond : right[slot]? = some second) :
    ∃ type, merged[slot]? = some type ∧ merge (first, second) = .ok type :=
  getElem?_of_forall₂ (mapM_eq_ok.mp h) (List.getElem?_zip_eq_some.mpr ⟨hfirst, hsecond⟩)

/-- A merge of halved variables is halved. -/
theorem halved_of_merge {left right merged : List FlowType} (hleft : Frame.Halved left)
    (hright : Frame.Halved right) (h : (left.zip right).mapM (Merge.locals hierarchy) = .ok merged) :
    Frame.Halved merged := by
  intro slot type htype hwide
  obtain ⟨first, second, hfirst, hsecond, hmerge⟩ := exists_of_zip_mapM h htype
  rcases locals_eq_ok hmerge with ⟨rfl, rfl⟩ | ⟨name, rfl⟩ | rfl
  · obtain ⟨half, hhalf, hmerge⟩ :=
      exists_zip_mapM h (hleft slot type hfirst hwide) (hright slot type hsecond hwide)
    rcases locals_eq_ok hmerge with ⟨rfl, -⟩ | ⟨name, rfl⟩ | rfl
    · exact hhalf
    · simp [Merge.locals, Merge.types, bind, Except.bind, pure, Except.pure] at hmerge
    · exact hhalf
  · cases hwide
  · cases hwide

/-- Clearing a wide variable in the last slot keeps the others halved. -/
theorem halved_clearWideLast {slots : List FlowType} (h : Frame.Halved slots) :
    Merge.clearWideLast slots = slots := by
  rw [Frame.clearWideLast_eq_iff]
  intro type htype
  by_contra hwide
  have hhalf := h _ type htype (by simpa using hwide)
  have hlt := (List.getElem?_eq_some_iff.mp hhalf).1
  omega

/-- A merge of sound frames is sound. -/
theorem Frame.Sound.merge (hplain : ∀ {type}, (∀ site, type ≠ .uninit site) → admits type) {position : Nat}
    {existing incoming merged : FlowFrame} (h : existing.Sound admits) (h' : incoming.Sound admits)
    (hmerge : mergeFrames hierarchy position existing incoming = .ok (some merged)) :
    merged.Sound admits := by
  have hcanonical := canonical_of_mergeFrames hmerge
  obtain ⟨-, stack, locals, hstack, hlocals, hmerged⟩ := mergeFrames_eq_ok.mp hmerge
  split at hmerged
  · cases hmerged
  obtain rfl := Option.some.inj hmerged
  have hhalved := halved_of_merge h.halved h'.halved hlocals
  have hlist : (mergedFrame locals stack).locals = locals := halved_clearWideLast hhalved
  refine ⟨hcanonical, by rwa [hlist], ?_, ?_⟩
  · rw [hlist]
    intro type hmem
    obtain ⟨slot, hslot⟩ := List.mem_iff_getElem?.mp hmem
    obtain ⟨first, second, hfirst, -, hmerge⟩ := exists_of_zip_mapM hlocals hslot
    rcases locals_eq_ok hmerge with ⟨rfl, -⟩ | ⟨name, rfl⟩ | rfl
    · exact h.locals type (List.mem_of_getElem? hfirst)
    · exact hplain (by simp)
    · exact hplain (by simp)
  · rw [mergedFrame, Slots.toList_ofList]
    intro type hmem
    obtain ⟨slot, hslot⟩ := List.mem_iff_getElem?.mp hmem
    obtain ⟨first, second, hfirst, -, hmerge⟩ := exists_of_zip_mapM hstack hslot
    rcases types_eq_ok (stackValues_eq_ok.mp hmerge) with ⟨rfl, -⟩ | ⟨name, rfl⟩
    · exact h.stack type (List.mem_of_getElem? hfirst)
    · exact hplain (by simp)

end

/-! ## The frames of an analysis -/

/-- The type names no creation site, or one at which a `new` stands. -/
def FlowType.IsCreated (code : Array Instruction) (type : FlowType) : Prop :=
  ∀ site, type = .uninit site → ∃ name, code[site]? = some (.type Opcode.create name)

/-- A type without a creation site names none but those of a `new`. -/
theorem FlowType.isCreated_of_plain {code : Array Instruction} {type : FlowType}
    (h : ∀ site, type ≠ .uninit site) : FlowType.IsCreated code type :=
  fun site hsite => absurd hsite (h site)

section

variable {admits : FlowType → Prop} (hplain : ∀ {type}, (∀ site, type ≠ .uninit site) → admits type)
include hplain

/-- To be sound is a property that the operations of instructions keep. -/
theorem soundRules {position : Nat} {instruction : Instruction}
    (hcreated : ∀ {name}, instruction = .type Opcode.create name → admits (.uninit position)) :
    FrameRules position instruction (Frame.Sound admits) admits where
  stack h hmem := h.stack _ hmem
  locals h hmem := h.locals _ hmem
  plain := hplain
  created := hcreated
  pop h hpop := h.pop hpop
  push h htype := h.push htype
  setLocal h htype slot := h.setLocal (hplain (by simp)) htype slot
  replace h hold _ := h.replaceAll (hplain (by simp)) hold rfl

/-- To be sound is a law of every problem, at positions that have a property which is passed on. -/
theorem soundLaws (problem : FlowProblem) {holds : Nat → Prop}
    (hcreated : ∀ {position name}, holds position →
      problem.code[position]? = some (.type Opcode.create name) → admits (.uninit position))
    (hpassed : ∀ {position before next frame}, holds position →
      problem.Sends position before next frame → holds next) :
    problem.Laws (fun position frame => holds position ∧ frame.Sound admits) (fun _ _ => True) where
  refl _ := trivial
  trans _ _ := trivial
  covers _ _ _ := trivial
  merges h h' hmerge := ⟨⟨h.1, h.2.merge hplain h'.2 hmerge⟩, trivial, trivial⟩
  sends := by
    intro position before next frame ⟨hholds, h⟩ hsends
    have hexecute : ∀ {instruction after}, problem.code[position]? = some instruction →
        Transfer.execute problem.method problem.code position instruction before = .ok after →
          after.Sound admits := by
      intro instruction after here runs
      have hends := (soundRules hplain fun {name} (hcreate : instruction = _) =>
        hcreated hholds (here.trans (congrArg some hcreate))).execute h problem.method problem.code
      rwa [runs] at hends
    have hentry : ∀ {frame : FlowFrame} (handler : PlacedHandler),
        frame.Sound admits → (handler.entryFrame frame.locals).Sound admits := by
      intro frame handler hframe
      have hbare : Frame.Sound admits ⟨frame.locals, Slots.empty⟩ :=
        ⟨⟨rfl, hframe.canonical.locals_eq⟩, hframe.halved, hframe.locals, by simp⟩
      exact hbare.push (hplain (by simp))
    refine ⟨hpassed hholds hsends, ?_⟩
    cases hsends with
    | pass _ _ _ => exact h
    | next here _ runs _ _ => exact hexecute here runs
    | jump here _ runs _ _ => exact hexecute here runs
    | throwBefore _ _ _ _ => exact hentry _ h
    | throwAfter here _ runs _ _ => exact hentry _ (hexecute here runs)

end

/-- The frame on entry to a method is sound, and names no creation site. -/
theorem MethodContext.sound_initialFrame {method : MethodContext} {frame : FlowFrame}
    (h : method.initialFrame = .ok frame) : frame.Sound fun type => ∀ site, type ≠ .uninit site := by
  obtain ⟨descriptor, -, h⟩ := bind_eq_ok.mp h
  obtain rfl := pure_eq_ok.mp h
  refine .ofTypes (by simp) (fun type hmem site => ?_) (by simp)
  rcases List.mem_append.mp hmem with hmem | hmem
  · split at hmem
    · cases hmem
    · obtain rfl := List.mem_singleton.mp hmem
      unfold MethodContext.receiverType
      split <;> simp
  · obtain ⟨parameter, -, rfl⟩ := List.mem_map.mp hmem
    exact ofFieldType_ne_uninit parameter site

/-- A sound frame is sound for every weaker property. -/
theorem Frame.Sound.mono {admits admits' : FlowType → Prop} {frame : FlowFrame} (h : frame.Sound admits)
    (himp : ∀ type, admits type → admits' type) : frame.Sound admits' :=
  ⟨h.canonical, h.halved, fun type hmem => himp type (h.locals type hmem),
    fun type hmem => himp type (h.stack type hmem)⟩

/-- A stack in canonical form has no more values than slots in use. -/
theorem Slots.length_le_used {values : List FlowType} : values.length ≤ (Slots.ofList values).used := by
  induction values using List.reverseRecOn with
  | nil => exact le_rfl
  | append_singleton values last ih =>
    have hwidth : 1 ≤ width last := by
      change 1 ≤ if last.isWide then 2 else 1
      split <;> omega
    rw [Slots.ofList_append, List.length_append, List.length_singleton]
    change values.length + 1 ≤ (Slots.ofList values).used + width last
    omega

/-- The frame at an instruction can be written: it is sound, creation sites are where a `new` stands, and there are
no more variables and stack values than the analysis has counted. -/
structure Analysis.Tells (analysis : Analysis) (body : Body) (frame : FlowFrame) : Prop where
  sound : frame.Sound fun type => ∀ site, type = .uninit site →
    ∃ name, body.instructions[site]? = some (.type Opcode.create name)
  length_locals : frame.locals.length ≤ analysis.maxLocals
  length_stack : frame.stack.toList.length ≤ analysis.maxStack

/-- The frames of an analysis at instructions can be written. -/
theorem tells_of_analyze {body : Body} {method : MethodContext} {hierarchy : Hierarchy} {roots : List Root}
    {analysis : Analysis}
    (hroots : ∀ root ∈ roots, root.1 < body.instructions.length ∧
      root.2.Sound fun type => ∀ site, type ≠ .uninit site)
    (h : analyze body method hierarchy roots = .ok analysis) {position : Nat} {instruction : Instruction}
    {frame : FlowFrame} (here : body.instructions[position]? = some instruction) (real : instruction.isReal)
    (hframe : analysis.frames[position]? = some (some frame)) : analysis.Tells body frame := by
  have hentries : ∀ initial, method.initialFrame = .ok initial → ∀ root ∈ (0, initial) :: roots,
      body.instructions ≠ [] → root.1 < body.instructions.length ∧
        True ∧ root.2.Sound (FlowType.IsCreated body.instructions.toArray) := by
    intro initial hinitial root hmem hnonempty
    have hplain : ∀ {frame : FlowFrame}, (frame.Sound fun type => ∀ site, type ≠ .uninit site) →
        frame.Sound (FlowType.IsCreated body.instructions.toArray) :=
      fun hframe => hframe.mono fun _ => FlowType.isCreated_of_plain
    rcases List.mem_cons.mp hmem with rfl | hmem
    · exact ⟨List.length_pos_of_ne_nil hnonempty, trivial, hplain (MethodContext.sound_initialFrame hinitial)⟩
    · exact ⟨(hroots root hmem).1, trivial, hplain (hroots root hmem).2⟩
  have hlaws : ∀ handlers, body.placedHandlers = .ok handlers →
      (body.flowProblem method hierarchy handlers).Laws
        (fun _ frame => True ∧ frame.Sound (FlowType.IsCreated body.instructions.toArray)) fun _ _ => True := by
    intro handlers _
    refine soundLaws FlowType.isCreated_of_plain (body.flowProblem method hierarchy handlers) ?_
      fun _ _ => trivial
    rintro position name - here site ⟨⟩
    exact ⟨name, here⟩
  obtain ⟨initial, handlers, settled, -, -, rfl, hconsistent, hdone, -⟩ :=
    exists_settled hlaws hentries h
  have hfound : settled.frame? position = some frame := by
    unfold Worklist.frame?
    rw [show settled.frames[position]? = some (some frame) from hframe]
    rfl
  have hsound := (hconsistent.fits hfound).2
  obtain ⟨after, runs, hstack, -, hlocals⟩ := (hdone hfound).runs (Body.getElem?_code.trans here) real
  have hkept : frame.locals.length ≤ after.locals.length := by
    have hends := (lengthRules position instruction frame.locals.length).execute le_rfl method
      body.instructions.toArray
    rwa [show Transfer.execute method body.instructions.toArray position instruction frame = .ok after
      from runs] at hends
  refine ⟨hsound.mono fun type hcreated site hsite => ?_, hkept.trans hlocals, ?_⟩
  · obtain ⟨name, hname⟩ := hcreated site hsite
    exact ⟨name, by simpa using hname⟩
  · refine le_trans ?_ hstack
    conv_rhs => rw [← hsound.canonical.stack_eq]
    exact Slots.length_le_used

end ClassInstrument
