import ClassInstrument.Policy.CrashShield
import ClassInstrument.Proofs.Analysis.TypedInsertion
import ClassInstrument.Proofs.Classpath.Builtin
import ClassInstrument.Proofs.Policy.DelegatingCall
import ClassInstrument.Proofs.Policy.Forwarder

/-!
# Shielded bodies are accepted

Shielding adds three pieces of straight code to a body: a label at which protection starts, a catcher behind
everything else, and for methods that are no constructors a guard in front of everything else.  A typing of
the body extends to each of them.

The catcher of a method with a receiver loads the first variable, and its frame is merged from those around
all protected instructions.  So it can be typed only if each of them finds an object in that variable and
leaves one there.  A body that keeps its receiver in this way stays acceptable when it is shielded.
-/

namespace ClassInstrument

open Outcome

/-! ## Objects in the first variable -/

/-- The first variable is an object, or the null reference. -/
def HoldsObject (locals : List FlowType) : Prop :=
  locals[0]? = some .null ∨ ∃ name, locals[0]? = some (.object name)

/-- Each instruction that control reaches from a position on finds an object in the first variable and
leaves one there. -/
def Analysis.KeepsReceiver (analysis : Analysis) (body : Body) (method : MethodContext) (start : Nat) :
    Prop :=
  ∀ (position : Nat) instruction before after, start ≤ position →
    body.instructions[position]? = some instruction → instruction.isReal →
    analysis.frames[position]? = some (some before) →
    Transfer.execute method body.instructions.toArray position instruction before = .ok after →
      HoldsObject before.locals ∧ HoldsObject after.locals

section

variable {hierarchy : Hierarchy} {site : Nat → Nat}

/-- Whatever fits an object or the null reference fits the root of all objects. -/
theorem TypeFits.toObject {sub super : FlowType} (h : TypeFits hierarchy site sub super)
    (hsuper : super = .null ∨ ∃ name, super = .object name) :
    TypeFits hierarchy site sub (.object Name.object) := by
  rcases hsuper with rfl | ⟨name, rfl⟩
  · exact Or.inl h
  · rcases h with rfl | ⟨own, rfl, lower, -, hlower, -, hknown, -⟩
    · exact Or.inl rfl
    · exact Or.inr ⟨own, rfl, lower, .object Name.object, hlower, by decide, hknown,
        (FieldType.eq_of_ofClassConstantName hlower).2.isReference⟩

/-- The first variable of a frame that fits one with an object there fits the root of all objects. -/
theorem FrameFits.exists_object {own frame : FlowFrame} (h : FrameFits hierarchy site own frame)
    (hframe : HoldsObject frame.locals) :
    ∃ type, own.locals[0]? = some type ∧ TypeFits hierarchy site type (.object Name.object) := by
  obtain ⟨super, hsuper, hobject⟩ : ∃ super, frame.locals[0]? = some super ∧
      (super = .null ∨ ∃ name, super = .object name) := by
    rcases hframe with hnull | ⟨name, hname⟩
    · exact ⟨_, hnull, Or.inl rfl⟩
    · exact ⟨_, hname, Or.inr ⟨name, rfl⟩⟩
  obtain ⟨type, htype, hfits⟩ := h.locals 0 super hsuper
  refine ⟨type, htype, ?_⟩
  rcases hfits with rfl | hfits
  · simp at hobject
  · exact hfits.toObject hobject

end

/-! ## The frame on entry -/

/-- Variables behind the first one leave it alone if it takes one slot. -/
theorem Frame.getElem?_ofTypes_zero {first : FlowType} (rest : List FlowType)
    (hnarrow : first.isWide = false) : (Frame.ofTypes (first :: rest) []).locals[0]? = some first := by
  suffices hall : ∀ (frame : FlowFrame) (slot : Nat), 0 < slot → frame.locals[0]? = some first →
      (rest.foldl (fun (frame, slot) type => (Frame.setLocal frame slot type, slot + width type))
        (frame, slot)).1.locals[0]? = some first by
    refine hall (Frame.setLocal Frame.empty 0 first) _ ?_ ?_
    · simp only [width]
      split <;> omega
    · rw [Frame.getElem?_setLocal]
      simp
  induction rest with
  | nil => exact fun _ _ _ h => h
  | cons type rest ih =>
    intro frame slot hslot h
    refine ih _ _ (by omega) ?_
    rw [Frame.getElem?_setLocal, if_neg (by omega), if_neg (by omega), Frame.padTo,
      List.getElem?_append_left (List.getElem?_eq_some_iff.mp h).1, h]
    simp [hnarrow]

/-! ## Added code -/

section

variable {hierarchy : Hierarchy} {method : MethodContext} {source : Array Instruction} {frame : FlowFrame}

namespace Editing

/-- The receiver can be loaded in a method without one, and from a variable that holds a reference. -/
theorem straight_loadReceiver {owner : String} {isStatic : Bool} {receiver : FlowType}
    (hreceiver : isStatic = false → frame.locals[0]? = some receiver) (href : receiver.isReference) :
    ∃ type, Straight method source [loadReceiver owner isStatic] frame [frame] (frame.push type) := by
  cases isStatic with
  | true => exact ⟨.object Name.classObject, .single fun _ => rfl⟩
  | false =>
    refine ⟨receiver, .single fun origin => ?_⟩
    have hload : Transfer.accessVariable origin Opcode.aload 0 frame = .ok (frame.push receiver) := by
      simp only [Transfer.accessVariable, hreceiver rfl, href, if_true]
      rfl
    exact hload

/-- The zero value and the return instruction leave the frame as it was. -/
theorem straight_defaultReturn (descriptor : String) :
    ∃ frames, Straight method source (defaultReturn descriptor) frame frames frame := by
  unfold defaultReturn returnOpcode
  dsimp only
  split
  · exact ⟨_, .single fun _ => rfl⟩
  all_goals exact ⟨_, .cons (fun _ => rfl) (.single fun _ => rfl)⟩

/-- Loading the receiver needs no class but that of classes. -/
theorem isInert_loadReceiver (hclass : NameKnown hierarchy Name.classObject) (owner : String)
    (isStatic : Bool) : (loadReceiver owner isStatic).IsInert hierarchy := by
  cases isStatic with
  | true =>
    refine ⟨?_, by simp [loadReceiver, Instruction.pushClass], by simp [loadReceiver, Instruction.pushClass]⟩
    rintro type ⟨⟩
    exact hclass
  | false => exact ⟨trivial, by simp [loadReceiver, Instruction.aload], by simp [loadReceiver, Instruction.aload]⟩

/-- A default return needs no class. -/
theorem isInert_defaultReturn (descriptor : String) :
    ∀ instruction ∈ defaultReturn descriptor, instruction.IsInert hierarchy := by
  have hopcodes : ∀ opcode ∈ (zeroFor? (returnOpcode descriptor)).toList ++ [returnOpcode descriptor],
      Effect.ofOpcode? opcode ≠ some .loadsElement := by
    unfold returnOpcode
    split <;> decide +kernel
  intro instruction hmem
  obtain ⟨opcode, hopcode, rfl⟩ := List.mem_map.mp hmem
  refine ⟨trivial, by simp, ?_⟩
  rintro _ ⟨⟩
  exact hopcodes opcode hopcode

/-- A default return does not jump. -/
theorem targets_defaultReturn {descriptor : String} {instruction : Instruction}
    (h : instruction ∈ defaultReturn descriptor) : instruction.targets = [] := by
  obtain ⟨opcode, -, rfl⟩ := List.mem_map.mp h
  rfl

/-- A default return places no labels. -/
theorem placedLabels_defaultReturn (descriptor : String) :
    placedLabels (defaultReturn descriptor) = [] := by
  refine List.filterMap_eq_nil_iff.mpr fun instruction hmem => ?_
  obtain ⟨opcode, -, rfl⟩ := List.mem_map.mp hmem
  rfl

/-- A default return ends with a return. -/
theorem getLast?_defaultReturn (descriptor : String) :
    (defaultReturn descriptor).getLast? = some (.plain (returnOpcode descriptor)) := by
  simp [defaultReturn]

end Editing

namespace CrashShield

/-- The report takes an exception and an object. -/
theorem demand_handleThrowable : MethodDescriptor.demand handleThrowable.descriptor =
    .ok ⟨[.object Name.throwable, .object Name.object], none⟩ := by decide

/-- The question takes an object and gives an answer. -/
theorem demand_isObjectCrashing : MethodDescriptor.demand isObjectCrashing.descriptor =
    .ok ⟨[.object Name.object], some (.base .boolean)⟩ := by decide

/-- A report takes the exception and the receiver off the stack. -/
theorem straight_handleThrowable (owner : String) (exception receiver : FlowType) :
    Straight method source [handleThrowable.call owner] ((frame.push exception).push receiver)
      [(frame.push exception).push receiver] frame := by
  refine .single fun origin => ?_
  simp only [Callback.call, Instruction.invokeStatic, Transfer.execute, Transfer.call,
    demand_handleThrowable]
  rfl

/-- A question takes the receiver off the stack and leaves an answer. -/
theorem straight_isObjectCrashing (owner : String) (receiver : FlowType) :
    Straight method source [isObjectCrashing.call owner] (frame.push receiver) [frame.push receiver]
      (frame.push .int) := by
  refine .single fun origin => ?_
  simp only [Callback.call, Instruction.invokeStatic, Transfer.execute, Transfer.call,
    demand_isObjectCrashing]
  rfl

/-- A callback with a result of a primitive type, or with none, needs no class. -/
theorem isInert_call {callback : Callback} {parsed : MethodDescriptor}
    (hparsed : MethodDescriptor.demand callback.descriptor = .ok parsed)
    (hresult : ∀ type ∈ parsed.result, type.isReference = false) (owner : String) :
    (callback.call owner).IsInert hierarchy := by
  refine ⟨?_, by simp [Callback.call, Instruction.invokeStatic],
    by simp [Callback.call, Instruction.invokeStatic]⟩
  intro found hfound type htype
  obtain rfl := Except.ok.inj (hparsed.symm.trans hfound)
  cases type with
  | base _ => trivial
  | _ => exact absurd (hresult _ htype) (by simp [FieldType.isReference])

end CrashShield

end

/-! ## Protection -/

section

variable {hierarchy : Hierarchy} {typing : Nat → Option FlowFrame} {body : Body} {method : MethodContext}
  {source : Array Instruction} {site : Nat → Nat}

/-- A typed body stays typed when a label is put in, whether control reaches its place or not. -/
theorem Body.Typing.insertLabel (h : body.Typing hierarchy typing method source site)
    (hlabelled : body.WellLabelled) {start : Nat} {label : Label}
    (hlabelled' : (body.insertAt start [.label label]).WellLabelled)
    (hstart : start ≤ body.instructions.length) :
    (body.insertAt start [.label label]).Typing hierarchy
      (insertTyping start 1 (typing start).toList typing) method source (shiftBehind start 1 ∘ site) := by
  have hinert : ∀ instruction ∈ [Instruction.label label], instruction.IsInert hierarchy := by
    rintro _ hmem
    rw [List.mem_singleton.mp hmem]
    exact ⟨trivial, by simp, by simp⟩
  cases hframe : typing start with
  | none => exact h.insertUnreached hlabelled hlabelled' hstart (by simp) hinert hframe
  | some frame =>
    refine h.insertAt hlabelled hlabelled' hstart ⟨.single fun _ => rfl, by simp, h.canonical hframe, hinert,
      ?_, Or.inl (by simp [Instruction.isReal]), fun _ _ => hframe, ?_⟩
    · intro index instruction after here _ target htarget
      obtain rfl := List.mem_singleton.mp (List.mem_of_getElem? here)
      simp [Instruction.targets] at htarget
    · exact fun instruction _ _ => ⟨h.inside hframe, frame, hframe, fun _ _ hown => hown⟩

namespace CrashShield

/-- The body with a label at the place where protection starts. -/
def opened (body : Body) (start : Nat) : Body :=
  { body with nextLabel := body.nextLabel + 2 }.insertAt start [.label ⟨body.nextLabel⟩]

/-- The code that reports an exception and returns. -/
def catcher (label : Label) (owner descriptor : String) (isStatic : Bool) (handler : String) :
    List Instruction :=
  [.label label, Editing.loadReceiver owner isStatic, handleThrowable.call handler] ++
    Editing.defaultReturn descriptor

/-- The handler for everything that is thrown between two labels. -/
def catchAll (entry stop : Label) : Handler where
  start := entry
  stop := stop
  handler := stop
  caught := some Name.throwable

/-- A body is protected in three steps. -/
theorem protect_eq (body : Body) (start : Nat) (owner descriptor : String) (isStatic : Bool)
    (handler : String) :
    protect body start owner descriptor isStatic handler =
      ((opened body start).insertAt (opened body start).instructions.length
        (catcher ⟨body.nextLabel + 1⟩ owner descriptor isStatic handler)).addHandler
        (catchAll ⟨body.nextLabel⟩ ⟨body.nextLabel + 1⟩) := by
  rw [← Body.append_eq_insertAt]
  rfl

/-- The variables that the catcher relies on: the receiver, if there is one. -/
def catcherLocals (isStatic : Bool) : List FlowType :=
  if isStatic then [] else [.object Name.object]

/-- The frame at the start of the catcher. -/
def catcherFrame (isStatic : Bool) : FlowFrame :=
  Frame.push ⟨catcherLocals isStatic, Slots.empty⟩ (.object Name.throwable)

/-- The frame at the start of the catcher is in canonical form. -/
theorem canonical_catcherFrame (isStatic : Bool) : (catcherFrame isStatic).Canonical := by
  have hbare : Frame.Canonical ⟨catcherLocals isStatic, Slots.empty⟩ :=
    ⟨rfl, by cases isStatic <;> rfl⟩
  exact hbare.push _

/-- The catcher takes in what arrives with an object in the first variable. -/
theorem arrives_catcher {place : Nat} {isStatic : Bool} {locals : List FlowType} {entry stop : Label}
    (hframe : typing place = some (catcherFrame isStatic))
    (hholds : isStatic = false → HoldsObject locals) :
    Arrives hierarchy typing place ((catchAll entry stop).entryFrame locals) := by
  refine ⟨_, hframe, fun site own hown => ⟨hown.stack, ?_, hown.known, hown.canonical⟩⟩
  intro slot type htype
  change (catcherLocals isStatic)[slot]? = some type at htype
  unfold catcherLocals at htype
  split at htype
  · simp at htype
  · next hreceiver =>
    obtain ⟨rfl, rfl⟩ : slot = 0 ∧ type = .object Name.object := by
      cases slot <;> simp_all
    obtain ⟨type, htype, hfits⟩ := hown.exists_object (hholds (by simpa using hreceiver))
    exact ⟨type, htype, Or.inr hfits⟩

/-- The label at which protection starts is new. -/
theorem wellLabelled_opened (hlabelled : body.WellLabelled) (start : Nat) :
    (opened body start).WellLabelled := by
  have hroom : Body.WellLabelled { body with nextLabel := body.nextLabel + 2 } :=
    ⟨fun label hmem => (hlabelled.handedOut label hmem).trans (by simp), hlabelled.placedOnce⟩
  refine hroom.insertAt ?_ (by simp [placedLabels, Instruction.placed?]) start
  intro label hmem
  obtain rfl : label = ⟨body.nextLabel⟩ := by
    simpa [placedLabels, Instruction.placed?] using hmem
  exact ⟨fun hplaced => absurd (hlabelled.handedOut _ hplaced) (by simp), by simp⟩

/-- The catcher places one label. -/
theorem placedLabels_catcher (label : Label) (owner descriptor : String) (isStatic : Bool)
    (handler : String) : placedLabels (catcher label owner descriptor isStatic handler) = [label] := by
  rw [catcher, placedLabels_append, Editing.placedLabels_defaultReturn]
  cases isStatic <;> rfl

/-- The label of the catcher is new. -/
theorem wellLabelled_catcher (hlabelled : body.WellLabelled) (start : Nat)
    (owner descriptor : String) (isStatic : Bool) (handler : String) :
    ((opened body start).insertAt (opened body start).instructions.length
      (catcher ⟨body.nextLabel + 1⟩ owner descriptor isStatic handler)).WellLabelled := by
  refine (wellLabelled_opened hlabelled start).insertAt ?_ (by simp [placedLabels_catcher]) _
  intro label hmem
  rw [placedLabels_catcher, List.mem_singleton] at hmem
  subst hmem
  refine ⟨fun hplaced => ?_, by simp [opened, Body.insertAt]⟩
  rcases List.mem_append.mp ((Body.placedLabels_insertAt _ start _).mem_iff.mp hplaced) with hnew | hold
  · simp [placedLabels, Instruction.placed?] at hnew
  · exact absurd (hlabelled.handedOut _ hold) (by simp)

/-- A protected body is well labelled. -/
theorem wellLabelled_protect (hlabelled : body.WellLabelled) (start : Nat)
    (owner descriptor : String) (isStatic : Bool) (handler : String) :
    (protect body start owner descriptor isStatic handler).WellLabelled := by
  have hcatcher := wellLabelled_catcher hlabelled start owner descriptor isStatic handler
  rw [protect_eq]
  exact ⟨hcatcher.handedOut, hcatcher.placedOnce⟩

/-- The catcher can be put behind a typed body. -/
theorem fits_catcher (hclass : NameKnown hierarchy Name.classObject) (label : Label)
    (owner descriptor : String) (isStatic : Bool) (handler : String) :
    ∃ frames last, frames.head? = some (catcherFrame isStatic) ∧
      body.Fits hierarchy typing method source body.instructions.length
        (catcher label owner descriptor isStatic handler) (catcherFrame isStatic) frames last := by
  obtain ⟨type, hload⟩ := @Editing.straight_loadReceiver method source (catcherFrame isStatic)
    owner isStatic (.object Name.object) (by rintro rfl; rfl) rfl
  obtain ⟨frames, hreturn⟩ := @Editing.straight_defaultReturn method source
    ⟨catcherLocals isStatic, Slots.empty⟩ descriptor
  have hstraight : Straight method source (catcher label owner descriptor isStatic handler)
      (catcherFrame isStatic) _ _ :=
    .cons (fun _ => rfl)
      (hload.append ((straight_handleThrowable handler (.object Name.throwable) type).append hreturn))
  have hlast : (catcher label owner descriptor isStatic handler).getLast? =
      some (.plain (Editing.returnOpcode descriptor)) := by
    rw [catcher, List.getLast?_append, Editing.getLast?_defaultReturn]
    rfl
  refine ⟨_, _, rfl, hstraight, by simp [catcher], canonical_catcherFrame isStatic, ?_, ?_,
    Or.inr (Or.inr rfl), fun _ hlt => absurd hlt (lt_irrefl _), ?_⟩
  · intro instruction hmem
    simp only [catcher, List.cons_append, List.nil_append, List.mem_cons] at hmem
    rcases hmem with rfl | rfl | rfl | hmem
    · exact ⟨trivial, by simp, by simp⟩
    · exact Editing.isInert_loadReceiver hclass owner isStatic
    · exact isInert_call demand_handleThrowable (by simp) handler
    · exact Editing.isInert_defaultReturn descriptor instruction hmem
  · intro index instruction after here _ target htarget
    have hmem := List.mem_of_getElem? here
    simp only [catcher, List.cons_append, List.nil_append, List.mem_cons] at hmem
    rcases hmem with rfl | rfl | rfl | hmem
    · simp [Instruction.targets] at htarget
    · cases isStatic <;> simp [Editing.loadReceiver, Instruction.pushClass, Instruction.aload,
        Instruction.targets] at htarget
    · simp [Callback.call, Instruction.invokeStatic, Instruction.targets] at htarget
    · simp [Editing.targets_defaultReturn hmem] at htarget
  · intro instruction hfound hfalls
    rw [hlast] at hfound
    obtain rfl := Option.some.inj hfound
    simp [Instruction.fallsThrough, Editing.isReturn_returnOpcode] at hfalls

/-- A typed body stays typed with a catcher for what is thrown behind a label, if the instructions from
there on find an object in the first variable and leave one there. -/
theorem exists_typing_catcher (h : body.Typing hierarchy typing method source site)
    (hlabelled : body.WellLabelled) (hclass : NameKnown hierarchy Name.classObject)
    (hthrowable : NameKnown hierarchy Name.throwable) {start : Nat} {entry stop : Label}
    (hentry : body.instructions[start]? = some (.label entry)) {owner descriptor handler : String}
    {isStatic : Bool}
    (hlabelled' : (body.insertAt body.instructions.length
      (catcher stop owner descriptor isStatic handler)).WellLabelled)
    (hreceiver : isStatic = false → ∀ {position origin : Nat} {instruction before after},
      start ≤ position → body.instructions[position]? = some instruction → instruction.isReal →
      typing position = some before → (∀ place, position = site place → origin = place) →
      Transfer.execute method source origin instruction before = .ok after →
        HoldsObject before.locals ∧ HoldsObject after.locals) :
    ∃ typing' site', ((body.insertAt body.instructions.length
        (catcher stop owner descriptor isStatic handler)).addHandler (catchAll entry stop)).Typing
        hierarchy typing' method source site' ∧
      ∀ position < body.instructions.length, typing' position = typing position := by
  obtain ⟨frames, last, hhead, hfits⟩ := @fits_catcher hierarchy typing body method source
    hclass stop owner descriptor isStatic handler
  have hstop : (catcher stop owner descriptor isStatic handler)[0]? = some (.label stop) := rfl
  generalize catcher stop owner descriptor isStatic handler = block at hfits hstop hlabelled' ⊢
  have hnonempty := List.length_pos_of_ne_nil hfits.nonempty
  have hshift : ∀ place < body.instructions.length,
      shiftBehind body.instructions.length block.length place = place := fun place hlt => by
    rw [shiftBehind, if_neg (by omega)]
  have hkept : ∀ place < body.instructions.length,
      (body.insertAt body.instructions.length block).instructions[place]? = body.instructions[place]? ∧
        insertTyping body.instructions.length block.length frames typing place = typing place := by
    intro place hlt
    have hinstruction := @Body.getElem?_insertAt_shift body _ block le_rfl place
    have hframe := @insertTyping_shift body.instructions.length block.length frames typing place
    rw [hshift place hlt] at hinstruction hframe
    exact ⟨hinstruction, hframe⟩
  have hstart := (List.getElem?_eq_some_iff.mp hentry).1
  have hplaced : (body.insertAt body.instructions.length block).Places stop body.instructions.length := by
    have hinstruction := Body.getElem?_insertAt_block (le_refl body.instructions.length) hnonempty
    exact hlabelled'.places_iff.mpr (hinstruction.trans hstop)
  have hopened : (body.insertAt body.instructions.length block).Places entry start :=
    hlabelled'.places_iff.mpr ((hkept start hstart).1.trans hentry)
  have hcatcher : insertTyping body.instructions.length block.length frames typing
      body.instructions.length = some (catcherFrame isStatic) := by
    have hframe := @insertTyping_block body.instructions.length _ _ frames typing hnonempty
    rw [Nat.add_zero] at hframe
    rw [hframe, ← List.head?_eq_getElem?, hhead]
  refine ⟨_, _, (h.insertAt hlabelled hlabelled' le_rfl hfits).addHandler
    ⟨⟨_, hopened⟩, ⟨_, hplaced⟩, ⟨_, hplaced⟩, hthrowable⟩ ?_, fun position hlt => (hkept position hlt).2⟩
  intro position origin instruction before after first final place here real hbefore horigin runs
    hfirst hfinal hplace hcovered
  obtain rfl := hopened.unique hfirst
  obtain rfl := hplaced.unique hfinal
  obtain rfl := hplaced.unique hplace
  rw [(hkept position hcovered.2).1] at here
  rw [(hkept position hcovered.2).2] at hbefore
  have hholds := fun hstatic => hreceiver hstatic hcovered.1 here real hbefore
    (fun other heq => horigin other (heq.trans (hshift _ (heq ▸ hcovered.2)).symm)) runs
  exact ⟨arrives_catcher hcatcher fun hstatic => (hholds hstatic).1,
    arrives_catcher hcatcher fun hstatic => (hholds hstatic).2⟩

/-- **Protection of a typed body.**  A typed body stays typed when it is protected from a position on, if
the instructions from there on find an object in the first variable and leave one there. -/
theorem exists_typing_protect (h : body.Typing hierarchy typing method source site)
    (hlabelled : body.WellLabelled) (hclass : NameKnown hierarchy Name.classObject)
    (hthrowable : NameKnown hierarchy Name.throwable) {start : Nat}
    (hstart : start ≤ body.instructions.length) {isStatic : Bool}
    (hreceiver : isStatic = false → ∀ {position origin : Nat} {instruction before after},
      start ≤ position → body.instructions[position]? = some instruction → instruction.isReal →
      typing position = some before → (∀ place, position = site place → origin = place) →
      Transfer.execute method source origin instruction before = .ok after →
        HoldsObject before.locals ∧ HoldsObject after.locals) (owner descriptor handler : String) :
    ∃ typing' site', (protect body start owner descriptor isStatic handler).Typing hierarchy typing'
      method source site' ∧ typing' 0 = typing 0 := by
  have hroom : Body.WellLabelled { body with nextLabel := body.nextLabel + 2 } :=
    ⟨fun label hmem => (hlabelled.handedOut label hmem).trans (by simp), hlabelled.placedOnce⟩
  have htyped : (opened body start).Typing hierarchy _ method source _ :=
    Body.Typing.insertLabel (@Body.Typing.congr _ _ _ _ _ _ h { body with nextLabel := body.nextLabel + 2 }
      rfl rfl) hroom (wellLabelled_opened hlabelled start) hstart
  have hentry : (opened body start).instructions[start]? = some (.label ⟨body.nextLabel⟩) :=
    @Body.getElem?_insertAt_block { body with nextLabel := body.nextLabel + 2 } start
      [.label ⟨body.nextLabel⟩] hstart 0 Nat.zero_lt_one
  obtain ⟨typing', site', htyped', hkept⟩ := exists_typing_catcher htyped
    (wellLabelled_opened hlabelled start) hclass hthrowable hentry
    (wellLabelled_catcher hlabelled start owner descriptor isStatic handler) (by
      intro hstatic position origin instruction before after hbehind here real hbefore horigin runs
      rcases Body.exists_shift_or_block start [.label ⟨body.nextLabel⟩] position with
        ⟨place, rfl⟩ | ⟨index, hindex, rfl⟩
      · have hmoved : (opened body start).instructions[shiftBehind start 1 place]? =
            body.instructions[place]? :=
          @Body.getElem?_insertAt_shift { body with nextLabel := body.nextLabel + 2 } start
            [.label ⟨body.nextLabel⟩] hstart place
        refine hreceiver hstatic ?_ (hmoved.symm.trans here) real ((insertTyping_shift place).symm.trans hbefore)
          (fun other heq => horigin other (congrArg _ heq)) runs
        unfold shiftBehind at hbehind
        split at hbehind <;> omega
      · obtain rfl : index = 0 := by simpa using hindex
        obtain rfl := Option.some.inj (hentry.symm.trans here)
        simp [Instruction.isReal] at real)
  refine ⟨typing', site', protect_eq body start owner descriptor isStatic handler ▸ htyped', ?_⟩
  have hlength : (opened body start).instructions.length = body.instructions.length + 1 :=
    Body.length_insertAt hstart
  rw [hkept 0 (by omega)]
  rcases Nat.eq_zero_or_pos start with rfl | hpos
  · cases hframe : typing 0 <;> rfl
  · exact if_pos hpos

/-! ### The guard -/

/-- The code that returns early if the receiver is crashing, and goes on at a label otherwise. -/
def guardCode (skip : Label) (owner descriptor : String) (isStatic : Bool) (handler : String) :
    List Instruction :=
  [Editing.loadReceiver owner isStatic, isObjectCrashing.call handler, .jump Opcode.ifeq skip] ++
    (Editing.defaultReturn descriptor ++ [.label skip])

/-- A body is guarded by code in front of everything else. -/
theorem guardReceiver_eq (body : Body) (owner descriptor : String) (isStatic : Bool) (handler : String) :
    guardReceiver body owner descriptor isStatic handler =
      { body with nextLabel := body.nextLabel + 1 }.insertAt 0
        (guardCode ⟨body.nextLabel⟩ owner descriptor isStatic handler) := by
  rw [guardCode, ← List.append_assoc]
  rfl

/-- The label behind the guard is new. -/
theorem wellLabelled_guardReceiver (hlabelled : body.WellLabelled) (owner descriptor : String)
    (isStatic : Bool) (handler : String) :
    (guardReceiver body owner descriptor isStatic handler).WellLabelled := by
  have hroom : Body.WellLabelled { body with nextLabel := body.nextLabel + 1 } :=
    ⟨fun label hmem => (hlabelled.handedOut label hmem).trans (by simp), hlabelled.placedOnce⟩
  have hplaced : placedLabels (guardCode ⟨body.nextLabel⟩ owner descriptor isStatic handler) =
      [⟨body.nextLabel⟩] := by
    rw [guardCode, placedLabels_append, placedLabels_append, Editing.placedLabels_defaultReturn]
    cases isStatic <;> rfl
  rw [guardReceiver_eq]
  refine hroom.insertAt ?_ (by simp [hplaced]) 0
  intro label hmem
  obtain rfl := List.mem_singleton.mp (hplaced ▸ hmem)
  exact ⟨fun hmem => absurd (hlabelled.handedOut _ hmem) (by simp), by simp⟩

/-- The only jump of the guard is that to the label behind the return. -/
theorem eq_of_target_guardCode {skip target : Label} {owner descriptor handler : String}
    {isStatic : Bool} {index : Nat} {instruction : Instruction}
    (here : (guardCode skip owner descriptor isStatic handler)[index]? = some instruction)
    (htarget : target ∈ instruction.targets) : index = 2 ∧ target = skip := by
  rcases index with - | - | - | index
  · obtain rfl := Option.some.inj here
    cases isStatic <;> simp [Editing.loadReceiver, Instruction.pushClass, Instruction.aload,
      Instruction.targets] at htarget
  · obtain rfl := Option.some.inj here
    simp [Callback.call, Instruction.invokeStatic, Instruction.targets] at htarget
  · obtain rfl := Option.some.inj here
    exact ⟨rfl, by simpa [Instruction.targets] using htarget⟩
  · rw [guardCode, List.getElem?_append_right (by simp)] at here
    have hmem := List.mem_of_getElem? here
    rcases List.mem_append.mp hmem with hmem | hmem
    · simp [Editing.targets_defaultReturn hmem] at htarget
    · obtain rfl := List.mem_singleton.mp hmem
      simp [Instruction.targets] at htarget

/-- The guard can be put in front of a typed body whose first frame takes in the frame on entry. -/
theorem fits_guard (hclass : NameKnown hierarchy Name.classObject) {initial : FlowFrame}
    (hcanonical : initial.Canonical) (hlength : 0 < body.instructions.length)
    (harrives : Arrives hierarchy typing 0 initial) {isStatic : Bool} {receiver : FlowType}
    (hreceiver : isStatic = false → initial.locals[0]? = some receiver) (href : receiver.isReference)
    (skip : Label) (owner descriptor handler : String) :
    ∃ frames, frames.head? = some initial ∧
      body.Fits hierarchy typing method source 0 (guardCode skip owner descriptor isStatic handler)
        initial frames initial := by
  obtain ⟨type, hload⟩ := @Editing.straight_loadReceiver method source _ owner _ _ hreceiver href
  obtain ⟨frames, hreturn⟩ := @Editing.straight_defaultReturn method source initial descriptor
  have hjump : Straight method source [.jump Opcode.ifeq skip] (initial.push .int)
      [initial.push .int] initial := .single fun _ => rfl
  have hlabel : Straight method source [.label skip] initial [initial] initial := .single fun _ => rfl
  have hstraight : Straight method source (guardCode skip owner descriptor isStatic handler) initial
      (initial :: initial.push type :: initial.push .int :: (frames ++ [initial])) initial :=
    hload.append ((straight_isObjectCrashing handler type).append
      (hjump.append (hreturn.append hlabel)))
  have hreal : Editing.defaultReturn descriptor ≠ [] := by simp [Editing.defaultReturn]
  refine ⟨_, rfl, hstraight, by simp [guardCode], hcanonical, ?_, ?_, Or.inr (Or.inl rfl),
    fun hpos => absurd hpos (lt_irrefl 0), fun _ _ _ => ⟨hlength, harrives⟩⟩
  · intro instruction hmem
    simp only [guardCode, List.cons_append, List.nil_append, List.mem_cons, List.mem_append,
      List.not_mem_nil, or_false] at hmem
    rcases hmem with rfl | rfl | rfl | hmem | rfl
    · exact Editing.isInert_loadReceiver hclass owner isStatic
    · exact isInert_call demand_isObjectCrashing (by simp [FieldType.isReference]) handler
    · exact ⟨trivial, by simp, by simp⟩
    · exact Editing.isInert_defaultReturn descriptor instruction hmem
    · exact ⟨trivial, by simp, by simp⟩
  · intro index instruction after here hafter target htarget
    obtain ⟨rfl, rfl⟩ := eq_of_target_guardCode here htarget
    have hafter : (frames ++ [initial] ++ [initial])[0]? = some after := hafter
    have hfirst := hreturn.head? hreal
    rw [List.head?_eq_getElem?] at hfirst
    rw [List.append_assoc, List.getElem?_append_left (List.getElem?_eq_some_iff.mp hfirst).1,
      hfirst] at hafter
    obtain rfl := Option.some.inj hafter
    refine ⟨(Editing.defaultReturn descriptor).length + 3, ?_, ?_⟩
    · simp [guardCode]
    · simp [← hreturn.length_eq]

/-- **A guard in front of a typed body.**  A body whose first frame takes in the frame on entry stays
typed when a guard is put in front of it, and then starts with that frame. -/
theorem exists_typing_guardReceiver (h : body.Typing hierarchy typing method source site)
    (hlabelled : body.WellLabelled) (hclass : NameKnown hierarchy Name.classObject) {initial : FlowFrame}
    (hcanonical : initial.Canonical) (harrives : Arrives hierarchy typing 0 initial) {isStatic : Bool}
    {receiver : FlowType} (hreceiver : isStatic = false → initial.locals[0]? = some receiver)
    (href : receiver.isReference) (owner descriptor handler : String) :
    ∃ typing' site', (guardReceiver body owner descriptor isStatic handler).Typing hierarchy typing'
      method source site' ∧ typing' 0 = some initial := by
  have hlength : 0 < body.instructions.length := by
    obtain ⟨super, hsuper, -⟩ := harrives
    exact h.inside hsuper
  have hroom : Body.WellLabelled { body with nextLabel := body.nextLabel + 1 } :=
    ⟨fun label hmem => (hlabelled.handedOut label hmem).trans (by simp), hlabelled.placedOnce⟩
  have hguarded := wellLabelled_guardReceiver hlabelled owner descriptor isStatic handler
  rw [guardReceiver_eq] at hguarded ⊢
  obtain ⟨frames, hfirst, hfits⟩ := @fits_guard hierarchy typing
    { body with nextLabel := body.nextLabel + 1 } method source hclass initial hcanonical hlength harrives
    isStatic receiver hreceiver href ⟨body.nextLabel⟩ owner descriptor handler
  have htyped := @Body.Typing.congr _ _ _ _ _ _ h { body with nextLabel := body.nextLabel + 1 } rfl rfl
  refine ⟨_, _, htyped.insertAt hroom hguarded (Nat.zero_le _) hfits, ?_⟩
  rw [← hfirst, List.head?_eq_getElem?]
  exact @insertTyping_block 0 _ _ _ _ (List.length_pos_of_ne_nil hfits.nonempty)

/-! ## Shielding -/

/-- The position at which protection of a method's body starts, if the method is shielded: behind the
delegating call of a constructor, if that can be singled out, and at the start of any other method. -/
def shieldStart? (decl : ClassDecl) (method : Method) (body : Body) : Option Nat :=
  if Name.isConstructor method.name then
    match DelegatingCall.find body decl.name decl.superName with
    | .unique call => some (call + 1)
    | _ => none
  else some 0

/-- The body of a method once it is shielded. -/
def shieldedBody (decl : ClassDecl) (handler : String) (method : Method) (body : Body) : Body :=
  match shieldStart? decl method body with
  | none => body
  | some start =>
    let isStatic := method.access.isStatic
    let shielded := protect body start decl.name method.descriptor isStatic handler
    if Name.isConstructor method.name then shielded
    else guardReceiver shielded decl.name method.descriptor isStatic handler

/-- Shielding gives a method its shielded body, and changes nothing else that an analysis looks at. -/
theorem exists_shieldMethod {decl : ClassDecl} {declared : Method} (handler : String)
    (hbody : decl.decodeBody declared = .ok (some body)) :
    ∃ shielded, shieldMethod decl handler declared = .ok shielded ∧
      decl.decodeBody shielded = .ok (some (shieldedBody decl handler declared body)) ∧
      shielded.context decl.name = declared.context decl.name := by
  unfold shieldMethod shieldedBody shieldStart?
  rw [hbody]
  by_cases hconstructor : Name.isConstructor declared.name
  · simp only [hconstructor, if_true, bind, Except.bind]
    cases hcall : DelegatingCall.find body decl.name decl.superName with
    | unique call => exact ⟨_, rfl, rfl, rfl⟩
    | missing => exact ⟨declared, rfl, hbody, rfl⟩
    | ambiguous => exact ⟨declared, rfl, hbody, rfl⟩
  · simp only [hconstructor]
    exact ⟨_, rfl, rfl, rfl⟩

/-- The classes involved in the analysis of a shielded body are known. -/
structure KnowsClasses (hierarchy : Hierarchy) (method : MethodContext) (body : Body) : Prop where
  /-- The root of the hierarchy. -/
  root : hierarchy.Knows Name.object
  /-- The class of the method. -/
  owner : NameKnown hierarchy method.owner
  /-- The classes of the parameters. -/
  parameters : ∀ parsed, MethodDescriptor.demand method.descriptor = .ok parsed →
    ∀ type ∈ parsed.parameters, type.IsKnown hierarchy
  /-- The classes that the body mentions. -/
  body : body.ClassesKnown hierarchy
  /-- The class of what the shield catches. -/
  throwable : NameKnown hierarchy Name.throwable
  /-- The class that stands for the receiver of a static method. -/
  classObject : NameKnown hierarchy Name.classObject

/-- The frame on entry to a method with known classes fits itself. -/
theorem KnowsClasses.fits_initialFrame (h : KnowsClasses hierarchy method body) {initial : FlowFrame}
    (hinitial : method.initialFrame = .ok initial) : FrameFits hierarchy site initial initial :=
  MethodContext.ClassesKnown.fits_initialFrame ⟨h.root, h.owner, h.parameters, h.throwable⟩ hinitial

/-- A method that is no constructor is entered with its receiver in the first variable. -/
theorem getElem?_initialFrame_zero {initial : FlowFrame} (hinitial : method.initialFrame = .ok initial)
    (hstatic : method.isStatic = false) (hconstructor : Name.isConstructor method.name = false) :
    initial.locals[0]? = some (.object method.owner) := by
  obtain ⟨parsed, -, hinitial⟩ := bind_eq_ok.mp hinitial
  obtain rfl := pure_eq_ok.mp hinitial
  have hreceiver : method.receiverType = .object method.owner := by
    simp [MethodContext.receiverType, hconstructor]
  simp only [hstatic, hreceiver, Bool.false_eq_true, if_false, List.cons_append, List.nil_append]
  exact Frame.getElem?_ofTypes_zero _ rfl

/-- **Shielded bodies are accepted.**  Shielding a method whose body is accepted gives a method whose body
is accepted, if the protected instructions of a method with a receiver keep it in the first variable, control
does not run into a label at the end of the body, and array loads find arrays. -/
theorem analyze_shielded {decl : ClassDecl} {declared : Method} {analysis : Analysis}
    (handler : String) (hwf : hierarchy.WellFormed)
    (hbody : decl.decodeBody declared = .ok (some body)) (hlabelled : body.WellLabelled)
    (hknown : KnowsClasses hierarchy (declared.context decl.name) body)
    (hanalysis : analyze body (declared.context decl.name) hierarchy [] = .ok analysis)
    (hoff : ¬ body.RunsOff) (harrays : analysis.FindsReferences body)
    (hreceiver : ∀ start ∈ shieldStart? decl declared body, declared.access.isStatic = false →
      analysis.KeepsReceiver body (declared.context decl.name) start) :
    ∃ shielded edited, shieldMethod decl handler declared = .ok shielded ∧
      decl.decodeBody shielded = .ok (some edited) ∧
      ∃ result, analyze edited (shielded.context decl.name) hierarchy [] = .ok result := by
  obtain ⟨shielded, hshielded, hedited, hcontext⟩ := exists_shieldMethod handler hbody
  refine ⟨shielded, _, hshielded, hedited, ?_⟩
  rw [hcontext]
  obtain ⟨htyping, initial, first, hinitial, hfirst, hbelow⟩ :=
    exists_typing hwf hanalysis hoff hknown.body harrays
  have hentry : analysis.frames[0]?.join = some first := by rw [hfirst]; rfl
  have hself : ∀ site, FrameFits hierarchy site initial initial := fun site =>
    hknown.fits_initialFrame hinitial
  unfold shieldedBody
  cases hstart : shieldStart? decl declared body with
  | none => exact ⟨analysis, hanalysis⟩
  | some start =>
    have hinside : start ≤ body.instructions.length := by
      unfold shieldStart? at hstart
      split at hstart
      · split at hstart
        · next call hcall =>
          obtain rfl := Option.some.inj hstart
          obtain ⟨callee, hcallee, -⟩ := DelegatingCall.exists_callee_of_find hcall
          exact (List.getElem?_eq_some_iff.mp hcallee).1
        · simp at hstart
      · obtain rfl := Option.some.inj hstart
        exact Nat.zero_le _
    obtain ⟨typing', site', htyping', hzero⟩ := exists_typing_protect htyping hlabelled
      hknown.classObject hknown.throwable hinside
      (fun hstatic {position origin instruction before after} hbehind here real hbefore horigin runs => by
        obtain rfl := horigin position rfl
        exact hreceiver start hstart hstatic origin instruction before after hbehind here real
          (Option.join_eq_some_iff.mp hbefore) runs)
      decl.name declared.descriptor handler
    have hnonempty : ∀ {edited : Body} {typing site} {frame : FlowFrame},
        edited.Typing hierarchy typing (declared.context decl.name) body.instructions.toArray site →
          typing 0 = some frame → edited.instructions ≠ [] := fun htyping hframe =>
      List.ne_nil_of_length_pos (htyping.inside hframe)
    by_cases hconstructor : Name.isConstructor declared.name
    · simp only [hconstructor, if_true]
      have hframe := hzero.trans hentry
      exact htyping'.exists_analyze hwf hknown.root hknown.owner (hnonempty htyping' hframe) hinitial
        hframe ((hself _).below hbelow)
    · simp only [hconstructor]
      have hfirstVariable : declared.access.isStatic = false →
          initial.locals[0]? = some (.object decl.name) := fun hstatic =>
        getElem?_initialFrame_zero hinitial hstatic (Bool.not_eq_true _ ▸ hconstructor)
      obtain ⟨typing'', site'', htyping'', hframe⟩ := exists_typing_guardReceiver htyping'
        (wellLabelled_protect hlabelled start _ _ _ _) hknown.classObject
        (MethodContext.canonical_initialFrame hinitial)
        ⟨first, hzero.trans hentry, fun site own hown => hown.below hbelow⟩ hfirstVariable rfl
        decl.name declared.descriptor handler
      exact htyping''.exists_analyze hwf hknown.root hknown.owner (hnonempty htyping'' hframe) hinitial
        hframe (hself _)

end CrashShield

end

namespace CrashShield

/-- A method that returns its receiver. -/
def returnsReceiver : Method where
  access := ⟨1⟩
  name := "self"
  descriptor := "()Ljava/lang/Object;"
  body := .edited { instructions := [.aload 0, .plain Opcode.areturn] }

/-- A class with that method. -/
def returning : ClassDecl where
  version := ⟨52, 0⟩
  access := ⟨33⟩
  name := "java/lang/Number"
  superName := some Name.object
  methods := [returnsReceiver]

/-- A method that returns its receiver is accepted when it is shielded. -/
theorem analyze_shielded_returnsReceiver :
    ∃ shielded edited, shieldMethod returning "h/Handler" returnsReceiver = .ok shielded ∧
      returning.decodeBody shielded = .ok (some edited) ∧
      ∃ result, analyze edited (shielded.context returning.name) Classpath.empty.hierarchy [] =
        .ok result := by
  let frames : Array (Option FlowFrame) := #[some (Frame.ofTypes [.object "java/lang/Number"] []),
    some (Frame.ofTypes [.object "java/lang/Number"] [.object "java/lang/Number"])]
  have hanalysis : analyze { instructions := [.aload 0, .plain Opcode.areturn] }
      (returnsReceiver.context returning.name) Classpath.empty.hierarchy [] = .ok ⟨frames, 1, 1⟩ := by
    cbv
  refine analyze_shielded "h/Handler" Classpath.wellFormed_empty rfl ⟨by decide, by decide⟩ ?_ hanalysis
    ?_ ?_ ?_
  · refine ⟨⟨_, rfl⟩, Classpath.nameKnown_empty (by decide), ?_, ⟨?_, by simp⟩,
      Classpath.nameKnown_empty (by decide), Classpath.nameKnown_empty (by decide)⟩
    · intro parsed hparsed
      have hown : MethodDescriptor.demand returnsReceiver.descriptor = .ok ⟨[], some (.object Name.object)⟩ := by
        decide
      obtain rfl := Except.ok.inj (hown.symm.trans hparsed)
      simp
    · simp [Instruction.IsKnown, Instruction.aload]
  · rintro ⟨position, instruction, hend, here, unreal, -⟩
    obtain rfl : position = 1 := by simpa using hend
    obtain rfl := Option.some.inj here
    simp [Instruction.isReal] at unreal
  · intro position instruction before here _ opcode hplain heffect
    subst hplain
    rcases position with _ | _ | position
    · cases here
    · obtain rfl : Opcode.areturn = opcode := by simpa using here
      exact absurd heffect (by decide +kernel)
    · cases here
  · intro start _ _ position instruction before after _ here _ hbefore runs
    rcases position with _ | _ | position
    · obtain rfl := Option.some.inj here
      obtain rfl := Option.some.inj (Option.some.inj hbefore)
      obtain rfl := Except.ok.inj runs
      exact ⟨Or.inr ⟨_, rfl⟩, Or.inr ⟨_, rfl⟩⟩
    · obtain rfl := Option.some.inj here
      obtain rfl := Option.some.inj (Option.some.inj hbefore)
      obtain rfl := Except.ok.inj runs
      exact ⟨Or.inr ⟨_, rfl⟩, Or.inr ⟨_, rfl⟩⟩
    · cases here

end CrashShield

end ClassInstrument
