import Mathlib
import ClassInstrument.Proofs.Analysis.FittingTransfer
import ClassInstrument.Proofs.Analysis.Reach

/-!
# What constructors run on

A call of a constructor initializes the object below its arguments: the receiver of the constructor that
calls it, or an object that was created at some site of the same body.  An analysis accepts no other
receiver, so the calls that it reaches are of these two kinds.
-/

namespace ClassInstrument

open Outcome

/-- What a constructor call calls. -/
def Instruction.constructor? : Instruction → Option Member
  | .method opcode callee =>
    if opcode = Opcode.invokespecial ∧ Name.isConstructor callee.name then some callee else none
  | _ => none

/-- The constructor calls are special calls of constructors. -/
theorem Instruction.constructor?_eq_some {instruction : Instruction} {callee : Member} :
    instruction.constructor? = some callee ↔
      instruction = .method Opcode.invokespecial callee ∧ Name.isConstructor callee.name := by
  cases instruction with
  | method opcode called =>
    simp only [constructor?, Option.ite_none_right_eq_some, Option.some.injEq, method.injEq]
    constructor
    · rintro ⟨⟨rfl, hname⟩, rfl⟩
      exact ⟨⟨rfl, rfl⟩, hname⟩
    · rintro ⟨⟨rfl, rfl⟩, hname⟩
      exact ⟨⟨rfl, hname⟩, rfl⟩
  | _ => simp [constructor?]

namespace Frame

/-- The type of the object that a method with a descriptor runs on if it is called. -/
def receiver? (frame : FlowFrame) (descriptor : String) : Option FlowType :=
  match MethodDescriptor.parse descriptor with
  | .ok parsed => frame.stack.peek? parsed.parameters.length
  | .error _ => none

/-- The value below some others is on top once these are dropped. -/
theorem peek?_of_drop {count : ℕ} {frame rest below : FlowFrame} {type : FlowType}
    (hdrop : frame.drop count = .ok rest) (hpop : rest.pop = .ok (type, below)) :
    frame.stack.peek? count = some type := by
  induction count generalizing frame with
  | zero =>
    obtain rfl := pure_eq_ok.mp hdrop
    have hentries := congrArg (·[0]?) (pop_eq_ok hpop).1
    simpa [Slots.peek?] using hentries
  | succ count ih =>
    obtain ⟨⟨value, others⟩, hothers, hdrop⟩ := bind_eq_ok.mp hdrop
    have hentries := congrArg (·[count + 1]?) (pop_eq_ok hothers).1
    rw [← ih hdrop]
    simpa [Slots.peek?] using hentries

end Frame

/-- A constructor that runs on a frame runs on a receiver or a created object that is not initialized. -/
theorem Transfer.exists_receiver_of_constructor {method : MethodContext} {code : Array Instruction}
    {position : ℕ} {callee : Member} {before after : FlowFrame} (hname : Name.isConstructor callee.name)
    (h : Transfer.execute method code position (.method Opcode.invokespecial callee) before = .ok after) :
    ∃ type, before.receiver? callee.descriptor = some type ∧
      (type = .uninitThis ∨ ∃ site, type = .uninit site) := by
  obtain ⟨parsed, hparsed, h⟩ := bind_eq_ok.mp h
  obtain ⟨rest, hrest, h⟩ := bind_eq_ok.mp h
  rw [if_neg (by decide)] at h
  obtain ⟨⟨type, below⟩, hpop, h⟩ := bind_eq_ok.mp h
  dsimp only at h
  rw [if_pos ⟨rfl, hname⟩] at h
  obtain ⟨made, hmade, -⟩ := bind_eq_ok.mp h
  have hends := FrameRules.initialized method code position type
  rw [hmade] at hends
  refine ⟨type, ?_, hends.1⟩
  unfold MethodDescriptor.demand at hparsed
  split at hparsed
  · next hparse =>
    cases hparsed
    rw [Frame.receiver?, hparse]
    exact Frame.peek?_of_drop (FrameFits.blame_eq_ok.mp hrest) (FrameFits.blame_eq_ok.mp hpop)
  · cases hparsed

namespace Analysis

/-- The class whose constructor is called at a position that is reached, and the type of the object that it
runs on. -/
def constructs? (analysis : Analysis) (body : Body) (position : ℕ) : Option (String × FlowType) := do
  let callee ← body.instructions[position]? >>= Instruction.constructor?
  let frame ← (analysis.frames[position]?).join
  let type ← frame.receiver? callee.descriptor
  return (callee.owner, type)

/-- Where a constructor is called, there is a call of it. -/
theorem exists_callee_of_constructs? {analysis : Analysis} {body : Body} {position : ℕ} {name : String}
    {type : FlowType} (h : analysis.constructs? body position = some (name, type)) :
    ∃ callee, body.instructions[position]? = some (.method Opcode.invokespecial callee) ∧
      Name.isConstructor callee.name ∧ callee.owner = name := by
  obtain ⟨callee, hcallee, h⟩ := Option.bind_eq_some_iff.mp h
  obtain ⟨instruction, here, hcallee⟩ := Option.bind_eq_some_iff.mp hcallee
  obtain ⟨frame, -, h⟩ := Option.bind_eq_some_iff.mp h
  obtain ⟨found, -, h⟩ := Option.bind_eq_some_iff.mp h
  obtain ⟨rfl, hname⟩ := Instruction.constructor?_eq_some.mp hcallee
  cases h
  exact ⟨callee, here, hname, rfl⟩

/-- Where a constructor is called, the analysis has been. -/
theorem reaches_of_constructs? {analysis : Analysis} {body : Body} {position : ℕ} {call : String × FlowType}
    (h : analysis.constructs? body position = some call) : analysis.reaches position := by
  obtain ⟨callee, -, h⟩ := Option.bind_eq_some_iff.mp h
  obtain ⟨frame, hframe, -⟩ := Option.bind_eq_some_iff.mp h
  simp [reaches, Option.join_eq_some_iff.mp hframe]

/-- A reached call of a constructor runs on an object that is not initialized. -/
theorem constructs?_of_reaches {body : Body} {method : MethodContext} {hierarchy : Hierarchy}
    {analysis : Analysis} (h : analyze body method hierarchy [] = .ok analysis) {position : ℕ}
    {callee : Member} (here : body.instructions[position]? = some (.method Opcode.invokespecial callee))
    (hname : Name.isConstructor callee.name) (hreaches : analysis.reaches position) :
    ∃ type, analysis.constructs? body position = some (callee.owner, type) ∧
      (type = .uninitThis ∨ ∃ site, type = .uninit site) := by
  obtain ⟨handlers, settled, -, rfl, hdone, -⟩ := exists_settled_reachable (by simp) h
  obtain ⟨frame, hframe⟩ := reaches_outcome.mp hreaches
  obtain ⟨after, hruns, -⟩ := (hdone hframe).2.runs (Body.getElem?_code.trans here) rfl
  obtain ⟨type, htype, hkind⟩ := Transfer.exists_receiver_of_constructor hname hruns
  refine ⟨type, ?_, hkind⟩
  have hcallee := Instruction.constructor?_eq_some.mpr
    ⟨(rfl : Instruction.method Opcode.invokespecial callee = _), hname⟩
  simp [constructs?, here, hcallee, frames_outcome.mpr hframe, htype]

end Analysis

end ClassInstrument
