import ClassInstrument.Proofs.Analysis.FixedFrames
import ClassInstrument.Proofs.Frame.Entries
import ClassInstrument.Proofs.Policy.Forwarder

/-!
# Forwarders are analyzed without a hierarchy

The slots of the parameters are counted three times: by the frame on entry, by the loads, and by the first
free slot.  Here the three agree, and all paths bring the same frames to the return, to the reports and to the
handler.  So the frames of a forwarder are fixed: they are written beside its parts, and found in every
hierarchy.
-/

namespace ClassInstrument

open Outcome

/-! ## Variables one behind the other -/

namespace Frame

/-- A value and its second half are as many slots as it is wide. -/
theorem length_slotsOfEntries (types : List FlowType) :
    (slotsOfEntries types).length = (types.map width).sum := by
  induction types with
  | nil => rfl
  | cons type rest ih =>
    have hwidth : width type = if type.isWide then 2 else 1 := rfl
    rw [← List.singleton_append, slotsOfEntries_append, List.length_append, ih, List.map_append,
      List.sum_append]
    simp only [slotsOfEntries, List.flatMap_singleton, List.map_singleton, List.sum_singleton, hwidth]
    split <;> rfl

/-- A variable behind all others is put there with its second half. -/
theorem setLocal_length {frame : FlowFrame} (h : frame.Canonical) (type : FlowType) :
    frame.setLocal frame.locals.length type =
      { frame with locals := frame.locals ++ slotsOfEntries [type] } := by
  have hlast := clearWideLast_eq_iff.mp h.locals_eq
  have hwidth : width type = if type.isWide then 2 else 1 := rfl
  suffices hlocals : (frame.setLocal frame.locals.length type).locals =
      frame.locals ++ slotsOfEntries [type] by
    rw [← hlocals]
    rfl
  refine List.ext_getElem? fun slot => ?_
  rw [getElem?_setLocal]
  simp only [slotsOfEntries, List.flatMap_singleton, List.getElem?_append, padTo, hwidth]
  grind

/-- A frame made of types has their slots one behind the other. -/
theorem ofTypes_eq (types : List FlowType) :
    Frame.ofTypes types [] = ⟨slotsOfEntries types, Slots.empty⟩ := by
  suffices hall : ∀ frame : FlowFrame, frame.Canonical →
      (types.foldl (fun (state : FlowFrame × ℕ) type =>
        (state.1.setLocal state.2 type, state.2 + width type)) (frame, frame.locals.length)).1 =
          { frame with locals := frame.locals ++ slotsOfEntries types } from
    hall Frame.empty .empty
  induction types with
  | nil => exact fun frame _ => by simp [slotsOfEntries]
  | cons type rest ih =>
    intro frame hframe
    have hnext := ih (frame.setLocal frame.locals.length type) (hframe.setLocal _ _)
    have hlength : (frame.setLocal frame.locals.length type).locals.length =
        frame.locals.length + width type := by
      rw [length_setLocal]
      omega
    rw [hlength] at hnext
    rw [List.foldl_cons, hnext, setLocal_length hframe, ← List.singleton_append (l := rest),
      slotsOfEntries_append, List.append_assoc]

end Frame

/-- A value is as wide in a frame as its field type says. -/
theorem ValueType.width_ofFieldType (type : FieldType) :
    width (ValueType.ofFieldType type : FlowType) = type.width := by
  cases type with
  | base base => cases base <;> rfl
  | object _ => rfl
  | array _ => rfl

section

variable {method : MethodContext} {source : Array Instruction}

/-- Only loads of variables load variables. -/
theorem Editing.exists_of_mem_loadFrom {types : List FieldType} {slot : UInt16} {instruction : Instruction}
    (h : instruction ∈ Editing.loadFrom slot types) :
    ∃ type slot, instruction = .var (Editing.loadOpcode type) slot := by
  induction types generalizing slot with
  | nil => cases h
  | cons type rest ih =>
    rcases List.mem_cons.mp h with rfl | hmem
    · exact ⟨type, slot, rfl⟩
    · exact ih hmem

/-- An opcode that loads a variable neither stores one nor returns from a subroutine. -/
theorem Editing.loadOpcode_ne (type : FieldType) :
    (Editing.loadOpcode type).isStore = false ∧ Editing.loadOpcode type ≠ Opcode.ret := by
  cases type with
  | base base => cases base <;> decide
  | object _ => exact ⟨rfl, show Opcode.aload ≠ Opcode.ret by decide⟩
  | array _ => exact ⟨rfl, show Opcode.aload ≠ Opcode.ret by decide⟩

/-- A load of a variable pushes the type that stands there. -/
theorem Transfer.execute_load {type : FieldType} {slot : UInt16} {frame : FlowFrame}
    (h : frame.locals[slot.toNat]? = some (ValueType.ofFieldType type)) (origin : ℕ) :
    Transfer.execute method source origin (.var (Editing.loadOpcode type) slot) frame =
      .ok (frame.push (ValueType.ofFieldType type)) := by
  have hreference (name : String) (hname : (ValueType.ofFieldType type : FlowType) = .object name)
      (hopcode : Editing.loadOpcode type = Opcode.aload) :
      Transfer.execute method source origin (.var (Editing.loadOpcode type) slot) frame =
        .ok (frame.push (ValueType.ofFieldType type)) := by
    rw [hname] at h ⊢
    rw [hopcode]
    change Transfer.accessVariable origin Opcode.aload slot.toNat frame = _
    simp only [Transfer.accessVariable, h]
    rfl
  cases type with
  | base base => cases base <;> rfl
  | object name => exact hreference _ rfl rfl
  | array element => exact hreference _ rfl rfl

/-- Loads of variables that stand one behind the other push their types, and leave the variables alone. -/
theorem straight_loadFrom {types : List FieldType} {slot : UInt16} {frame : FlowFrame}
    {front back : List FlowType}
    (hlocals : frame.locals = front ++ Frame.slotsOfEntries (types.map ValueType.ofFieldType) ++ back)
    (hfront : front.length = slot.toNat) (hslots : slot.toNat + (types.map FieldType.width).sum < 65536) :
    ∃ frames, Straight method source (Editing.loadFrom slot types) frame frames
        { frame with stack := frame.stack.pushAll (types.map ValueType.ofFieldType) } ∧
      ∀ between ∈ frames, between.locals = frame.locals := by
  induction types generalizing slot frame front with
  | nil => exact ⟨[], .nil _, by simp⟩
  | cons type rest ih =>
    rw [List.map_cons, List.sum_cons] at hslots
    have hsplit : Frame.slotsOfEntries ((type :: rest).map ValueType.ofFieldType) =
        (Frame.slotsOfEntries [(ValueType.ofFieldType type : FlowType)]) ++
          Frame.slotsOfEntries (rest.map ValueType.ofFieldType) :=
      Frame.slotsOfEntries_append [_] _
    have hhead : (Frame.slotsOfEntries [(ValueType.ofFieldType type : FlowType)])[0]? =
        some (ValueType.ofFieldType type) := by
      simp only [Frame.slotsOfEntries, List.flatMap_singleton]
      split <;> rfl
    have hlength := Frame.length_slotsOfEntries [(ValueType.ofFieldType type : FlowType)]
    simp only [List.map_singleton, List.sum_singleton, ValueType.width_ofFieldType] at hlength
    have hvalue : frame.locals[slot.toNat]? = some (ValueType.ofFieldType type) := by
      rw [hlocals, hsplit, ← hfront, List.append_assoc, List.append_assoc,
        List.getElem?_append_right le_rfl, Nat.sub_self, List.getElem?_append_left (by
          rw [hlength]
          exact (List.getElem?_eq_some_iff.mp hhead).1 |>.trans_eq hlength), hhead]
    have hnext : (slot + UInt16.ofNat type.width).toNat = slot.toNat + type.width := by
      rw [UInt16.toNat_add, UInt16.toNat_ofNat']
      omega
    obtain ⟨frames, hframes, hkept⟩ := @ih (slot + UInt16.ofNat type.width)
      (frame.push (ValueType.ofFieldType type)) (front ++ Frame.slotsOfEntries [ValueType.ofFieldType type])
      (by rw [List.append_assoc front, ← hsplit]; exact hlocals)
      (by rw [List.length_append, hlength, hnext, hfront]) (by omega)
    refine ⟨frame :: frames, .cons (Transfer.execute_load hvalue) hframes, ?_⟩
    exact List.forall_mem_cons.mpr ⟨rfl, hkept⟩

/-- What was pushed can be dropped. -/
theorem Frame.drop_pushAll (frame : FlowFrame) (types : List FlowType) :
    Frame.drop types.length { frame with stack := frame.stack.pushAll types } = .ok frame := by
  induction types using List.reverseRecOn with
  | nil => rfl
  | append_singleton types last ih =>
    rw [List.length_append, Slots.pushAll, List.foldl_append]
    exact ih

/-- A call of a static method takes its arguments, and gives its result. -/
theorem Transfer.execute_callStatic {callee : Member} {parsed : MethodDescriptor}
    (h : MethodDescriptor.demand callee.descriptor = .ok parsed) (frame : FlowFrame) (origin : ℕ) :
    Transfer.execute method source origin (.method Opcode.invokestatic callee)
        { frame with stack := frame.stack.pushAll (parsed.parameters.map ValueType.ofFieldType) } =
      .ok (Transfer.pushResult frame parsed.result) := by
  have hdrop := Frame.drop_pushAll frame (parsed.parameters.map ValueType.ofFieldType)
  rw [List.length_map] at hdrop
  simp only [Transfer.execute, Transfer.call, h, bind, Except.bind, hdrop, Transfer.blame]
  rfl

/-- A call of a method of an object takes the object, too. -/
theorem Transfer.execute_callSpecial {callee : Member} {parsed : MethodDescriptor}
    (h : MethodDescriptor.demand callee.descriptor = .ok parsed)
    (hname : Name.isConstructor callee.name = false) (frame : FlowFrame) (receiver : FlowType) (origin : ℕ) :
    Transfer.execute method source origin (.method Opcode.invokespecial callee)
        { frame.push receiver with
          stack := (frame.push receiver).stack.pushAll (parsed.parameters.map ValueType.ofFieldType) } =
      .ok (Transfer.pushResult frame parsed.result) := by
  have hdrop := Frame.drop_pushAll (frame.push receiver) (parsed.parameters.map ValueType.ofFieldType)
  rw [List.length_map] at hdrop
  have hpop : (frame.push receiver).pop = .ok (receiver, frame) := rfl
  simp only [Transfer.execute, Transfer.call, h, bind, Except.bind, hdrop, Transfer.blame, hpop, hname]
  rfl

end

namespace Benchmark

/-! ## Frames beside the parts -/

/-- The arguments in the variables, the start time behind them, and nothing on the stack. -/
def startedFrame (types : List FieldType) : FlowFrame :=
  ⟨Frame.slotsOfEntries (types.map ValueType.ofFieldType ++ [.long]), Slots.empty⟩

/-- The same variables, and the arguments on the stack. -/
def calledFrame (types : List FieldType) : FlowFrame :=
  { startedFrame types with stack := Slots.ofList (types.map ValueType.ofFieldType) }

/-- A frame with what comes first in every report on the stack: the class, the name and the descriptor. -/
def identifiedFrame (frame : FlowFrame) : FlowFrame :=
  ((frame.push (.object Name.string)).push (.object Name.string)).push (.object Name.string)

/-- A frame with all on the stack that is told about an execution. -/
def toldFrame (frame : FlowFrame) : FlowFrame := (identifiedFrame frame).push .long

/-- A result on the stack leaves the canonical form and the variables alone. -/
theorem canonical_pushResult {frame : FlowFrame} (h : frame.Canonical) (result : Option FieldType) :
    (Transfer.pushResult frame result).Canonical ∧
      (Transfer.pushResult frame result).locals = frame.locals := by
  cases result with
  | none => exact ⟨h, rfl⟩
  | some type => exact ⟨h.push _, rfl⟩

/-- The frame with the start time is in canonical form. -/
theorem canonical_startedFrame (types : List FieldType) : (startedFrame types).Canonical := by
  rw [startedFrame, ← Frame.ofTypes_eq]
  exact .ofTypes _ _

@[simp] theorem locals_toldFrame (frame : FlowFrame) : (toldFrame frame).locals = frame.locals := rfl

/-- What is told is put on the stack by pushing. -/
theorem canonical_toldFrame {frame : FlowFrame} (h : frame.Canonical) : (toldFrame frame).Canonical :=
  (((h.push _).push _).push _).push _

/-- Frames in canonical form with given variables. -/
def Along (locals : List FlowType) (frames : List FlowFrame) : Prop :=
  ∀ frame ∈ frames, frame.Canonical ∧ frame.locals = locals

section

variable {method : MethodContext} {source : Array Instruction} {report : Report} {types : List FieldType}
  {frame : FlowFrame} {marked : Label → Option FlowFrame} {behind : Option FlowFrame} {limits : List Limit}

/-- The start time is kept behind the arguments, and the arguments are put on the stack. -/
theorem straight_opening (hslots : (types.map FieldType.width).sum + 2 ≤ 65536) :
    ∃ frames, Straight method source (Report.opening types)
        (Frame.ofTypes (types.map ValueType.ofFieldType) [])
        (Frame.ofTypes (types.map ValueType.ofFieldType) [] ::
          (Frame.ofTypes (types.map ValueType.ofFieldType) []).push .long :: frames)
        (calledFrame types) ∧
      ∀ between ∈ frames, between.locals = (startedFrame types).locals := by
  have hcanonical := Frame.Canonical.ofTypes (types.map ValueType.ofFieldType) []
  have hentry := Frame.ofTypes_eq (types.map ValueType.ofFieldType)
  have hlength := Frame.length_slotsOfEntries (types.map ValueType.ofFieldType)
  rw [List.map_map, show width ∘ ValueType.ofFieldType = FieldType.width from
    funext ValueType.width_ofFieldType] at hlength
  have hslot : (Report.freeSlot types).toNat = (types.map FieldType.width).sum := by
    rw [Report.freeSlot, UInt16.toNat_ofNat']
    omega
  obtain ⟨frames, hframes, hkept⟩ := @straight_loadFrom method source types 0 (startedFrame types) []
    (Frame.slotsOfEntries [.long]) (Frame.slotsOfEntries_append _ _) rfl (by simp; omega)
  have hstore (origin : ℕ) : Transfer.execute method source origin
      (.var Opcode.lstore (Report.freeSlot types))
        ((Frame.ofTypes (types.map ValueType.ofFieldType) []).push .long) = .ok (startedFrame types) := by
    have hset := Frame.setLocal_length hcanonical .long
    rw [hentry, hlength, ← hslot, ← Frame.slotsOfEntries_append] at hset
    rw [hentry, startedFrame, ← hset]
    rfl
  exact ⟨startedFrame types :: frames, .cons (fun _ => rfl) (.cons hstore (.cons (fun _ => rfl) hframes)),
    List.forall_mem_cons.mpr ⟨rfl, hkept⟩⟩

/-- The moved body takes the arguments off the stack, and leaves its result there. -/
theorem execute_calling {parsed : MethodDescriptor} {moved : String}
    (hparse : MethodDescriptor.parse report.descriptor = .ok parsed)
    (hmoved : Name.isConstructor moved = false) (frame : FlowFrame) (origin : ℕ) :
    Transfer.execute method source origin (report.calling moved)
        { frame with
          stack := frame.stack.pushAll ((report.argumentTypes parsed).map ValueType.ofFieldType) } =
      .ok (Transfer.pushResult frame parsed.result) := by
  have hdemand : MethodDescriptor.demand report.descriptor = .ok parsed := by
    simp [MethodDescriptor.demand, hparse]
  unfold Report.calling Report.movedCall Report.argumentTypes
  cases report.isStatic with
  | true => exact Transfer.execute_callStatic hdemand frame origin
  | false => exact Transfer.execute_callSpecial hdemand hmoved frame (.object report.owner) origin

/-- What comes first in every report is pushed. -/
theorem straight_pushIdentity (frame : FlowFrame) :
    ∃ frames, Straight method source report.pushIdentity frame frames (identifiedFrame frame) ∧
      ∀ between ∈ frames, between.locals = frame.locals := by
  refine ⟨_, .cons (fun _ => rfl) (.cons (fun _ => rfl) (.cons (fun _ => rfl) (.nil _))), ?_⟩
  simp [Frame.push]

/-- What comes first in every report is pushed under the last value. -/
theorem straight_pushIdentityUnder (frame : FlowFrame) (cls : String) :
    ∃ frames, Straight method source report.pushIdentityUnder (frame.push (.object cls)) frames
        ((identifiedFrame frame).push (.object cls)) ∧
      ∀ between ∈ frames, between.locals = frame.locals := by
  have hunder (content : String) (frame : FlowFrame) : Straight method source
      [.pushString content, .plain Opcode.swap] (frame.push (.object cls))
      [frame.push (.object cls), (frame.push (.object cls)).push (.object Name.string)]
        ((frame.push (.object Name.string)).push (.object cls)) :=
    .cons (fun _ => rfl) (.single fun _ => rfl)
  refine ⟨_, (hunder _ _).append ((hunder _ _).append (hunder _ _)), ?_⟩
  simp [Frame.push]

/-- The time since the one in a slot is pushed. -/
theorem straight_pushElapsed (slot : UInt16) (frame : FlowFrame) :
    ∃ frames, Straight method source (Report.pushElapsed slot) frame frames (frame.push .long) ∧
      ∀ between ∈ frames, between.locals = frame.locals := by
  have hclock (origin : ℕ) : Transfer.execute method source origin readClock (frame.push .long) =
      .ok ((frame.push .long).push .long) := rfl
  have hsub (origin : ℕ) : Transfer.execute method source origin (.plain Opcode.lsub)
      ((frame.push .long).push .long) = .ok (frame.push .long) := rfl
  refine ⟨_, .cons (fun _ => rfl) (.cons hclock (.cons hsub (.single fun _ => rfl))), ?_⟩
  simp [Frame.push]

/-- Behind the call, what is told is put on the stack. -/
theorem straight_timing (frame : FlowFrame) :
    ∃ frames, Straight method source (report.timing types) frame (frame :: frames) (toldFrame frame) ∧
      ∀ between ∈ frames, between.locals = frame.locals := by
  obtain ⟨first, hfirst, hkept⟩ := @straight_pushIdentity method source report frame
  obtain ⟨second, hsecond, hkept'⟩ := @straight_pushElapsed method source (Report.freeSlot types)
    (identifiedFrame frame)
  exact ⟨_, .cons (fun _ => rfl) (hfirst.append hsecond), List.forall_mem_append.mpr ⟨hkept, hkept'⟩⟩

/-- A report takes what is told off the stack. -/
theorem execute_callback {callback : Callback} {types : List FieldType}
    (hparse : MethodDescriptor.parse callback.descriptor = .ok ⟨types, none⟩) (owner : String)
    (frame : FlowFrame) (origin : ℕ) :
    Transfer.execute method source origin (callback.call owner)
        { frame with stack := frame.stack.pushAll (types.map ValueType.ofFieldType) } = .ok frame := by
  have hdemand : MethodDescriptor.demand callback.descriptor = .ok ⟨types, none⟩ := by
    simp [MethodDescriptor.demand, hparse]
  exact @Transfer.execute_callStatic method source ⟨owner, callback.name, callback.descriptor, false⟩ _
    hdemand frame origin

/-- The report of what is thrown leaves only that on the stack. -/
theorem straight_catching (frame : FlowFrame) :
    ∃ frames, Straight method source (report.catching types) (frame.push (.object Name.throwable))
        (frame.push (.object Name.throwable) :: frames) (frame.push (.object Name.throwable)) ∧
      ∀ between ∈ frames, between.locals = frame.locals := by
  set caught := frame.push (.object Name.throwable) with hcaught
  obtain ⟨first, hfirst, hkept⟩ := @straight_pushIdentityUnder method source report caught Name.throwable
  obtain ⟨second, hsecond, hkept'⟩ := @straight_pushElapsed method source (Report.freeSlot types)
    ((identifiedFrame caught).push (.object Name.throwable))
  have hcall (origin : ℕ) : Transfer.execute method source origin (thrown.call report.receiver)
      (((identifiedFrame caught).push (.object Name.throwable)).push .long) = .ok caught :=
    execute_callback (show MethodDescriptor.parse thrown.descriptor = .ok ⟨[.object Name.string,
      .object Name.string, .object Name.string, .object Name.throwable, .base .long], none⟩ from rfl)
      report.receiver caught origin
  refine ⟨_, .cons (fun _ => rfl) (.cons (fun _ => rfl) ((hfirst.append hsecond).append (.single hcall))), ?_⟩
  simp only [List.forall_mem_cons, List.forall_mem_append, List.not_mem_nil, false_implies, implies_true,
    and_true]
  exact ⟨rfl, ⟨hkept, hkept'⟩, rfl⟩

/-! ## Frames at labels -/

/-- A number is pushed beside what follows. -/
theorem annotated_pushLong {value : Int64} {code : List Instruction} {frames : List FlowFrame}
    (hnext : frames.head?.or behind = some (frame.push .long))
    (hrest : Annotated method source marked behind code frames) :
    Annotated method source marked behind (.pushLong value :: code) (frame :: frames) := by
  unfold Instruction.pushLong
  split
  · exact .plain (fun _ => rfl) (fun _ => hnext) rfl rfl hrest
  · split <;> exact .plain (fun _ => rfl) (fun _ => hnext) rfl rfl hrest

/-- The instructions up to the return: each comparison leaves what is told on the stack, and what is not told
by a limit is told as an execution. -/
theorem exists_annotated_closing {after : FlowFrame} (hframe : frame.Canonical)
    (hdone : marked ⟨2⟩ = some frame)
    (hexceeded : ∀ limit ∈ limits, marked limit.exceeded = some (toldFrame frame))
    (hreturn : ∀ origin, Transfer.execute method source origin
      (.plain (Editing.returnOpcode report.descriptor)) frame = .ok after) :
    ∃ frames, Annotated method source marked behind (limits.flatMap Limit.compare ++ report.closing)
        (toldFrame frame :: frames ++ [frame]) ∧
      Along frame.locals (toldFrame frame :: frames ++ [frame]) := by
  have htold := canonical_toldFrame hframe
  induction limits with
  | nil =>
    have hcall (origin : ℕ) : Transfer.execute method source origin (executed.call report.receiver)
        (toldFrame frame) = .ok frame :=
      execute_callback (show MethodDescriptor.parse executed.descriptor = .ok ⟨[.object Name.string,
        .object Name.string, .object Name.string, .base .long], none⟩ from rfl) report.receiver frame origin
    refine ⟨[frame], .plain hcall (fun _ => rfl) rfl rfl (.cons (fun _ => rfl) (fun _ => rfl)
      (List.forall_mem_nil _) ?_ (.plain hreturn (fun hfalls => ?_) rfl rfl .nil)), ?_⟩
    · rintro label other ⟨⟩ hother
      exact Option.some.inj (hdone.symm.trans hother)
    · simp [Instruction.fallsThrough, Editing.isReturn_returnOpcode] at hfalls
    · simp [Along, htold, hframe]
  | cons limit rest ih =>
    obtain ⟨hlimit, hrest⟩ := List.forall_mem_cons.mp hexceeded
    obtain ⟨frames, hframes, halong⟩ := ih hrest
    have hdup (origin : ℕ) : Transfer.execute method source origin (.plain Opcode.dup2) (toldFrame frame) =
        .ok ((toldFrame frame).push .long) := rfl
    have hcompare (origin : ℕ) : Transfer.execute method source origin (.plain Opcode.lcmp)
        (((toldFrame frame).push .long).push .long) = .ok ((toldFrame frame).push .int) := rfl
    have hifge (origin : ℕ) : Transfer.execute method source origin (.jump Opcode.ifge limit.exceeded)
        ((toldFrame frame).push .int) = .ok (toldFrame frame) := rfl
    have hfirst : Annotated method source marked (some (toldFrame frame)) limit.compare
        [toldFrame frame, (toldFrame frame).push .long, ((toldFrame frame).push .long).push .long,
          (toldFrame frame).push .int] :=
      .plain hdup (fun _ => rfl) rfl rfl (annotated_pushLong rfl (.plain hcompare (fun _ => rfl) rfl rfl
        (.cons hifge (fun _ => rfl) (by simpa [Instruction.targets] using hlimit)
          (Annotated.stands_of_unplaced rfl) .nil)))
    have hall := hfirst.append hframes
    refine ⟨(toldFrame frame).push .long :: ((toldFrame frame).push .long).push .long ::
      (toldFrame frame).push .int :: toldFrame frame :: frames, ?_, ?_⟩
    · rw [List.flatMap_cons, List.append_assoc]
      exact hall
    · have hlong := htold.push .long
      exact List.forall_mem_cons.mpr ⟨⟨htold, rfl⟩, List.forall_mem_cons.mpr ⟨⟨hlong, rfl⟩,
        List.forall_mem_cons.mpr ⟨⟨hlong.push _, rfl⟩, List.forall_mem_cons.mpr ⟨⟨htold.push _, rfl⟩,
          halong⟩⟩⟩⟩

/-- The reports of limits that are exceeded go on at the return. -/
theorem exists_annotated_telling (hframe : frame.Canonical) (hdone : marked ⟨2⟩ = some frame)
    (hexceeded : ∀ limit ∈ limits, marked limit.exceeded = some (toldFrame frame))
    (hparse : ∀ limit ∈ limits, MethodDescriptor.parse limit.callback.descriptor =
      .ok ⟨[.object Name.string, .object Name.string, .object Name.string, .base .long, .base .long], none⟩) :
    ∃ frames, Annotated method source marked behind (report.telling limits) frames ∧
      Along frame.locals frames := by
  have htold := canonical_toldFrame hframe
  induction limits generalizing behind with
  | nil => exact ⟨[], .nil, by simp [Along]⟩
  | cons limit rest ih =>
    obtain ⟨hlimit, hexceeded⟩ := List.forall_mem_cons.mp hexceeded
    obtain ⟨hparse, hothers⟩ := List.forall_mem_cons.mp hparse
    obtain ⟨frames, hframes, halong⟩ := @ih behind hexceeded hothers
    have hcall (origin : ℕ) : Transfer.execute method source origin (limit.callback.call report.receiver)
        ((toldFrame frame).push .long) = .ok frame :=
      execute_callback hparse report.receiver frame origin
    have hgoto : Annotated method source marked (frames.head?.or behind) [.jump Opcode.goto ⟨2⟩] [frame] :=
      .cons (fun _ => rfl) (fun hfalls => absurd hfalls (by decide))
        (by simpa [Instruction.targets] using hdone) (Annotated.stands_of_unplaced rfl) .nil
    have htell : Annotated method source marked (frames.head?.or behind) (limit.tell report.receiver ⟨2⟩)
        [toldFrame frame, toldFrame frame, (toldFrame frame).push .long, frame] := by
      refine .cons (fun _ => rfl) (fun _ => rfl) (List.forall_mem_nil _) ?_ (annotated_pushLong rfl
        (.plain hcall (fun _ => rfl) rfl rfl hgoto))
      rintro label other ⟨⟩ hother
      exact Option.some.inj (hlimit.symm.trans hother)
    refine ⟨_, htell.append hframes, List.forall_mem_append.mpr ⟨?_, halong⟩⟩
    simp only [List.forall_mem_cons, List.not_mem_nil, false_implies, implies_true, and_true]
    exact ⟨⟨htold, rfl⟩, ⟨htold, rfl⟩, ⟨htold.push _, rfl⟩, hframe⟩

/-- What is thrown is reported, and thrown again. -/
theorem exists_annotated_catching (hframe : frame.Canonical) (hcatcher : marked ⟨3⟩ = none) :
    ∃ frames, Annotated method source marked behind (report.catching types ++ [.plain Opcode.athrow])
        (frame.push (.object Name.throwable) :: frames) ∧
      Along frame.locals (frame.push (.object Name.throwable) :: frames) := by
  have hcaught := hframe.push (.object Name.throwable)
  obtain ⟨frames, hframes, hlocals⟩ := @straight_catching method source report types frame
  have hplain : ∀ instruction ∈ report.catching types, instruction.targets = [] ∧
      ∀ label, instruction = .label label → marked label = none := by
    refine List.forall_mem_cons.mpr ⟨⟨rfl, ?_⟩, ?_⟩
    · rintro label ⟨⟩
      exact hcatcher
    · simp [Report.pushIdentityUnder, Report.identity, Report.pushElapsed, Instruction.pushString, readClock,
        Callback.call, Instruction.invokeStatic, Instruction.targets]
  have hrun (origin : ℕ) : Transfer.execute method source origin (.plain Opcode.athrow)
      (frame.push (.object Name.throwable)) = .ok frame := rfl
  have hthrow : Annotated method source marked behind [.plain Opcode.athrow]
      [frame.push (.object Name.throwable)] :=
    .plain hrun (fun hfalls => absurd hfalls (by decide)) rfl rfl .nil
  refine ⟨frames ++ [_], (Annotated.of_straight hframes hplain).append hthrow, ?_⟩
  refine List.forall_mem_cons.mpr ⟨⟨hcaught, rfl⟩, List.forall_mem_append.mpr ⟨fun between hmem => ?_, ?_⟩⟩
  · exact ⟨hframes.canonical hcaught between (List.mem_cons_of_mem _ hmem), hlocals between hmem⟩
  · exact List.forall_mem_singleton.mpr ⟨hcaught, rfl⟩

/-- What is returned is taken off the stack. -/
theorem exists_execute_return {parsed : MethodDescriptor}
    (hparse : MethodDescriptor.parse report.descriptor = .ok parsed) (frame : FlowFrame) :
    ∃ after, ∀ origin, Transfer.execute method source origin
      (.plain (Editing.returnOpcode report.descriptor)) (Transfer.pushResult frame parsed.result) =
        .ok after := by
  cases hresult : parsed.result with
  | none =>
    have hvoid := Editing.returnOpcode_of_parse hparse (by rw [MethodDescriptor.resultChars, hresult]; decide)
    rw [hresult] at hvoid
    rw [hvoid]
    exact ⟨frame, fun _ => rfl⟩
  | some type =>
    unfold Editing.returnOpcode
    split
    · exact ⟨frame.push (ValueType.ofFieldType type), fun _ => rfl⟩
    all_goals exact ⟨frame, fun _ => rfl⟩

/-- The frames that are agreed on at labels: at the return, and where a limit is reported. -/
def markedFrames (limits : List Limit) (frame : FlowFrame) (label : Label) : Option FlowFrame :=
  if label = ⟨2⟩ then some frame
  else if label ∈ limits.map Limit.exceeded then some (toldFrame frame) else none

/-- No other label is numbered as the one of a limit. -/
theorem exceeded_number {thresholds : Thresholds} {limit : Limit}
    (h : limit ∈ Limit.ofThresholds thresholds 4) : 4 ≤ limit.exceeded.number := by
  have hmem := List.mem_map_of_mem (f := Limit.exceeded) h
  rw [Limit.map_exceeded_ofThresholds] at hmem
  obtain ⟨number, hnumber, hlabel⟩ := List.mem_map.mp hmem
  rw [← hlabel]
  exact (List.mem_range'_1.mp hnumber).1

/-- Everything up to the return. -/
def returning (report : Report) (moved : String) (types : List FieldType) (limits : List Limit) :
    List Instruction :=
  Report.opening types ++ report.calling moved ::
    (report.timing types ++ (limits.flatMap Limit.compare ++ report.closing))

/-- The reports of limits, and what is done about an exception, come behind the return. -/
theorem instructions_forwarderBody (report : Report) (moved : String) (types : List FieldType)
    (limits : List Limit) :
    (report.forwarderBody moved types limits).instructions =
      returning report moved types limits ++
        (report.telling limits ++ (report.catching types ++ [.plain Opcode.athrow])) := by
  simp [Report.forwarderBody, returning]

/-- Instructions that load variables do not jump, and are no labels. -/
theorem plain_opening (hstart : marked ⟨0⟩ = none) :
    ∀ instruction ∈ Report.opening types, instruction.targets = [] ∧
      ∀ label, instruction = .label label → marked label = none := by
  refine List.forall_mem_append.mpr ⟨?_, fun instruction hmem => ?_⟩
  · refine List.forall_mem_cons.mpr ⟨⟨rfl, nofun⟩, List.forall_mem_cons.mpr ⟨⟨rfl, nofun⟩, ?_⟩⟩
    refine List.forall_mem_singleton.mpr ⟨rfl, ?_⟩
    rintro label ⟨⟩
    exact hstart
  · obtain ⟨type, slot, rfl⟩ := Editing.exists_of_mem_loadFrom hmem
    exact ⟨rfl, nofun⟩

/-- The frames up to the return: the arguments are on the stack when the moved body is called, and its result
is when the forwarder returns. -/
theorem exists_annotated_returning {parsed : MethodDescriptor} {moved : String}
    (hparse : MethodDescriptor.parse report.descriptor = .ok parsed)
    (htypes : types = report.argumentTypes parsed) (hslots : (types.map FieldType.width).sum + 2 ≤ 65536)
    (hmoved : Name.isConstructor moved = false)
    (hframe : frame = Transfer.pushResult (startedFrame types) parsed.result)
    (hstart : marked ⟨0⟩ = none) (hstop : marked ⟨1⟩ = none) (hdone : marked ⟨2⟩ = some frame)
    (hexceeded : ∀ limit ∈ limits, marked limit.exceeded = some (toldFrame frame)) :
    ∃ opened closed,
      Annotated method source marked behind (returning report moved types limits)
        (Frame.ofTypes (types.map ValueType.ofFieldType) [] ::
          (Frame.ofTypes (types.map ValueType.ofFieldType) []).push .long :: opened ++
            calledFrame types :: closed ++ [frame]) ∧
      opened.length + 2 = (Report.opening types).length ∧
      Along (startedFrame types).locals (opened ++ calledFrame types :: closed ++ [frame]) := by
  set entry := Frame.ofTypes (types.map ValueType.ofFieldType) [] with hentry
  have hstarted := canonical_startedFrame types
  have hcanonical : frame.Canonical ∧ frame.locals = (startedFrame types).locals :=
    hframe ▸ canonical_pushResult hstarted parsed.result
  obtain ⟨after, hreturn⟩ := @exists_execute_return method source report parsed hparse (startedFrame types)
  obtain ⟨opened, hopened, hlocals⟩ := @straight_opening method source types hslots
  obtain ⟨timed, htimed, htimedLocals⟩ := @straight_timing method source report types frame
  obtain ⟨closed, hclosed, halong⟩ := @exists_annotated_closing method source report frame marked behind
    limits after hcanonical.1 hdone hexceeded (hframe ▸ hreturn)
  have hcall (origin : ℕ) : Transfer.execute method source origin (report.calling moved) (calledFrame types) =
      .ok frame := by
    rw [hframe, htypes]
    exact execute_calling hparse hmoved (startedFrame (report.argumentTypes parsed)) origin
  have htiming : ∀ instruction ∈ report.timing types, instruction.targets = [] ∧
      ∀ label, instruction = .label label → marked label = none := by
    refine List.forall_mem_cons.mpr ⟨⟨rfl, ?_⟩, ?_⟩
    · rintro label ⟨⟩
      exact hstop
    · simp [Report.pushIdentity, Report.identity, Report.pushElapsed, Instruction.pushString, readClock,
        Instruction.invokeStatic, Instruction.targets]
  have hbehind : Annotated method source marked behind
      (report.timing types ++ (limits.flatMap Limit.compare ++ report.closing))
      (frame :: timed ++ (toldFrame frame :: closed ++ [frame])) :=
    (Annotated.of_straight htimed htiming).append hclosed
  have hall := (Annotated.of_straight hopened (plain_opening hstart)).append
    (.plain hcall (fun _ => rfl) rfl rfl hbehind)
  refine ⟨opened, frame :: timed ++ toldFrame frame :: closed, ?_, ?_, ?_⟩
  · simpa [returning] using hall
  · simpa using hopened.length_eq
  · have hopenedAlong : Along (startedFrame types).locals opened := fun between hmem =>
      ⟨hopened.canonical (.ofTypes _ _) between (by simp [hmem]), hlocals between hmem⟩
    have hcalled : (calledFrame types).Canonical :=
      ⟨by rw [calledFrame, Slots.toList_ofList], hstarted.locals_eq⟩
    have htimedAlong : Along (startedFrame types).locals (frame :: timed) := by
      refine List.forall_mem_cons.mpr ⟨hcanonical, fun between hmem => ?_⟩
      exact ⟨htimed.canonical hcanonical.1 between (List.mem_cons_of_mem _ hmem),
        (htimedLocals between hmem).trans hcanonical.2⟩
    rw [hcanonical.2] at halong
    rw [List.append_assoc, List.cons_append, List.append_assoc]
    exact List.forall_mem_append.mpr ⟨hopenedAlong, List.forall_mem_cons.mpr ⟨⟨hcalled, rfl⟩,
      List.forall_mem_append.mpr ⟨htimedAlong, halong⟩⟩⟩

/-- **Frames stand beside a whole forwarder.**  The arguments are on the stack when the moved body is called,
its result is when the forwarder returns, and only what was thrown is when the handler starts; from the third
instruction on, the arguments and the start time are in the variables. -/
theorem exists_annotated_forwarderBody {parsed : MethodDescriptor} {moved : String} {thresholds : Thresholds}
    (hparse : MethodDescriptor.parse report.descriptor = .ok parsed)
    (htypes : types = report.argumentTypes parsed) (hslots : (types.map FieldType.width).sum + 2 ≤ 65536)
    (hmoved : Name.isConstructor moved = false)
    (hframe : frame = Transfer.pushResult (startedFrame types) parsed.result)
    (hlimits : limits = Limit.ofThresholds thresholds 4) :
    ∃ rest frames, frames = Frame.ofTypes (types.map ValueType.ofFieldType) [] ::
        (Frame.ofTypes (types.map ValueType.ofFieldType) []).push .long :: rest ∧
      Annotated method source (markedFrames limits frame) none
        (report.forwarderBody moved types limits).instructions frames ∧
      Along (startedFrame types).locals rest ∧
      frames[(Report.opening types).length]? = some (calledFrame types) ∧
      frames[(returning report moved types limits).length - 1]? = some frame ∧
      frames[(returning report moved types limits ++ report.telling limits).length]? = some
        ((startedFrame types).push (.object Name.throwable)) := by
  have hunmarked (number : ℕ) (hne : number ≠ 2) (hlow : number < 4) :
      markedFrames limits frame ⟨number⟩ = none := by
    rw [markedFrames, if_neg (by simpa using hne), if_neg]
    intro hmem
    obtain ⟨limit, hlimit, hlabel⟩ := List.mem_map.mp hmem
    have hnumber := exceeded_number (hlimits ▸ hlimit)
    rw [hlabel] at hnumber
    exact absurd hnumber (not_le.mpr hlow)
  have hdone : markedFrames limits frame ⟨2⟩ = some frame := if_pos rfl
  have hexceeded : ∀ limit ∈ limits, markedFrames limits frame limit.exceeded = some (toldFrame frame) := by
    intro limit hlimit
    rw [markedFrames, if_neg, if_pos (List.mem_map_of_mem hlimit)]
    intro hlabel
    have hnumber := exceeded_number (hlimits ▸ hlimit)
    rw [hlabel] at hnumber
    exact absurd hnumber (by decide)
  have hstarted := canonical_startedFrame types
  have hcanonical : frame.Canonical ∧ frame.locals = (startedFrame types).locals :=
    hframe ▸ canonical_pushResult hstarted parsed.result
  obtain ⟨caught, hcaught, hcaughtAlong⟩ := @exists_annotated_catching method source report types
    (startedFrame types) (markedFrames limits frame) none hstarted (hunmarked 3 (by decide) (by decide))
  obtain ⟨told, htold, htoldAlong⟩ := @exists_annotated_telling method source report frame
    (markedFrames limits frame) (some ((startedFrame types).push (.object Name.throwable))) limits
    hcanonical.1 hdone hexceeded fun limit hlimit => parse_descriptor_of_mem (hlimits ▸ hlimit)
  have hbehind : Annotated method source (markedFrames limits frame) none
      (report.telling limits ++ (report.catching types ++ [.plain Opcode.athrow]))
      (told ++ (startedFrame types).push (.object Name.throwable) :: caught) := htold.append hcaught
  obtain ⟨opened, closed, hreturning, hopened, halong⟩ := @exists_annotated_returning method source report
    types frame (markedFrames limits frame) _ limits parsed moved hparse htypes hslots hmoved hframe
    (hunmarked 0 (by decide) (by decide)) (hunmarked 1 (by decide) (by decide)) hdone hexceeded
  have hall := hreturning.append hbehind
  set entry := Frame.ofTypes (types.map ValueType.ofFieldType) [] with hentry
  set opening := entry :: entry.push .long :: opened with hopening
  set returned := opening ++ calledFrame types :: closed with hreturned
  have hlengths := hreturning.length_eq
  have htelling := htold.length_eq
  have hat {front back : List FlowFrame} {between : FlowFrame} {position : ℕ}
      (hlength : front.length = position) : (front ++ between :: back)[position]? = some between := by
    rw [← hlength]
    simp
  refine ⟨opened ++ calledFrame types :: closed ++ [frame] ++
    (told ++ (startedFrame types).push (.object Name.throwable) :: caught), _, rfl, ?_, ?_, ?_, ?_, ?_⟩
  · rw [instructions_forwarderBody]
    simpa [hopening, hreturned] using hall
  · rw [hcanonical.2] at htoldAlong
    exact List.forall_mem_append.mpr ⟨halong, List.forall_mem_append.mpr ⟨htoldAlong, hcaughtAlong⟩⟩
  · have hframes := @hat opening (closed ++ [frame] ++
      (told ++ (startedFrame types).push (.object Name.throwable) :: caught)) (calledFrame types) _ hopened
    simpa [hopening] using hframes
  · have hframes := @hat returned (told ++ (startedFrame types).push (.object Name.throwable) :: caught) frame
      ((returning report moved types limits).length - 1) (by
        rw [← hlengths]
        simp)
    simpa [hopening, hreturned] using hframes
  · have hframes := @hat (returned ++ [frame] ++ told) caught
      ((startedFrame types).push (.object Name.throwable))
      ((returning report moved types limits ++ report.telling limits).length) (by
        rw [List.length_append, hlengths, htelling, List.length_append])
    simpa [hopening, hreturned] using hframes

end

end Benchmark

end ClassInstrument
