import ClassInstrument.Assembly.Frames
import ClassInstrument.Proofs.Analysis.FrameShape
import ClassInstrument.Proofs.Assembly.Requests
import ClassInstrument.Proofs.Frame.Unpacking

/-!
# Where frames are listed

A frame is listed for each instruction that starts a basic block.  Up to labels and line numbers such an
instruction comes behind a label that control may be transferred to, or behind an instruction that does not
continue with the next.  `Body.ListsBlocks` says of a list of frames that it holds exactly these, each as the
analysis has it: with the types of the variables and of the stack, whose creation sites are named by the offsets
of their `new` instructions.
-/

namespace ClassInstrument

open Interning Outcome

/-! ## Basic blocks -/

/-- The instruction does not continue with the next. -/
def Instruction.EndsBlock (instruction : Instruction) : Prop :=
  instruction.isReal ∧ instruction.fallsThrough = false

namespace Body

/-- Some instruction leads to a label, or a handler starts there. -/
def IsTarget (body : Body) (label : Label) : Prop :=
  (∃ instruction ∈ body.instructions, label ∈ instruction.targets) ∨
    ∃ handler ∈ body.handlers, handler.handler = label

/-- The entry is a label that control may be transferred to. -/
def PlacesTarget (body : Body) (entry : Instruction) : Prop :=
  ∃ label, entry = .label label ∧ body.IsTarget label

/-- A position comes behind an entry of some kind, and no instruction is between them. -/
def Follows (body : Body) (kind : Instruction → Prop) (position : ℕ) : Prop :=
  ∃ (place : ℕ) (entry : Instruction), place < position ∧ body.instructions[place]? = some entry ∧
    kind entry ∧ ∀ (between : ℕ) (other : Instruction), place < between → between < position →
      body.instructions[between]? = some other → other.isReal = false

/-- The instruction at a position starts a basic block: control may be transferred to it, or does not come from
the instruction before it. -/
structure StartsBlock (body : Body) (position : ℕ) : Prop where
  /-- An instruction is there. -/
  real : ∃ instruction, body.instructions[position]? = some instruction ∧ instruction.isReal
  /-- It comes behind a target, or behind an instruction that does not continue with it. -/
  entered : body.Follows body.PlacesTarget position ∨ body.Follows Instruction.EndsBlock position

variable {body : Body} {kind : Instruction → Prop} {position : ℕ} {entry : Instruction}

/-- Nothing comes before the first position. -/
theorem not_follows_zero : ¬ body.Follows kind 0 := by
  rintro ⟨place, -, hlt, -⟩
  exact absurd hlt (Nat.not_lt_zero place)

/-- What comes behind an entry: the entry itself, or what comes before it unless it is an instruction. -/
theorem follows_succ (here : body.instructions[position]? = some entry) :
    body.Follows kind (position + 1) ↔ kind entry ∨ (entry.isReal = false ∧ body.Follows kind position) := by
  constructor
  · rintro ⟨place, found, hlt, hfound, hkind, hbetween⟩
    rcases Nat.eq_or_lt_of_le (Nat.lt_succ_iff.mp hlt) with rfl | hlt
    · obtain rfl := Option.some.inj (here.symm.trans hfound)
      exact .inl hkind
    · exact .inr ⟨hbetween position entry hlt (Nat.lt_succ_self position) here, place, found, hlt, hfound,
        hkind, fun between other hplace hposition => hbetween between other hplace (by omega)⟩
  · rintro (hkind | ⟨hunreal, place, found, hlt, hfound, hkind, hbetween⟩)
    · exact ⟨position, entry, Nat.lt_succ_self position, here, hkind, fun between _ _ _ => by omega⟩
    · refine ⟨place, found, by omega, hfound, hkind, fun between other hplace hposition hother => ?_⟩
      rcases Nat.eq_or_lt_of_le (Nat.lt_succ_iff.mp hposition) with rfl | hposition
      · exact Option.some.inj (here.symm.trans hother) ▸ hunreal
      · exact hbetween between other hplace hposition hother

/-- An instruction is no label. -/
theorem not_placesTarget (real : entry.isReal) : ¬ body.PlacesTarget entry := by
  rintro ⟨label, rfl, -⟩
  cases real

/-- Labels and line numbers do not start blocks. -/
theorem not_startsBlock (here : body.instructions[position]? = some entry) (unreal : entry.isReal = false) :
    ¬ body.StartsBlock position := by
  rintro ⟨⟨instruction, hinstruction, real⟩, -⟩
  obtain rfl := Option.some.inj (here.symm.trans hinstruction)
  rw [unreal] at real
  cases real

end Body

/-- The labels that are noted are those that control may be transferred to. -/
theorem BlockFrames.contains_targets {body : Body} {label : Label} :
    (targets body).contains label ↔ body.IsTarget label := by
  have hnote : ∀ (more : List Label) (noted : Std.HashMap Label Unit),
      label ∈ more.foldl (fun noted label => noted.insert label ()) noted ↔ label ∈ noted ∨ label ∈ more := by
    intro more
    induction more with
    | nil => simp
    | cons first more ih =>
      intro noted
      rw [List.foldl_cons, ih, Std.HashMap.mem_insert, List.mem_cons, beq_iff_eq]
      tauto
  have hall : ∀ (instructions : List Instruction) (noted : Std.HashMap Label Unit),
      label ∈ instructions.foldl (fun noted instruction =>
          instruction.targets.foldl (fun noted label => noted.insert label ()) noted) noted ↔
        label ∈ noted ∨ ∃ instruction ∈ instructions, label ∈ instruction.targets := by
    intro instructions
    induction instructions with
    | nil => simp
    | cons first instructions ih =>
      intro noted
      rw [List.foldl_cons, ih, hnote]
      simp only [List.exists_mem_cons_iff, or_assoc]
  rw [Std.HashMap.contains_iff_mem, targets, hnote, hall]
  simp [Body.IsTarget, List.mem_map]

/-! ## What a list of frames shows -/

/-- The type of a variable or stack value during analysis is shown by a type in which creation sites are offsets
of `new` instructions. -/
inductive ShownAs (located : List (Instruction × ℕ)) : FlowType → NamedType → Prop
  /-- All other types are shown as they are. -/
  | plain {type : FlowType} (h : ∀ site, type ≠ .uninit site) : ShownAs located type type
  /-- The site of an object is where the `new` stands that has created it. -/
  | created {site offset : ℕ} {name : String}
      (here : located[site]? = some (.type Opcode.create name, offset)) :
      ShownAs located (.uninit site) (.uninit offset)

/-- A listed frame is the frame at a position: it has its offset, the types of its stack values, and the types of
the entries that stand for its variables. -/
structure BlockFrame.Shows (frame : BlockFrame) (analysis : Analysis) (located : List (Instruction × ℕ))
    (position : ℕ) : Prop where
  /-- The frame is at the offset of the instruction. -/
  offset : ∃ instruction, located[position]? = some (instruction, frame.offset)
  /-- The frame is that of the analysis. -/
  types : ∃ flow, analysis.frames[position]? = some (some flow) ∧
    (∃ entries, Frame.StandFor entries flow.locals ∧
      List.Forall₂ (ShownAs located) entries frame.locals) ∧
    List.Forall₂ (ShownAs located) flow.stack.toList frame.stack

/-- A list of frames holds the frames of the instructions that start blocks, in the order of their offsets. -/
structure Body.ListsBlocks (body : Body) (analysis : Analysis) (located : List (Instruction × ℕ))
    (frames : List BlockFrame) : Prop where
  /-- Offsets increase. -/
  increasing : frames.Pairwise (·.offset < ·.offset)
  /-- Each frame is that of an instruction that starts a block. -/
  shown : ∀ frame ∈ frames, ∃ position, body.StartsBlock position ∧ frame.Shows analysis located position
  /-- Each instruction that starts a block has a frame. -/
  complete : ∀ position, body.StartsBlock position → ∃ frame ∈ frames, frame.Shows analysis located position

/-! ## Writing types -/

/-- A type without a creation site is shown as it is. -/
theorem ShownAs.eq_of_plain {located : List (Instruction × ℕ)} {type : FlowType} {named : NamedType}
    (h : ShownAs located type named) (hplain : ∀ site, type ≠ .uninit site) : named = type := by
  cases h with
  | plain => rfl
  | created => exact absurd rfl (hplain _)

namespace BlockFrames

variable {pool : Pool} {offsets : Layout.Offsets} {instructions : List Instruction}

/-- What is found at the position of an entry is its offset. -/
theorem getD_starts {position offset : ℕ} {instruction : Instruction}
    (here : (offsets.locate instructions)[position]? = some (instruction, offset)) :
    offsets.starts.getD position 0 = offset := by
  have hstart := (List.getElem?_zip_eq_some.mp here).2
  rw [Array.getElem?_toList] at hstart
  rw [Array.getD_eq_getD_getElem?, hstart, Option.getD_some]

/-- A type and its written form are equally wide. -/
theorem isWide_eq_of_writeType {starts : Array ℕ} {type : FlowType} {written : WrittenType}
    (h : (writeType starts type).Settled pool written) : type.isWide = written.isWide := by
  cases type with
  | object name =>
    obtain ⟨index, -, h⟩ := ((Pool.repeats_internClass name).settled_bind fun _ => .pure _).mp h
    obtain rfl := settled_pure.mp h
    rfl
  | _ =>
    obtain rfl := settled_pure.mp h
    rfl

/-- Only the unusable type is written as the unusable one. -/
theorem isTop_eq_of_writeType {starts : Array ℕ} {type : FlowType} {written : WrittenType}
    (h : (writeType starts type).Settled pool written) : Frame.isTop type = Frame.isTop written := by
  cases type with
  | object name =>
    obtain ⟨index, -, h⟩ := ((Pool.repeats_internClass name).settled_bind fun _ => .pure _).mp h
    obtain rfl := settled_pure.mp h
    rfl
  | _ =>
    obtain rfl := settled_pure.mp h
    rfl

/-- A written type stands for one that shows the type. -/
theorem exists_lookUp {type : FlowType} {written : WrittenType}
    (hbound : ∀ entry ∈ offsets.locate instructions, entry.2 < 65536)
    (hcreated : ∀ site, type = .uninit site → ∃ name offset,
      (offsets.locate instructions)[site]? = some (.type Opcode.create name, offset))
    (h : (writeType offsets.starts type).Settled pool written) :
    ∃ named, written.lookUp pool = .ok named ∧ ShownAs (offsets.locate instructions) type named := by
  cases type with
  | object name =>
    obtain ⟨index, hindex, h⟩ := ((Pool.repeats_internClass name).settled_bind fun _ => .pure _).mp h
    obtain rfl := settled_pure.mp h
    refine ⟨.object name, ?_, .plain (by simp)⟩
    rw [ValueType.lookUp, Pool.className_of_settled hindex]
  | uninit site =>
    obtain rfl := settled_pure.mp h
    obtain ⟨name, offset, here⟩ := hcreated site rfl
    have hlt := hbound _ (List.mem_of_getElem? here)
    refine ⟨.uninit offset, ?_, .created here⟩
    rw [getD_starts here, ValueType.lookUp, UInt16.toNat_ofNat_of_lt' hlt]
  | _ =>
    obtain rfl := settled_pure.mp h
    exact ⟨_, rfl, .plain (by simp)⟩

/-- A frame is written variable by variable and value by value. -/
theorem writeFrame_settled {starts : Array ℕ} {flow : FlowFrame} {written : WrittenFrame}
    (h : (writeFrame starts flow).Settled pool written) :
    List.Forall₂ (fun type written => (writeType starts type).Settled pool written) flow.locals
        written.locals ∧
      List.Forall₂ (fun type written => (writeType starts type).Settled pool written) flow.stack.toList
        written.stack.toList := by
  have hlocals := Repeats.mapM (repeats_writeType starts) flow.locals
  have hstack := Repeats.mapM (repeats_writeType starts) flow.stack.toList
  obtain ⟨locals, hfirst, h⟩ := (hlocals.settled_bind fun _ => hstack.bind fun _ => .pure _).mp h
  obtain ⟨stack, hsecond, h⟩ := (hstack.settled_bind fun _ => .pure _).mp h
  obtain rfl := settled_pure.mp h
  refine ⟨(Repeats.settled_mapM (repeats_writeType starts)).mp hfirst, ?_⟩
  rw [Slots.toList_ofList]
  exact (Repeats.settled_mapM (repeats_writeType starts)).mp hsecond

/-- The entries and the stack of a written frame stand for types that show those of the frame. -/
theorem exists_looksUp {flow : FlowFrame} {written : WrittenFrame}
    (hbound : ∀ entry ∈ offsets.locate instructions, entry.2 < 65536)
    (hsound : flow.Sound fun type => ∀ site, type = .uninit site → ∃ name offset,
      (offsets.locate instructions)[site]? = some (.type Opcode.create name, offset))
    (h : (writeFrame offsets.starts flow).Settled pool written) : ∃ locals stack,
      StackMapFrame.LooksUp pool written.localEntries locals ∧
      StackMapFrame.LooksUp pool written.stack.toList stack ∧
      List.Forall₂ (ShownAs (offsets.locate instructions)) flow.localEntries locals ∧
      List.Forall₂ (ShownAs (offsets.locate instructions)) flow.stack.toList stack := by
  have hnamed : ∀ {types : List FlowType} {writtens : List WrittenType},
      (∀ type ∈ types, ∀ site, type = .uninit site → ∃ name offset,
        (offsets.locate instructions)[site]? = some (.type Opcode.create name, offset)) →
      List.Forall₂ (fun type written => (writeType offsets.starts type).Settled pool written) types
        writtens → ∃ named, StackMapFrame.LooksUp pool writtens named ∧
          List.Forall₂ (ShownAs (offsets.locate instructions)) types named := by
    intro types writtens hcreated htypes
    have heach : List.Forall₂ (fun type (written : WrittenType) => ∃ named,
        written.lookUp pool = .ok named ∧ ShownAs (offsets.locate instructions) type named) types writtens :=
      ((List.forall₂_and_left _ _).mpr ⟨hcreated, htypes⟩).imp
        fun type written h => exists_lookUp hbound h.1 h.2
    obtain ⟨named, hnamed, hshown⟩ := exists_mapM_eq_ok heach
    exact ⟨named, mapM_eq_ok.mp hnamed, hshown⟩
  obtain ⟨hlocals, hstack⟩ := writeFrame_settled h
  have hentries := Frame.forall₂_localEntries (fun _ _ => isWide_eq_of_writeType)
    (fun _ _ => isTop_eq_of_writeType) hlocals
  obtain ⟨locals, hlooks, hshown⟩ := hnamed
    (fun type hmem => hsound.locals type (flow.localEntries_sublist.subset hmem)) hentries
  obtain ⟨stack, hlooks', hshown'⟩ := hnamed hsound.stack hstack
  exact ⟨locals, stack, hlooks, hlooks', hshown, hshown'⟩

end BlockFrames

end ClassInstrument
