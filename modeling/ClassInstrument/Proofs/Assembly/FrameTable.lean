import ClassInstrument.Classpath.Hierarchy
import ClassInstrument.Proofs.Assembly.BlockStarts
import ClassInstrument.Proofs.Assembly.Bounds

/-!
# The list of frames of an assembled body

The list of frames in the code of an assembled body says exactly what the analysis of the prepared body has
found out.  It is made in one pass over the instructions, which keeps the frames that the part so far is unpacked
to (`BlockFrames.Progress`).  Unpacked from its bytes, the list holds the frames of the instructions that start
basic blocks, and no others.
-/

namespace ClassInstrument

open Interning Outcome

namespace Assembly

variable {version : Version} {final : Body} {method : MethodContext} {analysis : Analysis}
  {pool : Pool} {offsets : Layout.Offsets} {code : CodeAttribute}

namespace Written

/-- The offsets of all entries fit in two bytes. -/
theorem offset_lt (h : Written version final method analysis offsets pool code) :
    ∀ entry ∈ offsets.locate final.instructions, entry.2 < 65536 := by
  intro entry hmem
  have hbound := (h.spells.bounds hmem).2.1
  have hlength := h.length_le
  simp only [longestCode] at hlength
  omega

/-- The sites that a frame names are located. -/
theorem sound_of_tells (h : Written version final method analysis offsets pool code) {flow : FlowFrame}
    (htells : analysis.Tells final flow) :
    flow.Sound fun type => ∀ site, type = .uninit site → ∃ name offset,
      (offsets.locate final.instructions)[site]? = some (.type Opcode.create name, offset) := by
  refine htells.sound.mono fun type hcreated site hsite => ?_
  obtain ⟨name, hname⟩ := hcreated site hsite
  obtain ⟨offset, here⟩ := (Layout.getElem?_locate h.laid).mp hname
  exact ⟨name, offset, here⟩

end Written

end Assembly

/-! ## One frame more -/

namespace StackMapFrame

variable {pool : Pool} {entry : List NamedType} {before : List BlockFrame} {frame : StackMapFrame}
  {locals stack : List NamedType}

/-- A frame behind others is unpacked at its distance from the last one. -/
theorem unpackNext_eq_ok {offset : ℕ} (hlater : ∀ other ∈ before, other.offset < offset)
    (hlt : offset < 65536)
    (hdelta : frame.delta = BlockFrames.delta (before.getLast?.map BlockFrame.offset) offset)
    (hunpack : frame.unpack pool ((before.getLast?.map BlockFrame.locals).getD entry) = .ok (locals, stack)) :
    unpackNext pool entry before frame = .ok (before ++ [⟨offset, locals, stack⟩]) := by
  unfold unpackNext
  cases hlast : before.getLast? with
  | none =>
    rw [hlast] at hdelta hunpack
    refine bind_eq_ok.mpr ⟨_, hunpack, ?_⟩
    have hoffset : frame.delta.toNat = offset := by
      rw [hdelta]
      exact UInt16.toNat_ofNat_of_lt' hlt
    rw [← hoffset]
    rfl
  | some previous =>
    rw [hlast] at hdelta hunpack
    refine bind_eq_ok.mpr ⟨_, hunpack, ?_⟩
    have hprevious := hlater previous (List.mem_of_getLast? hlast)
    have hdistance : frame.delta.toNat = offset - previous.offset - 1 := by
      rw [hdelta]
      exact UInt16.toNat_ofNat_of_lt' (by simp only [UInt16.size]; omega)
    have hoffset : previous.offset + frame.delta.toNat + 1 = offset := by omega
    rw [← hoffset]
    rfl

end StackMapFrame

namespace BlockFrames

variable {version : Version} {final : Body} {method : MethodContext} {analysis : Analysis}
  {pool : Pool} {offsets : Layout.Offsets} {code : CodeAttribute} {entry : List NamedType} {position : ℕ}
  {state state' : State} {frames : List BlockFrame} {instruction : Instruction}

/-- What has been listed before a position is unpacked to the frames of the instructions that start blocks
there. -/
structure Listed (final : Body) (analysis : Analysis) (located : List (Instruction × ℕ)) (pool : Pool)
    (entry : List NamedType) (position : ℕ) (state : State) (frames : List BlockFrame) : Prop where
  unpacks : StackMapFrame.unpackAll pool entry state.done.reverse = .ok frames
  length_eq : state.done.length = frames.length
  fits : ∀ frame ∈ state.done, frame.Fits
  previous : StackMapFrame.LooksUp pool state.previous.localEntries
    ((frames.getLast?.map BlockFrame.locals).getD entry)
  previousOffset : state.previousOffset = frames.getLast?.map BlockFrame.offset
  increasing : frames.Pairwise (·.offset < ·.offset)
  shown : ∀ frame ∈ frames, ∃ place < position, final.StartsBlock place ∧
    frame.Shows analysis located place
  complete : ∀ place < position, final.StartsBlock place →
    ∃ frame ∈ frames, frame.Shows analysis located place

/-- How far the list is, and whether a frame is due. -/
structure Progress (final : Body) (analysis : Analysis) (located : List (Instruction × ℕ)) (pool : Pool)
    (entry : List NamedType) (position : ℕ) (state : State) (frames : List BlockFrame) : Prop where
  listed : Listed final analysis located pool entry position state frames
  labelled : state.labelled ↔ final.Follows final.PlacesTarget position
  afterJump : state.afterJump ↔ final.Follows Instruction.EndsBlock position

/-- Nothing is listed for an entry that starts no block. -/
theorem Listed.skip {located : List (Instruction × ℕ)}
    (h : Listed final analysis located pool entry position state frames)
    (hstarts : ¬ final.StartsBlock position) (labelled afterJump : Bool) :
    Listed final analysis located pool entry (position + 1) { state with labelled, afterJump } frames where
  unpacks := h.unpacks
  length_eq := h.length_eq
  fits := h.fits
  previous := h.previous
  previousOffset := h.previousOffset
  increasing := h.increasing
  shown frame hmem := by
    obtain ⟨place, hlt, hplace⟩ := h.shown frame hmem
    exact ⟨place, by omega, hplace⟩
  complete place hlt hplace := by
    refine h.complete place ?_ hplace
    rcases Nat.eq_or_lt_of_le (Nat.lt_succ_iff.mp hlt) with rfl | hlt
    · exact absurd hplace hstarts
    · exact hlt

/-- A frame that starts a block is listed behind the others. -/
theorem Listed.snoc {located : List (Instruction × ℕ)} {offset : ℕ} {written : WrittenFrame}
    {locals stack : List NamedType}
    (h : Listed final analysis located pool entry position state frames)
    (hstarts : final.StartsBlock position) (hlater : ∀ other ∈ frames, other.offset < offset)
    (hlt : offset < 65536) (hlocals : StackMapFrame.LooksUp pool written.localEntries locals)
    (hstack : StackMapFrame.LooksUp pool written.stack.toList stack) (hfew : locals.length < 65536)
    (hfew' : stack.length < 65536) (hshows : BlockFrame.Shows ⟨offset, locals, stack⟩ analysis located position)
    (labelled afterJump : Bool) :
    Listed final analysis located pool entry (position + 1)
      { done := .between (delta state.previousOffset offset) state.previous written :: state.done
        previous := written
        previousOffset := some offset
        labelled, afterJump } (frames ++ [⟨offset, locals, stack⟩]) where
  unpacks := by
    have hdelta : (StackMapFrame.between (delta state.previousOffset offset) state.previous written).delta =
        delta (frames.getLast?.map BlockFrame.offset) offset := by
      rw [StackMapFrame.delta_between, h.previousOffset]
    have hnext := StackMapFrame.unpackNext_eq_ok hlater hlt hdelta
      (StackMapFrame.unpack_between h.previous hlocals hstack)
    rw [StackMapFrame.unpackAll, List.reverse_cons, List.foldlM_append]
    refine bind_eq_ok.mpr ⟨frames, h.unpacks, ?_⟩
    rw [List.foldlM_cons]
    exact bind_eq_ok.mpr ⟨_, hnext, rfl⟩
  length_eq := by simp [h.length_eq]
  fits frame hmem := by
    rcases List.mem_cons.mp hmem with rfl | hmem
    · exact StackMapFrame.fits_between (hlocals.length_eq ▸ hfew) (hstack.length_eq ▸ hfew')
    · exact h.fits frame hmem
  previous := by simpa using hlocals
  previousOffset := by simp
  increasing := by
    refine List.pairwise_append.mpr ⟨h.increasing, List.pairwise_singleton _ _, ?_⟩
    intro other hmem frame hframe
    obtain rfl := List.mem_singleton.mp hframe
    exact hlater other hmem
  shown frame hmem := by
    rcases List.mem_append.mp hmem with hmem | hmem
    · obtain ⟨place, hplace, hblock⟩ := h.shown frame hmem
      exact ⟨place, by omega, hblock⟩
    · obtain rfl := List.mem_singleton.mp hmem
      exact ⟨position, Nat.lt_succ_self position, hstarts, hshows⟩
  complete place hplace hblock := by
    rcases Nat.eq_or_lt_of_le (Nat.lt_succ_iff.mp hplace) with rfl | hplace
    · exact ⟨_, List.mem_append_right _ (List.mem_singleton.mpr rfl), hshows⟩
    · obtain ⟨frame, hmem, hother⟩ := h.complete place hplace hblock
      exact ⟨frame, List.mem_append_left _ hmem, hother⟩

/-- What happens at an instruction. -/
theorem step_of_real {starts : Array ℕ} {labels : Std.HashMap Label Unit} (real : instruction.isReal) :
    step analysis starts labels state (instruction, position) = (do
      let state ← if state.labelled || state.afterJump then add analysis starts position state else pure state
      return { state with labelled := false, afterJump := !instruction.fallsThrough }) := by
  cases instruction <;> first | rfl | cases real

/-- What happens at a label or line number. -/
theorem step_of_unreal {starts : Array ℕ} (unreal : instruction.isReal = false) : ∃ labelled : Bool,
    step analysis starts (targets final) state (instruction, position) = pure { state with labelled } ∧
      (labelled ↔ final.PlacesTarget instruction ∨ state.labelled) := by
  cases instruction with
  | label label =>
    refine ⟨_, rfl, ?_⟩
    rw [Bool.or_eq_true, contains_targets, or_comm]
    simp [Body.PlacesTarget]
  | line number =>
    refine ⟨_, rfl, ?_⟩
    simp [Body.PlacesTarget]
  | _ => cases unreal

/-- The frames that are listed so far are at lower offsets. -/
theorem Listed.offset_lt (hwritten : Assembly.Written version final method analysis offsets pool code)
    (h : Listed final analysis (offsets.locate final.instructions) pool entry position state frames)
    {offset : ℕ}
    (hlocated : (offsets.locate final.instructions)[position]? = some (instruction, offset)) :
    ∀ other ∈ frames, other.offset < offset := by
  intro other hmem
  obtain ⟨place, hplace, hblock, hshows⟩ := h.shown other hmem
  obtain ⟨found, hfound⟩ := hshows.offset
  obtain ⟨first, hfirst, hreal⟩ := hblock.real
  exact (hwritten.offset_lt_iff hfound hlocated).mpr ⟨place, first, le_rfl, hplace, hfirst, hreal⟩

section

variable (hwritten : Assembly.Written version final method analysis offsets pool code)
  (htells : ∀ {position : ℕ} {instruction : Instruction} {frame : FlowFrame},
    final.instructions[position]? = some instruction → instruction.isReal →
      analysis.frames[position]? = some (some frame) → analysis.Tells final frame)
include hwritten htells

/-- The frame that is written at an instruction shows what the analysis has found there, and is small enough to be
listed. -/
theorem exists_shows (here : final.instructions[position]? = some instruction) (real : instruction.isReal)
    {offset : ℕ} (hlocated : (offsets.locate final.instructions)[position]? = some (instruction, offset))
    {flow : FlowFrame} (hflow : analysis.frames[position]? = some (some flow)) {written : WrittenFrame}
    (hwrites : (writeFrame offsets.starts flow).Settled pool written) : ∃ locals stack,
      StackMapFrame.LooksUp pool written.localEntries locals ∧
      StackMapFrame.LooksUp pool written.stack.toList stack ∧
      locals.length < 65536 ∧ stack.length < 65536 ∧
      BlockFrame.Shows ⟨offset, locals, stack⟩ analysis (offsets.locate final.instructions) position := by
  have htells := htells here real hflow
  obtain ⟨locals, stack, hlocals, hstack, hshown, hshown'⟩ :=
    exists_looksUp hwritten.offset_lt (hwritten.sound_of_tells htells) hwrites
  refine ⟨locals, stack, hlocals, hstack, ?_, ?_, ⟨instruction, hlocated⟩, flow, hflow,
    ⟨flow.localEntries, Frame.standFor_localEntries htells.sound.halved, hshown⟩, hshown'⟩
  · rw [← hshown.length_eq]
    exact (flow.localEntries_sublist.length_le.trans htells.length_locals).trans_lt hwritten.maxLocals_lt
  · rw [← hshown'.length_eq]
    exact htells.length_stack.trans_lt hwritten.maxStack_lt

/-- The frame of an instruction that starts a block is listed. -/
theorem Listed.add (h : Listed final analysis (offsets.locate final.instructions) pool entry position state
      frames) (hstarts : final.StartsBlock position)
    (hadd : (add analysis offsets.starts position state).Settled pool state') (labelled afterJump : Bool) :
    ∃ frame, Listed final analysis (offsets.locate final.instructions) pool entry (position + 1)
      { state' with labelled, afterJump } (frames ++ [frame]) := by
  obtain ⟨instruction, here, real⟩ := hstarts.real
  obtain ⟨offset, hlocated⟩ := (Layout.getElem?_locate hwritten.laid).mp here
  unfold BlockFrames.add at hadd
  split at hadd
  · exact absurd hadd not_settled_throw
  next flow hflow =>
  obtain ⟨written, hwrites, hadd⟩ :=
    ((repeats_writeFrame offsets.starts flow).settled_bind fun _ => .pure _).mp hadd
  obtain rfl := settled_pure.mp hadd
  rw [getD_starts hlocated]
  obtain ⟨locals, stack, hlocals, hstack, hfew, hfew', hshows⟩ :=
    exists_shows hwritten htells here real hlocated (Option.join_eq_some_iff.mp hflow) hwrites
  refine ⟨⟨offset, locals, stack⟩, h.snoc hstarts (h.offset_lt hwritten hlocated)
    (hwritten.offset_lt _ (List.mem_of_getElem? hlocated)) hlocals hstack hfew hfew' hshows labelled afterJump⟩

/-- One entry is passed. -/
theorem Progress.step (h : Progress final analysis (offsets.locate final.instructions) pool entry position state
      frames) (here : final.instructions[position]? = some instruction)
    (hstep : (step analysis offsets.starts (targets final) state (instruction, position)).Settled pool
      state') : ∃ frames', Progress final analysis (offsets.locate final.instructions) pool entry
        (position + 1) state' frames' := by
  have hfollows : ∀ kind : Instruction → Prop, final.Follows kind (position + 1) ↔
      kind instruction ∨ (instruction.isReal = false ∧ final.Follows kind position) :=
    fun kind => Body.follows_succ here
  by_cases real : instruction.isReal
  · have hlabelled : ¬ final.Follows final.PlacesTarget (position + 1) := by
      simp [hfollows, real, Body.not_placesTarget real]
    have hafter : final.Follows Instruction.EndsBlock (position + 1) ↔ !instruction.fallsThrough := by
      simp [hfollows, real, Instruction.EndsBlock]
    have hstarts : final.StartsBlock position ↔ state.labelled || state.afterJump := by
      rw [Bool.or_eq_true, h.labelled, h.afterJump]
      exact ⟨fun hstarts => hstarts.entered, fun hentered => ⟨⟨instruction, here, real⟩, hentered⟩⟩
    rw [step_of_real real] at hstep
    by_cases hdue : state.labelled || state.afterJump
    · rw [if_pos hdue] at hstep
      obtain ⟨middle, hadd, hstep⟩ := ((repeats_add _ _ _ state).settled_bind fun _ => .pure _).mp hstep
      obtain rfl := settled_pure.mp hstep
      obtain ⟨frame, hlisted⟩ := h.listed.add hwritten htells (hstarts.mpr hdue) hadd false
        (!instruction.fallsThrough)
      exact ⟨_, hlisted, by simpa using hlabelled, hafter.symm⟩
    · rw [if_neg hdue, pure_bind] at hstep
      obtain rfl := settled_pure.mp hstep
      exact ⟨frames, h.listed.skip (fun hblock => hdue (hstarts.mp hblock)) false (!instruction.fallsThrough),
        by simpa using hlabelled, hafter.symm⟩
  · rw [Bool.not_eq_true] at real
    obtain ⟨labelled, hsame, hlabelled⟩ := step_of_unreal real
    rw [hsame] at hstep
    obtain rfl := settled_pure.mp hstep
    refine ⟨frames, h.listed.skip (Body.not_startsBlock here real) labelled state.afterJump, ?_, ?_⟩
    · simp [hlabelled, hfollows, real, h.labelled]
    · simp [hfollows, real, h.afterJump, Instruction.EndsBlock]

/-- All entries of a list are passed. -/
theorem Progress.foldlM {items : List Instruction} (hitems : final.instructions.drop position = items)
    (h : Progress final analysis (offsets.locate final.instructions) pool entry position state frames)
    (hfold : ((items.zipIdx position).foldlM (BlockFrames.step analysis offsets.starts (targets final))
      state).Settled pool state') : ∃ frames', Progress final analysis (offsets.locate final.instructions)
        pool entry (position + items.length) state' frames' := by
  induction items generalizing position state frames with
  | nil =>
    obtain rfl := settled_pure.mp hfold
    exact ⟨frames, h⟩
  | cons instruction items ih =>
    have here : final.instructions[position]? = some instruction := by
      rw [← Nat.add_zero position, ← List.getElem?_drop, hitems]
      rfl
    have hrest : final.instructions.drop (position + 1) = items := by
      rw [← List.drop_drop, hitems]
      rfl
    rw [List.zipIdx_cons, List.foldlM_cons] at hfold
    obtain ⟨middle, hstep, hfold⟩ := ((repeats_step _ _ _ state _).settled_bind fun _ =>
      .foldlM (repeats_step _ _ _) _ _).mp hfold
    obtain ⟨frames', hnext⟩ := h.step hwritten htells here hstep
    rw [List.length_cons, Nat.add_comm items.length 1, ← Nat.add_assoc]
    exact ih hrest hnext hfold

/-- The list of frames of a body is unpacked to those of the instructions that start blocks. -/
theorem exists_unpackAll {initial : FlowFrame} (hinitial : method.initialFrame = .ok initial)
    {listed : List StackMapFrame} (hlist : (list final method analysis offsets.starts).Settled pool listed) :
    ∃ frames, StackMapFrame.unpackAll pool initial.localEntries listed = .ok frames ∧
      listed.length = frames.length ∧ (∀ frame ∈ listed, frame.Fits) ∧
        final.ListsBlocks analysis (offsets.locate final.instructions) frames := by
  have hsteps := fun state => Repeats.foldlM (repeats_step analysis offsets.starts (targets final))
    final.instructions.zipIdx state
  obtain ⟨initial', hinitial', hlist⟩ := ((Repeats.lift _).settled_bind fun initial =>
    (repeats_writeFrame offsets.starts initial).bind fun _ => (hsteps _).bind fun _ => .pure _).mp hlist
  obtain rfl := Except.ok.inj (hinitial.symm.trans (settled_lift.mp hinitial'))
  obtain ⟨entry, hentry, hlist⟩ := ((repeats_writeFrame offsets.starts initial).settled_bind fun _ =>
    (hsteps _).bind fun _ => .pure _).mp hlist
  obtain ⟨last, hfold, hlist⟩ := ((hsteps _).settled_bind fun _ => .pure _).mp hlist
  obtain rfl := settled_pure.mp hlist
  have hplain := MethodContext.sound_initialFrame hinitial
  obtain ⟨locals, -, hlocals, -, hshown, -⟩ := exists_looksUp hwritten.offset_lt
    (hplain.mono fun type hplain site hsite => absurd hsite (hplain site)) hentry
  -- No type on entry names a creation site, so the entries are those of the frame itself.
  have hsame : locals = initial.localEntries := by
    have hequal : List.Forall₂ (fun type named => named = type) initial.localEntries locals :=
      ((List.forall₂_and_left _ _).mpr ⟨fun type hmem =>
        hplain.locals type (initial.localEntries_sublist.subset hmem), hshown⟩).imp
          fun type named h => h.2.eq_of_plain h.1
    exact (List.forall₂_eq_eq_eq ▸ hequal.flip :)
  subst hsame
  have hstart : Progress final analysis (offsets.locate final.instructions) pool initial.localEntries 0
      { done := [], previous := entry, previousOffset := none, afterJump := false, labelled := false } [] := {
    listed := {
      unpacks := rfl
      length_eq := rfl
      fits := by simp
      previous := hlocals
      previousOffset := rfl
      increasing := .nil
      shown := by simp
      complete := fun place hlt => absurd hlt (Nat.not_lt_zero place) }
    labelled := by simp [Body.not_follows_zero]
    afterJump := by simp [Body.not_follows_zero] }
  obtain ⟨frames, hlisted, -, -⟩ := hstart.foldlM hwritten htells rfl hfold
  refine ⟨frames, hlisted.unpacks, by rw [List.length_reverse, hlisted.length_eq],
    fun frame hmem => hlisted.fits frame (List.mem_reverse.mp hmem), hlisted.increasing, ?_, ?_⟩
  · intro frame hmem
    obtain ⟨place, -, hplace⟩ := hlisted.shown frame hmem
    exact ⟨place, hplace⟩
  · intro place hplace
    obtain ⟨instruction, here, -⟩ := hplace.real
    have hlt := (List.getElem?_eq_some_iff.mp here).1
    exact hlisted.complete place (by simpa using hlt) hplace

end

end BlockFrames

/-! ## The attribute -/

namespace Assembly

variable {version : Version} {final : Body} {method : MethodContext} {analysis : Analysis}
  {pool : Pool} {offsets : Layout.Offsets} {code : CodeAttribute}

/-- An attribute lists frames if its name says so. -/
theorem listsFrames_of_make {name : String} {info : Bytes} {attr : Attribute}
    (h : (Attribute.make name info).Settled pool attr) :
    attr.listsFrames pool = decide (name = StackMapFrame.attributeName) := by
  rw [Attribute.listsFrames, (Attribute.of_settled_make h).1]
  simp [Except.toOption]

/-- No list of lines lists frames. -/
theorem not_listsFrames_of_lines {attrs : List Attribute}
    (h : (lineAttributes final offsets).Settled pool attrs) :
    ∀ attr ∈ attrs, attr.listsFrames pool = false := by
  unfold lineAttributes at h
  dsimp only at h
  split at h
  · obtain rfl := settled_pure.mp h
    simp
  · obtain ⟨attr, hattr, h⟩ := ((Attribute.repeats_make _ _).settled_bind fun _ => .pure _).mp h
    obtain rfl := settled_pure.mp h
    rw [List.forall_mem_singleton, listsFrames_of_make hattr]
    decide

/-- No list of scopes lists frames. -/
theorem not_listsFrames_of_scopes {name : String} (hname : name ≠ StackMapFrame.attributeName)
    {labels : Placements} {ranges : List VariableRange} {attrs : List Attribute}
    (h : (variableAttributes name labels ranges).Settled pool attrs) :
    ∀ attr ∈ attrs, attr.listsFrames pool = false := by
  unfold variableAttributes at h
  split at h
  · obtain rfl := settled_pure.mp h
    simp
  · obtain ⟨entries, -, h⟩ := ((Repeats.lift _).settled_bind fun _ =>
      (Attribute.repeats_make _ _).bind fun _ => .pure _).mp h
    obtain ⟨attr, hattr, h⟩ := ((Attribute.repeats_make _ _).settled_bind fun _ => .pure _).mp h
    obtain rfl := settled_pure.mp h
    rw [List.forall_mem_singleton, listsFrames_of_make hattr]
    simpa using hname

namespace Written

/-- The frames that are read from the attributes of a body are those that were listed for it. -/
theorem exists_listed (h : Written version final method analysis offsets pool code)
    (hframes : version.usesFrames) : ∃ listed,
      (BlockFrames.list final method analysis offsets.starts).Settled pool listed ∧
      (code.attributes.filter (Attribute.listsFrames pool) = [] ∧ listed = [] ∨
        ∃ attr, code.attributes.filter (Attribute.listsFrames pool) = [attr] ∧
          attr.info = StackMapFrame.writeTable listed) := by
  obtain ⟨first, lines, scopes, typeScopes, hfirst, hlines, hscopes, htypeScopes, hattributes⟩ :=
    h.exists_attributes
  have hnone : ∀ {attrs : List Attribute}, (∀ attr ∈ attrs, attr.listsFrames pool = false) →
      attrs.filter (Attribute.listsFrames pool) = [] := fun hattrs =>
    List.filter_eq_nil_iff.mpr fun attr hmem => by simp [hattrs attr hmem]
  rw [hattributes, List.filter_append, List.filter_append, List.filter_append,
    hnone (not_listsFrames_of_lines hlines), hnone (not_listsFrames_of_scopes (by decide) hscopes),
    hnone (not_listsFrames_of_scopes (by decide) htypeScopes), List.append_nil, List.append_nil,
    List.append_nil]
  unfold frameAttributes at hfirst
  rw [if_pos hframes] at hfirst
  obtain ⟨listed, hlisted, hfirst⟩ :=
    ((BlockFrames.repeats_list final method analysis offsets.starts).settled_bind fun frames => by
      split
      · exact .pure _
      · exact (Attribute.repeats_make _ _).bind fun _ => .pure _).mp hfirst
  refine ⟨listed, hlisted, ?_⟩
  split at hfirst
  · next hempty =>
    obtain rfl := settled_pure.mp hfirst
    exact .inl ⟨rfl, List.isEmpty_iff.mp hempty⟩
  · obtain ⟨attr, hattr, hfirst⟩ := ((Attribute.repeats_make _ _).settled_bind fun _ => .pure _).mp hfirst
    obtain rfl := settled_pure.mp hfirst
    refine .inr ⟨attr, ?_, (Attribute.of_settled_make hattr).2⟩
    rw [List.filter_singleton, listsFrames_of_make hattr]
    rfl

/-- There are fewer frames than two bytes can count. -/
theorem length_frames_lt (h : Written version final method analysis offsets pool code)
    {frames : List BlockFrame}
    (hlists : final.ListsBlocks analysis (offsets.locate final.instructions) frames) :
    frames.length < 65536 := by
  have hnodup : (frames.map BlockFrame.offset).Nodup :=
    List.pairwise_map.mpr (hlists.increasing.imp fun hlt => hlt.ne)
  have hsubset : frames.map BlockFrame.offset ⊆ List.range code.code.length := by
    intro offset hmem
    obtain ⟨frame, hframe, rfl⟩ := List.mem_map.mp hmem
    obtain ⟨position, hblock, hshows⟩ := hlists.shown frame hframe
    obtain ⟨instruction, hlocated⟩ := hshows.offset
    obtain ⟨found, hfound, real⟩ := hblock.real
    obtain rfl := Option.some.inj
      (hfound.symm.trans ((Layout.getElem?_locate h.laid).mpr ⟨frame.offset, hlocated⟩))
    have hbound := (h.spells.bounds (List.mem_of_getElem? hlocated)).2.2 real
    exact List.mem_range.mpr (by omega)
  have hlength := (List.subperm_of_subset hnodup hsubset).length_le
  have hle := h.length_le
  rw [List.length_map, List.length_range] at hlength
  simp only [longestCode] at hle
  omega

/-- The list of frames that was written for a body holds those of the instructions that start blocks. -/
theorem exists_unpackFrames (h : Written version final method analysis offsets pool code)
    (hframes : version.usesFrames)
    (htells : ∀ {position : ℕ} {instruction : Instruction} {frame : FlowFrame},
      final.instructions[position]? = some instruction → instruction.isReal →
        analysis.frames[position]? = some (some frame) → analysis.Tells final frame)
    {initial : FlowFrame} (hinitial : method.initialFrame = .ok initial) :
    ∃ frames, code.unpackFrames pool initial.localEntries = .ok frames ∧
      final.ListsBlocks analysis (offsets.locate final.instructions) frames := by
  obtain ⟨listed, hlisted, hattributes⟩ := h.exists_listed hframes
  obtain ⟨frames, hunpack, hlength, hfits, hlists⟩ :=
    BlockFrames.exists_unpackAll h htells hinitial hlisted
  have hlt := h.length_frames_lt hlists
  refine ⟨frames, ?_, hlists⟩
  unfold CodeAttribute.unpackFrames
  rcases hattributes with ⟨hnone, rfl⟩ | ⟨attr, hone, hinfo⟩
  · rw [hnone]
    exact hunpack
  · rw [hone]
    refine bind_eq_ok.mpr ⟨listed, ?_, hunpack⟩
    rw [hinfo]
    exact StackMapFrame.readAll_writeTable hfits (hlength ▸ hlt)

end Written

/-! ## Prepared bodies -/

/-- The roots of the second analysis are at the replacements of dead code. -/
theorem Prepared.of_mem_roots {body middle : Body} {hierarchy : Hierarchy} {first : Analysis}
    {runs : List DeadRun} {changed : Bool} {roots : List Root}
    (h : Prepared body method hierarchy pool first runs middle changed roots final analysis)
    (hlabelled : body.WellLabelled) {root : Root} (hmem : root ∈ roots) :
    final.instructions[root.1]? = some (.plain Opcode.athrow) ∧ root.2 = deadCodeFrame := by
  have hmiddle : ∀ run ∈ runs, ∃ place : ℕ, middle.instructions[place]? = some (.label run.start) ∧
      middle.instructions[place + 1]? = some (.plain Opcode.athrow) := by
    intro run hrun
    obtain ⟨pieces, -, houtput, hruns⟩ := h.replaced.pass
    obtain ⟨i, hi⟩ := List.mem_iff_getElem?.mp (hruns run hrun)
    rw [houtput]
    exact ⟨_, Pieces.getElem?_shift (j := 0) hi (by simp [DeadCode.replacement]),
      Pieces.getElem?_shift (j := 1) hi (by simp [DeadCode.replacement])⟩
  have hfinal := (Body.widenJumps_induction (fun next => ∀ run ∈ runs, ∃ place : ℕ,
      next.instructions[place]? = some (.label run.start) ∧
        next.instructions[place + 1]? = some (.plain Opcode.athrow))
    (fun {next next'} hround hkept run hrun => by
      obtain ⟨entries, pieces, hentries, hpass, houtput⟩ := hround.pass
      obtain ⟨place, hplace, hthrow⟩ := hkept run hrun
      obtain ⟨hpiece, hlabel⟩ := Widening.label_shift hentries hpass houtput hplace
      obtain ⟨_, _, piece, _, -, hrewrites, hget⟩ := Widening.exists_piece hentries hpass houtput hthrow
      cases hrewrites
      rw [Pieces.shift_succ hpiece] at hget
      exact ⟨_, hlabel, hget (j := 0) (by simp)⟩) hmiddle h.widened).1
  obtain ⟨label, hlabel, hroot⟩ := exists_left_of_forall₂ (mapM_eq_ok.mp h.entered) hmem
  obtain ⟨run, hrun, rfl⟩ := List.mem_map.mp hlabel
  obtain ⟨position, hfind, hroot⟩ := bind_eq_ok.mp hroot
  obtain rfl := pure_eq_ok.mp hroot
  obtain ⟨place, hplace, hthrow⟩ := hfinal run hrun
  have hlabelled' := h.wellLabelled hlabelled
  obtain rfl := eq_of_placedLabels hlabelled'.placedOnce hplace
    ((Placements.find_firstPositions hlabelled').mp hfind)
  exact ⟨hthrow, rfl⟩

/-- The frames at the instructions of a prepared body can be written. -/
theorem Prepared.tells {body middle : Body} {hierarchy : Hierarchy} {first : Analysis}
    {runs : List DeadRun} {changed : Bool} {roots : List Root}
    (h : Prepared body method hierarchy pool first runs middle changed roots final analysis)
    (hlabelled : body.WellLabelled) {position : ℕ} {instruction : Instruction} {frame : FlowFrame}
    (here : final.instructions[position]? = some instruction) (real : instruction.isReal)
    (hframe : analysis.frames[position]? = some (some frame)) : analysis.Tells final frame := by
  refine tells_of_analyze (fun root hmem => ?_) h.analyzed here real hframe
  obtain ⟨hthrow, hdead⟩ := h.of_mem_roots hlabelled hmem
  refine ⟨(List.getElem?_eq_some_iff.mp hthrow).1, hdead ▸ ?_⟩
  exact Frame.Sound.empty.push (by simp)

end Assembly

/-- **The list of frames says what the analysis has found out.**  If a well labelled body is assembled for a
version of class files that has lists of frames, then the list in its code can be unpacked, from its bytes on,
with the classes that the pool names and beginning with the frame on entry to the method.  It holds, with
increasing offsets, a frame for each instruction of the prepared body that starts a basic block, and no others; and
each of these frames has the variables and the stack that the analysis of the prepared body has found for its
instruction. -/
theorem unpackFrames_assemble {body : Body} {method : MethodContext} {version : Version}
    {hierarchy : Hierarchy} {pool pool' : Pool} {code : CodeAttribute} (hlabelled : body.WellLabelled)
    (hframes : version.usesFrames)
    (h : (body.assemble method version hierarchy).finish pool = .ok (code, pool')) :
    ∃ final analysis middle located initial frames,
      (Assembly.prepare body method hierarchy).finish pool = .ok ((final, analysis), middle) ∧
      located.map Prod.fst = final.instructions ∧
      Encoding.Spells (Placements.ofList located) pool' 0 located code.code ∧
      method.initialFrame = .ok initial ∧
      code.unpackFrames pool' initial.localEntries = .ok frames ∧
      final.ListsBlocks analysis located frames := by
  obtain ⟨-, final, analysis, middle, offsets, hprepare, hsettled, hwritten⟩ := Body.exists_written h
  obtain ⟨first, runs, replaced, changed, roots, hprepared⟩ := Assembly.exists_prepared hsettled
  obtain ⟨initial, -, -, -, hinitial, -⟩ := analyze_eq_ok.mp hprepared.analyzed
  obtain ⟨frames, hunpack, hlists⟩ := hwritten.exists_unpackFrames hframes
    (fun here real hframe => hprepared.tells hlabelled here real hframe) hinitial
  exact ⟨final, analysis, middle, offsets.locate final.instructions, initial, frames, hprepare,
    (Layout.lays_of_offsets hwritten.laid).1, hwritten.spells, hinitial, hunpack, hlists⟩

/-- A body that leaves a value on the stack, whichever way control takes. -/
def branching : Body where
  instructions := [.var Opcode.iload 0, .var Opcode.iload 0, .jump Opcode.ifeq ⟨0⟩, .label ⟨0⟩,
    .plain 87, .plain Opcode.returnVoid]
  nextLabel := 1

/-- A method with a wide parameter. -/
def branchingMethod : MethodContext := ⟨"A", "f", "(IJ)V", true⟩

/-- What the analysis finds out for the body. -/
def branchingAnalysis : Analysis where
  frames := #[[], [.int], [.int, .int], [.int], [.int], []].map
    fun values => some (Frame.ofTypes [.int, .long] values)
  maxStack := 2
  maxLocals := 3

/-- Where the instructions of the body are laid out. -/
def branchingOffsets : Layout.Offsets := ⟨#[0, 1, 2, 5, 5, 6], 7⟩

/-- The body is assembled with a list of one frame. -/
theorem exists_assemble_branching : ∃ code pool',
    (branching.assemble branchingMethod ⟨50, 0⟩ Classpath.empty.hierarchy).finish Pool.empty =
      .ok (code, pool') := by
  have hprepare : (Assembly.prepare branching branchingMethod Classpath.empty.hierarchy).finish
      Pool.empty = .ok ((branching, branchingAnalysis), Pool.empty) := by
    cbv
  have hlayout : (Layout.offsets branching.instructions).finish Pool.empty =
      .ok (branchingOffsets, Pool.empty) := by
    cbv
  have hcode : (Encoding.writeAll (branchingOffsets.labels branching.instructions)
      (branchingOffsets.locate branching.instructions)).finish Pool.empty =
        .ok ([26, 26, 153, 0, 3, 87, 177], Pool.empty) := by
    cbv
  have hlist : (BlockFrames.list branching branchingMethod branchingAnalysis
      branchingOffsets.starts).finish Pool.empty = .ok ([.oneStack 5 .int], Pool.empty) := by
    cbv
  obtain ⟨attr, pool', hmake⟩ : ∃ attr pool', (Attribute.make StackMapFrame.attributeName
      (StackMapFrame.writeTable [.oneStack 5 .int])).finish Pool.empty = .ok (attr, pool') :=
    ⟨_, _, finish_bind.mpr ⟨_, _, Pool.finish_intern.mpr
      (Pool.request_of_not_mem (by simp [Pool.empty]) (by decide)), rfl⟩⟩
  have hattributes : (Assembly.attributes ⟨50, 0⟩ branching branchingMethod branchingAnalysis
      branchingOffsets).finish Pool.empty = .ok ([attr], pool') :=
    finish_bind.mpr ⟨_, _, finish_bind.mpr ⟨_, _, hlist, finish_bind.mpr ⟨_, _, hmake, rfl⟩⟩, rfl⟩
  exact ⟨_, _, finish_bind.mpr ⟨_, _, hprepare, finish_bind.mpr ⟨_, _, hlayout, finish_bind.mpr
    ⟨_, _, hcode, finish_bind.mpr ⟨[], _, rfl, finish_bind.mpr ⟨_, _, hattributes, rfl⟩⟩⟩⟩⟩⟩

/-- The list of frames of a body with a jump is unpacked. -/
theorem exists_unpackFrames_branching : branching.WellLabelled ∧ (⟨50, 0⟩ : Version).usesFrames ∧
    ∃ code pool', (branching.assemble branchingMethod ⟨50, 0⟩ Classpath.empty.hierarchy).finish Pool.empty =
      .ok (code, pool') ∧ ∃ final analysis middle located initial frames,
      (Assembly.prepare branching branchingMethod Classpath.empty.hierarchy).finish Pool.empty =
        .ok ((final, analysis), middle) ∧
      located.map Prod.fst = final.instructions ∧
      Encoding.Spells (Placements.ofList located) pool' 0 located code.code ∧
      branchingMethod.initialFrame = .ok initial ∧
      code.unpackFrames pool' initial.localEntries = .ok frames ∧
      final.ListsBlocks analysis located frames := by
  have hlabelled : branching.WellLabelled := ⟨by decide, by decide⟩
  have hframes : (⟨50, 0⟩ : Version).usesFrames := by decide
  obtain ⟨code, pool', hassemble⟩ := exists_assemble_branching
  exact ⟨hlabelled, hframes, code, pool', hassemble, unpackFrames_assemble hlabelled hframes hassemble⟩

end ClassInstrument
