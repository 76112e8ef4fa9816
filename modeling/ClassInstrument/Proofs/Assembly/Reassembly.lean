import ClassInstrument.Proofs.Assembly.SameCode

/-!
# Assembling what was decoded

What was assembled is decoded to a body that says the same as the one that was laid out.  Assembling that body, its
dead code is replaced by itself and no jump is widened, and it is written as before.  Only the frames may be others,
for where an analysis merges frames depends on labels, and some are placed that were not there.
-/

namespace ClassInstrument

open Interning Outcome

/-- The code of a method without its list of frames. -/
def CodeAttribute.withoutFrames (code : CodeAttribute) (pool : Pool) : CodeAttribute :=
  { code with attributes := code.attributes.filter fun attr => !attr.listsFrames pool }

namespace Assembly

variable {version : Version} {final : Body} {method : MethodContext} {analysis : Analysis}
  {offsets : Layout.Offsets} {pool pool' : Pool} {code : Bytes} {entries : List (Option HandlerEntry)}
  {frames lines scopes typeScopes : List Attribute} {maxStack maxLocals : UInt16}

/-! ## Writing -/

section

variable (hcode : (Encoding.writeAll (offsets.labels final.instructions)
    (offsets.locate final.instructions)).Settled pool code)
  (hhandlers : (final.handlers.mapM (handlerEntry (offsets.labels final.instructions))).Settled pool entries)
include hcode hhandlers

/-- What is asked for to write a body is what is asked for its frames, if all else is there. -/
theorem finish_write (hlines : (lineAttributes final offsets).Settled pool lines)
    (hscopes : (variableAttributes VariableEntry.attributeName (offsets.labels final.instructions)
      final.scopes).Settled pool scopes)
    (htypeScopes : (variableAttributes VariableEntry.typeAttributeName (offsets.labels final.instructions)
      final.typeScopes).Settled pool typeScopes)
    (hstack : slotCount .stackTooHigh analysis.maxStack = .ok maxStack)
    (hlocals : slotCount .tooManyLocals analysis.maxLocals = .ok maxLocals)
    (hframes : (frameAttributes version final method analysis offsets.starts).finish pool = .ok (frames, pool')) :
    (write version final method analysis offsets).finish pool =
      .ok (⟨maxStack, maxLocals, code, entries.filterMap id, frames ++ lines ++ scopes ++ typeScopes⟩, pool') := by
  have hextends := (repeats_frameAttributes version final method analysis offsets.starts).extends_of_finish hframes
  have hattributes : (attributes version final method analysis offsets).finish pool =
      .ok (frames ++ lines ++ scopes ++ typeScopes, pool') :=
    finish_bind.mpr ⟨frames, pool', hframes, ((repeats_lineAttributes final offsets).settled_mono hlines hextends).bind
      (((repeats_variableAttributes _ _ _).settled_mono hscopes hextends).bind
        (((repeats_variableAttributes _ _ _).settled_mono htypeScopes hextends).bind (settled_pure.mpr rfl)))⟩
  unfold write
  rw [hcode.finish_bind, hhandlers.finish_bind]
  exact finish_bind.mpr ⟨_, _, hattributes, (settled_lift.mpr hstack).bind
    ((settled_lift.mpr hlocals).bind (settled_pure.mpr rfl))⟩

/-- A body whose frames cannot be written cannot be written. -/
theorem finish_write_eq_error {fault : Fault}
    (hframes : (frameAttributes version final method analysis offsets.starts).finish pool = .error fault) :
    (write version final method analysis offsets).finish pool = .error fault := by
  unfold write
  rw [hcode.finish_bind, hhandlers.finish_bind]
  exact finish_bind_eq_error.mpr (.inl (finish_bind_eq_error.mpr (.inl hframes)))

end

/-! ## Lists of frames -/

/-- What is written for the frames of a body is the list of frames. -/
theorem listsFrames_of_frames
    (h : (frameAttributes version final method analysis offsets.starts).Settled pool frames) :
    ∀ attr ∈ frames, attr.listsFrames pool := by
  unfold frameAttributes at h
  split at h
  · obtain ⟨listed, -, h⟩ := ((BlockFrames.repeats_list final method analysis offsets.starts).settled_bind fun _ => by
      split
      · exact .pure _
      · exact (Attribute.repeats_make _ _).bind fun _ => .pure _).mp h
    split at h
    · obtain rfl := settled_pure.mp h
      simp
    · obtain ⟨attr, hattr, h⟩ := ((Attribute.repeats_make _ _).settled_bind fun _ => .pure _).mp h
      obtain rfl := settled_pure.mp h
      simpa using listsFrames_of_make hattr
  · obtain rfl := settled_pure.mp h
    simp

/-- Without its list of frames the code of a body has lists of lines and scopes only. -/
theorem filter_not_listsFrames {labels : Placements}
    (hframes : (frameAttributes version final method analysis offsets.starts).Settled pool frames)
    (hlines : (lineAttributes final offsets).Settled pool lines)
    (hscopes : (variableAttributes VariableEntry.attributeName labels final.scopes).Settled pool scopes)
    (htypeScopes : (variableAttributes VariableEntry.typeAttributeName labels final.typeScopes).Settled pool typeScopes) :
    (frames ++ lines ++ scopes ++ typeScopes).filter (fun attr => !attr.listsFrames pool) =
      lines ++ scopes ++ typeScopes := by
  have hnone : frames.filter (fun attr => !attr.listsFrames pool) = [] :=
    List.filter_eq_nil_iff.mpr fun attr hmem => by simp [listsFrames_of_frames hframes attr hmem]
  have hall {attrs : List Attribute} (h : ∀ attr ∈ attrs, attr.listsFrames pool = false) :
      attrs.filter (fun attr => !attr.listsFrames pool) = attrs :=
    List.filter_eq_self.mpr fun attr hmem => by simp [h attr hmem]
  rw [List.filter_append, List.filter_append, List.filter_append, hnone, hall (not_listsFrames_of_lines hlines),
    hall (not_listsFrames_of_scopes (by decide) hscopes), hall (not_listsFrames_of_scopes (by decide) htypeScopes),
    List.nil_append]

end Assembly

/-! ## Dead code that is replaced by itself -/

namespace Body.CollapsesAgain

variable {version : Version} {body marked original : Body} {method : MethodContext} {hierarchy : Hierarchy}
  {first analysis : Analysis} {dead : List Label} {roots : List Root} {offsets : Layout.Offsets} {pool : Pool}
  (h : body.CollapsesAgain method hierarchy first original marked dead roots analysis)
include h

/-- The body is prepared without a request, if no jump has to be widened. -/
theorem settled_prepare (hfirst : analyze body method hierarchy [] = .ok first)
    (hwidened : marked.widenJumps.Settled pool (marked, false)) :
    (Assembly.prepare body method hierarchy).Settled pool (marked, analysis) := by
  refine (settled_lift.mpr hfirst).bind ((settled_lift.mpr h.result).bind (hwidened.bind ?_))
  dsimp only
  by_cases hnone : dead = []
  · -- Without dead code the first analysis is the last one.
    have hroots := h.entered
    have hanalysis := h.analyzed
    obtain rfl := h.unchanged hnone
    subst hnone
    obtain rfl := Except.ok.inj hroots
    obtain rfl := Except.ok.inj (hfirst.symm.trans hanalysis)
    simpa using settled_pure.mpr rfl
  · rw [if_neg (by simpa using hnone)]
    exact (settled_lift.mpr h.entered).bind ((settled_lift.mpr h.analyzed).bind (settled_pure.mpr rfl))

/-- Assembling the body is writing what comes out when its dead code is replaced. -/
theorem finish_assemble (hfirst : analyze body method hierarchy [] = .ok first)
    (hwidened : marked.widenJumps.Settled pool (marked, false))
    (hlaid : (Layout.offsets marked.instructions).Settled pool offsets)
    (hlength : offsets.length ≤ Assembly.longestCode) :
    (body.assemble method version hierarchy).finish pool =
      (Assembly.write version marked method analysis offsets).finish pool := by
  unfold Body.assemble
  rw [(h.settled_prepare hfirst hwidened).finish_bind]
  dsimp only
  rw [hlaid.finish_bind, if_neg (Nat.not_lt.mpr hlength)]

/-- The frames of the body are refused for a full pool only. -/
theorem exists_overflow {starts : Array ℕ} {fault : Fault}
    (hframes : (Assembly.frameAttributes version marked method analysis starts).finish pool = .error fault) :
    ∃ constant offset, fault = .poolOverflow constant offset := by
  obtain ⟨initial, -, -, -, hinitial, -⟩ := analyze_eq_ok.mp h.analyzed
  refine not_not.mp (Assembly.never_frameAttributes
    (p := fun fault => ¬ ∃ constant offset, fault = .poolOverflow constant offset) (fun constant offset hnot =>
      hnot ⟨constant, offset, rfl⟩) ?_ h.reaches version pool fault hframes)
  rw [hinitial]
  exact avoids_ok _

end Body.CollapsesAgain

/-! ## Assembling again -/

/-- **Assembling is stable under decoding.**  What was assembled from a body is decoded, and assembling that gives the
same bytecode, handlers, lines and scopes, and as many stack slots and local variables.  It is assumed that the classes
involved are known, that array loads find arrays, that control does not run into a label at the end of the body, that
tables are short, and that the pool has room for the frames. -/
theorem exists_assemble_decoded {body : Body} {method : MethodContext} {version : Version} {hierarchy : Hierarchy}
    {pool pool' : Pool} {code : CodeAttribute} (hwf : hierarchy.WellFormed) (hmethod : method.ClassesKnown hierarchy)
    (hknown : body.ClassesKnown hierarchy) (hlabelled : body.WellLabelled)
    (hdecodable : ∀ instruction ∈ body.instructions, instruction.Decodable pool)
    (hlines : lineCount body.instructions ≤ 65535) (hscopes : body.scopes.length ≤ 65535)
    (htypeScopes : body.typeScopes.length ≤ 65535) (hoff : ¬ body.RunsOff)
    (h : (body.assemble method version hierarchy).finish pool = .ok (code, pool'))
    (harrays : ∀ final analysis, (Assembly.prepare body method hierarchy).Settled pool' (final, analysis) →
      analysis.FindsReferences final)
    (hroom : ∀ decoded constant offset, Body.decode code pool' = .ok decoded →
      (decoded.assemble method version hierarchy).finish pool' ≠ .error (.poolOverflow constant offset)) :
    ∃ decoded again later, Body.decode code pool' = .ok decoded ∧
      (decoded.assemble method version hierarchy).finish pool' = .ok (again, later) ∧
        again.withoutFrames later = code.withoutFrames pool' := by
  obtain ⟨hextends, final, analysis, _, offsets, -, hsettled, hlaid, hlength, hwrite⟩ := Body.exists_settled_write h
  obtain ⟨first, runs, middle, changed, roots, hprepared⟩ := Assembly.exists_prepared hsettled
  obtain ⟨roots, hready⟩ := Assembly.exists_ready hlabelled hoff hsettled
  obtain ⟨-, hcode, -, -, -, hmaxStack, hmaxLocals⟩ := Assembly.exists_parts_of_settled hwrite
  -- The code is that of a body with scopes in order, which is what is decoded.
  have hlabelled' := hready.wellLabelled
  have hwritten := Assembly.written_of_settled hlaid hlength hwrite
  obtain ⟨hsameScopes, hsameTypeScopes⟩ := hprepared.scopes_eq
  have hfit : final.orderScopes.TablesFit := Body.tablesFit_orderScopes (hprepared.lineCount_le.trans hlines)
    (hsameScopes ▸ hscopes) (hsameTypeScopes ▸ htypeScopes) (hwritten.scopes_placed hlabelled')
  have hfinal := hprepared.forall_mem (fun instruction hmem => (hdecodable instruction hmem).mono hextends)
    (fun _ => trivial) rfl (fun _ => .inr rfl)
    fun opcode inverse _ hinverse => .inl (Opcode.form_inverse opcode inverse hinverse)
  replace hwritten := hwritten.orderScopes hlabelled'
  replace hlabelled' := hlabelled'.orderScopes
  obtain ⟨decoded, hdecode, hrestores⟩ := hwritten.exists_decoded hlabelled' hfit hfinal
  -- What is decoded is accepted, and laid out and written in the same way.
  obtain ⟨first, marked, dead, roots', analysis', hfirst, hagain, hstack, hlocals⟩ :=
    hready.orderScopes.exists_collapsesAgain_of_restores hwf (hprepared.classesKnown hknown).orderScopes
      (harrays final analysis hsettled) hmethod hrestores
  have hmarked := hagain.restores
  obtain ⟨offsets', hrelaid⟩ := hmarked.exists_relaidAs hlabelled' hwritten.laid
  have hcode' : (Encoding.writeAll (offsets'.labels marked.instructions)
      (offsets'.locate marked.instructions)).Settled pool' code.code := by
    rw [hrelaid.writeAll_eq]
    exact hcode
  have hassemble : (decoded.assemble method version hierarchy).finish pool' =
      (Assembly.write version marked method analysis' offsets').finish pool' := hagain.finish_assemble hfirst
    (Widening.settled_widenJumps hrelaid.laid (Encoding.spells_of_settled hrelaid.laid hcode').1) hrelaid.laid
    (hrelaid.length_eq.trans_le hlength)
  obtain ⟨entries, hentries, hhandlers⟩ := hmarked.exists_handlers hrelaid hwritten hlabelled'
  obtain ⟨frames, lines, scopes, typeScopes, hframes, hlines', hscopes', htypeScopes', hattributes⟩ :=
    hwritten.exists_attributes
  have hlines : (Assembly.lineAttributes marked offsets').Settled pool' lines := by
    rw [Assembly.lineAttributes, hmarked.lineEntries_eq hrelaid hwritten hcode']
    exact hlines'
  have hscopes : (Assembly.variableAttributes VariableEntry.attributeName (offsets'.labels marked.instructions)
      marked.scopes).Settled pool' scopes := by
    rw [Assembly.variableAttributes_eq _ (hmarked.scopes.imp fun _ _ hsame => hsame.mono fun _ _ => hrelaid.labels)]
    exact hscopes'
  have htypeScopes : (Assembly.variableAttributes VariableEntry.typeAttributeName
      (offsets'.labels marked.instructions) marked.typeScopes).Settled pool' typeScopes := by
    rw [Assembly.variableAttributes_eq _
      (hmarked.typeScopes.imp fun _ _ hsame => hsame.mono fun _ _ => hrelaid.labels)]
    exact htypeScopes'
  rw [← hstack] at hmaxStack
  rw [← hlocals] at hmaxLocals
  refine ⟨decoded, ?_⟩
  cases hagainFrames : (Assembly.frameAttributes version marked method analysis' offsets'.starts).finish pool' with
  | error fault =>
    obtain ⟨constant, offset, rfl⟩ := hagain.exists_overflow hagainFrames
    exact absurd (hassemble.trans (Assembly.finish_write_eq_error hcode' hentries hagainFrames))
      (hroom decoded constant offset hdecode)
  | ok result =>
    obtain ⟨frames', later⟩ := result
    have hrepeats := Assembly.repeats_frameAttributes version marked method analysis' offsets'.starts
    have hlater := hrepeats.extends_of_finish hagainFrames
    refine ⟨_, later, hdecode, hassemble.trans (Assembly.finish_write hcode' hentries hlines hscopes htypeScopes
      hmaxStack hmaxLocals hagainFrames), ?_⟩
    rw [CodeAttribute.withoutFrames, CodeAttribute.withoutFrames, hhandlers, hattributes,
      Assembly.filter_not_listsFrames hframes hlines' hscopes' htypeScopes',
      Assembly.filter_not_listsFrames (hrepeats.settled hagainFrames)
        ((Assembly.repeats_lineAttributes _ _).settled_mono hlines hlater)
        ((Assembly.repeats_variableAttributes _ _ _).settled_mono hscopes hlater)
        ((Assembly.repeats_variableAttributes _ _ _).settled_mono htypeScopes hlater)]

/-! ### A body with dead code -/

namespace Body

/-- A body that jumps over an instruction. -/
def leaving (skipped : Opcode) : Body where
  instructions := [.jump Opcode.goto ⟨0⟩, .plain skipped, .label ⟨0⟩, .plain Opcode.returnVoid]
  nextLabel := 1

/-- The body with its dead code replaced. -/
def leavingMarked : Body where
  instructions := [.jump Opcode.goto ⟨0⟩, .label ⟨1⟩, .plain Opcode.athrow, .label ⟨2⟩, .label ⟨0⟩,
    .plain Opcode.returnVoid]
  nextLabel := 3

/-- The frames of the body with its dead code replaced. -/
def leavingFrames : Array (Option FlowFrame) :=
  #[some ⟨[], ⟨[], 0⟩⟩, none, some ⟨[], ⟨[(0, .object "java/lang/Throwable")], 1⟩⟩, none, some ⟨[], ⟨[], 0⟩⟩,
    some ⟨[], ⟨[], 0⟩⟩]

/-- What the body is assembled to. -/
def leavingCode : CodeAttribute := ⟨1, 0, [167, 0, 4, 191, 177], [], []⟩

theorem analyze_leaving {skipped : Opcode} (hskipped : skipped = Opcode.nop ∨ skipped = Opcode.athrow) :
    analyze (leaving skipped) ⟨"java/lang/Number", "f", "()V", true⟩ Classpath.empty.hierarchy [] =
      .ok ⟨#[some ⟨[], ⟨[], 0⟩⟩, none, some ⟨[], ⟨[], 0⟩⟩, some ⟨[], ⟨[], 0⟩⟩], 0, 0⟩ := by
  rcases hskipped with rfl | rfl <;> cbv

theorem analyze_leavingMarked : analyze leavingMarked ⟨"java/lang/Number", "f", "()V", true⟩
    Classpath.empty.hierarchy [(2, ⟨[], ⟨[(0, .object "java/lang/Throwable")], 1⟩⟩)] = .ok ⟨leavingFrames, 1, 0⟩ := by
  unfold leavingFrames
  cbv

theorem settled_prepare_leaving {skipped : Opcode} (hskipped : skipped = Opcode.nop ∨ skipped = Opcode.athrow) :
    (Assembly.prepare (leaving skipped) ⟨"java/lang/Number", "f", "()V", true⟩ Classpath.empty.hierarchy).Settled
      Pool.empty (leavingMarked, ⟨leavingFrames, 1, 0⟩) := by
  have hmarked : (leaving skipped).replaceDeadCode
      ⟨#[some ⟨[], ⟨[], 0⟩⟩, none, some ⟨[], ⟨[], 0⟩⟩, some ⟨[], ⟨[], 0⟩⟩], 0, 0⟩ = .ok (leavingMarked, [⟨1⟩]) := by
    rcases hskipped with rfl | rfl <;> rfl
  have hwidened : leavingMarked.widenJumps.Settled Pool.empty (leavingMarked, false) := by
    unfold Settled
    cbv
  have hroots : Assembly.deadCodeRoots leavingMarked [⟨1⟩] =
      .ok [(2, ⟨[], ⟨[(0, .object "java/lang/Throwable")], 1⟩⟩)] :=
    (Assembly.deadCodeRoots_eq_ok ⟨by decide, by decide⟩).mpr (.cons ⟨1, rfl, rfl⟩ .nil)
  refine (settled_lift.mpr (analyze_leaving hskipped)).bind ((settled_lift.mpr hmarked).bind (hwidened.bind ?_))
  dsimp only
  rw [if_neg (by decide)]
  exact (settled_lift.mpr hroots).bind ((settled_lift.mpr analyze_leavingMarked).bind (settled_pure.mpr rfl))

/-- Whatever is skipped, the body is assembled to the same code. -/
theorem settled_assemble_leaving {skipped : Opcode} (hskipped : skipped = Opcode.nop ∨ skipped = Opcode.athrow) :
    ((leaving skipped).assemble ⟨"java/lang/Number", "f", "()V", true⟩ ⟨49, 0⟩ Classpath.empty.hierarchy).Settled
      Pool.empty leavingCode := by
  refine (settled_prepare_leaving hskipped).bind ?_
  unfold Settled leavingCode leavingFrames
  cbv

end Body

/-- A body with dead code is assembled, and assembled again after it was decoded. -/
theorem exists_assemble_decoded_leaving :
    ((Body.leaving Opcode.nop).assemble ⟨"java/lang/Number", "f", "()V", true⟩ ⟨49, 0⟩
      Classpath.empty.hierarchy).finish Pool.empty = .ok (Body.leavingCode, Pool.empty) ∧
    ∃ decoded again later, Body.decode Body.leavingCode Pool.empty = .ok decoded ∧
      (decoded.assemble ⟨"java/lang/Number", "f", "()V", true⟩ ⟨49, 0⟩ Classpath.empty.hierarchy).finish Pool.empty =
        .ok (again, later) ∧ again.withoutFrames later = Body.leavingCode.withoutFrames Pool.empty := by
  have hassemble := Body.settled_assemble_leaving (.inl (Eq.refl Opcode.nop))
  refine ⟨hassemble, exists_assemble_decoded Classpath.wellFormed_empty ⟨⟨_, rfl⟩, Classpath.nameKnown_empty (by decide),
    ?_, Classpath.nameKnown_empty (by decide)⟩ ⟨?_, by simp [Body.leaving]⟩ ⟨by decide, by decide⟩ ?_ (by decide)
    (by decide) (by decide) ?_ hassemble ?_ ?_⟩
  · intro parsed hparsed
    have hown : MethodDescriptor.demand "()V" = .ok ⟨[], none⟩ := by decide
    obtain rfl := Except.ok.inj (hown.symm.trans hparsed)
    simp
  · simp [Body.leaving, Instruction.IsKnown]
  · simp only [Body.leaving, List.forall_mem_cons]
    exact ⟨.inl (by decide), show Opcode.form _ = _ by decide, trivial, show Opcode.form _ = _ by decide, by simp⟩
  · rintro ⟨position, instruction, hend, here, unreal, -⟩
    obtain rfl : position = 3 := by simpa [Body.leaving] using hend
    obtain rfl := Option.some.inj here
    cases unreal
  · intro final analysis hprepare position instruction before here _ opcode hplain heffect
    have hsame := (Body.settled_prepare_leaving (.inl rfl)).symm.trans hprepare
    obtain ⟨rfl, rfl⟩ := Prod.mk.inj (Prod.mk.inj (Except.ok.inj hsame)).1
    have hmem := List.mem_of_getElem? here
    subst hplain
    simp only [Body.leavingMarked, List.mem_cons, reduceCtorEq, Instruction.plain.injEq, false_or, List.not_mem_nil,
      or_false] at hmem
    rcases hmem with rfl | rfl <;> exact absurd heffect (by decide +kernel)
  · intro decoded constant offset hdecode
    have hown : Body.decode Body.leavingCode Pool.empty = .ok (Body.leaving Opcode.athrow) := by
      unfold Body.leavingCode Body.leaving
      cbv
    obtain rfl := Except.ok.inj (hown.symm.trans hdecode)
    rw [show _ = _ from Body.settled_assemble_leaving (.inr rfl)]
    simp

/-! ### An array of numbers -/

namespace Body

/-- A body that loads from an array of numbers, or from the null reference. -/
def misloading : Body where
  instructions := [
    .var Opcode.iload 0, .jump Opcode.ifeq ⟨0⟩,
    .plain 4, .int 188 10, .var Opcode.astore 1, .jump Opcode.goto ⟨1⟩,
    .label ⟨0⟩, .label ⟨2⟩, .plain Opcode.aconstNull, .var Opcode.astore 1,
    .label ⟨1⟩, .var Opcode.aload 1, .plain Opcode.iconst0, .plain 50, .plain 87, .plain Opcode.returnVoid]
  nextLabel := 3

/-- What the body is assembled to. -/
def misloadingCode : CodeAttribute :=
  ⟨2, 2, [26, 153, 0, 10, 4, 188, 10, 76, 167, 0, 5, 1, 76, 43, 3, 50, 87, 177], [], []⟩

/-- What that is decoded to: one label is enough in front of the null reference. -/
def misloadingAgain : Body where
  instructions := [
    .var Opcode.iload 0, .jump Opcode.ifeq ⟨0⟩,
    .plain 4, .int 188 10, .var Opcode.astore 1, .jump Opcode.goto ⟨1⟩,
    .label ⟨0⟩, .plain Opcode.aconstNull, .var Opcode.astore 1,
    .label ⟨1⟩, .var Opcode.aload 1, .plain Opcode.iconst0, .plain 50, .plain 87, .plain Opcode.returnVoid]
  nextLabel := 2

end Body

/-- A body that loads an object from an array of numbers may be refused after it was assembled and decoded: the load
is reached earlier by the path with one label less, and gives the null reference before it gives a number. -/
theorem not_assemble_decoded_misloading :
    Classpath.empty.hierarchy.WellFormed ∧ Body.misloading.WellLabelled ∧
    (∀ instruction ∈ Body.misloading.instructions, instruction.Decodable Pool.empty) ∧
    (Body.misloading.assemble ⟨"java/lang/Number", "f", "(I)V", true⟩ ⟨49, 0⟩ Classpath.empty.hierarchy).finish
      Pool.empty = .ok (Body.misloadingCode, Pool.empty) ∧
    Body.decode Body.misloadingCode Pool.empty = .ok Body.misloadingAgain ∧
    (Body.misloadingAgain.assemble ⟨"java/lang/Number", "f", "(I)V", true⟩ ⟨49, 0⟩ Classpath.empty.hierarchy).finish
      Pool.empty = .error (.invalidFrame 13 (.incompatible .null .int)) := by
  refine ⟨Classpath.wellFormed_empty, ⟨by decide, by decide⟩, ?_, ?_, ?_, ?_⟩
  · simp only [Body.misloading, List.forall_mem_cons]
    have hform {opcode : Opcode} {form : Opcode.Form} (h : opcode.form = form) : opcode.form = form := h
    exact ⟨hform (by decide), .inl (by decide), hform (by decide), .inr (.inr (by decide)), hform (by decide),
      .inl (by decide), trivial, trivial, hform (by decide), hform (by decide), trivial, hform (by decide),
      hform (by decide), hform (by decide), hform (by decide), hform (by decide), by simp⟩
  · unfold Body.misloadingCode
    cbv
  · unfold Body.misloadingCode Body.misloadingAgain
    cbv
  · cbv

end ClassInstrument
