import ClassInstrument.Assembly.Basic
import ClassInstrument.Proofs.Pool.Interning

/-!
# The requests of an assembly

An assembly asks for constants while it lays out a body, while it writes the instructions, and for the
tables that come after them.  All of these requests are settled in the pool that is left in the end, so
that one pool serves to tell what was laid out and what was written.
-/

namespace ClassInstrument

open Interning

/-! ## Instructions -/

theorem Loadable.repeats_intern (constant : Loadable) : constant.intern.Repeats := by
  cases constant with
  | int _ | float _ | long _ | double _ => exact .intern _
  | string text => exact (Pool.repeats_internUtf8 text).bind fun _ => .intern _
  | cls name => exact Pool.repeats_internClass name
  | methodType descriptor => exact (Pool.repeats_internUtf8 descriptor).bind fun _ => .intern _
  | pooled index _ => exact .pure index

theorem Layout.repeats_size (offset : Nat) (instruction : Instruction) :
    (size offset instruction).Repeats := by
  cases instruction with
  | load constant =>
    unfold size
    dsimp only
    split
    · exact .pure _
    · exact constant.repeats_intern.bind fun _ => .pure _
  | _ => exact .pure _

theorem Layout.repeats_place (offsets : Offsets) (instruction : Instruction) :
    (place offsets instruction).Repeats :=
  (repeats_size offsets.length instruction).bind fun _ => .pure _

theorem Layout.repeats_offsets (instructions : List Instruction) : (offsets instructions).Repeats := by
  unfold offsets
  exact .foldlM repeats_place instructions _

theorem Encoding.repeats_write (labels : Placements) (offset : Nat) (instruction : Instruction) :
    (write labels offset instruction).Repeats := by
  cases instruction with
  | type _ name => exact (Pool.repeats_internClass name).bind fun _ => .pure _
  | field _ field => exact (Pool.repeats_internField field).bind fun _ => .pure _
  | method _ callee =>
    exact (Pool.repeats_internMethod callee).bind fun _ => (Repeats.lift _).bind fun _ => .pure _
  | jump opcode _ =>
    unfold write
    dsimp only
    split
    · exact (Repeats.lift _).bind fun _ => .pure _
    · exact (Repeats.lift _).bind fun _ => .pure _
  | load constant => exact constant.repeats_intern.bind fun _ => .pure _
  | tableSwitch _ _ _ => exact .lift _
  | lookupSwitch _ _ => exact .lift _
  | multiArray name _ => exact (Pool.repeats_internClass name).bind fun _ => .pure _
  | _ => exact .pure _

theorem Encoding.repeats_writeAll (labels : Placements) (located : List (Instruction × Nat)) :
    (writeAll labels located).Repeats := by
  unfold writeAll
  refine (Repeats.mapM (fun entry => ?_) located).bind fun _ => .pure _
  exact repeats_write labels entry.2 entry.1

/-! ## Tables -/

theorem Attribute.repeats_make (name : String) (info : Bytes) : (make name info).Repeats :=
  (Pool.repeats_internUtf8 name).bind fun _ => .pure _

/-- An attribute that is asked for has its name and its contents. -/
theorem Attribute.of_settled_make {pool : Pool} {name : String} {info : Bytes} {attr : Attribute}
    (h : (make name info).Settled pool attr) : pool.utf8 attr.name = .ok name ∧ attr.info = info := by
  obtain ⟨index, hindex, h⟩ := ((Pool.repeats_internUtf8 name).settled_bind fun _ => .pure _).mp h
  obtain rfl := settled_pure.mp h
  exact ⟨Pool.utf8_of_settled hindex, rfl⟩

namespace BlockFrames

theorem repeats_writeType (offsets : Array Nat) (type : FlowType) :
    (writeType offsets type).Repeats := by
  cases type with
  | object name => exact (Pool.repeats_internClass name).bind fun _ => .pure _
  | _ => exact .pure _

theorem repeats_writeFrame (offsets : Array Nat) (frame : FlowFrame) :
    (writeFrame offsets frame).Repeats :=
  (Repeats.mapM (repeats_writeType offsets) _).bind fun _ =>
    (Repeats.mapM (repeats_writeType offsets) _).bind fun _ => .pure _

theorem repeats_add (analysis : Analysis) (offsets : Array Nat) (position : Nat) (state : State) :
    (add analysis offsets position state).Repeats := by
  unfold add
  split
  · exact .throw _
  · exact (repeats_writeFrame offsets _).bind fun _ => .pure _

theorem repeats_step (analysis : Analysis) (offsets : Array Nat) (targets : Std.HashMap Label Unit)
    (state : State) (entry : Instruction × Nat) :
    (step analysis offsets targets state entry).Repeats := by
  unfold step
  split
  · exact .pure _
  · exact .pure _
  · dsimp only
    split
    · exact (repeats_add analysis offsets _ state).bind fun _ => .pure _
    · exact (Repeats.pure _).bind fun _ => .pure _

theorem repeats_list (body : Body) (method : MethodContext) (analysis : Analysis)
    (offsets : Array Nat) : (list body method analysis offsets).Repeats :=
  (Repeats.lift _).bind fun initial => (repeats_writeFrame offsets initial).bind fun _ =>
    (Repeats.foldlM (repeats_step analysis offsets (targets body)) _ _).bind fun _ => .pure _

end BlockFrames

namespace Assembly

theorem repeats_handlerEntry (labels : Placements) (handler : Handler) :
    (handlerEntry labels handler).Repeats := by
  refine (Repeats.lift _).bind fun start => (Repeats.lift _).bind fun stop => ?_
  split
  · exact .pure _
  · exact (Repeats.optionMapM Pool.repeats_internClass handler.caught).bind fun _ =>
      (Repeats.lift _).bind fun _ => .pure _

theorem repeats_frameAttributes (version : Version) (body : Body) (method : MethodContext)
    (analysis : Analysis) (offsets : Array Nat) :
    (frameAttributes version body method analysis offsets).Repeats := by
  unfold frameAttributes
  split
  · refine (BlockFrames.repeats_list body method analysis offsets).bind fun frames => ?_
    split
    · exact .pure _
    · exact (Attribute.repeats_make _ _).bind fun _ => .pure _
  · exact .pure _

theorem repeats_lineAttributes (body : Body) (offsets : Layout.Offsets) :
    (lineAttributes body offsets).Repeats := by
  unfold lineAttributes
  dsimp only
  split
  · exact .pure _
  · exact (Attribute.repeats_make _ _).bind fun _ => .pure _

theorem repeats_variableAttributes (name : String) (labels : Placements)
    (ranges : List VariableRange) : (variableAttributes name labels ranges).Repeats := by
  unfold variableAttributes
  split
  · exact .pure _
  · exact (Repeats.lift _).bind fun entries => (Attribute.repeats_make _ _).bind fun _ => .pure _

theorem repeats_attributes (version : Version) (body : Body) (method : MethodContext)
    (analysis : Analysis) (offsets : Layout.Offsets) :
    (attributes version body method analysis offsets).Repeats :=
  (repeats_frameAttributes version body method analysis offsets.starts).bind fun _ =>
    (repeats_lineAttributes body offsets).bind fun _ =>
      (repeats_variableAttributes _ _ body.scopes).bind fun _ =>
        (repeats_variableAttributes _ _ body.typeScopes).bind fun _ => .pure _

theorem repeats_write (version : Version) (body : Body) (method : MethodContext)
    (analysis : Analysis) (offsets : Layout.Offsets) :
    (write version body method analysis offsets).Repeats :=
  (Encoding.repeats_writeAll _ _).bind fun _ =>
    (Repeats.mapM (repeats_handlerEntry _) body.handlers).bind fun _ =>
      (repeats_attributes version body method analysis offsets).bind fun _ =>
        (Repeats.lift _).bind fun _ => (Repeats.lift _).bind fun _ => .pure _

end Assembly

/-! ## Bodies -/

namespace Widening

theorem repeats_round (body : Body) : (round body).Repeats :=
  (Layout.repeats_offsets _).bind fun _ => (Repeats.lift _).bind fun _ => .pure _

theorem repeats_rounds (count : Nat) (body : Body) (changed : Bool) :
    (rounds count body changed).Repeats := by
  induction count generalizing body changed with
  | zero => exact .pure _
  | succ count ih =>
    refine (repeats_round body).bind fun (body, again) => ?_
    dsimp only
    split
    · exact ih body true
    · exact .pure _

end Widening

namespace Assembly

theorem repeats_prepare (body : Body) (method : MethodContext) (hierarchy : Hierarchy) :
    (prepare body method hierarchy).Repeats := by
  refine (Repeats.lift _).bind fun analysis => (Repeats.lift _).bind fun (body, dead) => ?_
  refine (Widening.repeats_rounds _ body false).bind fun (body, widened) => ?_
  dsimp only
  split
  · exact .pure _
  · exact (Repeats.lift _).bind fun roots => (Repeats.lift _).bind fun _ => .pure _

/-- What comes after a body was prepared. -/
theorem repeats_layOut (version : Version) (method : MethodContext) (prepared : Body × Analysis) :
    Repeats (do
      let offsets ← Layout.offsets prepared.1.instructions
      if offsets.length > longestCode then throw (.codeTooLong offsets.length)
      else write version prepared.1 method prepared.2 offsets) := by
  refine (Layout.repeats_offsets _).bind fun offsets => ?_
  split
  · exact .throw _
  · exact repeats_write version prepared.1 method prepared.2 offsets

end Assembly

theorem Body.repeats_assemble (body : Body) (method : MethodContext) (version : Version)
    (hierarchy : Hierarchy) : (body.assemble method version hierarchy).Repeats :=
  (Assembly.repeats_prepare body method hierarchy).bind (Assembly.repeats_layOut version method)

end ClassInstrument
