import ClassInstrument.Proofs.Analysis.TransferRules
import ClassInstrument.Proofs.Analysis.Worklist

/-!
# Faults of an analysis

An analysis fails where an instruction does not run on the frame before it, where frames do not merge, or
where control leaves the code.  It never misses a frame: that fault is left to the writing of frames.
-/

namespace ClassInstrument

open Outcome

/-- A block starts at an instruction without a frame. -/
def Fault.IsMissingFrame (fault : Fault) : Prop := ∃ position, fault = .invalidFrame position .missingFrame

/-- A defect stands for a missing frame. -/
@[simp] theorem Fault.isMissingFrame_invalidFrame {position : ℕ} {defect : FrameDefect} :
    (Fault.invalidFrame position defect).IsMissingFrame ↔ defect = .missingFrame := by
  simp [IsMissingFrame]

/-- A block starts at an instruction without a frame.  The fault is not one that a hierarchy answered a question
about a class with. -/
def Hierarchy.MissesFrame (hierarchy : Hierarchy) (fault : Fault) : Prop :=
  fault.IsMissingFrame ∧ ∀ name, hierarchy.shape name ≠ .error fault

/-- What does not miss a frame at all does not do so under a hierarchy. -/
theorem Outcome.Avoids.under {α : Type} {result : Except Fault α} (h : Avoids Fault.IsMissingFrame result)
    (hierarchy : Hierarchy) : Avoids hierarchy.MissesFrame result :=
  h.imp fun _ => And.left

/-! ## Looking up classes -/

namespace Hierarchy

variable {hierarchy : Hierarchy}

/-- If no question about a class is answered with a missing frame, there is nothing to except. -/
theorem missesFrame_iff (h : ∀ name, Avoids Fault.IsMissingFrame (hierarchy.shape name)) {fault : Fault} :
    hierarchy.MissesFrame fault ↔ fault.IsMissingFrame :=
  and_iff_left_of_imp fun hmissing name hshape => h name fault hshape hmissing

theorem avoids_shape (name : String) : Avoids hierarchy.MissesFrame (hierarchy.shape name) :=
  fun _ hshape hmisses => hmisses.2 name hshape

theorem avoids_isReachable {target : String} {pending seen : List String} {result : Except Fault Bool}
    (h : hierarchy.isReachable target pending seen = some result) : Avoids hierarchy.MissesFrame result := by
  refine isReachable.partial_correctness hierarchy target (fun _ _ => Avoids hierarchy.MissesFrame) ?_
    pending seen result h
  intro search ih pending seen result hresult
  split at hresult
  · simp [← Option.some.inj hresult]
  · next name pending =>
    split at hresult
    · simp [← Option.some.inj hresult]
    · split at hresult
      · next fault hshape =>
        obtain rfl := Option.some.inj hresult
        exact avoids_error.mpr fun hmisses => hmisses.2 name hshape
      · exact ih _ _ _ hresult

theorem avoids_isAssignable (sub super : String) :
    Avoids hierarchy.MissesFrame (hierarchy.isAssignable sub super) := by
  unfold isAssignable
  split
  · exact avoids_ok _
  · cases hresult : hierarchy.isReachable super [sub] [sub] with
    | none => simp [MissesFrame, Fault.IsMissingFrame]
    | some result => exact avoids_isReachable hresult

theorem avoids_climb {other name : String} {result : Except Fault String}
    (h : hierarchy.climb other name = some result) : Avoids hierarchy.MissesFrame result := by
  refine climb.partial_correctness hierarchy other (fun _ => Avoids hierarchy.MissesFrame) ?_ name result h
  intro search ih name result hresult
  split at hresult
  · next fault hshape =>
    obtain rfl := Option.some.inj hresult
    exact avoids_error.mpr fun hmisses => hmisses.2 name hshape
  · split at hresult
    · simp [← Option.some.inj hresult]
    · next superName _ =>
      split at hresult
      · next fault hassign =>
        obtain rfl := Option.some.inj hresult
        exact avoids_error.mpr (avoids_isAssignable other superName fault hassign)
      · simp [← Option.some.inj hresult]
      · exact ih _ _ hresult

theorem avoids_commonSuperclass (first second : String) :
    Avoids hierarchy.MissesFrame (hierarchy.commonSuperclass first second) := by
  refine (avoids_isAssignable second first).bind fun below => ?_
  split
  · exact avoids_pure _
  refine (avoids_isAssignable first second).bind fun above => ?_
  split
  · exact avoids_pure _
  refine (avoids_shape first).bind fun shape => ?_
  split
  · exact avoids_pure _
  refine (avoids_shape second).bind fun shape' => ?_
  split
  · exact avoids_pure _
  · cases hresult : hierarchy.climb second first with
    | none => simp [MissesFrame, Fault.IsMissingFrame]
    | some result => exact avoids_climb hresult

end Hierarchy

/-! ## Merging frames -/

theorem FieldType.avoids_demandClass (name : String) :
    Avoids Fault.IsMissingFrame (FieldType.demandClass name) := by
  unfold FieldType.demandClass
  split <;> simp [Fault.IsMissingFrame]

theorem FieldType.avoids_demand (descriptor : String) :
    Avoids Fault.IsMissingFrame (FieldType.demand descriptor) := by
  unfold FieldType.demand
  split <;> simp [Fault.IsMissingFrame]

theorem MethodDescriptor.avoids_demand (descriptor : String) :
    Avoids Fault.IsMissingFrame (MethodDescriptor.demand descriptor) := by
  unfold MethodDescriptor.demand
  split <;> simp [Fault.IsMissingFrame]

section

variable {hierarchy : Hierarchy}

theorem Merge.avoids_fieldTypes (left right : FieldType) :
    Avoids hierarchy.MissesFrame (Merge.fieldTypes hierarchy left right) := by
  fun_induction Merge.fieldTypes hierarchy left right with
  | case2 _ _ _ _ ih => exact ih.bind fun _ => avoids_pure _
  | case5 => exact (Hierarchy.avoids_commonSuperclass _ _).bind fun _ => avoids_pure _
  | _ => exact avoids_pure _

theorem Merge.avoids_types (left right : FlowType) :
    Avoids hierarchy.MissesFrame (Merge.types hierarchy left right) := by
  unfold Merge.types
  split
  · exact avoids_pure _
  · split
    · exact avoids_pure _
    · exact avoids_pure _
    · refine Avoids.bind ?_ fun _ => avoids_pure _
      exact ((FieldType.avoids_demandClass _).under _).bind fun left =>
        ((FieldType.avoids_demandClass _).under _).bind fun right =>
        (avoids_fieldTypes left right).bind fun _ => avoids_pure _
    · exact avoids_pure _

theorem avoids_mergeFrames (position : ℕ) (existing incoming : FlowFrame) :
    Avoids hierarchy.MissesFrame (mergeFrames hierarchy position existing incoming) := by
  unfold mergeFrames
  dsimp only
  split
  · simp [Hierarchy.MissesFrame]
  · refine Avoids.bind (Avoids.mapM fun pair _ => ?_) fun stack =>
      Avoids.bind (Avoids.mapM fun pair _ => ?_) fun locals => ?_
    · refine (Merge.avoids_types pair.1 pair.2).bind fun type => ?_
      cases type <;> simp [Hierarchy.MissesFrame]
    · exact (Merge.avoids_types pair.1 pair.2).bind fun _ => avoids_pure _
    · split <;> exact avoids_pure _

end

/-! ## Running instructions -/

namespace Frame

variable {frame : FlowFrame}

theorem avoids_pop : Avoids (· = .missingFrame) frame.pop := by
  unfold pop
  split <;> simp

theorem avoids_drop (count : ℕ) (frame : FlowFrame) : Avoids (· = .missingFrame) (frame.drop count) := by
  induction count generalizing frame with
  | zero => exact avoids_ok frame
  | succ count ih => exact avoids_pop.bind fun popped => ih popped.2

theorem avoids_plan (shuffle : Shuffle) (values : List FlowType) :
    Avoids (· = .missingFrame) (shuffle.plan values) := by
  unfold Shuffle.plan
  repeat' split
  all_goals simp

theorem avoids_apply (effect : Effect) : Avoids (· = .missingFrame) (effect.apply frame) := by
  cases effect with
  | keep => exact avoids_pure frame
  | pops count => exact avoids_drop count frame
  | gives count type => exact (avoids_drop count frame).bind fun _ => avoids_pure _
  | loadsElement => exact avoids_pop.bind fun _ => avoids_pop.bind fun _ => avoids_pure _
  | shuffles shuffle =>
    exact (avoids_plan shuffle _).bind fun _ => (avoids_drop _ frame).bind fun _ => avoids_pure _

end Frame

namespace Transfer

variable {frame : FlowFrame} {position : ℕ}

/-- A defect is a missing frame wherever it is blamed on. -/
theorem avoids_blame {α : Type} {result : Except FrameDefect α} (h : Avoids (· = .missingFrame) result) :
    Avoids Fault.IsMissingFrame (blame position result) := by
  cases result with
  | ok value => exact avoids_ok value
  | error defect => simpa [blame] using h

theorem avoids_dropped (count : ℕ) : Avoids Fault.IsMissingFrame (blame position (frame.drop count)) :=
  avoids_blame (Frame.avoids_drop count frame)

theorem avoids_loadedType (constant : Loadable) : Avoids Fault.IsMissingFrame (loadedType constant) := by
  cases constant with
  | pooled index descriptor => exact (FieldType.avoids_demand descriptor).bind fun _ => avoids_pure _
  | _ => exact avoids_ok _

theorem avoids_accessVariable (opcode : Opcode) (slot : ℕ) :
    Avoids Fault.IsMissingFrame (accessVariable position opcode slot frame) := by
  unfold accessVariable
  split
  iterate 4 exact avoids_pure _
  · split
    · split <;> simp
    · simp
  · split
    · exact (avoids_blame Frame.avoids_pop).bind fun _ => avoids_pure _
    · simp [Fault.IsMissingFrame]

theorem avoids_useType (opcode : Opcode) (name : String) :
    Avoids Fault.IsMissingFrame (useType position opcode name frame) := by
  unfold useType
  split
  · exact avoids_pure _
  · exact (avoids_dropped 1).bind fun _ => (FieldType.avoids_demandClass name).bind fun _ => avoids_pure _
  · exact (avoids_dropped 1).bind fun _ => avoids_pure _
  · exact (avoids_dropped 1).bind fun _ => avoids_pure _

theorem avoids_accessField (opcode : Opcode) (field : Member) :
    Avoids Fault.IsMissingFrame (accessField position opcode field frame) := by
  refine (FieldType.avoids_demand field.descriptor).bind fun type => ?_
  split
  · exact avoids_pure _
  · exact avoids_dropped 1
  · exact (avoids_dropped 1).bind fun _ => avoids_pure _
  · exact avoids_dropped 2

theorem avoids_initialized (method : MethodContext) (code : Array Instruction) (type : FlowType) :
    Avoids Fault.IsMissingFrame (initialized method code position type) := by
  unfold initialized
  split
  · exact avoids_ok _
  · split <;> simp
  · simp

theorem avoids_call (method : MethodContext) (code : Array Instruction) (opcode : Opcode) (callee : Member) :
    Avoids Fault.IsMissingFrame (call method code position opcode callee frame) := by
  refine (MethodDescriptor.avoids_demand callee.descriptor).bind fun descriptor =>
    (avoids_dropped _).bind fun frame => ?_
  split
  · exact avoids_pure _
  · refine (avoids_blame Frame.avoids_pop).bind fun (receiver, frame) => ?_
    dsimp only
    split
    · exact (avoids_initialized method code receiver).bind fun _ => avoids_pure _
    · exact avoids_pure _

theorem avoids_jump (opcode : Opcode) : Avoids Fault.IsMissingFrame (jump position opcode frame) := by
  unfold jump
  dsimp only
  split_ifs
  · exact avoids_dropped 1
  · exact avoids_dropped 2
  · exact avoids_ok _
  · simp [Fault.IsMissingFrame]

/-- An instruction does not miss a frame. -/
theorem avoids_execute (method : MethodContext) (code : Array Instruction) (position : ℕ)
    (instruction : Instruction) (frame : FlowFrame) :
    Avoids Fault.IsMissingFrame (execute method code position instruction frame) := by
  unfold execute
  split
  · exact avoids_pure _
  · exact avoids_pure _
  · split
    · exact avoids_blame (Frame.avoids_apply _)
    · simp
  · refine (avoids_dropped 1).bind fun _ => ?_
    split <;> simp
  · exact avoids_pure _
  · exact avoids_accessVariable _ _
  · exact avoids_pure _
  · exact avoids_useType _ _
  · exact avoids_accessField _ _
  · exact avoids_call method code _ _
  · exact (MethodDescriptor.avoids_demand _).bind fun _ => (avoids_dropped _).bind fun _ => avoids_pure _
  · exact avoids_jump _
  · exact (avoids_loadedType _).bind fun _ => avoids_pure _
  · exact avoids_dropped 1
  · exact avoids_dropped 1
  · exact (avoids_dropped _).bind fun _ => avoids_pure _

end Transfer

/-! ## Analyses -/

theorem Placements.avoids_find (placements : Placements) (label : Label) :
    Avoids Fault.IsMissingFrame (placements.find label) := by
  unfold find
  split <;> simp [Fault.IsMissingFrame]

namespace FlowProblem

variable {problem : FlowProblem}

theorem avoids_bring (problem : FlowProblem) (work : Worklist) (position : ℕ) (incoming : FlowFrame) :
    Avoids problem.hierarchy.MissesFrame (work.bring problem.hierarchy position incoming) := by
  unfold Worklist.bring
  split
  · exact avoids_pure _
  · refine (avoids_mergeFrames _ _ _).bind fun merged => ?_
    cases merged <;> exact avoids_pure _

theorem avoids_visit (position : ℕ) (work : Worklist) :
    Avoids problem.hierarchy.MissesFrame (problem.visit position work) := by
  unfold visit
  split
  · next instruction before _ _ =>
    split
    · refine ((Transfer.avoids_execute _ _ _ _ _).under _).bind fun after => ?_
      refine (Avoids.foldlM (fun work handler _ => ?_) _).bind fun work =>
        (Avoids.foldlM (fun work target _ => ?_) _).bind fun work => ?_
      · exact (problem.avoids_bring _ _ _).bind fun _ => problem.avoids_bring _ _ _
      · exact ((Placements.avoids_find _ _).under _).bind fun _ => problem.avoids_bring _ _ _
      · split
        · split
          · exact problem.avoids_bring _ _ _
          · simp [Hierarchy.MissesFrame]
        · exact avoids_pure _
    · split
      · exact problem.avoids_bring _ _ _
      · exact avoids_pure _
  · exact avoids_pure _

theorem avoids_settle {work : Worklist} {result : Except Fault Worklist}
    (h : problem.settle work = some result) : Avoids problem.hierarchy.MissesFrame result := by
  refine settle.partial_correctness problem (fun _ => Avoids problem.hierarchy.MissesFrame) ?_ work result h
  intro settle ih work result hresult
  split at hresult
  · simp [← Option.some.inj hresult]
  · next position others _ =>
    split at hresult
    · next fault hvisit =>
      obtain rfl := Option.some.inj hresult
      exact avoids_error.mpr (avoids_visit position _ fault hvisit)
    · exact ih _ _ hresult

end FlowProblem

/-- An analysis does not fail for a missing frame. -/
theorem avoids_analyze (body : Body) (method : MethodContext) (hierarchy : Hierarchy) (roots : List Root) :
    Avoids hierarchy.MissesFrame (analyze body method hierarchy roots) := by
  refine Avoids.bind ?_ fun initial => Avoids.bind ?_ fun handlers => ?_
  · exact ((MethodDescriptor.avoids_demand _).bind fun _ => avoids_pure _).under hierarchy
  · refine Avoids.under (Avoids.mapM fun handler _ => ?_) hierarchy
    exact (Placements.avoids_find _ _).bind fun _ => (Placements.avoids_find _ _).bind fun _ =>
      (Placements.avoids_find _ _).bind fun _ => avoids_pure _
  · split
    · intro fault hfault
      obtain rfl := Except.error.inj hfault
      simp [Hierarchy.MissesFrame]
    · let problem := body.flowProblem method hierarchy handlers
      refine (Avoids.foldlM (fun work root _ => problem.avoids_bring work _ _) _).bind fun entered =>
        Avoids.bind ?_ fun _ => avoids_pure _
      cases hresult : problem.settle entered with
      | none => simp [Hierarchy.MissesFrame, Fault.IsMissingFrame]
      | some result => exact FlowProblem.avoids_settle hresult

end ClassInstrument
