import ClassInstrument.Policy.Basic
import ClassInstrument.Proofs.Outcome
import ClassInstrument.Proofs.Policy.DelegatingCall

/-!
# Static calls in injected code

The code that policies put into methods reports to other classes by static calls.  Here it is told which
methods each piece of such code calls.
-/

namespace ClassInstrument

open Outcome

/-- The static methods that instructions call, in order. -/
def staticCalls (instructions : List Instruction) : List Member :=
  instructions.filterMap fun instruction =>
    match instruction with
    | .method Opcode.invokestatic callee => some callee
    | _ => none

section

variable {callee : Member} {instructions : List Instruction}

theorem mem_staticCalls :
    callee ∈ staticCalls instructions ↔ .method Opcode.invokestatic callee ∈ instructions := by
  unfold staticCalls
  rw [List.mem_filterMap]
  constructor
  · rintro ⟨instruction, hmem, hcall⟩
    split at hcall
    · obtain rfl := Option.some.inj hcall
      exact hmem
    · cases hcall
  · exact fun hmem => ⟨_, hmem, rfl⟩

theorem staticCalls_subset {others : List Instruction} (h : instructions ⊆ others) :
    staticCalls instructions ⊆ staticCalls others := fun _ hmem =>
  mem_staticCalls.mpr (h (mem_staticCalls.mp hmem))

@[simp]
theorem staticCalls_append (front rest : List Instruction) :
    staticCalls (front ++ rest) = staticCalls front ++ staticCalls rest :=
  List.filterMap_append

@[simp]
theorem staticCalls_nil : staticCalls [] = [] := rfl

/-- Instructions of which none is a call make no static calls. -/
theorem staticCalls_eq_nil (h : ∀ opcode callee, .method opcode callee ∉ instructions) :
    staticCalls instructions = [] :=
  List.eq_nil_iff_forall_not_mem.mpr fun callee hmem =>
    h Opcode.invokestatic callee (mem_staticCalls.mp hmem)

end

/-- The method that a callback is on a class. -/
def Callback.member (callback : Callback) (owner : String) : Member :=
  { owner, name := callback.name, descriptor := callback.descriptor }

@[simp]
theorem staticCalls_call_cons (callback : Callback) (owner : String) (rest : List Instruction) :
    staticCalls (callback.call owner :: rest) = callback.member owner :: staticCalls rest := rfl

/-! ## Bodies with more instructions -/

namespace Body

/-- Instructions that are put into a body add their calls. -/
theorem staticCalls_insertAt {body : Body} {position : ℕ} {instructions : List Instruction}
    {callee : Member} : callee ∈ staticCalls (body.insertAt position instructions).instructions ↔
      callee ∈ staticCalls instructions ∨ callee ∈ staticCalls body.instructions := by
  have hsplit : staticCalls body.instructions =
      staticCalls (body.instructions.take position) ++ staticCalls (body.instructions.drop position) := by
    rw [← staticCalls_append, List.take_append_drop]
  rw [hsplit]
  simp only [insertAt, List.splitAt_eq, staticCalls_append, List.mem_append]
  tauto

/-- Instructions that are put behind a body add their calls. -/
theorem staticCalls_append_body {body : Body} {instructions : List Instruction} {callee : Member} :
    callee ∈ staticCalls (body.append instructions).instructions ↔
      callee ∈ staticCalls body.instructions ∨ callee ∈ staticCalls instructions := by
  simp [append]

end Body

namespace Editing

theorem staticCalls_defaultReturn (descriptor : String) : staticCalls (defaultReturn descriptor) = [] :=
  staticCalls_eq_nil fun _ _ hmem => by simp [defaultReturn] at hmem

theorem staticCalls_loadReceiver_cons (owner : String) (isStatic : Bool) (rest : List Instruction) :
    staticCalls (loadReceiver owner isStatic :: rest) = staticCalls rest := by
  cases isStatic <;> rfl

theorem staticCalls_loadFrom (slot : UInt16) (types : List FieldType) :
    staticCalls (loadFrom slot types) = [] := by
  induction types generalizing slot with
  | nil => rfl
  | cons type rest ih => exact ih _

end Editing

/-! ## Delegating calls -/

/-- Whatever is cut out of a body, and whatever is left, was there before. -/
theorem DelegatingCall.subset_of_extract? {body rest : Body} {owner : String}
    {superName : Option String} {delegating : List Instruction}
    (h : extract? body owner superName = some (delegating, rest)) :
    delegating ⊆ body.instructions ∧ rest.instructions ⊆ body.instructions := by
  obtain ⟨before, arguments, callee, after, hbody, -, -, rfl, hrest⟩ := exists_range h
  rw [hbody, hrest]
  constructor
  · intro instruction hmem
    simp only [List.mem_cons, List.mem_append, List.mem_filter, List.not_mem_nil, or_false] at hmem ⊢
    tauto
  · intro instruction hmem
    simp only [List.mem_cons, List.mem_append, List.mem_filter] at hmem ⊢
    tauto

/-! ## Shields and guards -/

namespace CrashShield

variable {body : Body} {owner descriptor handler : String} {isStatic : Bool} {callee : Member}

/-- A protected body tells the handler what is thrown. -/
theorem mem_staticCalls_protect {start : ℕ}
    (h : callee ∈ staticCalls (protect body start owner descriptor isStatic handler).instructions) :
    callee ∈ staticCalls body.instructions ∨ callee = handleThrowable.member handler := by
  have hlabel : ∀ label (rest : List Instruction),
      staticCalls (.label label :: rest) = staticCalls rest := fun _ _ => rfl
  rcases Body.staticCalls_append_body.mp h with h | h
  · rcases Body.staticCalls_insertAt.mp h with h | h
    · cases h
    · exact Or.inl h
  · rw [List.cons_append, List.cons_append, List.cons_append, hlabel,
      Editing.staticCalls_loadReceiver_cons, List.nil_append, staticCalls_call_cons,
      Editing.staticCalls_defaultReturn] at h
    exact Or.inr (List.mem_singleton.mp h)

/-- A guarded body asks the handler about the receiver. -/
theorem mem_staticCalls_guardReceiver
    (h : callee ∈ staticCalls (guardReceiver body owner descriptor isStatic handler).instructions) :
    callee ∈ staticCalls body.instructions ∨ callee = isObjectCrashing.member handler := by
  have hjump : ∀ opcode label (rest : List Instruction),
      staticCalls (.jump opcode label :: rest) = staticCalls rest := fun _ _ _ => rfl
  rcases Body.staticCalls_insertAt.mp h with h | h
  · rw [List.cons_append, List.cons_append, List.cons_append, List.cons_append, List.cons_append,
      List.cons_append, Editing.staticCalls_loadReceiver_cons, staticCalls_call_cons, hjump,
      List.nil_append, staticCalls_append, Editing.staticCalls_defaultReturn] at h
    exact Or.inr (List.mem_singleton.mp h)
  · exact Or.inl h

/-- Calls of view callbacks that are rerouted are no static calls. -/
theorem staticCalls_reroute_subset (safe : Option String) (instructions : List Instruction) :
    staticCalls (instructions.map (rerouteInstruction safe)) ⊆ staticCalls instructions := by
  intro callee hmem
  obtain ⟨instruction, hmem, heq⟩ := List.mem_map.mp (mem_staticCalls.mp hmem)
  have hspecial : ∀ other, Instruction.method Opcode.invokespecial other ≠
      .method Opcode.invokestatic callee := fun other heq => by
    exact absurd (Instruction.method.inj heq).1 (by decide)
  unfold rerouteInstruction at heq
  split at heq
  · split at heq
    · exact absurd heq (hspecial _)
    · exact absurd heq (hspecial _)
  · rw [heq] at hmem
    exact mem_staticCalls.mpr hmem

end CrashShield

/-- A guard compares loopers and tells its handler. -/
theorem ThreadCheck.mem_staticCalls_guardFor {owner handler : String} {method : Method}
    {passed : Label} {requirement : ThreadRequirement} {callee : Member}
    (h : callee ∈ staticCalls (guardFor owner method handler passed requirement)) :
    callee ∈ [myLooper.member looper, mainLooper.member looper, uiViolation.member handler,
      workerViolation.member handler] := by
  have hcalls : ∀ jump (violation : Callback),
      staticCalls (looperGuard owner method.name method.descriptor handler jump violation passed) =
        [myLooper.member looper, mainLooper.member looper, violation.member handler] := fun _ _ => rfl
  cases requirement with
  | ui =>
    rw [guardFor, hcalls] at h
    simp only [List.mem_cons, List.not_mem_nil, or_false] at h ⊢
    tauto
  | worker =>
    rw [guardFor, hcalls] at h
    simp only [List.mem_cons, List.not_mem_nil, or_false] at h ⊢
    tauto
  | any => cases h

/-! ## Forwarders -/

namespace Benchmark

/-- The method that reads the clock. -/
def clockMethod : Member := { owner := "java/lang/System", name := "nanoTime", descriptor := "()J" }

/-- The reports of a receiver. -/
def reports : List Callback := [executed, executedWithWarning, failed, thrown]

/-- The limits of a forwarder are reported as failures or warnings. -/
theorem callback_of_mem_ofThresholds {thresholds : Thresholds} {nextLabel : ℕ} {limit : Limit}
    (h : limit ∈ Limit.ofThresholds thresholds nextLabel) :
    limit.callback = failed ∨ limit.callback = executedWithWarning := by
  simp only [Limit.ofThresholds, List.mem_map] at h
  obtain ⟨⟨⟨millis, callback⟩, position⟩, hmem, rfl⟩ := h
  have hgiven := (List.mem_filter.mp (List.mem_iff_getElem?.mpr
    ⟨position, List.mem_zipIdx_iff_getElem?.mp hmem⟩)).1
  simp only [List.mem_cons, Prod.mk.injEq, List.not_mem_nil, or_false] at hgiven
  rcases hgiven with ⟨-, rfl⟩ | ⟨-, rfl⟩
  · exact .inl rfl
  · exact .inr rfl

theorem staticCalls_pushLong_cons (value : Int64) (rest : List Instruction) :
    staticCalls (.pushLong value :: rest) = staticCalls rest := by
  unfold Instruction.pushLong
  split
  · rfl
  · split <;> rfl

/-- Limits are compared without calls. -/
theorem staticCalls_compare (limits : List Limit) : staticCalls (limits.flatMap Limit.compare) = [] := by
  have hone : ∀ limit : Limit, staticCalls limit.compare = [] := fun limit =>
    staticCalls_pushLong_cons limit.nanos [.plain Opcode.lcmp, .jump Opcode.ifge limit.exceeded]
  induction limits with
  | nil => rfl
  | cons limit rest ih => rw [List.flatMap_cons, staticCalls_append, hone, ih, List.append_nil]

/-- A limit that is exceeded is reported by its callback. -/
theorem staticCalls_tell (limit : Limit) (receiver : String) (done : Label) :
    staticCalls (limit.tell receiver done) = [limit.callback.member receiver] :=
  staticCalls_pushLong_cons limit.nanos [limit.callback.call receiver, .jump Opcode.goto done]

/-- The calls that report limits are those of their callbacks. -/
theorem mem_staticCalls_tell {limits : List Limit} {receiver : String} {done : Label} {callee : Member}
    (h : callee ∈ staticCalls (limits.flatMap fun limit => limit.tell receiver done)) :
    ∃ limit ∈ limits, callee = limit.callback.member receiver := by
  induction limits with
  | nil => cases h
  | cons limit rest ih =>
    rw [List.flatMap_cons, staticCalls_append, staticCalls_tell] at h
    rcases List.mem_append.mp h with h | h
    · exact ⟨limit, List.mem_cons_self, List.mem_singleton.mp h⟩
    · obtain ⟨other, hmem, heq⟩ := ih h
      exact ⟨other, List.mem_cons_of_mem _ hmem, heq⟩

/-- A forwarder calls what its delegating call calls, the clock, the moved body and its receiver. -/
theorem mem_staticCalls_forwarder {report : Report} {moved : String} {delegating : List Instruction}
    {thresholds : Thresholds} {body : Body} {callee : Member}
    (hbody : report.forwarder moved delegating thresholds = .ok body)
    (h : callee ∈ staticCalls body.instructions) :
    callee ∈ staticCalls delegating ∨ callee = clockMethod ∨
      callee = { owner := report.owner, name := moved, descriptor := report.descriptor } ∨
      ∃ callback ∈ reports, callee = callback.member report.receiver := by
  obtain ⟨slot, -, hbody⟩ := bind_eq_ok.mp hbody
  obtain ⟨parameters, hparameters, hbody⟩ := bind_eq_ok.mp hbody
  obtain rfl := pure_eq_ok.mp hbody
  have hloads : staticCalls parameters = [] := by
    obtain ⟨parsed, -, hparameters⟩ := bind_eq_ok.mp hparameters
    obtain rfl := pure_eq_ok.mp hparameters
    exact Editing.staticCalls_loadFrom _ _
  have hmoved : ∀ callee ∈ staticCalls (report.callMoved moved parameters),
      callee = { owner := report.owner, name := moved, descriptor := report.descriptor } := by
    intro callee hmem
    unfold Report.callMoved at hmem
    split at hmem
    · rw [staticCalls_append, hloads] at hmem
      exact List.mem_singleton.mp hmem
    · have hskip : ∀ rest, staticCalls (Instruction.aload 0 :: rest) = staticCalls rest := fun _ => rfl
      rw [List.cons_append, hskip, staticCalls_append, hloads] at hmem
      cases hmem
  have hclock : staticCalls [readClock, .var Opcode.lstore slot] = [clockMethod] := rfl
  have hlabel : ∀ label, staticCalls [.label label] = [] := fun _ => rfl
  have hidentity : staticCalls report.pushIdentity = [] := rfl
  have hunder : staticCalls report.pushIdentityUnder = [] := rfl
  have helapsed : staticCalls (Report.pushElapsed slot) = [clockMethod] := rfl
  have hexecuted : ∀ label opcode, staticCalls [executed.call report.receiver, .label label,
      .plain opcode] = [executed.member report.receiver] := fun _ _ => rfl
  have hcatch : ∀ label, staticCalls [.label label, .plain Opcode.dup] = [] := fun _ => rfl
  have hthrown : staticCalls [thrown.call report.receiver, .plain Opcode.athrow] =
      [thrown.member report.receiver] := rfl
  simp only [staticCalls_append, hclock, hlabel, hidentity, hunder, helapsed, staticCalls_compare, hexecuted,
    hcatch, hthrown, List.append_nil, List.mem_append, List.mem_singleton] at h
  rcases h with ((((((h | h) | h) | h) | h) | h) | h) | h
  · exact .inl h
  · exact .inr (.inl h)
  · exact .inr (.inr (.inl (hmoved callee h)))
  · exact .inr (.inl h)
  · exact .inr (.inr (.inr ⟨executed, by simp [reports], h⟩))
  · obtain ⟨limit, hlimit, h⟩ := mem_staticCalls_tell h
    refine .inr (.inr (.inr ⟨limit.callback, ?_, h⟩))
    rcases callback_of_mem_ofThresholds hlimit with hsame | hsame <;> simp [hsame, reports]
  · exact .inr (.inl h)
  · exact .inr (.inr (.inr ⟨thrown, by simp [reports], h⟩))

end Benchmark

end ClassInstrument
