import ClassInstrument.Proofs.Policy.ForwarderFrames

/-!
# Forwarders are accepted

A forwarder can be analyzed in every hierarchy with the same result, because its frames are fixed.  Every
instruction is reached: those up to the return from the start, the report of a limit from its comparison, and
the report of what is thrown from the call of the moved body.  The store of the start time, that call and the
return are the only instructions of their kinds, so what the frames beside them say holds of all there are.
-/

namespace ClassInstrument

open Outcome

/-- Control goes along code that goes on behind itself, up to the instruction behind it. -/
theorem Body.Reachable.along {body : Body} {entries : List ℕ} {front block back : List Instruction}
    {instruction : Instruction} (hbody : body.instructions = front ++ (block ++ instruction :: back))
    (hstart : body.Reachable entries front.length) (hfalls : ∀ instruction ∈ block, instruction.fallsThrough)
    {index : ℕ} (hindex : index ≤ block.length) : body.Reachable entries (front.length + index) := by
  induction index with
  | zero => exact hstart
  | succ index ih =>
    refine (ih (Nat.le_of_succ_le hindex)).flows (.next ?_ (hfalls _ (List.getElem_mem hindex)) ?_)
    · rw [hbody, List.getElem?_append_right (Nat.le_add_right _ _), Nat.add_sub_cancel_left,
        List.getElem?_append_left hindex, List.getElem?_eq_getElem hindex]
    · simp only [hbody, List.length_append, List.length_cons]
      omega

namespace Benchmark

/-! ## The analysis of a forwarder -/

/-- The method that a report is about. -/
def Report.context (report : Report) : MethodContext where
  owner := report.owner
  name := report.name
  descriptor := report.descriptor
  isStatic := report.isStatic

section

variable {report : Report} {parsed : MethodDescriptor} {types : List FieldType} {moved : String}
  {thresholds : Thresholds} {limits : List Limit}

/-- On entry, the arguments are in the variables. -/
theorem initialFrame_context (hparse : MethodDescriptor.parse report.descriptor = .ok parsed)
    (hname : Name.isConstructor report.name = false) :
    report.context.initialFrame =
      .ok (Frame.ofTypes ((report.argumentTypes parsed).map ValueType.ofFieldType) []) := by
  have hdemand : MethodDescriptor.demand report.descriptor = .ok parsed := by
    simp [MethodDescriptor.demand, hparse]
  have hreceiver : report.context.receiverType = .object report.owner :=
    if_neg (by simp [Report.context, hname])
  simp only [MethodContext.initialFrame, hreceiver, Report.argumentTypes, List.map_append]
  rw [show report.context.descriptor = report.descriptor from rfl, hdemand]
  cases hstatic : report.isStatic
  · simp only [Report.context, hstatic]
    rfl
  · simp only [Report.context, hstatic]
    rfl

/-- The handler of a forwarder with positions for its labels: it protects what comes behind the store of the
start time, up to the call of the moved body. -/
def placedCatcher (report : Report) (moved : String) (types : List FieldType) (limits : List Limit) :
    PlacedHandler where
  start := 2
  stop := (Report.opening types).length + 1
  handler := (returning report moved types limits ++ report.telling limits).length
  caught := Name.throwable

/-- The positions that the handler protects. -/
theorem covers_placedCatcher {position : ℕ} : (placedCatcher report moved types limits).covers position ↔
    2 ≤ position ∧ position < (Report.opening types).length + 1 := by
  simp [PlacedHandler.covers, placedCatcher]

/-- The labels of the handler are turned into positions. -/
theorem placedHandlers_forwarderBody (hlimits : limits = Limit.ofThresholds thresholds 4) :
    (report.forwarderBody moved types limits).placedHandlers =
      .ok [placedCatcher report moved types limits] := by
  have hlabelled : (report.forwarderBody moved types limits).WellLabelled :=
    hlimits ▸ wellLabelled_forwarderBody report moved types thresholds
  have hfind {label : Label} (front back : List Instruction)
      (h : (report.forwarderBody moved types limits).instructions = front ++ .label label :: back) :
      (report.forwarderBody moved types limits).labelPositions.find label = .ok front.length :=
    Body.find_labelPositions.mpr (hlabelled.places_iff.mpr (by rw [h]; simp))
  have hstart := hfind [readClock, .var Opcode.lstore (Report.freeSlot types)] _ rfl
  have hstop := @hfind ⟨1⟩ (Report.opening types ++ [report.calling moved])
    (report.pushIdentity ++ Report.pushElapsed (Report.freeSlot types) ++
      (limits.flatMap Limit.compare ++ (report.closing ++ (report.telling limits ++
        (report.catching types ++ [.plain Opcode.athrow]))))) (by
      simp [Report.forwarderBody, Report.timing])
  have hhandler := @hfind ⟨3⟩ (returning report moved types limits ++ report.telling limits)
    (.plain Opcode.dup :: (report.pushIdentityUnder ++ Report.pushElapsed (Report.freeSlot types) ++
      [thrown.call report.receiver]) ++ [.plain Opcode.athrow]) (by
      simp [instructions_forwarderBody, Report.catching])
  have hhandlers : (report.forwarderBody moved types limits).handlers =
      [{ start := ⟨0⟩, stop := ⟨1⟩, handler := ⟨3⟩, caught := some Name.throwable }] := rfl
  simp only [Body.placedHandlers, hhandlers, List.mapM_cons, List.mapM_nil, hstart, hstop, hhandler]
  simp [bind, Except.bind, pure, Except.pure, placedCatcher]

/-- What is protected goes on behind itself. -/
theorem fallsThrough_opening (report : Report) (moved : String) (types : List FieldType) :
    ∀ instruction ∈ Report.opening types ++ [report.calling moved], instruction.fallsThrough := by
  refine List.forall_mem_append.mpr ⟨List.forall_mem_append.mpr ⟨?_, fun instruction hmem => ?_⟩, ?_⟩
  · exact List.forall_mem_cons.mpr ⟨rfl, List.forall_mem_cons.mpr ⟨rfl, List.forall_mem_singleton.mpr rfl⟩⟩
  · obtain ⟨type, slot, rfl⟩ := Editing.exists_of_mem_loadFrom hmem
    exact bne_iff_ne.mpr (Editing.loadOpcode_ne type).2
  · exact List.forall_mem_singleton.mpr rfl

/-- The frames of a forwarder are fixed. -/
theorem exists_fixed_forwarderBody (hparse : MethodDescriptor.parse report.descriptor = .ok parsed)
    (htypes : types = report.argumentTypes parsed) (hslots : (types.map FieldType.width).sum + 2 ≤ 65536)
    (hmoved : Name.isConstructor moved = false) (hlimits : limits = Limit.ofThresholds thresholds 4) :
    ∃ frames : List FlowFrame,
      ((report.forwarderBody moved types limits).flowProblem report.context .silent
        [placedCatcher report moved types limits]).Fixed (frames[·]?) ∧
      frames[0]? = some (Frame.ofTypes (types.map ValueType.ofFieldType) []) ∧
      (∀ frame ∈ frames, Frame.slotsOfEntries (types.map ValueType.ofFieldType) <+: frame.locals) ∧
      frames[(Report.opening types).length]? = some (calledFrame types) ∧
      frames[(returning report moved types limits).length - 1]? =
        some (Transfer.pushResult (startedFrame types) parsed.result) := by
  obtain ⟨rest, frames, hframes, hannotated, halong, hcalled, hreturned, hcaught⟩ :=
    @exists_annotated_forwarderBody report.context
      (report.forwarderBody moved types limits).instructions.toArray report types _ limits parsed moved
      thresholds hparse htypes hslots hmoved rfl hlimits
  set entry := Frame.ofTypes (types.map ValueType.ofFieldType) [] with hentry
  have hlabelled : (report.forwarderBody moved types limits).WellLabelled :=
    hlimits ▸ wellLabelled_forwarderBody report moved types thresholds
  have hkept {position : ℕ} (hposition : 2 ≤ position) {frame : FlowFrame}
      (hframe : frames[position]? = some frame) : frame.locals = (startedFrame types).locals := by
    obtain ⟨offset, rfl⟩ := Nat.exists_eq_add_of_le' hposition
    rw [hframes] at hframe
    exact (halong frame (List.mem_of_getElem? hframe)).2
  refine ⟨frames, hannotated.fixed hlabelled ?_ ?_ ?_ ?_, by rw [hframes]; rfl, ?_, hcalled, hreturned⟩
  · intro label frame hmarked
    rw [placedLabels_forwarderBody]
    unfold markedFrames at hmarked
    split at hmarked
    · next hdone => simp [hdone]
    · split at hmarked
      · next hmem => simp [hmem]
      · cases hmarked
  · have hcanonical : entry.Canonical := .ofTypes _ _
    rw [hframes]
    exact List.forall_mem_cons.mpr ⟨hcanonical, List.forall_mem_cons.mpr ⟨hcanonical.push _,
      fun frame hmem => (halong frame hmem).1⟩⟩
  · intro handler hhandler position hcovers frame hframe
    obtain rfl := List.mem_singleton.mp hhandler
    rw [covers_placedCatcher] at hcovers
    have hlocals : frame.locals = (startedFrame types).locals := by
      rcases hframe with hframe | hframe
      · exact hkept hcovers.1 hframe
      · exact hkept (hcovers.1.trans (Nat.le_succ _)) hframe
    rw [hlocals]
    exact hcaught
  · intro handler hhandler position hcovers instruction here
    obtain rfl := List.mem_singleton.mp hhandler
    rw [covers_placedCatcher] at hcovers
    have hsplit : (report.forwarderBody moved types limits).instructions =
        (Report.opening types ++ [report.calling moved]) ++ (report.timing types ++
          limits.flatMap Limit.compare ++ report.closing ++ report.telling limits ++ report.catching types ++
            [.plain Opcode.athrow]) := by
      simp [Report.forwarderBody]
    rw [hsplit, List.getElem?_append_left (by simpa using hcovers.2)] at here
    exact fallsThrough_opening report moved types instruction (List.mem_of_getElem? here)
  · have hprefix :
        Frame.slotsOfEntries (types.map ValueType.ofFieldType) <+: (startedFrame types).locals := by
      rw [startedFrame, Frame.slotsOfEntries_append]
      exact List.prefix_append _ _
    have hentryPrefix : Frame.slotsOfEntries (types.map ValueType.ofFieldType) <+: entry.locals := by
      rw [hentry, Frame.ofTypes_eq]
    rw [hframes]
    exact List.forall_mem_cons.mpr ⟨hentryPrefix, List.forall_mem_cons.mpr ⟨hentryPrefix,
      fun frame hmem => (halong frame hmem).2 ▸ hprefix⟩⟩

/-! ## Everything is reached -/

/-- Pushing a number goes on behind itself. -/
theorem fallsThrough_pushLong (value : Int64) : (Instruction.pushLong value).fallsThrough := by
  unfold Instruction.pushLong
  split
  · rfl
  · split <;> rfl

/-- What stands in front of the return goes on behind itself. -/
theorem exists_returning (report : Report) (moved : String) (types : List FieldType) (limits : List Limit) :
    ∃ front, returning report moved types limits =
        front ++ [.plain (Editing.returnOpcode report.descriptor)] ∧
      ∀ instruction ∈ front, instruction.fallsThrough := by
  have hcompare : ∀ instruction ∈ limits.flatMap Limit.compare, instruction.fallsThrough := by
    intro instruction hmem
    obtain ⟨limit, -, hmem⟩ := List.mem_flatMap.mp hmem
    simp only [Limit.compare, List.mem_cons, List.not_mem_nil, or_false] at hmem
    rcases hmem with rfl | rfl | rfl | rfl
    · rfl
    · exact fallsThrough_pushLong _
    · rfl
    · rfl
  have htiming : ∀ instruction ∈ report.timing types, instruction.fallsThrough :=
    List.all_eq_true.mp (show (report.timing types).all Instruction.fallsThrough = true from rfl)
  refine ⟨(Report.opening types ++ [report.calling moved]) ++ (report.timing types ++
    (limits.flatMap Limit.compare ++ [executed.call report.receiver, .label ⟨2⟩])), ?_, ?_⟩
  · simp [returning, Report.closing]
  · refine List.forall_mem_append.mpr ⟨fallsThrough_opening report moved types, List.forall_mem_append.mpr
      ⟨htiming, List.forall_mem_append.mpr ⟨hcompare, ?_⟩⟩⟩
    exact List.forall_mem_cons.mpr ⟨rfl, List.forall_mem_singleton.mpr rfl⟩

/-- A label is placed where it stands in a forwarder. -/
theorem places_forwarderBody (hlimits : limits = Limit.ofThresholds thresholds 4) {label : Label}
    {front back : List Instruction}
    (hbody : (report.forwarderBody moved types limits).instructions = front ++ .label label :: back) :
    (report.forwarderBody moved types limits).Places label front.length := by
  have hlabelled : (report.forwarderBody moved types limits).WellLabelled :=
    hlimits ▸ wellLabelled_forwarderBody report moved types thresholds
  refine hlabelled.places_iff.mpr ?_
  rw [hbody]
  simp

/-- Everything up to the return is reached from the start. -/
theorem reachable_returning {position : ℕ} (h : position < (returning report moved types limits).length) :
    (report.forwarderBody moved types limits).Reachable [0] position := by
  obtain ⟨front, hfront, hfalls⟩ := exists_returning report moved types limits
  have hbody : (report.forwarderBody moved types limits).instructions =
      [] ++ (front ++ .plain (Editing.returnOpcode report.descriptor) ::
        (report.telling limits ++ (report.catching types ++ [.plain Opcode.athrow]))) := by
    rw [instructions_forwarderBody, hfront]
    simp
  rw [hfront, List.length_append, List.length_singleton] at h
  have hreached := Body.Reachable.along hbody (Body.reachable_entry (List.mem_singleton.mpr rfl)) hfalls
    (Nat.le_of_lt_succ h)
  simpa using hreached

/-- The report of each limit is reached from its comparison. -/
theorem reachable_telling (hlimits : limits = Limit.ofThresholds thresholds 4) {before after : List Limit}
    {limit : Limit} (hsplit : limits = before ++ limit :: after) {index : ℕ} (hindex : index < 4) :
    (report.forwarderBody moved types limits).Reachable [0]
      ((returning report moved types limits ++ report.telling before).length + index) := by
  have htelling : report.telling limits = report.telling before ++
      (limit.tell report.receiver ⟨2⟩ ++ report.telling after) := by
    simp [hsplit, Report.telling]
  have hbody : (report.forwarderBody moved types limits).instructions =
      (returning report moved types limits ++ report.telling before) ++
        ([.label limit.exceeded, .pushLong limit.nanos, limit.callback.call report.receiver] ++
          .jump Opcode.goto ⟨2⟩ ::
            (report.telling after ++ (report.catching types ++ [.plain Opcode.athrow]))) := by
    rw [instructions_forwarderBody, htelling]
    simp [Limit.tell]
  -- The jump stands behind the comparisons of the limits in front of this one.
  let front := Report.opening types ++ report.calling moved :: (report.timing types ++
    (before.flatMap Limit.compare ++ [.plain Opcode.dup2, .pushLong limit.nanos, .plain Opcode.lcmp]))
  have hreturning : returning report moved types limits = front ++ .jump Opcode.ifge limit.exceeded ::
      (after.flatMap Limit.compare ++ report.closing) := by
    simp [returning, hsplit, front, Limit.compare]
  have hjump : (report.forwarderBody moved types limits).instructions[front.length]? =
      some (.jump Opcode.ifge limit.exceeded) := by
    rw [instructions_forwarderBody, hreturning]
    simp
  have hreached : (report.forwarderBody moved types limits).Reachable [0]
      (returning report moved types limits ++ report.telling before).length :=
    (reachable_returning (by rw [hreturning]; simp)).flows
      (.jump hjump (List.mem_singleton.mpr rfl) (places_forwarderBody hlimits hbody))
  refine Body.Reachable.along hbody hreached ?_ (Nat.le_of_lt_succ hindex)
  exact List.forall_mem_cons.mpr ⟨rfl, List.forall_mem_cons.mpr ⟨fallsThrough_pushLong _,
    List.forall_mem_singleton.mpr rfl⟩⟩

/-- The report of what is thrown is reached from the call of the moved body. -/
theorem reachable_catching (hlimits : limits = Limit.ofThresholds thresholds 4) {index : ℕ}
    (hindex : index ≤ (report.catching types).length) :
    (report.forwarderBody moved types limits).Reachable [0]
      ((returning report moved types limits ++ report.telling limits).length + index) := by
  have hbody : (report.forwarderBody moved types limits).instructions =
      (returning report moved types limits ++ report.telling limits) ++
        (report.catching types ++ .plain Opcode.athrow :: []) := by
    rw [instructions_forwarderBody]
    simp
  have hcalling : (report.forwarderBody moved types limits).instructions[(Report.opening types).length]? =
      some (report.calling moved) := by
    simp [Report.forwarderBody]
  obtain ⟨placed, hplaced, hplaces⟩ := exists_right_of_forall₂
    (Body.placedHandlers_eq_ok (@placedHandlers_forwarderBody report types moved thresholds limits hlimits))
      (List.mem_singleton.mpr rfl)
  obtain rfl := List.mem_singleton.mp hplaced
  have hcovers : (placedCatcher report moved types limits).covers (Report.opening types).length :=
    covers_placedCatcher.mpr ⟨by simp [Report.opening], Nat.lt_succ_self _⟩
  have hreached : (report.forwarderBody moved types limits).Reachable [0]
      (returning report moved types limits ++ report.telling limits).length :=
    (reachable_returning (by simp [returning])).flows (.throw hcalling rfl (List.mem_singleton.mpr rfl)
      hplaces.start hplaces.stop (by simpa [PlacedHandler.covers] using hcovers) hplaces.entry)
  have hfalls : ∀ instruction ∈ report.catching types, instruction.fallsThrough :=
    List.all_eq_true.mp (show (report.catching types).all Instruction.fallsThrough = true from rfl)
  exact Body.Reachable.along hbody hreached hfalls hindex

/-- Every instruction of a forwarder is reached. -/
theorem reachable_forwarderBody (hlimits : limits = Limit.ofThresholds thresholds 4) {position : ℕ}
    (h : position < (report.forwarderBody moved types limits).instructions.length) :
    (report.forwarderBody moved types limits).Reachable [0] position := by
  rw [instructions_forwarderBody, List.length_append, List.length_append, List.length_append,
    List.length_singleton] at h
  have htelling (limits : List Limit) : (report.telling limits).length = limits.length * 4 := by
    simp [Report.telling, Limit.tell, List.length_flatMap]
  by_cases hreturning : position < (returning report moved types limits).length
  · exact reachable_returning hreturning
  by_cases htold : position < (returning report moved types limits).length + (report.telling limits).length
  · rw [htelling] at htold
    have hindex : (position - (returning report moved types limits).length) / 4 < limits.length := by omega
    set index := (position - (returning report moved types limits).length) / 4
    have hsplit : limits = limits.take index ++ limits[index] :: limits.drop (index + 1) := by
      rw [← List.drop_eq_getElem_cons hindex, List.take_append_drop]
    have hreached := @reachable_telling report types moved thresholds limits hlimits _ _ _ hsplit
      ((position - (returning report moved types limits).length) % 4) (Nat.mod_lt _ (by decide))
    rw [List.length_append, htelling, List.length_take_of_le hindex.le] at hreached
    convert hreached using 1
    omega
  · have hreached := @reachable_catching report types moved thresholds limits hlimits
      (position - ((returning report moved types limits).length + (report.telling limits).length)) (by omega)
    rw [List.length_append] at hreached
    convert hreached using 1
    omega

/-! ## Stores, calls and returns -/

/-- Neither stores a variable, nor returns, nor calls anything but the clock and reports. -/
def isAside : Instruction → Bool
  | .var opcode _ => !opcode.isStore
  | .plain opcode => !opcode.isReturn
  | .method _ callee =>
    ["nanoTime", executed.name, executedWithWarning.name, failed.name, thrown.name].contains callee.name
  | _ => true

/-- What stands at a position is aside, or the one that is not, or stands behind that. -/
theorem split_of_getElem? {front back : List Instruction} {found instruction : Instruction} {position : ℕ}
    (h : (front ++ found :: back)[position]? = some instruction) (hfront : ∀ other ∈ front, isAside other)
    (hinstruction : isAside instruction = false) :
    (position = front.length ∧ instruction = found) ∨
      ∃ index, position = front.length + 1 + index ∧ back[index]? = some instruction := by
  rcases Nat.lt_trichotomy position front.length with hlt | rfl | hlt
  · rw [List.getElem?_append_left hlt] at h
    simp [hfront instruction (List.mem_of_getElem? h)] at hinstruction
  · exact .inl ⟨rfl, by simpa using h.symm⟩
  · obtain ⟨index, rfl⟩ := Nat.exists_eq_add_of_le (Nat.succ_le_of_lt hlt)
    refine .inr ⟨index, rfl, ?_⟩
    rw [List.getElem?_append_right (by omega)] at h
    simpa [show front.length.succ + index - front.length = index + 1 by omega] using h

/-- All but three instructions of a forwarder are aside: the store of the start time, the call of the moved
body, and the return. -/
theorem cases_of_not_isAside (hlimits : limits = Limit.ofThresholds thresholds 4) {position : ℕ}
    {instruction : Instruction}
    (h : (report.forwarderBody moved types limits).instructions[position]? = some instruction)
    (hinstruction : isAside instruction = false) :
    instruction = .var Opcode.lstore (Report.freeSlot types) ∨
    (position = (Report.opening types).length ∧ instruction = report.calling moved) ∨
    position = (returning report moved types limits).length - 1 ∧
      instruction = .plain (Editing.returnOpcode report.descriptor) := by
  have hpush (value : Int64) : isAside (.pushLong value) := by
    unfold Instruction.pushLong
    split
    · rfl
    · split <;> rfl
  have hloads : ∀ other ∈ Editing.loadFrom 0 types, isAside other := by
    intro other hmem
    obtain ⟨type, slot, rfl⟩ := Editing.exists_of_mem_loadFrom hmem
    simp [isAside, (Editing.loadOpcode_ne type).1]
  have hcompare : ∀ other ∈ limits.flatMap Limit.compare, isAside other := by
    intro other hmem
    obtain ⟨limit, -, hmem⟩ := List.mem_flatMap.mp hmem
    simp only [Limit.compare, List.mem_cons, List.not_mem_nil, or_false] at hmem
    rcases hmem with rfl | rfl | rfl | rfl
    · rfl
    · exact hpush _
    · rfl
    · rfl
  have htell : ∀ other ∈ report.telling limits, isAside other := by
    intro other hmem
    obtain ⟨limit, hlimit, hmem⟩ := List.mem_flatMap.mp hmem
    simp only [Limit.tell, List.mem_cons, List.not_mem_nil, or_false] at hmem
    rcases hmem with rfl | rfl | rfl | rfl
    · rfl
    · exact hpush _
    · rcases callback_of_mem (hlimits ▸ hlimit) with hcallback | hcallback <;> rw [hcallback] <;> rfl
    · rfl
  have htiming : ∀ other ∈ report.timing types, isAside other :=
    List.all_eq_true.mp (show (report.timing types).all isAside = true from rfl)
  have hcatching : ∀ other ∈ report.catching types, isAside other :=
    List.all_eq_true.mp (show (report.catching types).all isAside = true from rfl)
  let middle := report.timing types ++ (limits.flatMap Limit.compare ++
    [executed.call report.receiver, .label ⟨2⟩])
  have hmiddle : ∀ other ∈ middle, isAside other :=
    List.forall_mem_append.mpr ⟨htiming, List.forall_mem_append.mpr ⟨hcompare,
      List.forall_mem_cons.mpr ⟨rfl, List.forall_mem_singleton.mpr rfl⟩⟩⟩
  have hlast : ∀ other ∈ report.telling limits ++ (report.catching types ++ [.plain Opcode.athrow]),
      isAside other :=
    List.forall_mem_append.mpr ⟨htell, List.forall_mem_append.mpr ⟨hcatching,
      List.forall_mem_singleton.mpr rfl⟩⟩
  have hbody : (report.forwarderBody moved types limits).instructions =
      [readClock] ++ .var Opcode.lstore (Report.freeSlot types) ::
        ((.label ⟨0⟩ :: Editing.loadFrom 0 types) ++ report.calling moved ::
          (middle ++ .plain (Editing.returnOpcode report.descriptor) ::
            (report.telling limits ++ (report.catching types ++ [.plain Opcode.athrow])))) := by
    simp [Report.forwarderBody, Report.opening, Report.closing, middle]
  rw [hbody] at h
  rcases split_of_getElem? h (List.forall_mem_singleton.mpr rfl) hinstruction with
    ⟨-, hstore⟩ | ⟨first, hfirst, hafterStore⟩
  · exact .inl hstore
  rcases split_of_getElem? hafterStore (List.forall_mem_cons.mpr ⟨rfl, hloads⟩) hinstruction with
    ⟨hposition, hcalling⟩ | ⟨second, hsecond, hafterCall⟩
  · refine .inr (.inl ⟨?_, hcalling⟩)
    rw [hfirst, hposition, Report.opening, List.length_append]
    simp only [List.length_cons, List.length_nil]
    omega
  rcases split_of_getElem? hafterCall hmiddle hinstruction with
    ⟨hposition, hreturn⟩ | ⟨third, -, hafterReturn⟩
  · refine .inr (.inr ⟨?_, hreturn⟩)
    rw [hfirst, hsecond, hposition]
    simp only [returning, middle, Report.opening, Report.closing, List.length_append, List.length_cons,
      List.length_nil]
    omega
  · simp [hlast instruction (List.mem_of_getElem? hafterReturn)] at hinstruction

end

/-- Moved bodies are named like no constructor and like nothing else that a forwarder calls. -/
theorem movedName_ne_callees (name : String) :
    Name.isConstructor (Editing.movedBodyStart ++ Name.sanitized name) = false ∧
      ["nanoTime", executed.name, executedWithWarning.name, failed.name, thrown.name].contains
        (Editing.movedBodyStart ++ Name.sanitized name) = false := by
  have hne (other : String) (h : other.toList.head? ≠ some '_') :
      Editing.movedBodyStart ++ Name.sanitized name ≠ other := by
    rintro rfl
    rw [String.toList_append] at h
    exact h rfl
  constructor
  · exact beq_eq_false_iff_ne.mpr (hne _ (by decide))
  · simp only [List.contains_cons, List.contains_nil, Bool.or_false, Bool.or_eq_false_iff,
      beq_eq_false_iff_ne]
    exact ⟨hne _ (by decide), hne _ (by decide), hne _ (by decide), hne _ (by decide), hne _ (by decide)⟩

/-- A forwarder of a method whose arguments leave two slots free can be analyzed, and the analysis has the
same result in every hierarchy: no question is asked.  It reaches every instruction.  When the moved body is
called, the receiver and the parameters are on the stack in their order, and nothing else; at the return, only
what was returned is.  The start time is stored behind the arguments, which stay in their variables. -/
theorem forwarder_verifies {report : Report} {parsed : MethodDescriptor}
    (hparse : MethodDescriptor.parse report.descriptor = .ok parsed)
    (hname : Name.isConstructor report.name = false)
    (hslots : parsed.parameterSlots (!report.isStatic) + 2 ≤ 65536) (thresholds : Thresholds) :
    let moved := Editing.movedBodyStart ++ Name.sanitized report.name
    let arguments := (report.argumentTypes parsed).map ValueType.ofFieldType
    ∃ body analysis, report.forwarder moved [] thresholds = .ok body ∧
      (∀ hierarchy, analyze body report.context hierarchy [] = .ok analysis) ∧
      (∀ position < body.instructions.length, analysis.reaches position) ∧
      report.calling moved ∈ body.instructions ∧
      .plain (Editing.returnOpcode report.descriptor) ∈ body.instructions ∧
      ∀ (position : ℕ) (instruction : Instruction) (frame : FlowFrame),
        body.instructions[position]? = some instruction →
        analysis.frames[position]? = some (some frame) →
          Frame.slotsOfEntries arguments <+: frame.locals ∧
          (∀ opcode callee, instruction = .method opcode callee → callee.name = moved →
            frame.stack.toList = arguments) ∧
          (∀ opcode, instruction = .plain opcode → opcode.isReturn →
            frame.stack.toList = parsed.result.toList.map ValueType.ofFieldType) ∧
          ∀ opcode slot, instruction = .var opcode slot → opcode.isStore →
            parsed.parameterSlots (!report.isStatic) ≤ slot.toNat := by
  intro moved arguments
  obtain ⟨hmoved, hother⟩ := movedName_ne_callees report.name
  rw [Report.parameterSlots_eq] at hslots ⊢
  set types := report.argumentTypes parsed with htypes
  set limits := Limit.ofThresholds thresholds 4 with hlimits
  obtain ⟨frames, hfixed, hentry, hkept, hcalled, hreturned⟩ :=
    exists_fixed_forwarderBody hparse htypes hslots hmoved hlimits
  obtain ⟨analysis, hanalysis, hfound⟩ := Body.exists_analyze_of_fixed (initialFrame_context hparse hname)
    (placedHandlers_forwarderBody hlimits) hfixed hentry
  refine ⟨_, analysis, Report.forwarder_eq hparse moved thresholds, hanalysis, fun position hlt => ?_,
    ?_, ?_, ?_⟩
  · exact (reaches_iff (by simp) (hanalysis .silent) position).mpr (reachable_forwarderBody hlimits hlt)
  · simp [Report.forwarderBody]
  · simp [Report.forwarderBody, Report.closing]
  · intro position instruction frame here hframe
    have hgiven := hfound hframe
    refine ⟨hkept frame (List.mem_of_getElem? hgiven), ?_, ?_, ?_⟩
    · rintro opcode callee rfl hcallee
      rcases cases_of_not_isAside hlimits here (by rw [isAside, hcallee]; exact hother) with
        h | ⟨rfl, h⟩ | ⟨-, h⟩
      · cases h
      · obtain rfl := Option.some.inj (hgiven.symm.trans hcalled)
        exact Slots.toList_ofList _
      · cases h
    · rintro opcode rfl hreturn
      rcases cases_of_not_isAside hlimits here (by simp [isAside, hreturn]) with h | ⟨-, h⟩ | ⟨rfl, -⟩
      · cases h
      · cases h
      · obtain rfl := Option.some.inj (hgiven.symm.trans hreturned)
        cases parsed.result <;> rfl
    · rintro opcode slot rfl hstore
      rcases cases_of_not_isAside hlimits here (by simp [isAside, hstore]) with h | ⟨-, h⟩ | ⟨-, h⟩
      · obtain ⟨-, rfl⟩ := Instruction.var.inj h
        rw [htypes] at hslots
        rw [Report.freeSlot, UInt16.toNat_ofNat', htypes]
        omega
      · cases h
      · cases h

/-- A method `f(int, long)` of a class `a/A` with both thresholds: its moved body is called with an object of
the class, an `int` and a `long` on the stack, and the start time is stored in the fifth slot or behind it. -/
theorem forwarder_verifies_wide :
    ∃ body analysis, (sampleReport "(IJ)Ljava/lang/Object;").forwarder "__benchmark_f" [] ⟨5, 9⟩ = .ok body ∧
      (∀ hierarchy, analyze body ⟨"a/A", "f", "(IJ)Ljava/lang/Object;", false⟩ hierarchy [] = .ok analysis) ∧
      ∀ (position : ℕ) (instruction : Instruction) (frame : FlowFrame),
        body.instructions[position]? = some instruction →
        analysis.frames[position]? = some (some frame) →
          (∀ opcode callee, instruction = .method opcode callee → callee.name = "__benchmark_f" →
            frame.stack.toList = [.object "a/A", .int, .long]) ∧
          ∀ slot, instruction = .var Opcode.lstore slot → 4 ≤ slot.toNat := by
  obtain ⟨body, analysis, hbody, hanalysis, -, -, -, hframes⟩ := @forwarder_verifies
    (sampleReport "(IJ)Ljava/lang/Object;") ⟨[.base .int, .base .long], some (.object "java/lang/Object")⟩ rfl
    (by decide) (by decide) ⟨5, 9⟩
  refine ⟨body, analysis, hbody, hanalysis, fun position instruction frame here hframe => ?_⟩
  obtain ⟨-, hcall, -, hstore⟩ := hframes position instruction frame here hframe
  exact ⟨hcall, fun slot hslot => hstore Opcode.lstore slot hslot (by decide)⟩

end Benchmark

end ClassInstrument
