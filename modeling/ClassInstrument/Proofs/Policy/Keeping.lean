import ClassInstrument.Proofs.Policy.StaticCalls

/-!
# What policies leave alone, and what they call

A policy takes markers off, gives methods other names and flags, opens bodies, adds methods behind the
others and replaces the superclass.  It reaches for nothing else: the table of constants, the fields and
the attributes that nobody decodes stay, and so does every body that was not opened.  And the bodies that
come out make no static calls but those that were there before and those that the policy is known for.

Each policy treats the methods one by one.  Most treatments put another body into the place of the one they
have opened, or do nothing at all, which `Method.Reworked` says once for all of them; the treatments of shielding
are listed by `CrashShield.Treats`, `CrashShield.Retargets` and `CrashShield.Reroutes`.  What a policy leaves
alone is stated for a method first (`Method.Keeps`), and for a class it follows position by position
(`ClassDecl.Keeps`).
-/

namespace ClassInstrument

open Outcome

/-- A policy succeeds in what it asks of a class if the class gives it. -/
theorem PolicyFault.lift_eq_ok {α : Type} {action : Except Fault α} {result : α} :
    (liftM action : Except PolicyFault α) = .ok result ↔ action = .ok result := by
  cases action <;> simp [liftM, monadLift, MonadLift.monadLift, Except.mapError]

/-! ## Methods -/

/-- A static method that the body of a method calls. -/
def Method.Calls (pool : Pool) (method : Method) (callee : Member) : Prop :=
  ∃ body, method.body.decode pool = .ok (some body) ∧ callee ∈ staticCalls body.instructions

/-- A method after some treatment that leaves alone what was copied, and the body unless it was opened,
and that adds calls of certain methods only. -/
structure Method.Keeps (pool : Pool) (added : Member → Prop) (method after : Method) : Prop where
  /-- The attributes that nobody decodes stay. -/
  attributes_eq : after.attributes = method.attributes
  /-- A body that is not under edit afterwards was never touched. -/
  body_eq : after.isEdited = false → after.body = method.body
  /-- Calls that were not there before are some of those that may be added. -/
  calls : ∀ {callee}, after.Calls pool callee → method.Calls pool callee ∨ added callee

/-- A method after some treatment that opens the body at most, and whose new instructions call certain methods
only. -/
inductive Method.Reworked (pool : Pool) (added : Member → Prop) (method : Method) : Method → Prop
  /-- The body was not opened, or was left as it is. -/
  | untouched : method.Reworked pool added method
  /-- The body was opened, and another one has taken its place. -/
  | opened {old new : Body} (hold : method.body.decode pool = .ok (some old))
      (hcalls : ∀ callee ∈ staticCalls new.instructions,
        callee ∈ staticCalls old.instructions ∨ added callee) :
      method.Reworked pool added (method.withBody new)

section Treatments

variable {added : Member → Prop}

namespace Method

variable {pool : Pool} {method middle after : Method} {old new : Body}

/-- A method that is not treated keeps everything. -/
theorem Keeps.refl (method : Method) : method.Keeps pool added method := ⟨rfl, fun _ => rfl, .inl⟩

/-- One treatment after another leaves alone what both of them do. -/
theorem Keeps.trans (h : method.Keeps pool added middle) (h' : middle.Keeps pool added after) :
    method.Keeps pool added after where
  attributes_eq := h'.attributes_eq.trans h.attributes_eq
  body_eq hraw := by
    have hsame := h'.body_eq hraw
    have hmiddle : middle.isEdited = false := by
      unfold isEdited at hraw ⊢
      rwa [← hsame]
    rw [hsame, h.body_eq hmiddle]
  calls hcall := (h'.calls hcall).elim h.calls .inr

/-- Taking markers off touches neither attributes nor the body. -/
theorem keeps_withMarks (method : Method) (marks : Marks) :
    method.Keeps pool added (method.withMarks marks) :=
  ⟨rfl, fun _ => rfl, .inl⟩

/-- The instructions that are put into a body account for the calls that are new. -/
theorem Reworked.insertAt (hold : method.body.decode pool = .ok (some old)) {position : ℕ}
    {instructions : List Instruction} (hadded : ∀ callee ∈ staticCalls instructions, added callee) :
    method.Reworked pool added (method.withBody (old.insertAt position instructions)) :=
  .opened hold fun callee hmem => (Body.staticCalls_insertAt.mp hmem).symm.imp_right (hadded callee)

/-- A body that is replaced is under edit, and makes the calls of its instructions. -/
theorem Reworked.keeps (h : method.Reworked pool added after) : method.Keeps pool added after := by
  cases h with
  | untouched => exact .refl method
  | @opened old new hold hcalls =>
    refine ⟨rfl, (fun hraw => by cases hraw), ?_⟩
    rintro callee ⟨body, hbody, hmem⟩
    obtain rfl := Option.some.inj (pure_eq_ok.mp hbody)
    exact (hcalls callee hmem).imp_left fun hmem => ⟨old, hold, hmem⟩

end Method

/-! ## Logging calls -/

theorem CallLogger.reworked_of_applyToMethod {policy : CallLogger} {decl : ClassDecl}
    {method after : Method} (hadded : ∀ logger ∈ policy.logger, added (logCall.member logger))
    (h : policy.applyToMethod decl method = .ok after) :
    (method.withMarks (method.marks.stripFirst policy.marker).2).Reworked decl.pool added after := by
  unfold applyToMethod at h
  dsimp only at h
  split at h
  · next mark logger _ hlogger =>
    obtain ⟨found, hfound, h⟩ := bind_eq_ok.mp h
    cases found with
    | none =>
      obtain rfl := pure_eq_ok.mp h
      exact .untouched
    | some body =>
      obtain rfl := pure_eq_ok.mp h
      refine .insertAt hfound fun callee hmem => ?_
      have hcalls : staticCalls (logEntry logger decl.name
          (method.withMarks (method.marks.stripFirst policy.marker).2) mark) =
            [logCall.member logger] := by
        unfold logEntry
        cases description? mark <;> rfl
      rw [hcalls, List.mem_singleton] at hmem
      exact hmem ▸ hadded logger hlogger
  · obtain rfl := pure_eq_ok.mp h
    exact .untouched

/-! ## Checking threads -/

namespace ThreadCheck

/-- The reports of a handler of thread violations. -/
def reports : List Callback := [uiViolation, workerViolation]

/-- The methods that give loopers. -/
def loopers : List Member := [myLooper.member looper, mainLooper.member looper]

theorem reworked_of_guardMethod {decl : ClassDecl} {handler : String} {requirement : ThreadRequirement}
    {method after : Method} (hloopers : ∀ callee ∈ loopers, added callee)
    (hreports : ∀ callback ∈ reports, added (callback.member handler))
    (h : guardMethod decl handler requirement method = .ok after) :
    method.Reworked decl.pool added after := by
  unfold guardMethod at h
  split at h
  · obtain rfl := pure_eq_ok.mp h
    exact .untouched
  · obtain ⟨found, hfound, h⟩ := bind_eq_ok.mp h
    cases found with
    | none =>
      obtain rfl := pure_eq_ok.mp h
      exact .untouched
    | some body =>
      obtain rfl := pure_eq_ok.mp h
      refine .opened hfound fun callee hmem => ?_
      rcases Body.staticCalls_insertAt.mp hmem with hmem | hmem
      swap
      · exact .inl hmem
      have hcallee := mem_staticCalls_guardFor hmem
      simp only [List.mem_cons, List.not_mem_nil, or_false] at hcallee
      refine .inr ?_
      rcases hcallee with rfl | rfl | rfl | rfl
      · exact hloopers _ (by simp [loopers])
      · exact hloopers _ (by simp [loopers])
      · exact hreports _ (by simp [reports])
      · exact hreports _ (by simp [reports])

theorem reworked_of_applyToMethod {policy : ThreadCheck} {catalog : Catalog} {decl : ClassDecl}
    {ofClass : Option ThreadRequirement} {method after : Method}
    (hloopers : ∀ callee ∈ loopers, added callee)
    (hreports : ∀ handler ∈ policy.handler, ∀ callback ∈ reports, added (callback.member handler))
    (h : policy.applyToMethod catalog decl ofClass method = .ok after) :
    (method.withMarks (policy.strip method.marks)).Reworked decl.pool added after := by
  obtain ⟨ofMethod, -, h⟩ := bind_eq_ok.mp h
  dsimp only at h
  split at h
  · next handler _ hhandler _ =>
    exact reworked_of_guardMethod hloopers (hreports handler hhandler) (PolicyFault.lift_eq_ok.mp h)
  · obtain rfl := pure_eq_ok.mp h
    exact .untouched

end ThreadCheck

/-! ## Timing methods -/

namespace Benchmark

/-- The delegating call of a constructor is cut out of its body. -/
theorem reworked_of_splitConstructor {decl : ClassDecl} {method rest : Method}
    {delegating : List Instruction} (h : splitConstructor decl method = .ok (delegating, rest)) :
    method.Reworked decl.pool added rest ∧
      ∀ callee ∈ staticCalls delegating, method.Calls decl.pool callee := by
  unfold splitConstructor at h
  split at h
  · obtain ⟨rfl, rfl⟩ := Prod.mk.inj (pure_eq_ok.mp h)
    exact ⟨.untouched, fun _ hmem => by cases hmem⟩
  · obtain ⟨found, hfound, h⟩ := bind_eq_ok.mp h
    have hfound := PolicyFault.lift_eq_ok.mp hfound
    split at h
    · cases h
    · split at h
      · cases h
      · next body _ _ cut left hcut =>
        obtain ⟨rfl, rfl⟩ := Prod.mk.inj (pure_eq_ok.mp h)
        obtain ⟨hcut, hleft⟩ := DelegatingCall.subset_of_extract? hcut
        exact ⟨.opened hfound fun callee hmem => .inl (staticCalls_subset hleft hmem),
          fun callee hmem => ⟨body, hfound, staticCalls_subset hcut hmem⟩⟩

/-- Is a method one that keeps a moved body of a class? -/
def IsMoved (owner : String) (callee : Member) : Prop :=
  callee.owner = owner ∧ ∃ name, callee.name = Editing.movedBodyStart ++ name

/-- The method that keeps the body has another name and other flags; the forwarder is a new method. -/
theorem keeps_of_split {receiver : String} {decl : ClassDecl} {thresholds : Thresholds}
    {method moved forwarder : Method} (hclock : added clockMethod)
    (hmoved : ∀ callee, IsMoved decl.name callee → added callee)
    (hreports : ∀ callback ∈ reports, added (callback.member receiver))
    (h : split receiver decl thresholds method = .ok (moved, forwarder)) :
    method.Keeps decl.pool added moved ∧
      ∀ callee, forwarder.Calls decl.pool callee → method.Calls decl.pool callee ∨ added callee := by
  obtain ⟨⟨delegating, rest⟩, hsplit, h⟩ := bind_eq_ok.mp h
  obtain ⟨attributes, -, h⟩ := bind_eq_ok.mp h
  obtain ⟨body, hbody, h⟩ := bind_eq_ok.mp h
  obtain ⟨rfl, rfl⟩ := Prod.mk.inj (pure_eq_ok.mp h)
  obtain ⟨hrest, hdelegating⟩ := @reworked_of_splitConstructor added _ _ _ _ hsplit
  have hrest := hrest.keeps
  refine ⟨⟨hrest.attributes_eq, hrest.body_eq, hrest.calls⟩, ?_⟩
  rintro callee ⟨written, hwritten, hmem⟩
  obtain rfl := Option.some.inj (pure_eq_ok.mp hwritten)
  rcases mem_staticCalls_forwarder (PolicyFault.lift_eq_ok.mp hbody) hmem with h | rfl | rfl | h
  · exact .inl (hdelegating callee h)
  · exact .inr hclock
  · exact .inr (hmoved _ ⟨rfl, _, rfl⟩)
  · obtain ⟨callback, hcallback, rfl⟩ := h
    exact .inr (hreports callback hcallback)

/-- A method is left as it is without its markers, or it is split because there is somebody to tell the time, it
has a body, and thresholds are set for it. -/
theorem applyToMethod_cases {policy : Benchmark} {catalog : Catalog} {decl : ClassDecl}
    {method after : Method} {forwarder : Option Method}
    (h : policy.applyToMethod catalog decl method = .ok (after, forwarder)) :
    ((policy.receiver = none ∨ (decl.access.isInterface || !method.hasCode) ∨
          policy.thresholds? catalog decl.name (.ofMethod method) = .ok none) ∧
        after = method.withMarks (method.marks.stripAll policy.marker).2 ∧ forwarder = none) ∨
      ∃ receiver thresholds made, policy.receiver = some receiver ∧
        (decl.access.isInterface || !method.hasCode) = false ∧
        policy.thresholds? catalog decl.name (.ofMethod method) = .ok (some thresholds) ∧
        split receiver decl thresholds (method.withMarks (method.marks.stripAll policy.marker).2) =
          .ok (after, made) ∧ forwarder = some made := by
  unfold applyToMethod at h
  dsimp only at h
  split at h
  · next hreceiver =>
    obtain ⟨rfl, rfl⟩ := Prod.mk.inj (pure_eq_ok.mp h)
    exact .inl ⟨.inl hreceiver, rfl, rfl⟩
  · next receiver hreceiver =>
    split at h
    · next hexcluded =>
      obtain ⟨rfl, rfl⟩ := Prod.mk.inj (pure_eq_ok.mp h)
      exact .inl ⟨.inr (.inl hexcluded), rfl, rfl⟩
    · next hincluded =>
      obtain ⟨found, hfound, h⟩ := bind_eq_ok.mp h
      cases found with
      | none =>
        obtain ⟨rfl, rfl⟩ := Prod.mk.inj (pure_eq_ok.mp h)
        exact .inl ⟨.inr (.inr hfound), rfl, rfl⟩
      | some thresholds =>
        obtain ⟨⟨moved, made⟩, hsplit, h⟩ := bind_eq_ok.mp h
        obtain ⟨rfl, rfl⟩ := Prod.mk.inj (pure_eq_ok.mp h)
        exact .inr ⟨receiver, thresholds, made, hreceiver, Bool.eq_false_iff.mpr hincluded, hfound, hsplit, rfl⟩

theorem keeps_of_applyToMethod {policy : Benchmark} {catalog : Catalog} {decl : ClassDecl}
    {method after : Method} {forwarder : Option Method} (hclock : added clockMethod)
    (hmoved : ∀ callee, IsMoved decl.name callee → added callee)
    (hreports : ∀ receiver ∈ policy.receiver, ∀ callback ∈ reports, added (callback.member receiver))
    (h : policy.applyToMethod catalog decl method = .ok (after, forwarder)) :
    method.Keeps decl.pool added after ∧ ∀ other ∈ forwarder, ∀ callee,
      other.Calls decl.pool callee → method.Calls decl.pool callee ∨ added callee := by
  have hmarks : method.Keeps decl.pool added
      (method.withMarks (method.marks.stripAll policy.marker).2) := method.keeps_withMarks _
  rcases applyToMethod_cases h with ⟨-, rfl, rfl⟩ | ⟨receiver, thresholds, made, hreceiver, -, -, hsplit, rfl⟩
  · exact ⟨hmarks, by simp⟩
  · obtain ⟨hkeeps, hcalls⟩ := keeps_of_split hclock hmoved (hreports receiver hreceiver) hsplit
    refine ⟨hmarks.trans hkeeps, ?_⟩
    rintro other ⟨⟩ callee hcall
    exact (hcalls callee hcall).elim hmarks.calls .inr

end Benchmark

/-! ## Shielding methods -/

namespace CrashShield

/-- The reports and the question that a handler of exceptions gets. -/
def reports : List Callback := [handleThrowable, methodFinished, isObjectCrashing]

variable {decl : ClassDecl} {handler : String} {method after : Method}

theorem reworked_of_shieldMethod (hreports : ∀ callback ∈ reports, added (callback.member handler))
    (h : shieldMethod decl handler method = .ok after) : method.Reworked decl.pool added after := by
  have hthrown : added (handleThrowable.member handler) := hreports _ (by simp [reports])
  have hcrashing : added (isObjectCrashing.member handler) := hreports _ (by simp [reports])
  obtain ⟨found, hfound, h⟩ := bind_eq_ok.mp h
  cases found with
  | none =>
    obtain rfl := pure_eq_ok.mp h
    exact .untouched
  | some body =>
    dsimp only at h
    split at h
    · split at h
      · obtain rfl := pure_eq_ok.mp h
        refine .opened hfound fun callee hmem => ?_
        rcases mem_staticCalls_protect hmem with hmem | rfl
        · exact .inl hmem
        · exact .inr hthrown
      · obtain rfl := pure_eq_ok.mp h
        exact .untouched
    · obtain rfl := pure_eq_ok.mp h
      refine .opened hfound fun callee hmem => ?_
      rcases mem_staticCalls_guardReceiver hmem with hmem | rfl
      · rcases mem_staticCalls_protect hmem with hmem | rfl
        · exact .inl hmem
        · exact .inr hthrown
      · exact .inr hcrashing

/-- The body with the callee at a position looked up in another class. -/
def ledTo (body : Body) (call : ℕ) (callee : Member) (owner : String) : Body :=
  { body with
    instructions := body.instructions.set call (.method Opcode.invokespecial { callee with owner }) }

/-- What retargeting makes of a constructor: it leads a call elsewhere if the scan singles it out and it is
one of the superclass. -/
inductive Retargets (decl : ClassDecl) (safe : String) (method : Method) : Option Method → Prop
  | led {body : Body} {call : ℕ} {callee : Member} (hsuper : decl.superName = some callee.owner)
      (hbody : decl.decodeBody method = .ok (some body))
      (hfind : DelegatingCall.find body decl.name decl.superName = .unique call)
      (hcall : body.instructions[call]? = some (.method Opcode.invokespecial callee)) :
      Retargets decl safe method (some (method.withBody (ledTo body call callee safe)))
  | kept (hnone : ∀ {body call callee}, decl.superName = some callee.owner →
      decl.decodeBody method = .ok (some body) →
      DelegatingCall.find body decl.name decl.superName = .unique call →
      body.instructions[call]? ≠ some (.method Opcode.invokespecial callee)) :
      Retargets decl safe method none

theorem retargets_of_retarget? {safe : String} {result : Option Method}
    (h : retarget? decl safe method = .ok result) : Retargets decl safe method result := by
  unfold retarget? at h
  split at h
  · next hnone =>
    obtain rfl := pure_eq_ok.mp h
    exact .kept fun hsuper => by simp [hnone] at hsuper
  · next superName hsuper =>
    obtain ⟨found, hfound, h⟩ := bind_eq_ok.mp h
    cases found with
    | none =>
      obtain rfl := pure_eq_ok.mp h
      exact .kept fun _ hbody => by simp [hfound] at hbody
    | some body =>
      dsimp only at h
      split at h
      · next call hfind =>
        rw [← hsuper] at hfind
        obtain ⟨callee, hcall, -⟩ := DelegatingCall.exists_callee_of_find hfind
        rw [hcall] at h
        dsimp only at h
        split at h
        · next howner =>
          obtain rfl := pure_eq_ok.mp h
          exact .led (howner ▸ hsuper) hfound hfind hcall
        · next hother =>
          obtain rfl := pure_eq_ok.mp h
          refine .kept fun hsuper' hbody hfind' hcall' => hother ?_
          obtain rfl := Option.some.inj (Except.ok.inj (hfound.symm.trans hbody))
          obtain rfl := DelegatingCall.unique.inj (hfind.symm.trans hfind')
          obtain ⟨-, rfl⟩ := Instruction.method.inj (Option.some.inj (hcall.symm.trans hcall'))
          exact Option.some.inj (hsuper'.symm.trans hsuper)
      · next hnone =>
        obtain rfl := pure_eq_ok.mp h
        refine .kept fun _ hbody hfind _ => ?_
        obtain rfl := Option.some.inj (Except.ok.inj (hfound.symm.trans hbody))
        exact hnone _ (hsuper ▸ hfind)

/-- Retargeting opens the body at most, and adds no calls of static methods. -/
theorem Retargets.reworked {safe : String} (h : Retargets decl safe method (some after)) :
    method.Reworked decl.pool added after := by
  cases h with
  | led hsuper hbody hfind hcall =>
    refine .opened hbody fun callee hmem => .inl (mem_staticCalls.mpr ?_)
    rcases List.mem_or_eq_of_mem_set (mem_staticCalls.mp hmem) with hmem | heq
    · exact hmem
    · exact absurd (Instruction.method.inj heq).1 (by decide)

/-- What rerouting makes of a method: its body is opened only if it calls callbacks of views. -/
inductive Reroutes (decl : ClassDecl) (safe : Option String) (method : Method) : Method → Prop
  | bodiless (hbody : decl.decodeBody method = .ok none) : Reroutes decl safe method method
  | silent {body : Body} (hbody : decl.decodeBody method = .ok (some body))
      (hsilent : body.instructions.any callsViewCallback = false) : Reroutes decl safe method method
  | calling {body : Body} (hbody : decl.decodeBody method = .ok (some body)) :
      Reroutes decl safe method
        (method.withBody { body with instructions := body.instructions.map (rerouteInstruction safe) })

/-- A method of a view is rerouted, and gets another name if it is a callback. -/
theorem exists_reroutes_of_moveViewMethod {safe : Option String}
    (h : moveViewMethod decl safe method = .ok after) : ∃ rerouted, Reroutes decl safe method rerouted ∧
      after = if isViewCallback method.name method.descriptor
        then { rerouted with name := movedName method.name } else rerouted := by
  have hrenamed : ∀ rerouted : Method, Reroutes decl safe method rerouted →
      (if isViewCallback method.name method.descriptor
        then pure { rerouted with name := movedName method.name } else pure rerouted :
          Except Fault Method) = .ok after → ∃ rerouted, Reroutes decl safe method rerouted ∧
      after = if isViewCallback method.name method.descriptor
        then { rerouted with name := movedName method.name } else rerouted := by
    intro rerouted hreroutes h
    refine ⟨rerouted, hreroutes, ?_⟩
    split at h
    · next hcallback => rw [if_pos hcallback, pure_eq_ok.mp h]
    · next hother => rw [if_neg hother, pure_eq_ok.mp h]
  obtain ⟨found, hfound, h⟩ := bind_eq_ok.mp h
  cases found with
  | none => exact hrenamed method (.bodiless hfound) h
  | some body =>
    dsimp only at h
    split at h
    · exact hrenamed _ (.calling hfound) h
    · next hsilent => exact hrenamed method (.silent hfound (Bool.eq_false_iff.mpr hsilent)) h

/-- Rerouting opens the body at most, and adds no calls of static methods. -/
theorem Reroutes.reworked {safe : Option String} {rerouted : Method}
    (h : Reroutes decl safe method rerouted) : method.Reworked decl.pool added rerouted := by
  cases h with
  | bodiless => exact .untouched
  | silent => exact .untouched
  | calling hbody => exact .opened hbody fun callee hmem => .inl (staticCalls_reroute_subset safe _ hmem)

theorem keeps_of_moveViewMethod {safe : Option String}
    (h : moveViewMethod decl safe method = .ok after) : method.Keeps decl.pool added after := by
  obtain ⟨rerouted, hreroutes, rfl⟩ := exists_reroutes_of_moveViewMethod h
  have hkeeps : method.Keeps decl.pool added rerouted := hreroutes.reworked.keeps
  split
  · exact ⟨hkeeps.attributes_eq, hkeeps.body_eq, hkeeps.calls⟩
  · exact hkeeps

variable {shield : CrashShield} {setting : Setting}

theorem reworked_of_applyToConstructor
    (hreports : ∀ callback ∈ reports, added (callback.member handler))
    (h : shield.applyToConstructor decl setting handler method = .ok after) :
    method.Reworked decl.pool added after := by
  have hrest (h : (if shield.constructors then shieldMethod decl handler method else pure method) = .ok after) :
      method.Reworked decl.pool added after := by
    split at h
    · exact reworked_of_shieldMethod hreports h
    · obtain rfl := pure_eq_ok.mp h
      exact .untouched
  unfold applyToConstructor at h
  cases hsafe : setting.safe with
  | none =>
    rw [hsafe] at h
    exact hrest h
  | some safe =>
    rw [hsafe] at h
    by_cases hviews : shield.views
    · simp only [hviews, if_true] at h
      obtain ⟨retargeted, hretargeted, h⟩ := bind_eq_ok.mp h
      cases retargeted with
      | none => exact hrest h
      | some other =>
        obtain rfl := pure_eq_ok.mp h
        exact (retargets_of_retarget? hretargeted).reworked
    · simp only [hviews] at h
      exact hrest h

/-- The ways of treating a method: static initializers and methods without code are skipped, constructors and
methods of views go their own ways, and of the other methods some are shielded. -/
inductive Treats (shield : CrashShield) (decl : ClassDecl) (setting : Setting) (handler : String)
    (method : Method) : Method → Prop
  | skipped (hskips : Name.isStaticInitializer method.name ∨ method.hasCode = false) :
      Treats shield decl setting handler method method
  | constructor {after : Method} (hinitializer : Name.isStaticInitializer method.name = false)
      (hname : Name.isConstructor method.name)
      (h : shield.applyToConstructor decl setting handler method = .ok after) :
      Treats shield decl setting handler method after
  | ofView {after : Method} (hinitializer : Name.isStaticInitializer method.name = false)
      (hcode : method.hasCode) (hname : Name.isConstructor method.name = false) (hviews : shield.views)
      (hview : isView setting.closure) (h : moveViewMethod decl setting.safe method = .ok after) :
      Treats shield decl setting handler method after
  | shielded {after : Method} (hname : Name.isConstructor method.name = false)
      (hplain : (shield.views && isView setting.closure) = false)
      (h : shieldMethod decl handler method = .ok after) :
      Treats shield decl setting handler method after
  | plain (hname : Name.isConstructor method.name = false)
      (hplain : (shield.views && isView setting.closure) = false) :
      Treats shield decl setting handler method method

theorem treats_of_applyToBody {decision : Option Bool}
    (h : shield.applyToBody decl setting handler decision method = .ok after) :
    Treats shield decl setting handler method after := by
  unfold applyToBody at h
  split at h
  · next hskips =>
    obtain rfl := pure_eq_ok.mp h
    exact .skipped (by simpa using hskips)
  · next hcode =>
    simp only [Bool.or_eq_true, Bool.not_eq_true', not_or, Bool.not_eq_true, Bool.not_eq_false] at hcode
    split at h
    · next hname => exact .constructor hcode.1 hname h
    · next hname =>
      rw [Bool.not_eq_true] at hname
      split at h
      · next hview =>
        rw [Bool.and_eq_true] at hview
        exact .ofView hcode.1 hcode.2 hname hview.1 hview.2 h
      · next hplain =>
        rw [Bool.not_eq_true] at hplain
        split at h
        · exact .shielded hname hplain h
        · obtain rfl := pure_eq_ok.mp h
          exact .plain hname hplain

/-- Each way of treating a method keeps it. -/
theorem Treats.keeps (hreports : ∀ callback ∈ reports, added (callback.member handler))
    (h : Treats shield decl setting handler method after) : method.Keeps decl.pool added after := by
  cases h with
  | skipped => exact .refl _
  | constructor _ _ h => exact (reworked_of_applyToConstructor hreports h).keeps
  | ofView _ _ _ _ _ h => exact keeps_of_moveViewMethod h
  | shielded _ _ h => exact (reworked_of_shieldMethod hreports h).keeps
  | plain => exact .refl _

theorem keeps_of_applyToMethod
    (hreports : ∀ handler ∈ shield.handler, ∀ callback ∈ reports, added (callback.member handler))
    (h : shield.applyToMethod decl setting method = .ok after) :
    method.Keeps decl.pool added after := by
  refine (method.keeps_withMarks (shield.takeDecision method.marks).2).trans ?_
  unfold applyToMethod at h
  dsimp only at h
  split at h
  · obtain rfl := pure_eq_ok.mp h
    exact .refl _
  · next handler hhandler => exact (treats_of_applyToBody h).keeps (hreports handler hhandler)

end CrashShield

/-! ## Classes -/

/-- A class after some treatment that leaves alone what was copied, and that adds calls of certain methods
only. -/
structure ClassDecl.Keeps (added : Member → Prop) (decl after : ClassDecl) : Prop where
  /-- The name stays. -/
  name_eq : after.name = decl.name
  /-- The table of constants stays. -/
  pool_eq : after.pool = decl.pool
  /-- The fields stay. -/
  fields_eq : after.fields = decl.fields
  /-- The attributes that nobody decodes stay. -/
  attributes_eq : after.attributes = decl.attributes
  /-- Methods stay at their positions, and others come behind them. -/
  methods : ∀ {position : ℕ} {method : Method}, decl.methods[position]? = some method →
    ∃ treated, after.methods[position]? = some treated ∧ method.Keeps decl.pool added treated
  /-- Calls that were not there before are some of those that may be added. -/
  calls : ∀ {method : Method}, method ∈ after.methods → ∀ {callee}, method.Calls decl.pool callee →
    (∃ other ∈ decl.methods, other.Calls decl.pool callee) ∨ added callee

namespace ClassDecl

variable {decl middle after : ClassDecl}

/-- A class that is not treated keeps everything. -/
theorem Keeps.refl (decl : ClassDecl) : decl.Keeps added decl :=
  ⟨rfl, rfl, rfl, rfl, fun h => ⟨_, h, .refl _⟩, fun hmem _ hcall => .inl ⟨_, hmem, hcall⟩⟩

/-- One treatment after another leaves alone what both of them do. -/
theorem Keeps.trans (h : decl.Keeps added middle) (h' : middle.Keeps added after) :
    decl.Keeps added after where
  name_eq := h'.name_eq.trans h.name_eq
  pool_eq := h'.pool_eq.trans h.pool_eq
  fields_eq := h'.fields_eq.trans h.fields_eq
  attributes_eq := h'.attributes_eq.trans h.attributes_eq
  methods hmethod := by
    obtain ⟨treated, htreated, hkeeps⟩ := h.methods hmethod
    obtain ⟨again, hagain, hkeeps'⟩ := h'.methods htreated
    rw [h.pool_eq] at hkeeps'
    exact ⟨again, hagain, hkeeps.trans hkeeps'⟩
  calls hmem _ hcall := by
    rw [← h.pool_eq] at hcall
    rcases h'.calls hmem hcall with ⟨other, hother, hcall⟩ | hadded
    · rw [h.pool_eq] at hcall
      exact h.calls hother hcall
    · exact .inr hadded

/-- A class whose methods are treated one by one keeps what each treatment keeps. -/
theorem keeps_of_treated (hname : after.name = decl.name)
    (hpool : after.pool = decl.pool) (hfields : after.fields = decl.fields)
    (hattributes : after.attributes = decl.attributes)
    (h : List.Forall₂ (Method.Keeps decl.pool added) decl.methods after.methods) :
    decl.Keeps added after := by
  refine ⟨hname, hpool, hfields, hattributes, getElem?_of_forall₂ h, fun hmem _ hcall => ?_⟩
  obtain ⟨other, hother, hkeeps⟩ := exists_left_of_forall₂ h hmem
  exact (hkeeps.calls hcall).imp_left fun hcall => ⟨other, hother, hcall⟩

end ClassDecl

theorem CallLogger.keeps_of_apply {policy : CallLogger} {decl after : ClassDecl}
    (hadded : ∀ logger ∈ policy.logger, added (logCall.member logger))
    (h : policy.apply decl = .ok after) : decl.Keeps added after := by
  obtain ⟨methods, hmethods, h⟩ := bind_eq_ok.mp h
  obtain rfl := pure_eq_ok.mp h
  refine ClassDecl.keeps_of_treated rfl rfl rfl rfl ((mapM_eq_ok.mp hmethods).imp ?_)
  exact fun method _ happly => (method.keeps_withMarks _).trans
    (reworked_of_applyToMethod hadded (PolicyFault.lift_eq_ok.mp happly)).keeps

theorem ThreadCheck.keeps_of_apply {policy : ThreadCheck} {catalog : Catalog} {decl after : ClassDecl}
    (hloopers : ∀ callee ∈ loopers, added callee)
    (hreports : ∀ handler ∈ policy.handler, ∀ callback ∈ reports, added (callback.member handler))
    (h : policy.apply catalog decl = .ok after) : decl.Keeps added after := by
  obtain ⟨ofClass, -, h⟩ := bind_eq_ok.mp h
  obtain ⟨methods, hmethods, h⟩ := bind_eq_ok.mp h
  obtain rfl := pure_eq_ok.mp h
  refine ClassDecl.keeps_of_treated rfl rfl rfl rfl ((mapM_eq_ok.mp hmethods).imp ?_)
  exact fun method _ happly => (method.keeps_withMarks _).trans
    (reworked_of_applyToMethod hloopers hreports happly).keeps

theorem Benchmark.keeps_of_apply {policy : Benchmark} {catalog : Catalog} {decl after : ClassDecl}
    (hclock : added clockMethod) (hmoved : ∀ callee, IsMoved decl.name callee → added callee)
    (hreports : ∀ receiver ∈ policy.receiver, ∀ callback ∈ reports, added (callback.member receiver))
    (h : policy.apply catalog decl = .ok after) : decl.Keeps added after := by
  obtain ⟨treated, hmethods, h⟩ := bind_eq_ok.mp h
  obtain rfl := pure_eq_ok.mp h
  have hmethods := mapM_eq_ok.mp hmethods
  refine ⟨rfl, rfl, rfl, rfl, fun {position method} hmethod => ?_, fun {method} hmem callee hcall => ?_⟩
  · obtain ⟨⟨moved, forwarder⟩, hmoved', happly⟩ := getElem?_of_forall₂ hmethods hmethod
    have hfirst : (treated.map Prod.fst)[position]? = some moved := by
      rw [List.getElem?_map, hmoved']
      rfl
    obtain ⟨hlt, -⟩ := List.getElem?_eq_some_iff.mp hfirst
    exact ⟨moved, by rw [List.getElem?_append_left hlt, hfirst],
      (keeps_of_applyToMethod hclock hmoved hreports happly).1⟩
  · rcases List.mem_append.mp hmem with hmem | hmem
    · obtain ⟨⟨moved, forwarder⟩, hpair, rfl⟩ := List.mem_map.mp hmem
      obtain ⟨other, hother, happly⟩ := exists_left_of_forall₂ hmethods hpair
      exact ((keeps_of_applyToMethod hclock hmoved hreports happly).1.calls hcall).imp_left
        fun hcall => ⟨other, hother, hcall⟩
    · obtain ⟨⟨moved, forwarder⟩, hpair, hforwarder⟩ := List.mem_filterMap.mp hmem
      obtain ⟨other, hother, happly⟩ := exists_left_of_forall₂ hmethods hpair
      exact ((keeps_of_applyToMethod hclock hmoved hreports happly).2 method hforwarder callee
        hcall).imp_left fun hcall => ⟨other, hother, hcall⟩

theorem CrashShield.keeps_of_apply {shield : CrashShield} {catalog : Catalog} {decl after : ClassDecl}
    (hreports : ∀ handler ∈ shield.handler, ∀ callback ∈ reports, added (callback.member handler))
    (h : shield.apply catalog decl = .ok after) : decl.Keeps added after := by
  unfold apply at h
  dsimp only at h
  split at h
  · obtain rfl := pure_eq_ok.mp h
    refine ClassDecl.keeps_of_treated rfl rfl rfl rfl (List.forall₂_map_right_iff.mpr ?_)
    exact List.forall₂_same.mpr fun method _ => method.keeps_withMarks _
  · obtain ⟨methods, hmethods, h⟩ := bind_eq_ok.mp h
    obtain rfl := pure_eq_ok.mp h
    refine ClassDecl.keeps_of_treated rfl rfl rfl rfl ((mapM_eq_ok.mp hmethods).imp ?_)
    exact fun _ _ happly => keeps_of_applyToMethod hreports (PolicyFault.lift_eq_ok.mp happly)

end Treatments

namespace Policy

/-- The class that a policy reports to. -/
def receiver? : Policy → Option String
  | crashShield shield => shield.handler
  | benchmark timing => timing.receiver
  | threadCheck check => check.handler
  | callLogger logger => logger.logger

/-- The reports of a policy. -/
def reports : Policy → List Callback
  | crashShield _ => CrashShield.reports
  | benchmark _ => Benchmark.reports
  | threadCheck _ => ThreadCheck.reports
  | callLogger _ => [CallLogger.logCall]

/-- Is a method one that policies call whatever they are told to report to: the clock, those that give
loopers, and those of the class itself that keep moved bodies? -/
def IsFixedCall (owner : String) (callee : Member) : Prop :=
  callee = Benchmark.clockMethod ∨ callee ∈ ThreadCheck.loopers ∨ Benchmark.IsMoved owner callee

/-- Is a method a report of some policies? -/
def IsReport (policies : List Policy) (callee : Member) : Prop :=
  ∃ policy ∈ policies, ∃ receiver ∈ policy.receiver?, ∃ callback ∈ policy.reports,
    callee = callback.member receiver

variable {catalog : Catalog} {decl after : ClassDecl} {policies : List Policy}

/-- No policy touches what is copied, and each adds only its reports and fixed calls. -/
theorem keeps_of_apply {policy : Policy} (hmem : policy ∈ policies)
    (h : policy.apply catalog decl = .ok after) :
    decl.Keeps (fun callee => IsFixedCall decl.name callee ∨ IsReport policies callee) after := by
  have hreport : ∀ receiver ∈ policy.receiver?, ∀ callback ∈ policy.reports,
      IsFixedCall decl.name (callback.member receiver) ∨ IsReport policies (callback.member receiver) :=
    fun receiver hreceiver callback hcallback =>
      .inr ⟨policy, hmem, receiver, hreceiver, callback, hcallback, rfl⟩
  unfold apply at h
  split at h
  · obtain rfl := Except.ok.inj h
    exact .refl _
  · cases policy with
    | crashShield shield => exact shield.keeps_of_apply hreport h
    | benchmark timing =>
      exact timing.keeps_of_apply (.inl (.inl rfl)) (fun _ hmoved => .inl (.inr (.inr hmoved))) hreport h
    | threadCheck check =>
      exact check.keeps_of_apply (fun _ hlooper => .inl (.inr (.inl hlooper))) hreport h
    | callLogger logger =>
      exact logger.keeps_of_apply (fun target htarget => hreport target htarget _ (by simp [reports])) h

/-- No sequence of policies touches what is copied, and it adds only reports and fixed calls. -/
theorem keeps_of_applyAll (h : applyAll policies catalog decl = .ok after) :
    decl.Keeps (fun callee => IsFixedCall decl.name callee ∨ IsReport policies callee) after := by
  refine foldlM_induction (decl.Keeps _ ·) (fun middle policy next hmem hkeeps happly => ?_)
    (.refl decl) h
  have hnext := keeps_of_apply hmem happly
  rw [hkeeps.name_eq] at hnext
  exact hkeeps.trans hnext

end Policy

end ClassInstrument
