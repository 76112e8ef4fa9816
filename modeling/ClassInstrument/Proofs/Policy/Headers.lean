import ClassInstrument.Proofs.Policy.Keeping

/-!
# What policies do to the headers of methods

The header of a method is all of it but the body: the flags, the name, the descriptor, the annotations
and the attributes that are copied.  A policy takes markers off.  Beyond that, two policies touch headers.
The shield gives other names to callbacks of views (`CrashShield.moves`).  Timing gives another name to
the method that keeps the body of a timed method, makes it private, and adds a forwarder under the old
header that carries no annotations (`Benchmark.times`).

`Method.Rebodied` compares two methods up to their bodies, which is all that reworking changes.  With it, each
policy gets one lemma that says everything it does to the header of a method, and one that says the same of all
methods of a class.
-/

namespace ClassInstrument

open Outcome

/-- A method that differs from another in the body at most. -/
def Method.Rebodied (method after : Method) : Prop := after = { method with body := after.body }

namespace Method

variable {method middle after : Method}

theorem Rebodied.refl (method : Method) : method.Rebodied method := rfl

theorem rebodied_withBody (method : Method) (body : Body) : method.Rebodied (method.withBody body) := rfl

/-- Reworking a method touches nothing but the body. -/
theorem Reworked.rebodied {pool : Pool} {added : Member → Prop} (h : method.Reworked pool added after) :
    method.Rebodied after := by
  cases h with
  | untouched => exact .refl method
  | opened => exact rebodied_withBody _ _

/-- A method with a body still has one when it is reworked. -/
theorem Reworked.hasCode {pool : Pool} {added : Member → Prop} (h : method.Reworked pool added after)
    (hcode : method.hasCode) : after.hasCode := by
  cases h with
  | untouched => exact hcode
  | opened => rfl

theorem Rebodied.trans (h : method.Rebodied middle) (h' : middle.Rebodied after) :
    method.Rebodied after := by
  unfold Rebodied at h h'
  rw [h] at h'
  exact h'

theorem Rebodied.name_eq (h : method.Rebodied after) : after.name = method.name := by
  rw [h]

theorem Rebodied.descriptor_eq (h : method.Rebodied after) : after.descriptor = method.descriptor := by
  rw [h]

theorem Rebodied.access_eq (h : method.Rebodied after) : after.access = method.access := by
  rw [h]

theorem Rebodied.marks_eq (h : method.Rebodied after) : after.marks = method.marks := by
  rw [h]
  rfl

theorem Rebodied.ofMethod_eq (h : method.Rebodied after) :
    Signature.ofMethod after = Signature.ofMethod method := by
  rw [h]
  rfl

@[simp]
theorem marks_withMarks (method : Method) (marks : Marks) : (method.withMarks marks).marks = marks := rfl

@[simp]
theorem body_withMarks (method : Method) (marks : Marks) : (method.withMarks marks).body = method.body :=
  rfl

@[simp]
theorem ofMethod_withMarks (method : Method) (marks : Marks) :
    Signature.ofMethod (method.withMarks marks) = Signature.ofMethod method := rfl

@[simp]
theorem hasCode_withMarks (method : Method) (marks : Marks) :
    (method.withMarks marks).hasCode = method.hasCode := rfl

end Method

/-! ## Logging calls -/

theorem CallLogger.rebodied_of_applyToMethod {policy : CallLogger} {decl : ClassDecl}
    {method after : Method} (h : policy.applyToMethod decl method = .ok after) :
    (method.withMarks (method.marks.stripFirst policy.marker).2).Rebodied after := by
  have hreworked : Method.Reworked decl.pool (fun _ => True) _ after :=
    reworked_of_applyToMethod (fun _ _ => trivial) h
  exact hreworked.rebodied

/-- Logging changes the methods of a class, one by one, and nothing else. -/
theorem CallLogger.apply_eq_ok {policy : CallLogger} {decl after : ClassDecl}
    (h : policy.apply decl = .ok after) :
    after = { decl with methods := after.methods } ∧
      List.Forall₂ (fun method treated => policy.applyToMethod decl method = .ok treated)
        decl.methods after.methods := by
  obtain ⟨methods, hmethods, h⟩ := bind_eq_ok.mp h
  obtain rfl := pure_eq_ok.mp h
  exact ⟨rfl, (mapM_eq_ok.mp hmethods).imp fun _ _ happly => PolicyFault.lift_eq_ok.mp happly⟩

/-! ## Checking threads -/

namespace ThreadCheck

variable {policy : ThreadCheck} {catalog : Catalog}

theorem rebodied_of_applyToMethod {decl : ClassDecl} {ofClass : Option ThreadRequirement}
    {method after : Method} (h : policy.applyToMethod catalog decl ofClass method = .ok after) :
    (method.withMarks (policy.strip method.marks)).Rebodied after := by
  have hreworked : Method.Reworked decl.pool (fun _ => True) _ after :=
    reworked_of_applyToMethod (fun _ _ => trivial) (fun _ _ _ _ => trivial) h
  exact hreworked.rebodied

/-- Checking threads asks for the requirement of the class once, takes the markers off the class, and
changes the methods one by one. -/
theorem apply_eq_ok {decl after : ClassDecl} (h : policy.apply catalog decl = .ok after) :
    after = { decl.withMarks (policy.strip decl.marks) with methods := after.methods } ∧
      ∃ ofClass, policy.classRequirement catalog decl.name = .ok ofClass ∧
        List.Forall₂ (fun method treated => policy.applyToMethod catalog
          (decl.withMarks (policy.strip decl.marks)) ofClass method = .ok treated)
          decl.methods after.methods := by
  obtain ⟨ofClass, hclass, h⟩ := bind_eq_ok.mp h
  obtain ⟨methods, hmethods, h⟩ := bind_eq_ok.mp h
  obtain rfl := pure_eq_ok.mp h
  exact ⟨rfl, ofClass, hclass, mapM_eq_ok.mp hmethods⟩

end ThreadCheck

/-! ## Timing methods -/

namespace Benchmark

/-- The name that the body of a timed method gets. -/
def movedName (name : String) : String := Editing.movedBodyStart ++ Name.sanitized name

/-- Is a method of a class timed?  It is if there is somebody to tell the time, the method has a body, and
the annotations that apply to it set a threshold. -/
def times (policy : Benchmark) (catalog : Catalog) (decl : ClassDecl) (method : Method) : Bool :=
  policy.receiver.isSome && !decl.access.isInterface && method.hasCode &&
    match policy.thresholds? catalog decl.name (.ofMethod method) with
    | .ok (some _) => true
    | _ => false

/-- The name that the body of a method has after timing. -/
def nameAfter (policy : Benchmark) (catalog : Catalog) (decl : ClassDecl) (method : Method) : String :=
  if policy.times catalog decl method then movedName method.name else method.name

variable {policy : Benchmark} {catalog : Catalog} {decl : ClassDecl} {method : Method}

/-- A forwarder has the header of its method, but for the annotations and most attributes. -/
structure Forwards (method forwarder : Method) : Prop where
  /-- The flags are those of the method. -/
  access_eq : forwarder.access = method.access
  /-- The name is the one of the method. -/
  name_eq : forwarder.name = method.name
  /-- The descriptor is the one of the method. -/
  descriptor_eq : forwarder.descriptor = method.descriptor
  /-- There are no annotations. -/
  marks_eq : forwarder.marks = ⟨[], []⟩

theorem headers_of_split {receiver : String} {thresholds : Thresholds} {moved forwarder : Method}
    (h : split receiver decl thresholds method = .ok (moved, forwarder)) :
    Method.Rebodied
      { method with name := movedName method.name, access := method.access.madePrivate } moved ∧
      (method.hasCode → moved.hasCode) ∧ Forwards method forwarder := by
  obtain ⟨⟨delegating, rest⟩, hsplit, h⟩ := bind_eq_ok.mp h
  obtain ⟨attributes, -, h⟩ := bind_eq_ok.mp h
  obtain ⟨body, -, h⟩ := bind_eq_ok.mp h
  obtain ⟨rfl, rfl⟩ := Prod.mk.inj (pure_eq_ok.mp h)
  have hreworked : method.Reworked decl.pool (fun _ => True) rest := (reworked_of_splitConstructor hsplit).1
  have hrest := hreworked.rebodied
  refine ⟨?_, hreworked.hasCode, rfl, rfl, rfl, rfl⟩
  unfold Method.Rebodied at hrest ⊢
  rw [hrest]
  rfl

/-- A method that is not timed only loses its markers.  A timed one gives its name to a forwarder, and
keeps its body and its annotations under another one. -/
theorem applyToMethod_eq_ok {after : Method} {forwarder : Option Method}
    (h : policy.applyToMethod catalog decl method = .ok (after, forwarder)) :
    (policy.times catalog decl method = false ∧
        after = method.withMarks (method.marks.stripAll policy.marker).2 ∧ forwarder = none) ∨
      (policy.times catalog decl method = true ∧
        Method.Rebodied
          { method.withMarks (method.marks.stripAll policy.marker).2 with
            name := movedName method.name, access := method.access.madePrivate } after ∧
        after.hasCode ∧ ∃ made, forwarder = some made ∧ Forwards method made) := by
  rcases applyToMethod_cases h with
    ⟨hleft, rfl, rfl⟩ | ⟨receiver, thresholds, made, hreceiver, hincluded, hfound, hsplit, rfl⟩
  · refine .inl ⟨?_, rfl, rfl⟩
    rcases hleft with hreceiver | hexcluded | hfound
    · simp [times, hreceiver]
    · rw [Bool.or_eq_true, Bool.not_eq_true'] at hexcluded
      rcases hexcluded with hexcluded | hexcluded <;> simp [times, hexcluded]
    · simp [times, hfound]
  · rw [Bool.or_eq_false_iff, Bool.not_eq_false'] at hincluded
    obtain ⟨hmoved, hcode, hmade⟩ := headers_of_split hsplit
    refine .inr ⟨?_, hmoved, hcode hincluded.2, made, rfl, hmade.access_eq, hmade.name_eq,
      hmade.descriptor_eq, hmade.marks_eq⟩
    simp [times, hreceiver, hincluded, hfound]

/-- Timing changes the methods of a class, one by one, and puts the forwarders behind them. -/
theorem apply_eq_ok {after : ClassDecl} (h : policy.apply catalog decl = .ok after) :
    ∃ treated : List (Method × Option Method),
      after = { decl with methods := treated.map Prod.fst ++ treated.filterMap Prod.snd } ∧
        List.Forall₂ (fun method pair => policy.applyToMethod catalog decl method = .ok pair)
          decl.methods treated := by
  obtain ⟨treated, hmethods, h⟩ := bind_eq_ok.mp h
  obtain rfl := pure_eq_ok.mp h
  exact ⟨treated, rfl, mapM_eq_ok.mp hmethods⟩

/-- A method stays at its position. -/
theorem exists_treated_of_apply {after : ClassDecl} {position : ℕ} (h : policy.apply catalog decl = .ok after)
    (hmethod : decl.methods[position]? = some method) :
    ∃ treated forwarder, after.methods[position]? = some treated ∧
      policy.applyToMethod catalog decl method = .ok (treated, forwarder) := by
  obtain ⟨treated, rfl, hmethods⟩ := apply_eq_ok h
  obtain ⟨⟨moved, forwarder⟩, hpair, happly⟩ := getElem?_of_forall₂ hmethods hmethod
  have hfirst : (treated.map Prod.fst)[position]? = some moved := by
    rw [List.getElem?_map, hpair]
    rfl
  obtain ⟨hlt, -⟩ := List.getElem?_eq_some_iff.mp hfirst
  exact ⟨moved, forwarder, (List.getElem?_append_left hlt).trans hfirst, happly⟩

/-- A moved body has another name than its method. -/
theorem movedName_ne (name : String) : movedName name ≠ name := by
  intro heq
  have hlength := congrArg (fun text => text.toList.length) heq
  simp only [movedName, Editing.movedBodyStart, Name.sanitized, String.toList_append,
    String.toList_ofList, List.length_append, List.length_map] at hlength
  exact absurd hlength (by simp)

/-- An annotation interface for timed methods, which declares both thresholds. -/
def timedInterface : ClassDecl where
  version := ⟨52, 0⟩
  access := ⟨0x2601⟩
  name := "Timed"
  superName := some Name.object
  methods :=
    [{ access := ⟨0x0401⟩, name := warnAtMillis, descriptor := "()I" },
      { access := ⟨0x0401⟩, name := failAtMillis, descriptor := "()I" }]

end Benchmark

/-! ## Shielding methods -/

namespace CrashShield

/-- Does a callback of a view move out of the way of the safe superclasses? -/
def moves (shield : CrashShield) (catalog : Catalog) (decl : ClassDecl) (method : Method) : Bool :=
  shield.handler.isSome && shield.views && !decl.access.isInterface && !shield.isSafeClass decl.name &&
    isView (catalog.closure decl.name) && method.hasCode &&
      isViewCallback method.name method.descriptor

/-- The name that a method has after shielding. -/
def nameAfter (shield : CrashShield) (catalog : Catalog) (decl : ClassDecl) (method : Method) : String :=
  if shield.moves catalog decl method then movedName method.name else method.name

variable {shield : CrashShield} {decl : ClassDecl} {handler : String} {method after : Method}

theorem rebodied_of_shieldMethod (h : shieldMethod decl handler method = .ok after) :
    method.Rebodied after := by
  have hreworked : method.Reworked decl.pool (fun _ => True) after :=
    reworked_of_shieldMethod (fun _ _ => trivial) h
  exact hreworked.rebodied

theorem rebodied_of_applyToConstructor {setting : Setting}
    (h : shield.applyToConstructor decl setting handler method = .ok after) : method.Rebodied after := by
  have hreworked : method.Reworked decl.pool (fun _ => True) after :=
    reworked_of_applyToConstructor (fun _ _ => trivial) h
  exact hreworked.rebodied

theorem rebodied_of_moveViewMethod {safe : Option String}
    (h : moveViewMethod decl safe method = .ok after) :
    Method.Rebodied
      { method with
        name := if isViewCallback method.name method.descriptor then movedName method.name
          else method.name } after := by
  obtain ⟨rerouted, hreroutes, rfl⟩ := exists_reroutes_of_moveViewMethod h
  have hreworked : method.Reworked decl.pool (fun _ => True) rerouted := hreroutes.reworked
  have hrest := hreworked.rebodied
  split
  · unfold Method.Rebodied at hrest ⊢
    rw [hrest]
  · exact hrest

/-- No initializer is a callback of a view. -/
theorem isViewCallback_eq_false {name : String} (descriptor : String)
    (h : Name.isConstructor name ∨ Name.isStaticInitializer name) :
    isViewCallback name descriptor = false := by
  have hnames : ∀ callback ∈ viewCallbacks,
      ¬(Name.isConstructor callback.name ∨ Name.isStaticInitializer callback.name) := by decide
  unfold isViewCallback
  rw [List.contains_eq_mem, decide_eq_false_iff_not]
  exact fun hmem => hnames _ hmem h

theorem moves_eq_false {catalog : Catalog}
    (h : Name.isConstructor method.name ∨ Name.isStaticInitializer method.name) :
    shield.moves catalog decl method = false := by
  simp [moves, isViewCallback_eq_false method.descriptor h]

/-- Shielding takes markers off and gives callbacks of views another name; the rest of the header stays. -/
theorem rebodied_of_applyToMethod {catalog : Catalog} {middle : ClassDecl} {setting : Setting}
    (hclosure : setting.closure = catalog.closure decl.name)
    (hincluded : (decl.access.isInterface || shield.isSafeClass decl.name) = false)
    (h : shield.applyToMethod middle setting method = .ok after) :
    Method.Rebodied
      { method.withMarks (shield.takeDecision method.marks).2 with
        name := shield.nameAfter catalog decl method } after := by
  have hstays : shield.moves catalog decl method = false →
      (method.withMarks (shield.takeDecision method.marks).2).Rebodied after →
      Method.Rebodied
        { method.withMarks (shield.takeDecision method.marks).2 with
          name := shield.nameAfter catalog decl method } after := by
    intro hmoves hbody
    rw [nameAfter, hmoves]
    exact hbody
  simp only [Bool.or_eq_false_iff] at hincluded
  unfold applyToMethod at h
  dsimp only at h
  split at h
  · next hhandler =>
    obtain rfl := pure_eq_ok.mp h
    exact hstays (by simp [moves, hhandler]) (.refl _)
  · next handler hhandler =>
    have hplain : (shield.views && isView setting.closure) = false →
        shield.moves catalog decl method = false := by
      rw [hclosure, Bool.and_eq_false_iff]
      rintro (hviews | hview)
      · simp [moves, hviews]
      · simp [moves, hview]
    cases treats_of_applyToBody h with
    | skipped hskips =>
      refine hstays ?_ (.refl _)
      rcases hskips with hinitializer | habsent
      · exact moves_eq_false (.inr hinitializer)
      · rw [Method.hasCode_withMarks] at habsent
        simp [moves, habsent]
    | constructor _ hconstructor h =>
      exact hstays (moves_eq_false (.inl hconstructor)) (rebodied_of_applyToConstructor h)
    | ofView _ hcode _ hviews hview h =>
      rw [hclosure] at hview
      rw [Method.hasCode_withMarks] at hcode
      have hmoves : shield.moves catalog decl method = isViewCallback method.name method.descriptor := by
        simp [moves, hhandler, hviews, hview, hincluded, hcode]
      rw [nameAfter, hmoves]
      exact rebodied_of_moveViewMethod h
    | shielded _ hother h => exact hstays (hplain hother) (rebodied_of_shieldMethod h)
    | plain _ hother => exact hstays (hplain hother) (.refl _)

/-- Shielding takes the markers off a class, may replace the superclass, and changes the methods one by
one. -/
theorem apply_eq_ok {catalog : Catalog} {after : ClassDecl} (h : shield.apply catalog decl = .ok after) :
    after = { decl.withMarks (shield.takeDecision decl.marks).2 with
        methods := after.methods, superName := after.superName } ∧
      ((shield.handler = none ∨ shield.views = false) → after.superName = decl.superName) ∧
      List.Forall₂ (fun method treated => Method.Rebodied
        { method.withMarks (shield.takeDecision method.marks).2 with
          name := shield.nameAfter catalog decl method } treated) decl.methods after.methods := by
  unfold apply at h
  dsimp only at h
  split at h
  · next hexcluded =>
    obtain rfl := pure_eq_ok.mp h
    refine ⟨rfl, fun _ => rfl, List.forall₂_map_right_iff.mpr (List.forall₂_same.mpr fun method _ => ?_)⟩
    have hmoves : shield.moves catalog decl method = false := by
      have hexcluded : decl.access.isInterface ∨ shield.isSafeClass decl.name :=
        Bool.or_eq_true _ _ ▸ hexcluded
      rcases hexcluded with hexcluded | hexcluded <;> simp [moves, hexcluded]
    rw [nameAfter, hmoves]
    exact .refl _
  · next hincluded =>
    obtain ⟨methods, hmethods, h⟩ := bind_eq_ok.mp h
    obtain rfl := pure_eq_ok.mp h
    refine ⟨rfl, fun hdisabled => ?_, (mapM_eq_ok.mp hmethods).imp fun method treated happly => ?_⟩
    · rcases hdisabled with hdisabled | hdisabled <;> simp [hdisabled] <;> rfl
    · exact rebodied_of_applyToMethod rfl (Bool.eq_false_iff.mpr hincluded)
        (PolicyFault.lift_eq_ok.mp happly)

end CrashShield

end ClassInstrument
