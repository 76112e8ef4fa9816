import ClassInstrument.Proofs.Policy.Headers

/-!
# Markers come off

A policy takes its marker annotations off the methods of a class, and two of the policies take them off
the class as well.  They do so in different ways: all annotations with a descriptor, or the first one of
each list.  If no list has a marker twice, this is the same: what stays is the list without the markers, in
its order (`Marks.off`).  So a sequence of policies leaves all annotations but their markers, whatever
branches are taken on the way, and the methods that are added carry none.

Policies that report to nobody do nothing else.  The class afterwards is the one before without the markers
(`ClassDecl.unmarked`), and no body is opened: the outcome is the same for any other bodies.
-/

namespace ClassInstrument

open Outcome

/-! ## Lists of annotations without markers -/

namespace Marks

/-- Annotations without those that have one of some descriptors. -/
def off (markers : List String) (marks : Marks) : Marks where
  visible := marks.visible.filter fun mark => mark.descriptor ∉ markers
  invisible := marks.invisible.filter fun mark => mark.descriptor ∉ markers

/-- No list has two annotations with one of some descriptors. -/
structure Single (markers : List String) (marks : Marks) : Prop where
  /-- The annotations visible at run time. -/
  visible : ∀ marker ∈ markers, (marks.visible.map Annotation.descriptor).count marker ≤ 1
  /-- The annotations invisible at run time. -/
  invisible : ∀ marker ∈ markers, (marks.invisible.map Annotation.descriptor).count marker ≤ 1

variable {marks : Marks} {markers others : List String} {marker : String}

@[simp]
theorem off_nil (marks : Marks) : marks.off [] = marks := by
  cases marks
  simp [off]

theorem off_off (marks : Marks) : (marks.off markers).off others = marks.off (markers ++ others) := by
  simp only [off, List.filter_filter, mk.injEq]
  constructor <;> exact List.filter_congr fun mark _ => by simp [Bool.and_comm]

/-- Nothing with one of the descriptors is left. -/
theorem carries_off (hmem : marker ∈ markers) : (marks.off markers).carries marker = false := by
  simp only [carries, off, ← List.filter_append, List.any_eq_false, List.mem_filter]
  rintro mark ⟨-, hkept⟩ heq
  rw [eq_of_beq heq] at hkept
  simp [hmem] at hkept

theorem Single.of_subset (h : marks.Single markers) (hsub : others ⊆ markers) : marks.Single others :=
  ⟨fun marker hmem => h.visible marker (hsub hmem), fun marker hmem => h.invisible marker (hsub hmem)⟩

/-- What is left of lists has no more annotations with a descriptor than the lists had. -/
theorem Single.off (h : marks.Single markers) (others : List String) : (marks.off others).Single markers := by
  have hcount : ∀ (annotations : List Annotation) (passes : Annotation → Bool) (marker : String),
      ((annotations.filter passes).map Annotation.descriptor).count marker ≤
        (annotations.map Annotation.descriptor).count marker := fun annotations passes marker =>
    (List.filter_sublist.map _).count_le _
  exact ⟨fun marker hmem => (hcount _ _ _).trans (h.visible marker hmem),
    fun marker hmem => (hcount _ _ _).trans (h.invisible marker hmem)⟩

theorem stripAll_eq_off (marks : Marks) (marker : String) : (marks.stripAll marker).2 = marks.off [marker] := by
  simp only [stripAll, off, without, mk.injEq]
  constructor <;> exact List.filter_congr fun mark _ => by simp [bne, beq_eq_decide]

/-- Taking the first annotation with a descriptor off a list that has only one takes all of them off. -/
theorem removeFirst_eq_filter {annotations : List Annotation}
    (h : (annotations.map Annotation.descriptor).count marker ≤ 1) :
    ( Annotation.removeFirst marker annotations).2 =
      annotations.filter fun mark => mark.descriptor ∉ [marker] := by
  induction annotations with
  | nil => rfl
  | cons mark rest ih =>
    unfold Annotation.removeFirst
    by_cases hmark : mark.descriptor = marker
    · have hrest : marker ∉ rest.map Annotation.descriptor := by
        rw [List.map_cons, hmark, List.count_cons_self] at h
        exact List.count_eq_zero.mp (by omega)
      rw [if_pos hmark, List.filter_cons_of_neg (by simp [hmark])]
      refine (List.filter_eq_self.mpr fun other hother => ?_).symm
      have hne : other.descriptor ≠ marker := fun heq => hrest (heq ▸ List.mem_map_of_mem hother)
      simp [hne]
    · rw [List.map_cons, List.count_cons_of_ne hmark] at h
      rw [if_neg hmark, List.filter_cons_of_pos (by simp [hmark]), ← ih h]

theorem stripFirst_eq_off (h : marks.Single [marker]) : (marks.stripFirst marker).2 = marks.off [marker] := by
  simp only [stripFirst, off, mk.injEq]
  exact ⟨removeFirst_eq_filter (h.visible _ List.mem_cons_self),
    removeFirst_eq_filter (h.invisible _ List.mem_cons_self)⟩

end Marks

/-! ## Markers of policies -/

namespace CrashShield

/-- The descriptors of the annotations that ask for shielding and forbid it. -/
def markers (shield : CrashShield) : List String := shield.enable.toList ++ shield.disable.toList

/-- Taking a decision takes the markers off. -/
theorem takeDecision_eq_off (shield : CrashShield) (marks : Marks) :
    (shield.takeDecision marks).2 = marks.off shield.markers := by
  have hgiven : ∀ (marks : Marks) (marker : Option String),
      (stripIfGiven marks marker).2 = marks.off marker.toList := by
    intro marks marker
    cases marker with
    | none => simp [stripIfGiven]
    | some marker => exact marks.stripAll_eq_off marker
  simp only [takeDecision, hgiven, Marks.off_off, markers]

end CrashShield

namespace ThreadCheck

/-- The descriptors of the annotations that say on which thread something runs. -/
def markers (policy : ThreadCheck) : List String :=
  policy.annotations.flatMap fun marker => (marker.map Name.descriptorOfJava).toList

/-- Annotations that are not repeated come off altogether. -/
theorem strip_eq_off {policy : ThreadCheck} {marks : Marks} (h : marks.Single policy.markers) :
    policy.strip marks = marks.off policy.markers := by
  have hfold (step : Marks → Option String → Marks) (hnone : ∀ marks, step marks none = marks)
      (hsome : ∀ marks name, step marks (some name) = (marks.stripFirst (Name.descriptorOfJava name)).2)
      (annotations : List (Option String)) : ∀ marks : Marks,
      marks.Single (annotations.flatMap fun marker => (marker.map Name.descriptorOfJava).toList) →
      annotations.foldl step marks =
        marks.off (annotations.flatMap fun marker => (marker.map Name.descriptorOfJava).toList) := by
    induction annotations with
    | nil => exact fun marks _ => marks.off_nil.symm
    | cons marker rest ih =>
      intro marks h
      rw [List.flatMap_cons] at h ⊢
      rw [List.foldl_cons, ← Marks.off_off]
      cases marker with
      | none =>
        simp only [hnone, Option.map_none, Option.toList_none, Marks.off_nil]
        exact ih _ h
      | some name =>
        have hfirst : (marks.stripFirst (Name.descriptorOfJava name)).2 =
            marks.off [Name.descriptorOfJava name] :=
          Marks.stripFirst_eq_off (h.of_subset (by simp))
        simp only [hsome, hfirst, Option.map_some, Option.toList_some]
        exact ih _ ((h.of_subset (List.subset_append_right _ _)).off _)
  exact hfold _ (fun _ => rfl) (fun _ _ => rfl) policy.annotations marks h

end ThreadCheck

namespace Policy

/-- The descriptors of the annotations that a policy takes off methods. -/
def markers : Policy → List String
  | crashShield shield => shield.markers
  | benchmark timing => [timing.marker]
  | threadCheck check => check.markers
  | callLogger logger => [logger.marker]

/-- The descriptors of the annotations that a policy takes off classes. -/
def classMarkers : Policy → List String
  | crashShield shield => shield.markers
  | benchmark _ => []
  | threadCheck check => check.markers
  | callLogger _ => []

end Policy

/-! ## Classes -/

namespace ClassDecl

/-- The annotations of a class and of its methods after policies: the markers are gone, and everything else
is where it was. -/
structure MarkersOff (ofClass ofMethods : List String) (decl after : ClassDecl) : Prop where
  /-- The name stays. -/
  name_eq : after.name = decl.name
  /-- The class loses the markers of classes. -/
  marks_eq : after.marks = decl.marks.off ofClass
  /-- A method is still at its position, and loses the markers of methods. -/
  methods : ∀ {position : ℕ} {method : Method}, decl.methods[position]? = some method →
    ∃ treated, after.methods[position]? = some treated ∧ treated.marks = method.marks.off ofMethods
  /-- The methods that were added have no annotations. -/
  added : ∀ {position : ℕ} {method : Method}, decl.methods.length ≤ position →
    after.methods[position]? = some method → method.marks = ⟨[], []⟩

/-- No list of annotations on a class or on one of its methods has one of some markers twice. -/
structure SingleMarkers (markers : List String) (decl : ClassDecl) : Prop where
  /-- The lists of the class. -/
  ofClass : decl.marks.Single markers
  /-- The lists of the methods. -/
  ofMethods : ∀ method ∈ decl.methods, method.marks.Single markers

variable {decl middle after : ClassDecl} {ofClass ofMethods moreOfClass moreOfMethods markers : List String}

/-- A class whose methods are treated one by one, and that gets further methods behind them. -/
theorem markersOff_of_appended {treated made : List Method} (hname : after.name = decl.name)
    (hmarks : after.marks = decl.marks.off ofClass) (hmethods : after.methods = treated ++ made)
    (h : List.Forall₂ (fun method treated : Method => treated.marks = method.marks.off ofMethods)
      decl.methods treated) (hmade : ∀ method ∈ made, method.marks = ⟨[], []⟩) :
    decl.MarkersOff ofClass ofMethods after where
  name_eq := hname
  marks_eq := hmarks
  methods hmethod := by
    obtain ⟨other, hother, hoff⟩ := getElem?_of_forall₂ h hmethod
    obtain ⟨hlt, -⟩ := List.getElem?_eq_some_iff.mp hother
    exact ⟨other, by rw [hmethods, List.getElem?_append_left hlt, hother], hoff⟩
  added hle hmethod := by
    rw [h.length_eq] at hle
    rw [hmethods, List.getElem?_append_right hle] at hmethod
    exact hmade _ (List.mem_of_getElem? hmethod)

/-- A class whose methods are treated one by one, with none added. -/
theorem markersOff_of_treated (hname : after.name = decl.name)
    (hmarks : after.marks = decl.marks.off ofClass)
    (h : List.Forall₂ (fun method treated : Method => treated.marks = method.marks.off ofMethods)
      decl.methods after.methods) : decl.MarkersOff ofClass ofMethods after :=
  markersOff_of_appended hname hmarks (List.append_nil _).symm h (by simp)

/-- A method afterwards is an earlier one at its position, or it was added. -/
theorem MarkersOff.marks_of_mem (h : decl.MarkersOff ofClass ofMethods after) {treated : Method}
    (hmem : treated ∈ after.methods) :
    (∃ method ∈ decl.methods, treated.marks = method.marks.off ofMethods) ∨ treated.marks = ⟨[], []⟩ := by
  obtain ⟨position, htreated⟩ := List.mem_iff_getElem?.mp hmem
  by_cases hlt : position < decl.methods.length
  · obtain ⟨other, hother, hmarks⟩ := h.methods (List.getElem?_eq_getElem hlt)
    obtain rfl := Option.some.inj (htreated.symm.trans hother)
    exact .inl ⟨_, List.getElem_mem hlt, hmarks⟩
  · exact .inr (h.added (Nat.le_of_not_lt hlt) htreated)

theorem MarkersOff.refl (decl : ClassDecl) : decl.MarkersOff [] [] decl :=
  markersOff_of_treated rfl decl.marks.off_nil.symm
    (List.forall₂_same.mpr fun method _ => method.marks.off_nil.symm)

/-- One policy after another takes the markers of both off. -/
theorem MarkersOff.trans (h : decl.MarkersOff ofClass ofMethods middle)
    (h' : middle.MarkersOff moreOfClass moreOfMethods after) :
    decl.MarkersOff (ofClass ++ moreOfClass) (ofMethods ++ moreOfMethods) after where
  name_eq := h'.name_eq.trans h.name_eq
  marks_eq := by rw [h'.marks_eq, h.marks_eq, Marks.off_off]
  methods hmethod := by
    obtain ⟨treated, htreated, hmarks⟩ := h.methods hmethod
    obtain ⟨again, hagain, hmarks'⟩ := h'.methods htreated
    exact ⟨again, hagain, by rw [hmarks', hmarks, Marks.off_off]⟩
  added {position method} hle hmethod := by
    by_cases hlt : position < middle.methods.length
    · obtain ⟨other, hother, hmarks⟩ := h'.methods (List.getElem?_eq_getElem hlt)
      obtain rfl := Option.some.inj (hmethod.symm.trans hother)
      rw [hmarks, h.added hle (List.getElem?_eq_getElem hlt)]
      rfl
    · exact h'.added (Nat.le_of_not_lt hlt) hmethod

/-- Taking markers off repeats none. -/
theorem MarkersOff.single (h : decl.MarkersOff ofClass ofMethods after)
    (hsingle : decl.SingleMarkers markers) : after.SingleMarkers markers where
  ofClass := h.marks_eq ▸ hsingle.ofClass.off ofClass
  ofMethods treated hmem := by
    rcases h.marks_of_mem hmem with ⟨method, hmethod, hmarks⟩ | hmarks
    · exact hmarks ▸ (hsingle.ofMethods method hmethod).off ofMethods
    · rw [hmarks]
      exact ⟨fun _ _ => Nat.zero_le _, fun _ _ => Nat.zero_le _⟩

theorem SingleMarkers.of_subset {others : List String} (h : decl.SingleMarkers markers)
    (hsub : others ⊆ markers) : decl.SingleMarkers others :=
  ⟨h.ofClass.of_subset hsub, fun method hmem => (h.ofMethods method hmem).of_subset hsub⟩

/-- The class without markers. -/
def unmarked (ofClass ofMethods : List String) (decl : ClassDecl) : ClassDecl :=
  { decl.withMarks (decl.marks.off ofClass) with
    methods := decl.methods.map fun method => method.withMarks (method.marks.off ofMethods) }

theorem unmarked_nil (decl : ClassDecl) : decl.unmarked [] [] = decl := by
  have hmethods : decl.methods.map (fun method => method.withMarks (method.marks.off [])) =
      decl.methods.map id := List.map_congr_left fun method _ => by rw [Marks.off_nil]; rfl
  unfold unmarked
  rw [hmethods, Marks.off_nil, List.map_id]
  rfl

theorem unmarked_unmarked (decl : ClassDecl) :
    (decl.unmarked ofClass ofMethods).unmarked moreOfClass moreOfMethods =
      decl.unmarked (ofClass ++ moreOfClass) (ofMethods ++ moreOfMethods) := by
  simp only [unmarked, List.map_map, ← Marks.off_off]
  rfl

/-- A class that differs from another in the bodies of its methods at most. -/
structure Rebodied (decl other : ClassDecl) : Prop where
  /-- Everything but the methods is the same. -/
  rest_eq : other = { decl with methods := other.methods }
  /-- The methods differ in their bodies at most. -/
  methods : List.Forall₂ Method.Rebodied decl.methods other.methods

namespace Rebodied

variable {other : ClassDecl}

theorem name_eq (h : decl.Rebodied other) : other.name = decl.name := by
  rw [h.rest_eq]

theorem signatures_eq (h : decl.Rebodied other) :
    other.methods.map Signature.ofMethod = decl.methods.map Signature.ofMethod :=
  (map_eq_map_of_forall₂ h.methods fun _ _ hbody => hbody.ofMethod_eq.symm).symm

theorem single (h : decl.Rebodied other) (hsingle : decl.SingleMarkers markers) :
    other.SingleMarkers markers where
  ofClass := by
    rw [h.rest_eq]
    exact hsingle.ofClass
  ofMethods method hmem := by
    obtain ⟨original, horiginal, hbody⟩ := exists_left_of_forall₂ h.methods hmem
    rw [hbody.marks_eq]
    exact hsingle.ofMethods original horiginal

end Rebodied

end ClassDecl

/-! ## Policies -/

namespace Policy

variable {catalog : Catalog} {decl other after : ClassDecl} {policy : Policy} {policies : List Policy}

/-- A policy takes its markers off, each wherever it looks for them. -/
theorem markersOff_of_apply (hkept : policy.skips decl.name = false)
    (hsingle : decl.SingleMarkers policy.markers) (h : policy.apply catalog decl = .ok after) :
    decl.MarkersOff policy.classMarkers policy.markers after := by
  rw [apply, hkept] at h
  cases policy with
  | crashShield shield =>
    obtain ⟨hafter, -, hmethods⟩ := shield.apply_eq_ok h
    apply ClassDecl.markersOff_of_treated
    · rw [hafter]
      rfl
    · rw [hafter]
      exact shield.takeDecision_eq_off _
    · exact hmethods.imp fun method treated hbody => hbody.marks_eq.trans (shield.takeDecision_eq_off _)
  | benchmark timing =>
    obtain ⟨treated, rfl, hmethods⟩ := timing.apply_eq_ok h
    refine ClassDecl.markersOff_of_appended rfl decl.marks.off_nil.symm rfl ?_ ?_
    · refine List.forall₂_map_right_iff.mpr (hmethods.imp ?_)
      rintro method ⟨moved, forwarder⟩ happly
      rcases timing.applyToMethod_eq_ok happly with ⟨-, rfl, -⟩ | ⟨-, hbody, -⟩
      · exact Marks.stripAll_eq_off _ _
      · exact hbody.marks_eq.trans (Marks.stripAll_eq_off _ _)
    · intro made hmade
      obtain ⟨⟨moved, forwarder⟩, hpair, rfl⟩ := List.mem_filterMap.mp hmade
      obtain ⟨method, -, happly⟩ := exists_left_of_forall₂ hmethods hpair
      rcases timing.applyToMethod_eq_ok happly with ⟨-, -, hnone⟩ | ⟨-, -, -, other, hother, hforwards⟩
      · cases hnone
      · obtain rfl := Option.some.inj hother
        exact hforwards.marks_eq
  | threadCheck check =>
    obtain ⟨hafter, ofClass, -, hmethods⟩ := check.apply_eq_ok h
    have hmethods := (List.forall₂_and_left _ _).mpr ⟨hsingle.ofMethods, hmethods⟩
    apply ClassDecl.markersOff_of_treated
    · rw [hafter]
      rfl
    · rw [hafter]
      exact check.strip_eq_off hsingle.ofClass
    · refine hmethods.imp fun method treated htreated => ?_
      exact (check.rebodied_of_applyToMethod htreated.2).marks_eq.trans (check.strip_eq_off htreated.1)
  | callLogger logger =>
    obtain ⟨hafter, hmethods⟩ := logger.apply_eq_ok h
    have hmethods := (List.forall₂_and_left _ _).mpr ⟨hsingle.ofMethods, hmethods⟩
    apply ClassDecl.markersOff_of_treated
    · rw [hafter]
    · rw [hafter]
      exact decl.marks.off_nil.symm
    · refine hmethods.imp fun method treated htreated => ?_
      exact (logger.rebodied_of_applyToMethod htreated.2).marks_eq.trans
        (Marks.stripFirst_eq_off htreated.1)

end Policy

/-! ## Policies that report to nobody -/

section Disabled

variable {catalog : Catalog} {decl after : ClassDecl}

theorem CrashShield.apply_of_disabled {shield : CrashShield} (h : shield.handler = none) :
    shield.apply catalog decl = .ok (decl.unmarked shield.markers shield.markers) := by
  have hmethod : ∀ (middle : ClassDecl) (setting : Setting),
      (fun method => (shield.applyToMethod middle setting method : Except PolicyFault Method)) =
        fun method => pure (method.withMarks (method.marks.off shield.markers)) := by
    intro middle setting
    funext method
    unfold applyToMethod
    simp only [h, shield.takeDecision_eq_off]
    rfl
  unfold apply
  dsimp only
  split
  · simp only [shield.takeDecision_eq_off]
    rfl
  · rw [hmethod, List.mapM_pure, shield.takeDecision_eq_off, h]
    rfl

theorem Benchmark.apply_of_disabled {timing : Benchmark} (h : timing.receiver = none) :
    timing.apply catalog decl = .ok (decl.unmarked [] [timing.marker]) := by
  have hmethod : timing.applyToMethod catalog decl =
      fun method => pure (method.withMarks (method.marks.off [timing.marker]), none) := by
    funext method
    unfold applyToMethod
    simp only [h, Marks.stripAll_eq_off]
  unfold apply
  rw [hmethod, List.mapM_pure]
  simp only [pure_bind, List.map_map, List.filterMap_map, Function.comp_def, List.filterMap_none,
    List.append_nil, ClassDecl.unmarked, Marks.off_nil]
  rfl

theorem CallLogger.apply_of_disabled {policy : CallLogger} (h : policy.logger = none)
    (hsingle : decl.SingleMarkers [policy.marker]) :
    policy.apply decl = .ok (decl.unmarked [] [policy.marker]) := by
  have hmethods : decl.methods.mapM
      (fun method => (policy.applyToMethod decl method : Except PolicyFault Method)) =
        .ok (decl.methods.map fun method => method.withMarks (method.marks.off [policy.marker])) := by
    refine mapM_eq_ok.mpr (List.forall₂_map_right_iff.mpr (List.forall₂_same.mpr fun method hmem => ?_))
    unfold applyToMethod
    rw [← Marks.stripFirst_eq_off (hsingle.ofMethods method hmem), h]
    cases method.marks.stripFirst policy.marker with
    | mk found marks => cases found <;> rfl
  unfold apply
  rw [hmethods]
  simp only [ClassDecl.unmarked, Marks.off_nil]
  rfl

/-- Do the annotations that the catalog knows agree on what a class and some methods of it ask for? -/
def ThreadCheck.Agrees (policy : ThreadCheck) (catalog : Catalog) (name : String)
    (signatures : List Signature) : Prop :=
  (∃ ofClass, policy.classRequirement catalog name = .ok ofClass) ∧
    ∀ signature ∈ signatures, ∃ ofMethod, policy.methodRequirement catalog name signature = .ok ofMethod

theorem ThreadCheck.apply_of_disabled {policy : ThreadCheck} (h : policy.handler = none)
    (hsingle : decl.SingleMarkers policy.markers) :
    policy.apply catalog decl = .ok after ↔
      policy.Agrees catalog decl.name (decl.methods.map Signature.ofMethod) ∧
        after = decl.unmarked policy.markers policy.markers := by
  have hmethod : ∀ (middle : ClassDecl) (ofClass : Option ThreadRequirement),
      ∀ method ∈ decl.methods, ∀ treated,
        policy.applyToMethod catalog middle ofClass method = .ok treated ↔
          (∃ ofMethod, policy.methodRequirement catalog middle.name (.ofMethod method) = .ok ofMethod) ∧
            treated = method.withMarks (method.marks.off policy.markers) := by
    intro middle ofClass method hmem treated
    rw [applyToMethod, bind_eq_ok, h, policy.strip_eq_off (hsingle.ofMethods method hmem)]
    constructor
    · rintro ⟨ofMethod, hanswer, htreated⟩
      exact ⟨⟨ofMethod, hanswer⟩, (pure_eq_ok.mp htreated).symm⟩
    · rintro ⟨⟨ofMethod, hanswer⟩, rfl⟩
      exact ⟨ofMethod, hanswer, rfl⟩
  constructor
  · intro happly
    obtain ⟨hafter, ofClass, hclass, hmethods⟩ := policy.apply_eq_ok happly
    have htreated := ((List.forall₂_and_left _ _).mpr ⟨fun _ hmem => hmem, hmethods⟩).imp
      fun method treated hpair => (hmethod _ _ method hpair.1 treated).mp hpair.2
    constructor
    · refine ⟨⟨ofClass, hclass⟩, fun signature hsignature => ?_⟩
      obtain ⟨method, hmem, rfl⟩ := List.mem_map.mp hsignature
      obtain ⟨treated, -, hanswer, -⟩ := exists_right_of_forall₂ htreated hmem
      exact hanswer
    · have hmap : after.methods =
          decl.methods.map fun method => method.withMarks (method.marks.off policy.markers) := by
        rw [map_eq_map_of_forall₂ htreated (g := id) fun _ _ hpair => hpair.2.symm, List.map_id]
      rw [hafter, hmap, policy.strip_eq_off hsingle.ofClass]
      rfl
  · rintro ⟨⟨⟨ofClass, hclass⟩, hsignatures⟩, rfl⟩
    have hmethods : decl.methods.mapM
        (policy.applyToMethod catalog (decl.withMarks (policy.strip decl.marks)) ofClass) =
          .ok (decl.methods.map fun method => method.withMarks (method.marks.off policy.markers)) := by
      refine mapM_eq_ok.mpr (List.forall₂_map_right_iff.mpr (List.forall₂_same.mpr fun method hmem => ?_))
      exact (hmethod _ _ method hmem _).mpr ⟨hsignatures _ (List.mem_map_of_mem hmem), rfl⟩
    refine bind_eq_ok.mpr ⟨ofClass, hclass, bind_eq_ok.mpr ⟨_, hmethods, ?_⟩⟩
    rw [policy.strip_eq_off hsingle.ofClass]
    rfl

end Disabled

namespace Policy

variable {catalog : Catalog} {decl other after : ClassDecl} {policy : Policy} {policies : List Policy}

/-- Does a policy that reports to nobody get the answers that it needs? -/
def Agrees : Policy → Catalog → String → List Signature → Prop
  | threadCheck check, catalog, name, signatures => check.Agrees catalog name signatures
  | _, _, _, _ => True

/-- A policy that reports to nobody does nothing but take its markers off.  It does not look at bodies. -/
theorem apply_of_disabled (hdisabled : policy.receiver? = none) (hkept : policy.skips decl.name = false)
    (hsingle : decl.SingleMarkers policy.markers) :
    policy.apply catalog decl = .ok after ↔
      policy.Agrees catalog decl.name (decl.methods.map Signature.ofMethod) ∧
        after = decl.unmarked policy.classMarkers policy.markers := by
  have hok : ∀ {outcome : Except PolicyFault ClassDecl} {result : ClassDecl}, outcome = .ok result →
      (outcome = .ok after ↔ True ∧ after = result) := by
    rintro outcome result rfl
    simp [eq_comm]
  rw [apply, hkept, if_neg Bool.false_ne_true]
  cases policy with
  | crashShield shield => exact hok (CrashShield.apply_of_disabled hdisabled)
  | benchmark timing => exact hok (Benchmark.apply_of_disabled hdisabled)
  | threadCheck check => exact ThreadCheck.apply_of_disabled hdisabled hsingle
  | callLogger logger => exact hok (CallLogger.apply_of_disabled hdisabled hsingle)

/-- The descriptors of the annotations that policies take off classes. -/
def allClassMarkers (policies : List Policy) : List String := policies.flatMap classMarkers

/-- The descriptors of the annotations that policies take off methods. -/
def allMarkers (policies : List Policy) : List String := policies.flatMap markers

/-- Each policy finds the class as it was, but for markers that are gone. -/
theorem markersOff_of_applyAll (hkept : ∀ policy ∈ policies, policy.skips decl.name = false)
    (hsingle : decl.SingleMarkers (allMarkers policies))
    (h : applyAll policies catalog decl = .ok after) :
    decl.MarkersOff (allClassMarkers policies) (allMarkers policies) after := by
  induction policies generalizing decl with
  | nil =>
    obtain rfl := pure_eq_ok.mp h
    exact .refl _
  | cons policy rest ih =>
    unfold applyAll at h
    rw [List.foldlM_cons] at h
    obtain ⟨middle, hmiddle, h⟩ := bind_eq_ok.mp h
    obtain ⟨hfirst, hothers⟩ := List.forall_mem_cons.mp hkept
    have hoff : decl.MarkersOff policy.classMarkers policy.markers middle :=
      markersOff_of_apply hfirst (hsingle.of_subset (List.subset_append_left _ _)) hmiddle
    refine hoff.trans (ih ?_ ?_ h)
    · rw [hoff.name_eq]
      exact hothers
    · exact hoff.single (hsingle.of_subset (List.subset_append_right _ _))

/-- Policies that report to nobody do nothing but take their markers off, whatever the bodies are. -/
theorem applyAll_of_disabled (hdisabled : ∀ policy ∈ policies, policy.receiver? = none)
    (hkept : ∀ policy ∈ policies, policy.skips decl.name = false)
    (hsingle : decl.SingleMarkers (allMarkers policies)) :
    applyAll policies catalog decl = .ok after ↔
      (∀ policy ∈ policies, policy.Agrees catalog decl.name (decl.methods.map Signature.ofMethod)) ∧
        after = decl.unmarked (allClassMarkers policies) (allMarkers policies) := by
  induction policies generalizing decl with
  | nil =>
    have hempty : decl.unmarked (allClassMarkers []) (allMarkers []) = decl := decl.unmarked_nil
    rw [hempty]
    constructor
    · exact fun h => ⟨by simp, (pure_eq_ok.mp h).symm⟩
    · rintro ⟨-, rfl⟩
      rfl
  | cons policy rest ih =>
    obtain ⟨hfirst, hdisabled⟩ := List.forall_mem_cons.mp hdisabled
    obtain ⟨hfirstKept, hkept⟩ := List.forall_mem_cons.mp hkept
    have hfirstSingle : decl.SingleMarkers policy.markers :=
      hsingle.of_subset (List.subset_append_left _ _)
    -- the rest starts from a class with the same name, the same signatures and no repeated markers
    have hrest : decl.MarkersOff policy.classMarkers policy.markers
        (decl.unmarked policy.classMarkers policy.markers) :=
      ClassDecl.markersOff_of_treated rfl rfl (List.forall₂_map_right_iff.mpr
        (List.forall₂_same.mpr fun _ _ => rfl))
    have hsignatures : (decl.unmarked policy.classMarkers policy.markers).methods.map Signature.ofMethod =
        decl.methods.map Signature.ofMethod := by
      simp only [ClassDecl.unmarked, List.map_map]
      rfl
    have ih := @ih (decl.unmarked policy.classMarkers policy.markers) hdisabled hkept
      (hrest.single (hsingle.of_subset (List.subset_append_right _ _)))
    rw [hsignatures, ClassDecl.unmarked_unmarked] at ih
    unfold applyAll at ih ⊢
    rw [List.foldlM_cons, bind_eq_ok, List.forall_mem_cons]
    constructor
    · rintro ⟨middle, hmiddle, h⟩
      obtain ⟨hagrees, rfl⟩ := (apply_of_disabled hfirst hfirstKept hfirstSingle).mp hmiddle
      obtain ⟨hothers, hafter⟩ := ih.mp h
      exact ⟨⟨hagrees, hothers⟩, hafter⟩
    · rintro ⟨⟨hagrees, hothers⟩, hafter⟩
      exact ⟨_, (apply_of_disabled hfirst hfirstKept hfirstSingle).mpr ⟨hagrees, rfl⟩,
        ih.mpr ⟨hothers, hafter⟩⟩

/-- What policies do to annotations.  The class loses the markers of classes and its methods those of
methods; all other annotations stay where they are, in their order; and the methods that are added have
none.  So no marker is left.  If no policy has somebody to report to, nothing else changes, and the bodies
do not matter: a class that differs in its bodies is treated in the same way. -/
theorem unmarked_of_applyAll (hkept : ∀ policy ∈ policies, policy.skips decl.name = false)
    (hsingle : decl.SingleMarkers (allMarkers policies))
    (h : applyAll policies catalog decl = .ok after) :
    decl.MarkersOff (allClassMarkers policies) (allMarkers policies) after ∧
      (∀ marker ∈ allClassMarkers policies, after.marks.carries marker = false) ∧
      (∀ method ∈ after.methods, ∀ marker ∈ allMarkers policies, method.marks.carries marker = false) ∧
      ((∀ policy ∈ policies, policy.receiver? = none) →
        after = decl.unmarked (allClassMarkers policies) (allMarkers policies) ∧
          ∀ other, decl.Rebodied other → applyAll policies catalog other =
            .ok (other.unmarked (allClassMarkers policies) (allMarkers policies))) := by
  have hoff := markersOff_of_applyAll hkept hsingle h
  refine ⟨hoff, fun marker hmem => ?_, fun method hmethod marker hmem => ?_, fun hdisabled => ?_⟩
  · rw [hoff.marks_eq]
    exact Marks.carries_off hmem
  · rcases hoff.marks_of_mem hmethod with ⟨original, -, hmarks⟩ | hmarks
    · rw [hmarks]
      exact Marks.carries_off hmem
    · rw [hmarks]
      rfl
  · obtain ⟨hagrees, hafter⟩ := (applyAll_of_disabled hdisabled hkept hsingle).mp h
    refine ⟨hafter, fun other hbodies => (applyAll_of_disabled hdisabled ?_ ?_).mpr ⟨?_, rfl⟩⟩
    · rw [hbodies.name_eq]
      exact hkept
    · exact hbodies.single hsingle
    · rw [hbodies.name_eq, hbodies.signatures_eq]
      exact hagrees

/-- A class with the markers of four policies between others, and a method that has all of them. -/
def annotated : ClassDecl where
  version := ⟨52, 0⟩
  access := ⟨0x0021⟩
  name := "a/A"
  superName := some Name.object
  methods :=
    [{ access := ⟨1⟩, name := "f", descriptor := "()V"
       visible := [⟨"LLogged;", []⟩, ⟨"LKept;", []⟩]
       invisible :=
        [⟨"LMain;", []⟩, ⟨"LTimed;", [(Benchmark.warnAtMillis, .int .int 10)]⟩, ⟨"LKept;", []⟩,
          ⟨"LShielded;", []⟩]
       body := .edited { instructions := [.plain Opcode.returnVoid] } }]
  visible := [⟨"LShielded;", []⟩, ⟨"LKept;", []⟩]
  invisible := [⟨"LTimed;", []⟩, ⟨"LMain;", []⟩]

/-- Four policies that report to a class. -/
def reporting : List Policy :=
  [.crashShield { handler := some "r/R", enable := some "LShielded;", safeClasses := [] },
    .benchmark { marker := "LTimed;", receiver := some "r/R" },
    .threadCheck { handler := some "r/R", ui := some "Main" },
    .callLogger { marker := "LLogged;", logger := some "r/R" }]

/-- A method is shielded, timed, checked and logged, and has lost the markers for it.  The forwarder that
got its name has no annotations. -/
theorem unmarked_annotated : ∃ after,
    applyAll reporting (.ofList [Benchmark.timedInterface, annotated]) annotated = .ok after ∧
      after.methods.map Method.name = ["__benchmark_f", "f"] ∧
      annotated.MarkersOff (allClassMarkers reporting) (allMarkers reporting) after := by
  have hnames : ((applyAll reporting (.ofList [Benchmark.timedInterface, annotated]) annotated).toOption.map
      fun after => after.methods.map Method.name) = some ["__benchmark_f", "f"] := by decide +kernel
  obtain ⟨after, hafter, hnames⟩ := Option.map_eq_some_iff.mp hnames
  have hafter := toOption_eq_some.mp hafter
  have hkept : ∀ policy ∈ reporting, policy.skips annotated.name = false := by decide +kernel
  have hsingle : annotated.SingleMarkers (allMarkers reporting) := by
    refine ⟨⟨by decide +kernel, by decide +kernel⟩, fun method hmem => ?_⟩
    obtain rfl := List.mem_singleton.mp hmem
    exact ⟨by decide +kernel, by decide +kernel⟩
  exact ⟨after, hafter, hnames, (unmarked_of_applyAll hkept hsingle hafter).1⟩

end Policy

end ClassInstrument
