import Mathlib
import ClassInstrument.Policy.ThreadCheck
import ClassInstrument.Proofs.Catalog.Closure

/-!
# What is asked of threads along the hierarchy

A class, or a method of it, is bound by the annotations of everything above it.  The closure of a class holds the
closures of all its members, so a search from above finds no more than a search from below.  Hence what is asked of a
class is asked of the classes above it too, or nothing is asked of these; and a conflict above is a conflict below
(`ThreadCheck.requirements_inherited`).
-/

namespace ClassInstrument

namespace ThreadCheck

variable {policy : ThreadCheck} {catalog : Catalog} {search wider : String → List String} {method : Option Signature}
  {requirement : ThreadRequirement} {owner above member : String} {signature : Signature} {fault : PolicyFault}

/-- The java name of the annotation that expresses a requirement. -/
def marker? (policy : ThreadCheck) : ThreadRequirement → Option String
  | .ui => policy.ui
  | .worker => policy.worker
  | .any => policy.any

/-- The classes on which the annotation for a requirement is found. -/
def Findings.classes (findings : Findings) : ThreadRequirement → List String
  | .ui => findings.ui
  | .worker => findings.worker
  | .any => findings.any

theorem Findings.requirements_eq (findings : Findings) :
    findings.requirements = [.ui, .worker, .any].filter fun requirement => !(findings.classes requirement).isEmpty := by
  obtain ⟨ui, worker, any⟩ := findings
  simp only [requirements, classes, List.filter_cons]
  cases ui <;> cases worker <;> cases any <;> rfl

theorem Findings.mem_requirements {findings : Findings} :
    requirement ∈ findings.requirements ↔ ∃ member, member ∈ findings.classes requirement := by
  rw [requirements_eq, List.mem_filter, Bool.not_eq_true', List.isEmpty_eq_false_iff_exists_mem, and_iff_right_iff_imp]
  intro _
  cases requirement <;> simp

theorem Findings.nodup_requirements (findings : Findings) : findings.requirements.Nodup := by
  rw [requirements_eq]
  exact List.Nodup.filter _ (by decide)

/-- What is found for a requirement is what the search for its annotation finds. -/
theorem classes_findings (policy : ThreadCheck) (search : String → List String) (requirement : ThreadRequirement) :
    (policy.findings search).classes requirement =
      match policy.marker? requirement with
      | some name => search (Name.descriptorOfJava name)
      | none => [] := by
  cases requirement <;> rfl

theorem mem_classes_findings : member ∈ (policy.findings search).classes requirement ↔
    ∃ name, policy.marker? requirement = some name ∧ member ∈ search (Name.descriptorOfJava name) := by
  rw [classes_findings]
  cases policy.marker? requirement <;> simp

theorem pairwise_classes_findings (h : ∀ marker, (search marker).Pairwise (· < ·)) (requirement : ThreadRequirement) :
    ((policy.findings search).classes requirement).Pairwise (· < ·) := by
  rw [classes_findings]
  split
  · exact h _
  · exact .nil

/-! ## One search -/

/-- Two requirements are expressed, each by some class. -/
def Conflicting (expresses : ThreadRequirement → String → Prop) : Prop :=
  ∃ left right, left ≠ right ∧ (∃ member, expresses left member) ∧ ∃ member, expresses right member

/-- The fault of a conflict lists the classes that express each requirement, by ascending name. -/
def Lists (policy : ThreadCheck) (method : Option Signature) (expresses : ThreadRequirement → String → Prop)
    (fault : PolicyFault) : Prop :=
  ∃ listed : ThreadRequirement → List String,
    (∀ requirement, (listed requirement).Pairwise (· < ·) ∧
      ∀ member, member ∈ listed requirement ↔ expresses requirement member) ∧
    fault = .conflictingThreads method ⟨listed .ui, policy.ui.getD ""⟩ ⟨listed .worker, policy.worker.getD ""⟩
      ⟨listed .any, policy.any.getD ""⟩

/-- A search is refused if it finds two requirements. -/
theorem resolve_eq_error_iff {findings : Findings} : policy.resolve findings method = .error fault ↔
    Conflicting (fun requirement member => member ∈ findings.classes requirement) ∧
      fault = .conflictingThreads method ⟨findings.ui, policy.ui.getD ""⟩ ⟨findings.worker, policy.worker.getD ""⟩
        ⟨findings.any, policy.any.getD ""⟩ := by
  have hconflicting : Conflicting (fun requirement member => member ∈ findings.classes requirement) ↔
      ∃ left ∈ findings.requirements, ∃ right ∈ findings.requirements, left ≠ right := by
    simp only [Findings.mem_requirements, Conflicting]
    constructor
    · exact fun ⟨left, right, hne, hleft, hright⟩ => ⟨left, hleft, right, hright, hne⟩
    · exact fun ⟨left, hleft, right, hright, hne⟩ => ⟨left, right, hne, hleft, hright⟩
  have hnodup := findings.nodup_requirements
  rw [hconflicting, resolve]
  split
  · next hnone => simp [hnone]
  · next only honly => simp [honly]
  · next hnone honly =>
    rcases hrequirements : findings.requirements with _ | ⟨first, _ | ⟨second, rest⟩⟩
    · exact absurd hrequirements hnone
    · exact absurd hrequirements (honly first)
    · have hne : first ≠ second := by
        rw [hrequirements] at hnodup
        exact fun hsame => (List.nodup_cons.mp hnodup).1 (hsame ▸ List.mem_cons_self)
      rw [Except.error.injEq, eq_comm, iff_and_self]
      exact fun _ => ⟨first, List.mem_cons_self, second, List.mem_cons_of_mem _ List.mem_cons_self, hne⟩

/-- What is refused, and with which fault, by the members of an ascending closure that express each requirement. -/
theorem resolve_findings_error {expresses : ThreadRequirement → String → Prop}
    (hascending : ∀ marker, (search marker).Pairwise (· < ·))
    (h : ∀ requirement member, (∃ name, policy.marker? requirement = some name ∧
      member ∈ search (Name.descriptorOfJava name)) ↔ expresses requirement member) :
    ((∃ fault, policy.resolve (policy.findings search) method = .error fault) ↔ Conflicting expresses) ∧
      ∀ fault, policy.resolve (policy.findings search) method = .error fault → policy.Lists method expresses fault := by
  have hclasses : (fun requirement member => member ∈ (policy.findings search).classes requirement) = expresses := by
    ext requirement member
    rw [mem_classes_findings, h]
  simp only [resolve_eq_error_iff, hclasses]
  refine ⟨⟨fun ⟨_, hconflicting, _⟩ => hconflicting, fun hconflicting => ⟨_, hconflicting, rfl⟩⟩, ?_⟩
  rintro fault ⟨-, rfl⟩
  refine ⟨(policy.findings search).classes, fun requirement => ⟨?_, fun member => ?_⟩, rfl⟩
  · exact pairwise_classes_findings hascending requirement
  · rw [mem_classes_findings, h]

/-! ## Searches from above -/

/-- A search that finds no more than another one finds the same requirement, or none. -/
theorem resolve_findings_of_subset {found : Option ThreadRequirement} (hsubset : ∀ marker, search marker ⊆ wider marker)
    (h : policy.resolve (policy.findings wider) method = .ok found) :
    ∃ less, policy.resolve (policy.findings search) method = .ok less ∧ (less = none ∨ less = found) := by
  have hrequirements : (policy.findings search).requirements.Sublist (policy.findings wider).requirements := by
    rw [Findings.requirements_eq, Findings.requirements_eq]
    refine List.monotone_filter_right _ fun requirement hfound => ?_
    rw [Bool.not_eq_true', List.isEmpty_eq_false_iff_exists_mem] at hfound ⊢
    obtain ⟨member, hmember⟩ := hfound
    obtain ⟨name, hname, hmember⟩ := mem_classes_findings.mp hmember
    exact ⟨member, mem_classes_findings.mpr ⟨name, hname, hsubset _ hmember⟩⟩
  rw [resolve] at h
  split at h
  · next hnone =>
    rw [hnone, List.sublist_nil] at hrequirements
    exact ⟨none, by rw [resolve, hrequirements], .inl rfl⟩
  · next only honly =>
    rw [honly, List.sublist_singleton] at hrequirements
    rcases hrequirements with hnone | hsame
    · exact ⟨none, by rw [resolve, hnone], .inl rfl⟩
    · exact ⟨some only, by rw [resolve, hsame], .inr (Except.ok.inj h)⟩
  · cases h

theorem annotatedClosure_subset (h : above ∈ catalog.closure owner) (marker : String) :
    catalog.annotatedClosure above marker ⊆ catalog.annotatedClosure owner marker :=
  List.filter_subset _ (Catalog.closure_subset h)

theorem annotatedMethodClosure_subset (h : above ∈ catalog.closure owner) (signature : Signature) (marker : String) :
    catalog.annotatedMethodClosure above signature marker ⊆ catalog.annotatedMethodClosure owner signature marker :=
  List.filter_subset _ (List.filter_subset _ (Catalog.closure_subset h))

/-- A class in the closure of another one is annotated with a requirement. -/
def ClassExpresses (policy : ThreadCheck) (catalog : Catalog) (owner : String) (requirement : ThreadRequirement)
    (member : String) : Prop :=
  member ∈ catalog.closure owner ∧ ∃ name, policy.marker? requirement = some name ∧
    catalog.isAnnotated member (Name.descriptorOfJava name)

/-- A class in the closure of another one declares a method in a slot that is annotated with a requirement. -/
def MethodExpresses (policy : ThreadCheck) (catalog : Catalog) (owner : String) (signature : Signature)
    (requirement : ThreadRequirement) (member : String) : Prop :=
  member ∈ catalog.methodClosure owner signature ∧ ∃ name, policy.marker? requirement = some name ∧
    catalog.isMethodAnnotated member signature (Name.descriptorOfJava name)

/-- **What is asked of threads is consistent along the hierarchy.**  If something or nothing is asked of a class without
a conflict, the same or nothing is asked of each class above it, without a conflict; and so for the methods in a slot.
There is a conflict if two requirements are expressed in the closure, and the fault lists by whom. -/
theorem requirements_inherited (policy : ThreadCheck) (catalog : Catalog) (owner : String) (signature : Signature) :
    (∀ above ∈ catalog.closure owner,
      (∀ found, policy.classRequirement catalog owner = .ok found →
        ∃ inherited, policy.classRequirement catalog above = .ok inherited ∧
          (inherited = none ∨ inherited = found)) ∧
      ∀ found, policy.methodRequirement catalog owner signature = .ok found →
        ∃ inherited, policy.methodRequirement catalog above signature = .ok inherited ∧
          (inherited = none ∨ inherited = found)) ∧
    (((∃ fault, policy.classRequirement catalog owner = .error fault) ↔
        Conflicting (policy.ClassExpresses catalog owner)) ∧
      ∀ fault, policy.classRequirement catalog owner = .error fault →
        policy.Lists none (policy.ClassExpresses catalog owner) fault) ∧
    ((∃ fault, policy.methodRequirement catalog owner signature = .error fault) ↔
        Conflicting (policy.MethodExpresses catalog owner signature)) ∧
      ∀ fault, policy.methodRequirement catalog owner signature = .error fault →
        policy.Lists (some signature) (policy.MethodExpresses catalog owner signature) fault := by
  refine ⟨fun above habove => ⟨fun found => ?_, fun found => ?_⟩, ?_, ?_⟩
  · exact resolve_findings_of_subset (annotatedClosure_subset habove)
  · exact resolve_findings_of_subset (annotatedMethodClosure_subset habove signature)
  · refine resolve_findings_error (fun _ => (Catalog.pairwise_closure _ _).filter _) fun requirement member => ?_
    simp only [Catalog.annotatedClosure, List.mem_filter, ClassExpresses, and_left_comm, exists_and_left]
  · refine resolve_findings_error (fun _ => ((Catalog.pairwise_closure _ _).filter _).filter _)
      fun requirement member => ?_
    simp only [Catalog.annotatedMethodClosure, List.mem_filter, MethodExpresses, and_left_comm, exists_and_left]

/-- A class below an unknown one and below two interfaces that extend each other.  One of these binds the class; the
methods of the other one and of the class do not go together. -/
def bound : List ClassDecl :=
  [Catalog.oneMethod "c/Low" "x/Lost" ["a/Main"] 1 [⟨"LAny;", []⟩],
    { Catalog.oneMethod "a/Main" Name.object ["a/Free"] 1 [] with visible := [⟨"LMain;", []⟩] },
    Catalog.oneMethod "a/Free" Name.object ["a/Main"] 1 [⟨"LBack;", []⟩]]

/-- What binds a class through one interface binds the other interface too, and a conflict of two methods lists both. -/
theorem requirements_inherited_bound :
    let policy : ThreadCheck := { ui := some "Main", worker := some "Back", any := some "Any" }
    policy.classRequirement (.ofList bound) "c/Low" = .ok (some .ui) ∧
    "a/Free" ∈ Catalog.closure (.ofList bound) "c/Low" ∧
    (∃ inherited, policy.classRequirement (.ofList bound) "a/Free" = .ok inherited ∧
      (inherited = none ∨ inherited = some .ui)) ∧
    policy.methodRequirement (.ofList bound) "c/Low" ⟨"f", "()V", ⟨1⟩⟩ =
      .error (.conflictingThreads (some ⟨"f", "()V", ⟨1⟩⟩) ⟨[], "Main"⟩ ⟨["a/Free"], "Back"⟩ ⟨["c/Low"], "Any"⟩) ∧
    Conflicting (policy.MethodExpresses (.ofList bound) "c/Low" ⟨"f", "()V", ⟨1⟩⟩) := by
  intro policy
  obtain ⟨habove, -, hmethod, -⟩ := requirements_inherited policy (.ofList bound) "c/Low" ⟨"f", "()V", ⟨1⟩⟩
  have hclass : policy.classRequirement (.ofList bound) "c/Low" = .ok (some .ui) := by decide +kernel
  have hmem : "a/Free" ∈ Catalog.closure (.ofList bound) "c/Low" := by decide +kernel
  have hfault : policy.methodRequirement (.ofList bound) "c/Low" ⟨"f", "()V", ⟨1⟩⟩ =
      .error (.conflictingThreads (some ⟨"f", "()V", ⟨1⟩⟩) ⟨[], "Main"⟩ ⟨["a/Free"], "Back"⟩ ⟨["c/Low"], "Any"⟩) := by
    decide +kernel
  exact ⟨hclass, hmem, (habove _ hmem).1 _ hclass, hfault, hmethod.mp ⟨_, hfault⟩⟩

end ThreadCheck

end ClassInstrument
