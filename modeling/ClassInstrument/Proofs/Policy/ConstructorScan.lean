import Mathlib
import ClassInstrument.Proofs.Analysis.ConstructorCalls
import ClassInstrument.Proofs.Classpath.Builtin
import ClassInstrument.Proofs.Policy.DelegatingCall

/-!
# The scan for the delegating call and the dataflow

`DelegatingCall.find` does not know what is on the stack.  It goes through the instructions once, counts for
each class the created objects whose constructor it has not seen yet, and takes a constructor call for the
delegating one if no such object is left.  An analysis of the body knows the receiver of every constructor
call that it reaches, so it tells which ones are delegating calls: `Analysis.delegations`.

The two agree if objects of the class and of its superclass are created and initialized in the order of the
list, one call for each, and no delegating call comes between the two (`Analysis.InOrder`).  What carries
the proof is a list of the creation sites that wait for their constructors: it is as long as the scan's
count, so the count is zero at a delegating call, and positive at every other call.
-/

namespace ClassInstrument

namespace Analysis

/-- The positions of the calls that initialize the receiver itself, by a constructor of its class or of the
superclass. -/
def delegations (analysis : Analysis) (body : Body) (owner : String) (superName : Option String) : List ℕ :=
  (List.range body.instructions.length).filter fun position =>
    (analysis.constructs? body position).any fun (name, type) =>
      type = .uninitThis ∧ (name = owner ∨ some name = superName)

/-- The objects of a class are created and initialized in the order of the instruction list. -/
structure InOrder (analysis : Analysis) (body : Body) (name : String) : Prop where
  /-- Every call of a constructor of the class is reached. -/
  reached : ∀ {position callee},
    body.instructions[position]? = some (.method Opcode.invokespecial callee) →
      Name.isConstructor callee.name → callee.owner = name → analysis.reaches position
  /-- A created object that such a call initializes is one of the class, and was created in front of it. -/
  own : ∀ {position site}, analysis.constructs? body position = some (name, .uninit site) →
    site < position ∧ body.instructions[site]? = some (.type Opcode.create name)
  /-- Every created object of the class is initialized by one call. -/
  once : ∀ {site}, body.instructions[site]? = some (.type Opcode.create name) →
    ∃! position, analysis.constructs? body position = some (name, .uninit site)
  /-- No created object of the class waits for its constructor where the receiver gets its own. -/
  apart : ∀ {site call delegating}, analysis.constructs? body call = some (name, .uninit site) →
    analysis.constructs? body delegating = some (name, .uninitThis) → site < delegating → call < delegating

/-- An object of a class that was created in front of a position is initialized there or behind it. -/
def Waits (analysis : Analysis) (body : Body) (name : String) (position site : ℕ) : Prop :=
  site < position ∧ ∃ call ≥ position, analysis.constructs? body call = some (name, .uninit site)

/-- As many classes of created objects are noted as there are objects of a class that wait. -/
def Counted (analysis : Analysis) (body : Body) (created : List String) (position : ℕ) (name : String) :
    Prop :=
  ∃ waiting : List ℕ, waiting.Nodup ∧ waiting.length = created.count name ∧
    ∀ site, site ∈ waiting ↔ analysis.Waits body name position site

end Analysis

namespace DelegatingCall

open Analysis

variable {analysis : Analysis} {body : Body} {name : String} {created : List String} {position : ℕ}

/-- At first no object waits. -/
theorem counted_zero : analysis.Counted body [] 0 name :=
  ⟨[], List.nodup_nil, by simp, fun site => by simp [Waits]⟩

/-- An instruction that neither creates nor initializes an object of the class changes nothing. -/
theorem counted_succ_of_other (horder : analysis.InOrder body name)
    (h : analysis.Counted body created position name) {after : List String}
    (hcount : after.count name = created.count name)
    (hcreate : body.instructions[position]? ≠ some (.type Opcode.create name))
    (hcall : ∀ site, analysis.constructs? body position ≠ some (name, .uninit site)) :
    analysis.Counted body after (position + 1) name := by
  obtain ⟨waiting, hnodup, hlength, hwaiting⟩ := h
  refine ⟨waiting, hnodup, hlength.trans hcount.symm, fun site => (hwaiting site).trans ?_⟩
  constructor
  · rintro ⟨hsite, call, hle, hconstructs⟩
    have hne : call ≠ position := fun heq => hcall site (heq ▸ hconstructs)
    exact ⟨hsite.trans (Nat.lt_succ_self _), call, by omega, hconstructs⟩
  · rintro ⟨hsite, call, hle, hconstructs⟩
    have hne : site ≠ position := fun heq => hcreate (heq ▸ (horder.own hconstructs).2)
    exact ⟨by omega, call, by omega, hconstructs⟩

/-- A created object waits. -/
theorem counted_succ_of_create (horder : analysis.InOrder body name)
    (h : analysis.Counted body created position name)
    (here : body.instructions[position]? = some (.type Opcode.create name)) :
    analysis.Counted body (name :: created) (position + 1) name := by
  obtain ⟨waiting, hnodup, hlength, hwaiting⟩ := h
  obtain ⟨call, hconstructs, -⟩ := horder.once here
  have hlt := (horder.own hconstructs).1
  have hcall : ∀ {call site}, analysis.constructs? body call = some (name, .uninit site) → call ≠ position := by
    rintro call site hother rfl
    obtain ⟨callee, hcallee, -⟩ := exists_callee_of_constructs? hother
    rw [here] at hcallee
    cases hcallee
  refine ⟨position :: waiting, List.nodup_cons.mpr ⟨?_, hnodup⟩, by simp [hlength], fun site => ?_⟩
  · rw [hwaiting]
    exact fun hwaits => absurd hwaits.1 (lt_irrefl _)
  · rw [List.mem_cons, hwaiting]
    constructor
    · rintro (rfl | ⟨hsite, other, hle, hother⟩)
      · exact ⟨Nat.lt_succ_self _, call, hlt, hconstructs⟩
      · have := hcall hother
        exact ⟨hsite.trans (Nat.lt_succ_self _), other, by omega, hother⟩
    · rintro ⟨hsite, other, hle, hother⟩
      rcases Nat.lt_succ_iff_lt_or_eq.mp hsite with hsite | rfl
      · exact Or.inr ⟨hsite, other, by omega, hother⟩
      · exact Or.inl rfl

/-- An object that is initialized was waiting, and does no longer. -/
theorem counted_succ_of_construct (horder : analysis.InOrder body name)
    (h : analysis.Counted body created position name) {site : ℕ}
    (hconstructs : analysis.constructs? body position = some (name, .uninit site)) :
    name ∈ created ∧ analysis.Counted body (created.erase name) (position + 1) name := by
  obtain ⟨waiting, hnodup, hlength, hwaiting⟩ := h
  obtain ⟨hlt, hcreated⟩ := horder.own hconstructs
  have hmem : site ∈ waiting := (hwaiting site).mpr ⟨hlt, position, le_rfl, hconstructs⟩
  have hpos : 0 < created.count name := hlength ▸ List.length_pos_of_mem hmem
  refine ⟨List.count_pos_iff.mp hpos, waiting.erase site, hnodup.erase _, ?_, fun other => ?_⟩
  · rw [List.length_erase_of_mem hmem, hlength, List.count_erase_self]
  · rw [hnodup.mem_erase_iff, hwaiting]
    obtain ⟨only, -, honly⟩ := horder.once hcreated
    constructor
    · rintro ⟨hne, hother, call, hle, hcall⟩
      have hlate : call ≠ position := by
        rintro rfl
        rw [hconstructs] at hcall
        cases hcall
        exact hne rfl
      exact ⟨hother.trans (Nat.lt_succ_self _), call, by omega, hcall⟩
    · rintro ⟨hother, call, hle, hcall⟩
      have hne : other ≠ site := by
        rintro rfl
        have := (honly call hcall).trans (honly position hconstructs).symm
        omega
      refine ⟨hne, ?_, call, by omega, hcall⟩
      have := (horder.own hcall).2
      rcases Nat.lt_succ_iff_lt_or_eq.mp hother with hother | rfl
      · exact hother
      · obtain ⟨callee, hcallee, -⟩ := exists_callee_of_constructs? hconstructs
        rw [this] at hcallee
        cases hcallee

/-- No object of its class waits at a delegating call. -/
theorem not_mem_of_delegating (horder : analysis.InOrder body name)
    (h : analysis.Counted body created position name)
    (hconstructs : analysis.constructs? body position = some (name, .uninitThis)) : name ∉ created := by
  obtain ⟨waiting, -, hlength, hwaiting⟩ := h
  rw [← List.count_eq_zero, ← hlength, List.length_eq_zero_iff, List.eq_nil_iff_forall_not_mem]
  rintro site hmem
  obtain ⟨hlt, call, hle, hcall⟩ := (hwaiting site).mp hmem
  have := horder.apart hcall hconstructs hlt
  omega

section

variable {owner : String} {superName : Option String} {rest : List (Instruction × ℕ)}

/-- The scan passes what neither creates nor initializes an object. -/
theorem candidates_cons_of_other {first : Instruction} (hcreate : ∀ name, first ≠ .type Opcode.create name)
    (hcall : first.constructor? = none) :
    candidates owner superName created ((first, position) :: rest) =
      candidates owner superName created rest := by
  conv_lhs => unfold candidates
  split
  · next heq => simp at heq
  · next name _ _ heq =>
    cases heq
    exact absurd rfl (hcreate name)
  · next callee _ _ heq =>
    cases heq
    have hname : ¬ Name.isConstructor callee.name := fun hname => by
      simp [Instruction.constructor?_eq_some.mpr ⟨rfl, hname⟩] at hcall
    rw [if_pos (by simpa using hname)]
  · next heq =>
    cases heq
    rfl

/-- At a constructor call the scan takes a created object off its list, or finds the delegating call. -/
theorem candidates_cons_of_constructor {callee : Member} (hname : Name.isConstructor callee.name) :
    candidates owner superName created ((.method Opcode.invokespecial callee, position) :: rest) =
      if callee.owner ∈ created then candidates owner superName (created.erase callee.owner) rest
      else if callee.owner = owner ∨ some callee.owner = superName then
        position :: candidates owner superName created rest
      else candidates owner superName created rest := by
  change (if !Name.isConstructor callee.name then _ else if created.contains callee.owner then _ else _) = _
  simp [hname]

end

/-- The scan finds the delegating calls of an analysis, if the objects of the classes that matter are created
and initialized in order. -/
theorem candidates_eq_delegations {method : MethodContext} {hierarchy : Hierarchy} {owner : String}
    {superName : Option String} (h : analyze body method hierarchy [] = .ok analysis)
    (horder : ∀ name, name = owner ∨ some name = superName → analysis.InOrder body name) :
    candidates owner superName [] body.instructions.zipIdx = analysis.delegations body owner superName := by
  suffices hsuffix : ∀ (rest : List Instruction) (position : ℕ) (created : List String),
      body.instructions.drop position = rest →
      (∀ name, name = owner ∨ some name = superName → analysis.Counted body created position name) →
      candidates owner superName created (rest.zipIdx position) =
        (List.range' position rest.length).filter fun position =>
          (analysis.constructs? body position).any fun (name, type) =>
            type = .uninitThis ∧ (name = owner ∨ some name = superName) by
    rw [delegations, List.range_eq_range']
    exact hsuffix _ 0 [] rfl fun name _ => counted_zero
  intro rest
  induction rest with
  | nil => exact fun _ _ _ _ => rfl
  | cons first rest ih =>
    intro position created hdrop hcounted
    have here : body.instructions[position]? = some first := by
      rw [← Nat.add_zero position, ← List.getElem?_drop, hdrop, List.getElem?_cons_zero]
    have hrest : body.instructions.drop (position + 1) = rest := by
      rw [← List.drop_drop, hdrop, List.drop_one, List.tail_cons]
    rw [List.zipIdx_cons, List.length_cons, List.range'_succ, List.filter_cons]
    by_cases hcreate : ∃ name, first = .type Opcode.create name
    · obtain ⟨name, rfl⟩ := hcreate
      have hnone : analysis.constructs? body position = none := by
        simp [constructs?, here, Instruction.constructor?]
      rw [hnone, Option.any_none, if_neg Bool.false_ne_true]
      refine ih (position + 1) (name :: created) hrest fun other hother => ?_
      by_cases hsame : other = name
      · subst hsame
        exact counted_succ_of_create (horder _ hother) (hcounted _ hother) here
      · refine counted_succ_of_other (horder _ hother) (hcounted _ hother)
          (List.count_cons_of_ne (Ne.symm hsame)) (fun hcreate => ?_) (by simp [hnone])
        rw [here] at hcreate
        cases hcreate
        exact hsame rfl
    have hplain : ∀ other, body.instructions[position]? ≠ some (.type Opcode.create other) := by
      intro other hother
      rw [here] at hother
      exact hcreate ⟨other, Option.some.inj hother⟩
    cases hcall : first.constructor? with
    | none =>
      have hnone : analysis.constructs? body position = none := by simp [constructs?, here, hcall]
      rw [candidates_cons_of_other (fun name heq => hcreate ⟨name, heq⟩) hcall, hnone, Option.any_none,
        if_neg Bool.false_ne_true]
      exact ih (position + 1) created hrest fun other hother =>
        counted_succ_of_other (horder _ hother) (hcounted _ hother) rfl (hplain other) (by simp [hnone])
    | some callee =>
      obtain ⟨rfl, hname⟩ := Instruction.constructor?_eq_some.mp hcall
      rw [candidates_cons_of_constructor hname]
      by_cases hmatters : callee.owner = owner ∨ some callee.owner = superName
      · obtain ⟨type, hconstructs, hkind⟩ := constructs?_of_reaches h here hname
          ((horder _ hmatters).reached here hname rfl)
        rw [hconstructs, Option.any_some]
        rcases hkind with rfl | ⟨site, rfl⟩
        · -- The receiver itself is initialized: no object waits, so the scan finds the call as well.
          rw [if_neg (not_mem_of_delegating (horder _ hmatters) (hcounted _ hmatters) hconstructs),
            if_pos hmatters, if_pos (by simpa using hmatters)]
          refine congrArg _ (ih (position + 1) created hrest fun other hother => ?_)
          exact counted_succ_of_other (horder _ hother) (hcounted _ hother) rfl (hplain other)
            (by simp [hconstructs])
        · obtain ⟨hmem, hcounted'⟩ :=
            counted_succ_of_construct (horder _ hmatters) (hcounted _ hmatters) hconstructs
          rw [if_pos hmem, if_neg (by simp)]
          refine ih (position + 1) _ hrest fun other hother => ?_
          by_cases hsame : other = callee.owner
          · exact hsame ▸ hcounted'
          · refine counted_succ_of_other (horder _ hother) (hcounted _ hother)
              (List.count_erase_of_ne hsame) (hplain other) fun site hother => ?_
            rw [hconstructs] at hother
            cases hother
            exact hsame rfl
      · -- Calls of other constructors are no delegating calls, and change no count that matters.
        have hothers : ∀ other type, (other = owner ∨ some other = superName) →
            analysis.constructs? body position ≠ some (other, type) := by
          intro other type hother hconstructs
          obtain ⟨called, hcalled, -, rfl⟩ := exists_callee_of_constructs? hconstructs
          rw [here] at hcalled
          cases hcalled
          exact hmatters hother
        have hfalse : (analysis.constructs? body position).any (fun (name, type) =>
            type = .uninitThis ∧ (name = owner ∨ some name = superName)) = false := by
          rw [Option.any_eq_false]
          rintro ⟨other, type⟩ hconstructs
          exact decide_eq_false fun hdelegates => hothers other type hdelegates.2 hconstructs
        rw [hfalse, if_neg Bool.false_ne_true, if_neg hmatters]
        have hcounted' : ∀ after, (∀ other, other ≠ callee.owner → after.count other = created.count other) →
            ∀ other, other = owner ∨ some other = superName →
              analysis.Counted body after (position + 1) other := by
          intro after hcount other hother
          have hne : other ≠ callee.owner := by
            rintro rfl
            exact hmatters hother
          exact counted_succ_of_other (horder _ hother) (hcounted _ hother) (hcount _ hne) (hplain other)
            fun site => hothers other _ hother
        split
        · exact ih (position + 1) _ hrest (hcounted' _ fun other hne => List.count_erase_of_ne hne)
        · exact ih (position + 1) created hrest (hcounted' _ fun _ _ => rfl)

/-- **The scan for the delegating call agrees with the dataflow** in constructors that create and initialize
objects of their class and of its superclass in order: it singles out a call exactly if that is the only
reached one that initializes the receiver itself. -/
theorem find_eq_unique_iff {method : MethodContext} {hierarchy : Hierarchy} {superName : Option String}
    (h : analyze body method hierarchy [] = .ok analysis)
    (horder : ∀ name, name = method.owner ∨ some name = superName → analysis.InOrder body name) (call : ℕ) :
    find body method.owner superName = unique call ↔
      analysis.delegations body method.owner superName = [call] := by
  rw [find, candidates_eq_delegations h horder]
  split <;> simp_all

/-- The constructor of a class without parameters. -/
def plainConstructor : MethodContext := ⟨"a/A", "<init>", "()V", false⟩

/-- A call of a constructor. -/
def callConstructor (owner descriptor : String) : Instruction :=
  .method Opcode.invokespecial { owner, name := "<init>", descriptor }

/-- A constructor that passes a new object of its superclass to the constructor of the superclass. -/
def passesObject : Body where
  instructions := [.aload 0, .type Opcode.create "a/S", .plain Opcode.dup, callConstructor "a/S" "()V",
    callConstructor "a/S" "(La/S;)V", .plain Opcode.returnVoid]

/-- The constructor of the new object is not taken for the delegating call. -/
theorem find_eq_unique_iff_passesObject :
    find passesObject "a/A" (some "a/S") = unique 4 ∧
      ∃ analysis, analyze passesObject plainConstructor Classpath.empty.hierarchy [] = .ok analysis ∧
        analysis.delegations passesObject "a/A" (some "a/S") = [4] := by
  have hcomputed : (analyze passesObject plainConstructor Classpath.empty.hierarchy []).toOption.map
      (fun analysis => (List.range 6).map (analysis.constructs? passesObject)) =
        some [none, none, none, some ("a/S", .uninit 1), some ("a/S", .uninitThis), none] := by
    cbv
  obtain ⟨analysis, hanalysis⟩ : ∃ analysis,
      analyze passesObject plainConstructor Classpath.empty.hierarchy [] = .ok analysis := ⟨_, by cbv⟩
  have htable : analysis.constructs? passesObject 0 = none ∧ analysis.constructs? passesObject 1 = none ∧
      analysis.constructs? passesObject 2 = none ∧
      analysis.constructs? passesObject 3 = some ("a/S", .uninit 1) ∧
      analysis.constructs? passesObject 4 = some ("a/S", .uninitThis) ∧
      analysis.constructs? passesObject 5 = none := by
    simpa [hanalysis, Except.toOption, List.range_succ] using hcomputed
  have hcalls : ∀ {position pair}, analysis.constructs? passesObject position = some pair →
      position = 3 ∧ pair = ("a/S", .uninit 1) ∨ position = 4 ∧ pair = ("a/S", .uninitThis) := by
    rintro position ⟨name, type⟩ hconstructs
    obtain ⟨callee, here, -⟩ := exists_callee_of_constructs? hconstructs
    have hlt : position < 6 := (List.getElem?_eq_some_iff.mp here).1
    interval_cases position <;> simp_all
  have hplaces : ∀ {position instruction}, passesObject.instructions[position]? = some instruction →
      (∃ name, instruction = .type Opcode.create name) ∨ (∃ callee, instruction.constructor? = some callee) →
        position = 1 ∧ instruction = .type Opcode.create "a/S" ∨ position = 3 ∨ position = 4 := by
    intro position instruction here hkind
    have hlt : position < 6 := (List.getElem?_eq_some_iff.mp here).1
    interval_cases position <;> cases here <;> simp_all [Instruction.constructor?, Instruction.aload]
  have horder : ∀ name, analysis.InOrder passesObject name := by
    refine fun name => ⟨fun {position callee} here hname _ => ?_, fun hconstructs => ?_, fun {site} here => ?_,
      fun hcall hdelegating _ => ?_⟩
    · have hcallee := Instruction.constructor?_eq_some.mpr
        ⟨(rfl : Instruction.method Opcode.invokespecial callee = _), hname⟩
      rcases hplaces here (Or.inr ⟨callee, hcallee⟩) with ⟨rfl, heq⟩ | rfl | rfl
      · cases heq
      · exact reaches_of_constructs? htable.2.2.2.1
      · exact reaches_of_constructs? htable.2.2.2.2.1
    · rcases hcalls hconstructs with ⟨rfl, heq⟩ | ⟨rfl, heq⟩ <;> cases heq
      exact ⟨by decide, rfl⟩
    · rcases hplaces here (Or.inl ⟨name, rfl⟩) with ⟨rfl, heq⟩ | rfl | rfl
      · cases heq
        refine ⟨3, htable.2.2.2.1, fun call hcall => ?_⟩
        rcases hcalls hcall with ⟨rfl, -⟩ | ⟨rfl, heq⟩
        · rfl
        · cases heq
      all_goals cases here
    · rcases hcalls hcall with ⟨rfl, heq⟩ | ⟨rfl, heq⟩ <;> cases heq
      rcases hcalls hdelegating with ⟨rfl, heq⟩ | ⟨rfl, heq⟩
      · cases heq
      · decide
  have hdelegations : analysis.delegations passesObject "a/A" (some "a/S") = [4] := by
    have hlength : passesObject.instructions.length = 6 := rfl
    simp [delegations, hlength, List.range_succ, htable]
  exact ⟨(find_eq_unique_iff hanalysis (fun name _ => horder name) 4).mpr hdelegations, analysis, hanalysis,
    hdelegations⟩

/-- Constructors in which objects are not created and initialized in order. -/
def strayConstructors : List (List Instruction) :=
  -- The second call is never reached.
  [[.aload 0, callConstructor "a/S" "()V", .plain Opcode.returnVoid, .aload 0, callConstructor "a/S" "()V",
      .plain Opcode.returnVoid],
    -- A created object is never initialized.
    [.type Opcode.create "a/S", .aload 0, callConstructor "a/S" "()V", .plain Opcode.returnVoid],
    -- A created object waits for its constructor during the delegating call.
    [.type Opcode.create "a/S", .aload 0, callConstructor "a/S" "()V", callConstructor "a/S" "()V",
      .plain Opcode.returnVoid],
    -- An object is initialized in one of two branches.
    [.type Opcode.create "a/S", .plain Opcode.iconst0, .jump Opcode.ifeq ⟨0⟩, callConstructor "a/S" "()V",
      .jump Opcode.goto ⟨1⟩, .label ⟨0⟩, callConstructor "a/S" "()V", .label ⟨1⟩, .aload 0,
      callConstructor "a/S" "()V", .plain Opcode.returnVoid],
    -- An object is created behind the call that initializes it.
    [.jump Opcode.goto ⟨1⟩, .label ⟨0⟩, callConstructor "a/S" "()V", .aload 0, callConstructor "a/S" "()V",
      .plain Opcode.returnVoid, .label ⟨1⟩, .type Opcode.create "a/S", .jump Opcode.goto ⟨0⟩],
    -- An object of another class is initialized.
    [.type Opcode.create "a/T", callConstructor "a/S" "()V", .aload 0, callConstructor "a/S" "()V",
      .plain Opcode.returnVoid]]

/-- In other constructors the dataflow has one delegating call, and the scan finds none, another one, or
several. -/
theorem not_find_eq_unique_iff :
    strayConstructors.map (fun instructions =>
      ((analyze { instructions } plainConstructor Classpath.empty.hierarchy []).toOption.map
          fun analysis => analysis.delegations { instructions } "a/A" (some "a/S"),
        find { instructions } "a/A" (some "a/S"))) =
      [(some [1], ambiguous), (some [2], missing), (some [2], unique 3), (some [9], ambiguous),
        (some [4], ambiguous), (some [3], ambiguous)] := by
  cbv

end DelegatingCall

end ClassInstrument
