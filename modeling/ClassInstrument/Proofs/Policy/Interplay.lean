import ClassInstrument.Proofs.Policy.Headers

/-!
# What a policy sees after another one

A policy knows a method by its name and descriptor, and two policies change names.  So what a policy does
to a method may depend on which ones came before.

Checking threads looks up what is asked of a method by its name.  A callback that shielding has moved is
looked up under its new name, so what its own annotations ask for is lost, and so is what it inherits
(`ThreadCheck.requirement_of_shielded`).

Logging tells the name of the method with the annotation, and a hash made of it.  The annotation of a timed
method goes with the body, so the name that is told is the one made up for the body
(`CallLogger.identity_of_timed`).
-/

namespace ClassInstrument

open Outcome

/-! ## Checking threads after shielding -/

/-- Does shielding give a method another name? -/
def CrashShield.renames (shield : CrashShield) (catalog : Catalog) (decl : ClassDecl) (method : Method) :
    Bool :=
  !(Policy.crashShield shield).skips decl.name && shield.moves catalog decl method

/-- The signature of a method that has moved. -/
def CrashShield.movedSignature (method : Method) : Signature :=
  { Signature.ofMethod method with name := movedName method.name }

/-- Shielding leaves a method at its position, under another name if it moves. -/
theorem CrashShield.exists_treated_of_apply {shield : CrashShield} {catalog : Catalog}
    {decl after : ClassDecl} {position : ℕ} {method : Method}
    (h : (Policy.crashShield shield).apply catalog decl = .ok after)
    (hmethod : decl.methods[position]? = some method) :
    after.name = decl.name ∧ ∃ treated, after.methods[position]? = some treated ∧
      Signature.ofMethod treated =
        if shield.renames catalog decl method then movedSignature method else Signature.ofMethod method := by
  unfold Policy.apply at h
  split at h
  · next hskipped =>
    obtain rfl := Except.ok.inj h
    refine ⟨rfl, method, hmethod, ?_⟩
    rw [renames, hskipped]
    rfl
  · next hkept =>
    obtain ⟨hafter, -, hmethods⟩ := shield.apply_eq_ok h
    obtain ⟨treated, htreated, hbody⟩ := getElem?_of_forall₂ hmethods hmethod
    refine ⟨by rw [hafter]; rfl, treated, htreated, ?_⟩
    rw [hbody.ofMethod_eq, renames, Bool.eq_false_iff.mpr hkept]
    unfold nameAfter
    cases shield.moves catalog decl method <;> rfl

namespace ThreadCheck

/-- What is asked of a method of a class: what its own annotations ask for, or else what those of the class
do.  Annotations that contradict each other are a failure. -/
def requirement (policy : ThreadCheck) (catalog : Catalog) (owner : String) (signature : Signature) :
    Except PolicyFault (Option ThreadRequirement) := do
  let ofClass ← policy.classRequirement catalog owner
  let ofMethod ← policy.methodRequirement catalog owner signature
  return ofMethod.or ofClass

/-- A method with the guard that a requirement asks for. -/
def guarded (policy : ThreadCheck) (decl : ClassDecl) (requirement : Option ThreadRequirement)
    (method : Method) : Except PolicyFault Method :=
  match policy.handler, requirement with
  | some handler, some requirement => guardMethod decl handler requirement method
  | _, _ => return method

variable {policy : ThreadCheck} {catalog : Catalog} {decl after : ClassDecl} {position : ℕ} {method : Method}

/-- Each method gets the guard for what is asked of it. -/
theorem guarded_of_apply (h : policy.apply catalog decl = .ok after)
    (hmethod : decl.methods[position]? = some method) :
    ∃ requirement treated,
      policy.requirement catalog decl.name (.ofMethod method) = .ok requirement ∧
        policy.guarded decl requirement (method.withMarks (policy.strip method.marks)) = .ok treated ∧
          after.methods[position]? = some treated := by
  obtain ⟨-, ofClass, hclass, hmethods⟩ := policy.apply_eq_ok h
  obtain ⟨treated, htreated, happly⟩ := getElem?_of_forall₂ hmethods hmethod
  obtain ⟨ofMethod, hown, hguard⟩ := bind_eq_ok.mp happly
  exact ⟨ofMethod.or ofClass, treated, bind_eq_ok.mpr ⟨ofClass, hclass, bind_eq_ok.mpr ⟨ofMethod, hown, rfl⟩⟩,
    hguard, htreated⟩

/-- If nothing in the hierarchy is in a slot, the class decides. -/
theorem requirement_of_undeclared {owner : String} {signature : Signature}
    (h : catalog.methodClosure owner signature = []) :
    policy.requirement catalog owner signature = policy.classRequirement catalog owner := by
  have hnothing : ∀ marker, catalog.annotatedMethodClosure owner signature marker = [] := by
    intro marker
    rw [Catalog.annotatedMethodClosure, h]
    rfl
  have hfindings : policy.findings (catalog.annotatedMethodClosure owner signature) = ⟨[], [], []⟩ := by
    unfold findings
    cases policy.ui <;> cases policy.worker <;> cases policy.any <;> simp [hnothing]
  have hown : policy.methodRequirement catalog owner signature = .ok none := by
    unfold methodRequirement
    rw [hfindings]
    rfl
  unfold requirement
  rw [hown]
  cases policy.classRequirement catalog owner <;> rfl

/-- What a class asks for is what is asked of a method exactly if its own annotations ask for nothing else. -/
theorem requirement_eq_classRequirement_iff {owner : String} {signature : Signature} :
    policy.requirement catalog owner signature = policy.classRequirement catalog owner ↔
      ∀ ofClass, policy.classRequirement catalog owner = .ok ofClass →
        policy.methodRequirement catalog owner signature = .ok none ∨
          policy.methodRequirement catalog owner signature = .ok ofClass := by
  unfold requirement
  cases policy.classRequirement catalog owner with
  | error fault => simp [bind, Except.bind]
  | ok ofClass =>
    cases policy.methodRequirement catalog owner signature with
    | error fault => simp [bind, Except.bind]
    | ok ofMethod => cases ofMethod <;> simp [bind, Except.bind, pure, Except.pure]

/-- What is asked of a method that is checked after shielding.  It is what was asked before, unless the
method has moved.  Of a moved method it is what is asked under its new name; if nothing in the hierarchy has
that name, this is what the class asks for, and the same as before only if the method asked for nothing
else. -/
theorem requirement_of_shielded {shield : CrashShield}
    (h : (Policy.crashShield shield).apply catalog decl = .ok after)
    (hmethod : decl.methods[position]? = some method) :
    ∃ treated, after.methods[position]? = some treated ∧
      (∀ checked, policy.apply catalog after = .ok checked → ∃ requirement result,
        policy.requirement catalog after.name (.ofMethod treated) = .ok requirement ∧
          policy.guarded after requirement (treated.withMarks (policy.strip treated.marks)) = .ok result ∧
            checked.methods[position]? = some result) ∧
      (shield.renames catalog decl method = false →
        policy.requirement catalog after.name (.ofMethod treated) =
          policy.requirement catalog decl.name (.ofMethod method)) ∧
      (shield.renames catalog decl method = true →
        policy.requirement catalog after.name (.ofMethod treated) =
          policy.requirement catalog decl.name (CrashShield.movedSignature method) ∧
        (catalog.methodClosure decl.name (CrashShield.movedSignature method) = [] →
          policy.requirement catalog after.name (.ofMethod treated) =
              policy.classRequirement catalog decl.name ∧
            (policy.requirement catalog after.name (.ofMethod treated) =
                policy.requirement catalog decl.name (.ofMethod method) ↔
              ∀ ofClass, policy.classRequirement catalog decl.name = .ok ofClass →
                policy.methodRequirement catalog decl.name (.ofMethod method) = .ok none ∨
                  policy.methodRequirement catalog decl.name (.ofMethod method) = .ok ofClass))) := by
  obtain ⟨hname, treated, htreated, hsignature⟩ := CrashShield.exists_treated_of_apply h hmethod
  refine ⟨treated, htreated, fun checked hchecked => ?_, fun hstays => ?_, fun hmoves => ?_⟩
  · obtain ⟨requirement, result, hrequirement, hresult, hat⟩ := guarded_of_apply hchecked htreated
    exact ⟨requirement, result, hrequirement, hresult, hat⟩
  · rw [hname, hsignature, if_neg (Bool.eq_false_iff.mp hstays)]
  · rw [hname, hsignature, if_pos hmoves]
    refine ⟨rfl, fun hundeclared => ?_⟩
    have hclass : policy.requirement catalog decl.name (CrashShield.movedSignature method) =
        policy.classRequirement catalog decl.name := requirement_of_undeclared hundeclared
    rw [hclass]
    exact ⟨rfl, eq_comm.trans requirement_eq_classRequirement_iff⟩

/-- A view with a callback that is to be called on worker threads. -/
def workingView : ClassDecl where
  version := ⟨52, 0⟩
  access := ⟨0x0021⟩
  name := "a/V"
  superName := some CrashShield.view
  methods :=
    [{ access := ⟨1⟩, name := "onFinishInflate", descriptor := "()V"
       invisible := [⟨"LWorker;", []⟩]
       body := .edited { instructions := [.plain Opcode.returnVoid] } }]

/-- Shielding of views. -/
def viewShield : CrashShield := { handler := some "h/H", views := true, safeClasses := [] }

/-- Checking threads, with an annotation for worker threads. -/
def workerCheck : ThreadCheck := { handler := some "h/H", worker := some "Worker" }

/-- A callback that asks for a worker thread asks for nothing after shielding. -/
theorem not_requirement_of_workingView : ∃ after treated,
    (Policy.crashShield viewShield).apply (.ofList [workingView]) workingView = .ok after ∧
      after.methods[0]? = some treated ∧
      workerCheck.requirement (.ofList [workingView]) "a/V" ⟨"onFinishInflate", "()V", ⟨1⟩⟩ =
        .ok (some .worker) ∧
      workerCheck.requirement (.ofList [workingView]) after.name (.ofMethod treated) = .ok none := by
  have hok : ((Policy.crashShield viewShield).apply (.ofList [workingView]) workingView).toOption.isSome := by
    decide +kernel
  obtain ⟨after, hafter⟩ := Option.isSome_iff_exists.mp hok
  have hafter := toOption_eq_some.mp hafter
  obtain ⟨treated, htreated, -, -, hmoved⟩ :=
    @requirement_of_shielded workerCheck _ _ _ 0 _ viewShield hafter rfl
  obtain ⟨-, hlost⟩ := hmoved (by decide +kernel)
  have hundeclared : Catalog.methodClosure (.ofList [workingView]) "a/V"
      ⟨"safe_onFinishInflate", "()V", ⟨1⟩⟩ = [] := by decide +kernel
  have hclass : workerCheck.classRequirement (.ofList [workingView]) "a/V" = .ok none := by
    decide +kernel
  exact ⟨after, treated, hafter, htreated, by decide +kernel, (hlost hundeclared).1.trans hclass⟩

end ThreadCheck

/-! ## Logging calls after timing -/

namespace CallLogger

/-- The name and the hash that instructions tell a logger first of all. -/
def identity? (logger : String) : List Instruction → Option (String × String)
  | .load (.string name) :: _ :: .load (.string hash) :: call :: _ =>
    if call = logCall.call logger then some (name, hash) else none
  | _ => none

/-- The name and the hash that a method of a class tells a logger. -/
def reported? (logger : String) (decl : ClassDecl) (position : ℕ) : Option (String × String) :=
  decl.methods[position]?.bind fun method =>
    match method.body.decode decl.pool with
    | .ok (some body) => identity? logger body.instructions
    | _ => none

/-- The name and the hash of a method of that name. -/
def identity (owner name descriptor : String) : String × String :=
  (name, methodHash owner name descriptor)

variable {policy : CallLogger} {catalog : Catalog} {decl after : ClassDecl} {position : ℕ} {method : Method}

/-- An annotation is found where there is one. -/
theorem exists_mark_of_carries {marks : Marks} {marker : String} (h : marks.carries marker) :
    ∃ mark, (marks.stripFirst marker).1 = some mark := by
  have hlist : ∀ annotations : List Annotation,
      (annotations.any fun mark => mark.descriptor == marker) →
        ∃ mark, ( Annotation.removeFirst marker annotations).1 = some mark := by
    intro annotations
    induction annotations with
    | nil => exact fun h => by cases h
    | cons mark rest ih =>
      intro h
      unfold Annotation.removeFirst
      split
      · exact ⟨mark, rfl⟩
      · next hmark =>
        rw [List.any_cons, beq_eq_false_iff_ne.mpr hmark, Bool.false_or] at h
        exact ih h
  simp only [Marks.carries, List.any_append, Bool.or_eq_true] at h
  simp only [Marks.stripFirst]
  rcases h with h | h
  · obtain ⟨mark, hmark⟩ := hlist _ h
    exact ⟨mark, by rw [hmark]; rfl⟩
  · obtain ⟨mark, hmark⟩ := hlist _ h
    rw [hmark]
    cases ( Annotation.removeFirst marker marks.visible).1 with
    | none => exact ⟨mark, rfl⟩
    | some first => exact ⟨first, rfl⟩

/-- A body that is there is found. -/
theorem exists_body_of_hasCode {found : Option Body} (hcode : method.hasCode)
    (h : decl.decodeBody method = .ok found) : ∃ body, found = some body := by
  unfold ClassDecl.decodeBody MethodBody.decode at h
  unfold Method.hasCode at hcode
  cases hbody : method.body with
  | absent =>
    rw [hbody] at hcode
    cases hcode
  | raw attr =>
    rw [hbody] at h
    obtain ⟨code, -, h⟩ := bind_eq_ok.mp h
    obtain ⟨body, -, h⟩ := bind_eq_ok.mp h
    exact ⟨body, (pure_eq_ok.mp h).symm⟩
  | edited body =>
    rw [hbody] at h
    exact ⟨body, (pure_eq_ok.mp h).symm⟩

theorem identity?_logEntry (logger owner : String) (method : Method) (mark : Annotation)
    (rest : List Instruction) :
    identity? logger (logEntry logger owner method mark ++ rest) =
      some (identity owner method.name method.descriptor) := by
  unfold logEntry
  exact if_pos rfl

/-- A method with the annotation tells its name and its hash. -/
theorem reported?_of_apply {logger : String} (hlogger : policy.logger = some logger)
    (h : policy.apply decl = .ok after) (hmethod : decl.methods[position]? = some method)
    (hcode : method.hasCode) (hmark : method.marks.carries policy.marker) :
    reported? logger after position = some (identity decl.name method.name method.descriptor) := by
  obtain ⟨hafter, hmethods⟩ := policy.apply_eq_ok h
  obtain ⟨treated, htreated, happly⟩ := getElem?_of_forall₂ hmethods hmethod
  obtain ⟨mark, hfound⟩ := exists_mark_of_carries hmark
  unfold applyToMethod at happly
  dsimp only at happly
  rw [hfound, hlogger] at happly
  obtain ⟨found, hbody, happly⟩ := bind_eq_ok.mp happly
  obtain ⟨body, rfl⟩ := exists_body_of_hasCode hcode hbody
  obtain rfl := pure_eq_ok.mp happly
  rw [reported?, htreated, Option.bind_some]
  have hfront : ∀ entry : List Instruction,
      (body.insertAt 0 entry).instructions = entry ++ body.instructions := fun entry => by
    simp [Body.insertAt]
  change identity? logger (body.insertAt 0 _).instructions = _
  rw [hfront, identity?_logEntry]
  rfl

/-- Timing leaves the annotation and the body in one place, under the name that the body has then. -/
theorem exists_marked_of_timed {timing : Benchmark} (hkept : Policy.isPackageInfo decl.name = false)
    (hmarkers : timing.marker ≠ policy.marker) (h : (Policy.benchmark timing).apply catalog decl = .ok after)
    (hmethod : decl.methods[position]? = some method) (hcode : method.hasCode)
    (hmark : method.marks.carries policy.marker) :
    after.name = decl.name ∧ ∃ treated, after.methods[position]? = some treated ∧
      treated.name = timing.nameAfter catalog decl method ∧ treated.descriptor = method.descriptor ∧
        treated.hasCode ∧ treated.marks.carries policy.marker := by
  have hskips : (Policy.benchmark timing).skips decl.name = false := by
    simp [Policy.skips, hkept, Policy.ignoredPackages]
  rw [Policy.apply, hskips] at h
  have hcarries : (method.marks.stripAll timing.marker).2.carries policy.marker := by
    have hkeeps : ∀ annotations : List Annotation, ∀ mark ∈ annotations,
        mark.descriptor == policy.marker → mark ∈ Marks.without timing.marker annotations := by
      intro annotations mark hmem hdescriptor
      refine List.mem_filter.mpr ⟨hmem, ?_⟩
      rw [eq_of_beq hdescriptor]
      exact bne_iff_ne.mpr hmarkers.symm
    simp only [Marks.carries, Marks.stripAll, List.any_append, Bool.or_eq_true, List.any_eq_true] at hmark ⊢
    refine hmark.imp ?_ ?_ <;>
      exact fun ⟨mark, hmem, hdescriptor⟩ => ⟨mark, hkeeps _ mark hmem hdescriptor, hdescriptor⟩
  obtain ⟨treated, forwarder, htreated, happly⟩ := Benchmark.exists_treated_of_apply h hmethod
  obtain ⟨_, hafter, -⟩ := timing.apply_eq_ok h
  refine ⟨by rw [hafter], treated, htreated, ?_⟩
  rcases timing.applyToMethod_eq_ok happly with ⟨htimes, rfl, -⟩ | ⟨htimes, hbody, hmoved, -⟩
  · rw [Benchmark.nameAfter, htimes]
    exact ⟨rfl, rfl, hcode, hcarries⟩
  · rw [Benchmark.nameAfter, htimes, hbody.name_eq, hbody.descriptor_eq, hbody.marks_eq]
    exact ⟨rfl, rfl, hmoved, hcarries⟩

/-- What a method with the annotation tells a logger.  Without timing it tells its name and its hash.  After
timing it tells those of the method that its body has moved to.  So the logger is told the same exactly if
the method is not timed. -/
theorem identity_of_timed {timing : Benchmark} {logger : String} {together alone : ClassDecl}
    (hlogger : policy.logger = some logger) (hkept : (Policy.callLogger policy).skips decl.name = false)
    (hmarkers : timing.marker ≠ policy.marker)
    (htogether : Policy.applyAll [.benchmark timing, .callLogger policy] catalog decl = .ok together)
    (halone : Policy.applyAll [.callLogger policy] catalog decl = .ok alone)
    (hmethod : decl.methods[position]? = some method) (hcode : method.hasCode)
    (hmark : method.marks.carries policy.marker) :
    reported? logger alone position = some (identity decl.name method.name method.descriptor) ∧
      reported? logger together position =
        some (identity decl.name (timing.nameAfter catalog decl method) method.descriptor) ∧
      (reported? logger together position = reported? logger alone position ↔
        timing.times catalog decl method = false) := by
  have hlogs : ∀ {before result : ClassDecl}, before.name = decl.name →
      Policy.applyAll [.callLogger policy] catalog before = .ok result →
        policy.apply before = .ok result := by
    intro before result hname h
    obtain ⟨next, hnext, h⟩ := bind_eq_ok.mp h
    obtain rfl := pure_eq_ok.mp h
    have hnext : (Policy.callLogger policy).apply catalog before = .ok next := hnext
    rwa [Policy.apply, hname, hkept] at hnext
  have halone : reported? logger alone position =
      some (identity decl.name method.name method.descriptor) :=
    reported?_of_apply hlogger (hlogs rfl halone) hmethod hcode hmark
  have htogether : reported? logger together position =
      some (identity decl.name (timing.nameAfter catalog decl method) method.descriptor) := by
    obtain ⟨timed, htimed, h⟩ := bind_eq_ok.mp htogether
    obtain ⟨hname, treated, htreated, htreatedName, hdescriptor, htreatedCode, htreatedMark⟩ :=
      exists_marked_of_timed (Bool.or_eq_false_iff.mp hkept).1 hmarkers htimed hmethod hcode hmark
    rw [reported?_of_apply hlogger (hlogs hname h) htreated htreatedCode htreatedMark, hname,
      htreatedName, hdescriptor]
  refine ⟨halone, htogether, ?_⟩
  rw [halone, htogether, Option.some_inj, Benchmark.nameAfter]
  cases timing.times catalog decl method with
  | false => simp
  | true =>
    refine iff_of_false (fun heq => ?_) (by simp)
    exact Benchmark.movedName_ne method.name (congrArg Prod.fst heq)

/-- A class with a method that is to be timed and logged. -/
def timedAndLogged : ClassDecl where
  version := ⟨52, 0⟩
  access := ⟨0x0021⟩
  name := "a/A"
  superName := some Name.object
  methods :=
    [{ access := ⟨1⟩, name := "f", descriptor := "()V"
       invisible := [⟨"LTimed;", [(Benchmark.warnAtMillis, .int .int 10)]⟩, ⟨"LLogged;", []⟩]
       body := .edited { instructions := [.plain Opcode.returnVoid] } }]

/-- The method tells that it is `f`, and after timing that it is `__benchmark_f`. -/
theorem not_identity_of_timedAndLogged : ∃ together alone,
    Policy.applyAll
        [.benchmark { marker := "LTimed;", receiver := some "r/R" },
          .callLogger { marker := "LLogged;", logger := some "r/R" }]
        (.ofList [Benchmark.timedInterface, timedAndLogged]) timedAndLogged = .ok together ∧
      Policy.applyAll [.callLogger { marker := "LLogged;", logger := some "r/R" }]
        (.ofList [Benchmark.timedInterface, timedAndLogged]) timedAndLogged = .ok alone ∧
      reported? "r/R" alone 0 = some (identity "a/A" "f" "()V") ∧
      reported? "r/R" together 0 = some (identity "a/A" "__benchmark_f" "()V") ∧
      reported? "r/R" together 0 ≠ reported? "r/R" alone 0 := by
  have htogether : (Policy.applyAll
      [.benchmark { marker := "LTimed;", receiver := some "r/R" },
        .callLogger { marker := "LLogged;", logger := some "r/R" }]
      (.ofList [Benchmark.timedInterface, timedAndLogged]) timedAndLogged).toOption.isSome := by
    decide +kernel
  have halone : (Policy.applyAll [.callLogger { marker := "LLogged;", logger := some "r/R" }]
      (.ofList [Benchmark.timedInterface, timedAndLogged]) timedAndLogged).toOption.isSome := by
    decide +kernel
  obtain ⟨together, htogether⟩ := Option.isSome_iff_exists.mp htogether
  obtain ⟨alone, halone⟩ := Option.isSome_iff_exists.mp halone
  have htogether := toOption_eq_some.mp htogether
  have halone := toOption_eq_some.mp halone
  obtain ⟨hfirst, hsecond, hiff⟩ :=
    @identity_of_timed _ _ _ 0 _ _ _ _ _ rfl (by decide +kernel) (by decide) htogether halone rfl rfl
      (by decide)
  have hname : Benchmark.nameAfter { marker := "LTimed;", receiver := some "r/R" }
      (.ofList [Benchmark.timedInterface, timedAndLogged]) timedAndLogged
        { access := ⟨1⟩, name := "f", descriptor := "()V"
          invisible := [⟨"LTimed;", [(Benchmark.warnAtMillis, .int .int 10)]⟩, ⟨"LLogged;", []⟩]
          body := .edited { instructions := [.plain Opcode.returnVoid] } } = "__benchmark_f" := by
    decide +kernel
  rw [hname] at hsecond
  refine ⟨together, alone, htogether, halone, hfirst, hsecond, fun hsame => ?_⟩
  exact absurd (hiff.mp hsame) (by decide +kernel)

end CallLogger

end ClassInstrument
