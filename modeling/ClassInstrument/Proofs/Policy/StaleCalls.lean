import ClassInstrument.Proofs.Analysis.Ways
import ClassInstrument.Proofs.Code.Giving
import ClassInstrument.Proofs.Policy.Coverage
import ClassInstrument.Proofs.Policy.MethodKeys

/-!
# Calls that still name the old superclass

When a class gets a safe superclass, its methods are treated one by one: a constructor is led to the new
superclass at the call that the scan for its delegating call singles out, a method of a view has its calls of
callbacks rerouted, and a static initializer stays as it is.  `CrashShield.leavesCalls_of_apply` says exactly
which calls of the old superclass are left: in a constructor those that run on the receiver and are not
singled out, and in a view the calls of callbacks in constructors and static initializers.

Whether a call runs on the receiver depends on the ways to it.  A protected constructor has a label within its
instructions and a handler behind them.  These change neither the ways nor the calls on them
(`CrashShield.shadows_protect`, `CrashShield.shadows_of_protect`), and leading a call elsewhere changes no way
at all (`CrashShield.shadows_ledTo`).
-/

namespace ClassInstrument

open Outcome

namespace CrashShield

/-! ## Ways through a protected body -/

/-- Moves everything between two positions on by one, and the second position to the first one. -/
def makeRoom (start stop : ℕ) (h : start ≤ stop) : Equiv.Perm ℕ where
  toFun place := if place < start ∨ stop < place then place else if place = stop then start else place + 1
  invFun place := if place < start ∨ stop < place then place else if place = start then stop else place - 1
  left_inv place := by
    dsimp only
    split_ifs <;> omega
  right_inv place := by
    dsimp only
    split_ifs <;> omega

/-- What is in front of the end moves behind an entry that is put in. -/
theorem makeRoom_of_lt {start stop place : ℕ} (h : start ≤ stop) (hlt : place < stop) :
    makeRoom start stop h place = shiftBehind start 1 place := by
  change (if place < start ∨ stop < place then place else if place = stop then start else place + 1) = _
  unfold shiftBehind
  split_ifs <;> omega

/-- What has moved moves back. -/
theorem symm_makeRoom {start stop place : ℕ} (h : start ≤ stop) (hlt : place < stop) :
    (makeRoom start stop h).symm (shiftBehind start 1 place) = place := by
  rw [← makeRoom_of_lt h hlt, Equiv.symm_apply_apply]

/-- What is in front of the end is in front of it once there is one entry more. -/
theorem shiftBehind_lt_succ {start stop place : ℕ} (hlt : place < stop) :
    shiftBehind start 1 place < stop + 1 := by
  unfold shiftBehind
  split <;> omega

section

variable {body : Body} {start : ℕ} {owner descriptor handler : String} {isStatic : Bool}
  {method : MethodContext} {place position : ℕ}

/-- A catcher leads nowhere, creates no objects, and makes no special calls. -/
theorem plain_of_mem_catcher {label : Label} {instruction : Instruction}
    (hmem : instruction ∈ catcher label owner descriptor isStatic handler) :
    instruction.targets = [] ∧ (∀ name, instruction ≠ .type Opcode.create name) ∧
      ∀ callee, instruction ≠ .method Opcode.invokespecial callee := by
  simp only [catcher, List.cons_append, List.nil_append, List.mem_cons] at hmem
  rcases hmem with rfl | rfl | rfl | hmem
  · simp [Instruction.targets]
  · cases isStatic <;>
      simp [Editing.loadReceiver, Instruction.pushClass, Instruction.aload, Instruction.targets]
  · have hopcode : Opcode.invokestatic ≠ Opcode.invokespecial := by decide
    simp [Callback.call, Instruction.invokeStatic, Instruction.targets, hopcode]
  · obtain ⟨opcode, -, rfl⟩ := List.mem_map.mp hmem
    simp [Instruction.targets]

section

variable (hstart : start ≤ body.instructions.length)
include hstart

/-- What was there stands where it has moved. -/
theorem getElem?_protect_shift (hplace : place < body.instructions.length) :
    (protect body start owner descriptor isStatic handler).instructions[shiftBehind start 1 place]? =
      body.instructions[place]? :=
  (getElem?_protect hstart (shiftBehind_lt_succ hplace)).trans (getElem?_opened hstart place)

/-- Instructions stand where they have moved. -/
theorem hasReal_protect_iff (hplace : place < body.instructions.length) :
    (protect body start owner descriptor isStatic handler).HasReal (shiftBehind start 1 place) ↔
      body.HasReal place := by
  rw [Body.HasReal, getElem?_protect_shift hstart hplace]
  rfl

/-- The instructions in front of the catcher were there. -/
theorem exists_of_hasReal_protect
    (hreal : (protect body start owner descriptor isStatic handler).HasReal position)
    (hfront : position < body.instructions.length + 1) :
    ∃ place < body.instructions.length, position = shiftBehind start 1 place := by
  obtain ⟨instruction, here, real⟩ := hreal
  rw [getElem?_protect hstart hfront] at here
  rcases exists_shift_or_start hstart here with ⟨place, hplace, rfl, -⟩ | ⟨-, unreal⟩
  · exact ⟨place, hplace, rfl⟩
  · simp [unreal] at real

/-- The instructions behind what was there belong to the catcher. -/
theorem mem_catcher_of_protect {instruction : Instruction} (hbehind : body.instructions.length + 1 ≤ position)
    (here : (protect body start owner descriptor isStatic handler).instructions[position]? =
      some instruction) :
    instruction ∈ catcher ⟨body.nextLabel + 1⟩ owner descriptor isStatic handler := by
  obtain ⟨index, rfl⟩ := Nat.exists_eq_add_of_le hbehind
  have hlt := (List.getElem?_eq_some_iff.mp here).1
  rw [length_protect hstart] at hlt
  rw [getElem?_protect_catcher hstart (by omega)] at here
  exact List.mem_of_getElem? here

/-- An instruction that was the first one behind a position is so where it has moved, and no other one is. -/
theorem heads_protect_iff {first first' : ℕ}
    (hfirst : ∀ place, first' ≤ shiftBehind start 1 place ↔ first ≤ place)
    (hplace : place < body.instructions.length) :
    (protect body start owner descriptor isStatic handler).Heads first' (shiftBehind start 1 place) ↔
      body.Heads first place := by
  constructor
  · rintro ⟨hle, hreal, hnone⟩
    refine ⟨(hfirst place).mp hle, (hasReal_protect_iff hstart hplace).mp hreal, ?_⟩
    intro between hfrom hto hother
    exact hnone _ ((hfirst between).mpr hfrom) (shiftBehind_lt_iff.mpr hto)
      ((hasReal_protect_iff hstart (hto.trans hplace)).mpr hother)
  · rintro ⟨hle, hreal, hnone⟩
    refine ⟨(hfirst place).mpr hle, (hasReal_protect_iff hstart hplace).mpr hreal, ?_⟩
    intro between hfrom hto hother
    obtain ⟨middle, hmiddle, rfl⟩ :=
      exists_of_hasReal_protect hstart hother (hto.trans (shiftBehind_lt_succ hplace))
    exact hnone middle ((hfirst middle).mp hfrom) (shiftBehind_lt_iff.mp hto)
      ((hasReal_protect_iff hstart hmiddle).mp hother)

end

section

variable (howns : body.OwnsLabels) (hstart : start ≤ body.instructions.length)
include howns hstart

/-- A label of the body denotes an instruction of the body where it has moved, if it denoted that one. -/
theorem denotes_protect_iff {label : Label} (hlabel : label ∈ body.labels)
    (hplace : place < body.instructions.length) :
    (protect body start owner descriptor isStatic handler).Denotes label (shiftBehind start 1 place) ↔
      body.Denotes label place := by
  have hshields : Shields body (protect body start owner descriptor isStatic handler) 0 start
      ⟨body.nextLabel + 1⟩ := shields_protect hstart howns
  refine ⟨fun hdenotes => ?_, fun hdenotes => denotes_protect hstart howns hdenotes⟩
  by_cases hsome : ∃ other, body.Denotes label other
  · obtain ⟨other, hother⟩ := hsome
    have hmoved := denotes_protect hstart howns hother |>.unique hdenotes
    exact shiftBehind_injective start 1 hmoved ▸ hother
  · -- A label that denotes no instruction of the body denotes the catcher, or is not placed at all.
    have hnone : ∀ other, ¬ body.Denotes label other := not_exists.mp hsome
    obtain ⟨added, hadded, -, -, hnew⟩ := hshields.fresh
    have hplaced : label ∈ placedLabels body.instructions := by
      obtain ⟨-, found, -, hfound, -⟩ := hdenotes
      have hmem := hadded.mem_iff.mp (mem_placedLabels.mpr (List.mem_of_getElem? hfound.1))
      exact (List.mem_append.mp hmem).resolve_left fun hmem => hnew label hmem hlabel
    have hend := (hshields.ends hplaced hnone).unique hdenotes
    have := @shiftBehind_lt_succ start _ _ hplace
    omega

/-- What was covered by handlers is covered by them where it has moved. -/
theorem mem_catchers_protect_iff {entry : Label} {caught : Option String}
    (hplace : place < body.instructions.length) (hentry : entry ≠ ⟨body.nextLabel + 1⟩) :
    (entry, caught) ∈
        (protect body start owner descriptor isStatic handler).catchers (shiftBehind start 1 place) ↔
      (entry, caught) ∈ body.catchers place := by
  rw [catchers_protect hstart howns (shiftBehind_lt_succ hplace), catchers_opened howns hstart,
    List.mem_append, or_iff_left]
  split <;> simp [hentry]

/-- Control that has come to the catcher stays there. -/
theorem closed_catcher {before frame : FlowFrame} {later : ℕ}
    (hbehind : body.instructions.length + 1 ≤ position)
    (hreal : (protect body start owner descriptor isStatic handler).HasReal position)
    (hcarries :
      (protect body start owner descriptor isStatic handler).Carries method position before later frame) :
    body.instructions.length + 1 ≤ later := by
  have hshields : Shields body (protect body start owner descriptor isStatic handler) 0 start
      ⟨body.nextLabel + 1⟩ := shields_protect hstart howns
  cases hcarries with
  | next here runs falls heads => exact hbehind.trans ((Nat.le_succ _).trans heads.le)
  | jump here runs targeted denotes =>
    simp [(plain_of_mem_catcher (mem_catcher_of_protect hstart hbehind here)).1] at targeted
  | throw here thrown catches denotes =>
    obtain ⟨instruction, here, real⟩ := hreal
    rw [hshields.bare here real fun place hplace heq => ?_] at catches
    · cases catches
    · have := @shiftBehind_lt_succ start _ _ hplace
      rw [shieldedPlace] at heq
      omega

/-- **Protection adds ways.**  Every way through a body is one through the protected body. -/
theorem shadows_protect : body.Shadows (protect body start owner descriptor isStatic handler) method
    (makeRoom start body.instructions.length hstart) (· < body.instructions.length) where
  injective := Equiv.injective _
  kept hinside here _ := by
    rw [makeRoom_of_lt hstart hinside, getElem?_protect_shift hstart hinside]
    exact ⟨_, here, .refl _⟩
  creates here := by
    have hinside := (List.getElem?_eq_some_iff.mp here).1
    rw [makeRoom_of_lt hstart hinside, getElem?_protect_shift hstart hinside, here]
  first hinside heads := by
    rw [makeRoom_of_lt hstart hinside]
    exact (heads_protect_iff hstart (fun _ => by simp) hinside).mpr heads
  next hinside _ hinside' heads := by
    rw [makeRoom_of_lt hstart hinside, makeRoom_of_lt hstart hinside']
    exact (heads_protect_iff hstart (fun _ => shiftBehind_lt_iff) hinside').mpr heads
  targets _ _ _ hinside' denotes := by
    rw [makeRoom_of_lt hstart hinside']
    exact denotes_protect hstart howns denotes
  catches hinside _ catches hinside' denotes := by
    have hentry : _ ≠ (⟨body.nextLabel + 1⟩ : Label) := fun heq =>
      howns.not_mem_of_le (Nat.le_succ _) (heq ▸ Body.mem_labels_of_catcher catches)
    rw [makeRoom_of_lt hstart hinside, makeRoom_of_lt hstart hinside']
    exact ⟨(mem_catchers_protect_iff howns hstart hinside hentry).mpr catches,
      denotes_protect hstart howns denotes⟩
  closed houtside hreal _ := by
    obtain ⟨instruction, here, -⟩ := hreal
    exact absurd (List.getElem?_eq_some_iff.mp here).1 houtside

/-- **Protection adds no other ways.**  Until control comes to the catcher, every way through a protected body
is one through the body. -/
theorem shadows_of_protect : (protect body start owner descriptor isStatic handler).Shadows body method
    (makeRoom start body.instructions.length hstart).symm (· < body.instructions.length + 1) where
  injective := Equiv.injective _
  kept := by
    intro position instruction hinside here real
    obtain ⟨place, hplace, rfl⟩ := exists_of_hasReal_protect hstart ⟨_, here, real⟩ hinside
    rw [getElem?_protect_shift hstart hplace] at here
    rw [symm_makeRoom hstart hplace]
    exact ⟨_, here, .refl _⟩
  creates := by
    intro site name here
    rcases Nat.lt_or_ge site (body.instructions.length + 1) with hfront | hbehind
    · obtain ⟨place, hplace, rfl⟩ := exists_of_hasReal_protect hstart ⟨_, here, rfl⟩ hfront
      rw [symm_makeRoom hstart hplace, ← here, getElem?_protect_shift hstart hplace]
    · exact absurd rfl ((plain_of_mem_catcher (mem_catcher_of_protect hstart hbehind here)).2.1 name)
  first := by
    intro position hinside heads
    obtain ⟨place, hplace, rfl⟩ := exists_of_hasReal_protect hstart heads.real hinside
    rw [symm_makeRoom hstart hplace]
    exact (heads_protect_iff hstart (fun _ => by simp) hplace).mp heads
  next := by
    intro position later hinside hreal hinside' heads
    obtain ⟨place, hplace, rfl⟩ := exists_of_hasReal_protect hstart hreal hinside
    obtain ⟨other, hother, rfl⟩ := exists_of_hasReal_protect hstart heads.real hinside'
    rw [symm_makeRoom hstart hplace, symm_makeRoom hstart hother]
    exact (heads_protect_iff hstart (fun _ => shiftBehind_lt_iff) hother).mp heads
  targets := by
    intro position instruction target later hinside here targeted hinside' denotes
    have real := Instruction.isReal_of_target targeted
    obtain ⟨place, hplace, rfl⟩ := exists_of_hasReal_protect hstart ⟨_, here, real⟩ hinside
    obtain ⟨other, hother, rfl⟩ := exists_of_hasReal_protect hstart denotes.real hinside'
    rw [getElem?_protect_shift hstart hplace] at here
    rw [symm_makeRoom hstart hother]
    exact (denotes_protect_iff howns hstart
      (Body.mem_labels_of_target (List.mem_of_getElem? here) targeted) hother).mp denotes
  catches := by
    intro position entry caught later hinside hreal catches hinside' denotes
    obtain ⟨place, hplace, rfl⟩ := exists_of_hasReal_protect hstart hreal hinside
    obtain ⟨other, hother, rfl⟩ := exists_of_hasReal_protect hstart denotes.real hinside'
    have hentry : entry ≠ ⟨body.nextLabel + 1⟩ := by
      rintro rfl
      have hcatcher := (shields_protect hstart howns).catches.unique denotes
      omega
    rw [mem_catchers_protect_iff howns hstart hplace hentry] at catches
    rw [symm_makeRoom hstart hplace, symm_makeRoom hstart hother]
    exact ⟨catches, (denotes_protect_iff howns hstart (Body.mem_labels_of_catcher catches) hother).mp denotes⟩
  closed houtside hreal hcarries :=
    Nat.not_lt.mpr (closed_catcher howns hstart (Nat.not_lt.mp houtside) hreal hcarries)

/-- Protection keeps the calls on the receiver, and adds none. -/
theorem exists_delegates_protect_iff {target : String} :
    (∃ position, (protect body start owner descriptor isStatic handler).Delegates method target position) ↔
      ∃ position, body.Delegates method target position := by
  constructor
  · rintro ⟨position, hdelegates⟩
    obtain ⟨callee, -, here, -⟩ := id hdelegates
    have hfront : position < body.instructions.length + 1 := by
      by_contra hbehind
      have hmem := mem_catcher_of_protect hstart (Nat.not_lt.mp hbehind) here
      exact (plain_of_mem_catcher hmem).2.2 callee rfl
    obtain ⟨place, hplace, rfl⟩ := exists_of_hasReal_protect hstart ⟨_, here, rfl⟩ hfront
    refine ⟨_, (shadows_of_protect howns hstart).delegates hdelegates hfront ?_⟩
    rw [symm_makeRoom hstart hplace, getElem?_protect_shift hstart hplace]
  · rintro ⟨position, hdelegates⟩
    obtain ⟨callee, -, here, -⟩ := id hdelegates
    have hplace := (List.getElem?_eq_some_iff.mp here).1
    refine ⟨_, (shadows_protect howns hstart).delegates hdelegates hplace ?_⟩
    rw [makeRoom_of_lt hstart hplace, getElem?_protect_shift hstart hplace]

end

end

/-! ## Ways through a body with a call led elsewhere -/

section

variable {body : Body} {method : MethodContext} {call position : ℕ} {callee : Member} {owner : String}

/-- The other instructions are what they were. -/
theorem getElem?_ledTo_of_ne (hne : position ≠ call) :
    (ledTo body call callee owner).instructions[position]? = body.instructions[position]? :=
  List.getElem?_set_ne hne.symm

/-- A call that is led back is what it was. -/
theorem ledTo_ledTo (hcall : body.instructions[call]? = some (.method Opcode.invokespecial callee)) :
    ledTo (ledTo body call callee owner) call { callee with owner } callee.owner = body := by
  obtain ⟨hlt, hcall⟩ := List.getElem?_eq_some_iff.mp hcall
  unfold ledTo
  simp [← hcall]

variable (hcall : body.instructions[call]? = some (.method Opcode.invokespecial callee))
include hcall

/-- The call is led to the other class. -/
theorem getElem?_ledTo_self : (ledTo body call callee owner).instructions[call]? =
    some (.method Opcode.invokespecial { callee with owner }) :=
  List.getElem?_set_self (List.getElem?_eq_some_iff.mp hcall).1

/-- What holds of calls of either class alike holds at the same positions. -/
theorem map_ledTo {α : Type} (ask : Instruction → α)
    (hask : ask (.method Opcode.invokespecial { callee with owner }) =
      ask (.method Opcode.invokespecial callee)) :
    (ledTo body call callee owner).instructions.map ask = body.instructions.map ask := by
  refine List.ext_getElem? fun position => ?_
  rw [List.getElem?_map, List.getElem?_map]
  by_cases hsame : position = call
  · rw [hsame, getElem?_ledTo_self hcall, hcall, Option.map_some, Option.map_some, hask]
  · rw [getElem?_ledTo_of_ne hsame]

/-- **Leading a call elsewhere changes no way.** -/
theorem shadows_ledTo : body.Shadows (ledTo body call callee owner) method id fun _ => True := by
  have houtline : body.SameOutline (ledTo body call callee owner) :=
    ⟨map_ledTo hcall _ rfl, fun label => map_ledTo hcall _ rfl, rfl⟩
  refine houtline.shadows (fun {position instruction} here => ?_) fun {site name} here => ?_
  · by_cases hsame : position = call
    · subst hsame
      obtain rfl := Option.some.inj (hcall.symm.trans here)
      exact ⟨_, getElem?_ledTo_self hcall, .owner _ _ _⟩
    · exact ⟨instruction, (getElem?_ledTo_of_ne hsame).trans here, .refl _⟩
  · by_cases hsame : site = call
    · rw [hsame, hcall] at here
      cases here
    · exact (getElem?_ledTo_of_ne hsame).trans here

/-- A call that is led to another class is none of the class that it was led away from; all other calls on the
receiver stay. -/
theorem delegates_ledTo_iff (howner : owner ≠ callee.owner) :
    (ledTo body call callee owner).Delegates method callee.owner position ↔
      body.Delegates method callee.owner position ∧ position ≠ call := by
  constructor
  · intro hdelegates
    have hne : position ≠ call := by
      rintro rfl
      obtain ⟨other, -, here, -, hother, -⟩ := hdelegates
      rw [getElem?_ledTo_self hcall] at here
      cases here
      exact howner hother
    have hback : (ledTo body call callee owner).Shadows
        (ledTo (ledTo body call callee owner) call { callee with owner } callee.owner) method id
        fun _ => True :=
      shadows_ledTo (getElem?_ledTo_self hcall)
    rw [ledTo_ledTo hcall] at hback
    exact ⟨hback.delegates hdelegates trivial (getElem?_ledTo_of_ne hne).symm, hne⟩
  · rintro ⟨hdelegates, hne⟩
    exact (shadows_ledTo hcall).delegates hdelegates trivial (getElem?_ledTo_of_ne hne)

end

/-! ## Calls of callbacks -/

/-- Does a body call a callback of a view as the superclass has it? -/
def callsOldCallback (body : Body) : Bool := body.instructions.any callsViewCallback

/-- A call of a callback is a special call. -/
theorem exists_callee_of_callsViewCallback {instruction : Instruction} (h : callsViewCallback instruction) :
    ∃ callee, instruction = .method Opcode.invokespecial callee := by
  unfold callsViewCallback at h
  split at h
  · exact ⟨_, rfl⟩
  · cases h

/-- Rerouted calls are no calls of callbacks under their old names. -/
theorem callsViewCallback_rerouteInstruction (safe : Option String) (instruction : Instruction) :
    callsViewCallback (rerouteInstruction safe instruction) = false := by
  unfold rerouteInstruction
  split
  · next callee =>
    split
    · exact Policy.isViewCallback_movedName callee.name callee.descriptor
    · next hother => exact Bool.eq_false_iff.mpr hother
  · next hother =>
    refine Bool.eq_false_iff.mpr fun hcalls => ?_
    obtain ⟨callee, rfl⟩ := exists_callee_of_callsViewCallback hcalls
    exact hother callee rfl

/-- Protection keeps the calls of callbacks, and adds none. -/
theorem callsOldCallback_protect {body : Body} {start : ℕ} (hstart : start ≤ body.instructions.length)
    (owner descriptor : String) (isStatic : Bool) (handler : String) :
    callsOldCallback (protect body start owner descriptor isStatic handler) = callsOldCallback body := by
  rw [callsOldCallback, callsOldCallback, Bool.eq_iff_iff, List.any_eq_true, List.any_eq_true]
  constructor
  · rintro ⟨instruction, hmem, hcalls⟩
    obtain ⟨position, here⟩ := List.mem_iff_getElem?.mp hmem
    obtain ⟨callee, rfl⟩ := exists_callee_of_callsViewCallback hcalls
    rcases Nat.lt_or_ge position (body.instructions.length + 1) with hfront | hbehind
    · obtain ⟨place, hplace, rfl⟩ := exists_of_hasReal_protect hstart ⟨_, here, rfl⟩ hfront
      rw [getElem?_protect_shift hstart hplace] at here
      exact ⟨_, List.mem_of_getElem? here, hcalls⟩
    · exact absurd rfl ((plain_of_mem_catcher (mem_catcher_of_protect hstart hbehind here)).2.2 callee)
  · rintro ⟨instruction, hmem, hcalls⟩
    obtain ⟨place, here⟩ := List.mem_iff_getElem?.mp hmem
    have hplace := (List.getElem?_eq_some_iff.mp here).1
    exact ⟨instruction, List.mem_of_getElem? ((getElem?_protect_shift hstart hplace).trans here), hcalls⟩

/-- A call that is led elsewhere is a call of a callback if it was one. -/
theorem callsOldCallback_ledTo {body : Body} {call : ℕ} {callee : Member} (owner : String)
    (hcall : body.instructions[call]? = some (.method Opcode.invokespecial callee)) :
    callsOldCallback (ledTo body call callee owner) = callsOldCallback body := by
  have hsame : (ledTo body call callee owner).instructions.map callsViewCallback =
      body.instructions.map callsViewCallback := map_ledTo hcall _ rfl
  have hany := congrArg (List.any · id) hsame
  rwa [List.any_map, List.any_map] at hany

/-! ## Treated methods -/

section

variable {decl : ClassDecl} {method after : Method} {body : Body} {superName safe : String}

/-- Shielding a constructor keeps its calls of superclasses, and adds none. -/
theorem exists_of_shieldMethod {handler : String} (hname : Name.isConstructor method.name)
    (h : shieldMethod decl handler method = .ok after) (hbody : decl.decodeBody method = .ok (some body))
    (howns : body.OwnsLabels) : ∃ edited, decl.decodeBody after = .ok (some edited) ∧
      (∀ context target, (∃ position, edited.Delegates context target position) ↔
        ∃ position, body.Delegates context target position) ∧
      callsOldCallback edited = callsOldCallback body := by
  obtain ⟨shielded, hshielded, hedited, -⟩ := exists_shieldMethod handler hbody
  obtain rfl := Except.ok.inj (h.symm.trans hshielded)
  refine ⟨_, hedited, ?_⟩
  rw [shieldedBody, shieldStart?, if_pos hname]
  cases hfind : DelegatingCall.find body decl.name decl.superName with
  | unique call =>
    obtain ⟨callee, hcall, -⟩ := DelegatingCall.exists_callee_of_find hfind
    have hstart : call + 1 ≤ body.instructions.length := (List.getElem?_eq_some_iff.mp hcall).1
    simp only [hname, if_true]
    exact ⟨fun context target => exists_delegates_protect_iff howns hstart,
      callsOldCallback_protect hstart _ _ _ _⟩
  | missing | ambiguous => exact ⟨fun _ _ => Iff.rfl, rfl⟩

variable {shield : CrashShield} {setting : Setting} {handler : String}

/-- **Constructors.**  Of the calls of the old superclass on the receiver, a constructor of a class that gets
a safe superclass keeps those that the scan for the delegating call does not single out. -/
theorem exists_of_applyToConstructor (hsuper : decl.superName = some superName)
    (hsafe : setting.safe = some safe)
    (hviews : shield.views) (hne : safe ≠ superName) (hname : Name.isConstructor method.name)
    (h : shield.applyToConstructor decl setting handler method = .ok after)
    (hbody : decl.decodeBody method = .ok (some body)) (howns : body.OwnsLabels) (context : MethodContext) :
    ∃ edited, decl.decodeBody after = .ok (some edited) ∧
      ((∃ position, edited.Delegates context superName position) ↔
        ∃ position, body.Delegates context superName position ∧
          DelegatingCall.find body decl.name (some superName) ≠ .unique position) ∧
      callsOldCallback edited = callsOldCallback body := by
  unfold applyToConstructor at h
  simp only [hsafe, hviews, if_true] at h
  obtain ⟨retargeted, hretargeted, h⟩ := bind_eq_ok.mp h
  cases retargets_of_retarget? hretargeted with
  | @led found call callee hsuper' hfound hfind hcall =>
    obtain rfl := pure_eq_ok.mp h
    obtain rfl := Option.some.inj (hsuper'.symm.trans hsuper)
    obtain rfl := Option.some.inj (Except.ok.inj (hfound.symm.trans hbody))
    refine ⟨_, rfl, exists_congr fun position => ?_, callsOldCallback_ledTo safe hcall⟩
    rw [delegates_ledTo_iff hcall hne, ← hsuper, hfind, ne_comm, ne_eq (DelegatingCall.unique call),
      DelegatingCall.unique.injEq]
  | kept hnone =>
    -- The scan singles out no call of the superclass, so nothing is excluded.
    have hall : (∃ position, body.Delegates context superName position) ↔
        ∃ position, body.Delegates context superName position ∧
          DelegatingCall.find body decl.name (some superName) ≠ .unique position := by
      refine exists_congr fun position => (and_iff_left_of_imp ?_).symm
      rintro ⟨callee, -, here, -, rfl, -⟩ hfind
      exact hnone hsuper hbody (hsuper ▸ hfind) here
    dsimp only at h
    split at h
    · obtain ⟨edited, hedited, hsame, hcallbacks⟩ := exists_of_shieldMethod hname h hbody howns
      exact ⟨edited, hedited, (hsame context superName).trans hall, hcallbacks⟩
    · obtain rfl := pure_eq_ok.mp h
      exact ⟨body, hbody, hall, rfl⟩

/-- **Other methods of views.**  They call no callback under its old name any more. -/
theorem exists_of_moveViewMethod {safe : Option String} (h : moveViewMethod decl safe method = .ok after)
    (hbody : decl.decodeBody method = .ok (some body)) :
    ∃ edited, decl.decodeBody after = .ok (some edited) ∧ callsOldCallback edited = false := by
  obtain ⟨rerouted, hreroutes, rfl⟩ := exists_reroutes_of_moveViewMethod h
  have hrerouted : ∃ edited, decl.decodeBody rerouted = .ok (some edited) ∧
      callsOldCallback edited = false := by
    cases hreroutes with
    | bodiless hnone => cases hnone.symm.trans hbody
    | silent hfound hsilent => exact ⟨_, hfound, hsilent⟩
    | calling hfound =>
      refine ⟨_, rfl, ?_⟩
      rw [callsOldCallback, List.any_map, List.any_eq_false]
      exact fun instruction _ => by simp [callsViewCallback_rerouteInstruction]
  split <;> exact hrerouted

/-- What is left of the calls that a body made of a superclass, once its method is treated and the superclass
replaced. -/
structure LeavesCalls (owner superName : String) (ofView : Bool) (method treated : Method)
    (body edited : Body) : Prop where
  /-- A constructor keeps those calls of the superclass on its receiver that the scan for the delegating call
  does not single out. -/
  constructors : Name.isConstructor treated.name →
    ((∃ position, edited.Delegates (treated.context owner) superName position) ↔
      ∃ position, body.Delegates (method.context owner) superName position ∧
        DelegatingCall.find body owner (some superName) ≠ .unique position)
  /-- A view keeps calls of callbacks under their old names in its constructors and its static initializer. -/
  callbacks : ofView → callsOldCallback edited = (callsOldCallback body &&
    (Name.isConstructor treated.name || Name.isStaticInitializer treated.name))

/-- A method without code has no body. -/
theorem hasCode_of_body (hbody : decl.decodeBody method = .ok (some body)) : method.hasCode := by
  unfold ClassDecl.decodeBody MethodBody.decode at hbody
  unfold Method.hasCode
  split at hbody
  · cases hbody
  all_goals simp_all

/-- No moved callback is an initializer. -/
theorem not_initializer_movedName (name : String) :
    Name.isConstructor (movedName name) = false ∧ Name.isStaticInitializer (movedName name) = false := by
  have hfirst : ∀ initializer ∈ [Name.constructor, Name.staticInitializer],
      initializer.toList.head? ≠ some 's' := by decide
  have hmoved : (movedName name).toList.head? = some 's' := by simp [movedName, safeStart]
  constructor <;>
  · refine beq_false_of_ne fun heq => hfirst _ ?_ (heq ▸ hmoved)
    simp

/-- A method has a body after it was treated only if it had one before. -/
theorem Treats.exists_body {edited : Body} (h : Treats shield decl setting handler method after)
    (hedited : decl.decodeBody after = .ok (some edited)) :
    ∃ body, decl.decodeBody method = .ok (some body) := by
  have hreworked : ∀ {after : Method}, method.Reworked decl.pool (fun _ => True) after →
      decl.decodeBody after = .ok (some edited) → ∃ body, decl.decodeBody method = .ok (some body) := by
    rintro after (_ | ⟨hold, -⟩) hafter
    · exact ⟨edited, hafter⟩
    · exact ⟨_, hold⟩
  cases h with
  | skipped => exact ⟨edited, hedited⟩
  | constructor _ _ h => exact hreworked (reworked_of_applyToConstructor (fun _ _ => trivial) h) hedited
  | ofView _ _ _ _ _ h =>
    obtain ⟨rerouted, hreroutes, rfl⟩ := exists_reroutes_of_moveViewMethod h
    refine hreworked hreroutes.reworked ?_
    split at hedited <;> exact hedited
  | shielded _ _ h => exact hreworked (reworked_of_shieldMethod (fun _ _ => trivial) h) hedited
  | plain => exact ⟨edited, hedited⟩

/-- **Methods.**  Each way of treating a method leaves the calls that it does not look at. -/
theorem Treats.leavesCalls {edited : Body} (h : Treats shield decl setting handler method after)
    (hsuper : decl.superName = some superName) (hsafe : setting.safe = some safe)
    (hviews : shield.views) (hne : safe ≠ superName)
    (hbody : decl.decodeBody method = .ok (some body)) (howns : body.OwnsLabels)
    (hedited : decl.decodeBody after = .ok (some edited)) :
    LeavesCalls decl.name superName (isView setting.closure) method after body edited := by
  cases h with
  | skipped hskips =>
    obtain rfl := Option.some.inj (Except.ok.inj (hbody.symm.trans hedited))
    have hinitializer : Name.isStaticInitializer method.name := by
      simpa [hasCode_of_body hbody] using hskips
    refine ⟨fun hconstructor => ?_, fun _ => by simp [hinitializer]⟩
    rw [Name.isStaticInitializer, beq_iff_eq] at hinitializer
    rw [Name.isConstructor, beq_iff_eq, hinitializer] at hconstructor
    exact absurd hconstructor (by decide)
  | constructor _ hname h =>
    have hrest := rebodied_of_applyToConstructor h
    obtain ⟨found, hfound, hdelegates, hcallbacks⟩ :=
      exists_of_applyToConstructor hsuper hsafe hviews hne hname h hbody howns (method.context decl.name)
    obtain rfl := Option.some.inj (Except.ok.inj (hfound.symm.trans hedited))
    refine ⟨fun _ => ?_, fun _ => by simp [hcallbacks, hrest.name_eq, hname]⟩
    rw [Method.context, hrest.name_eq, hrest.descriptor_eq, hrest.access_eq]
    exact hdelegates
  | ofView hinitializer _ hname _ _ h =>
    obtain ⟨found, hfound, hnone⟩ := exists_of_moveViewMethod h hbody
    obtain rfl := Option.some.inj (Except.ok.inj (hfound.symm.trans hedited))
    have hafter : Name.isConstructor after.name = false ∧ Name.isStaticInitializer after.name = false := by
      rw [(rebodied_of_moveViewMethod h).name_eq]
      dsimp only
      split
      · exact not_initializer_movedName method.name
      · exact ⟨hname, hinitializer⟩
    exact ⟨fun hconstructor => by simp [hafter.1] at hconstructor, fun _ => by simp [hnone, hafter]⟩
  | shielded hname hplain h =>
    have hview : isView setting.closure = false := by simpa [hviews] using hplain
    have hafter := (rebodied_of_shieldMethod h).name_eq
    exact ⟨fun hconstructor => by simp [hafter, hname] at hconstructor,
      fun hofView => by simp [hview] at hofView⟩
  | plain hname hplain =>
    have hview : isView setting.closure = false := by simpa [hviews] using hplain
    exact ⟨fun hconstructor => by simp [hname] at hconstructor, fun hofView => by simp [hview] at hofView⟩

end

/-! ## Classes -/

section

variable {shield : CrashShield} {catalog : Catalog} {decl after : ClassDecl} {superName safe : String}

/-- If the superclass is replaced, then it is by its safe counterpart, there is a handler, and views are
treated in their own way; the methods are treated one by one. -/
theorem exists_setting_of_apply (h : shield.apply catalog decl = .ok after)
    (hsuper : decl.superName = some superName) (hsafe : after.superName = some safe)
    (hne : safe ≠ superName) :
    ∃ setting handler, shield.handler = some handler ∧ shield.views ∧
      setting.closure = catalog.closure decl.name ∧ setting.safe = some safe ∧
      shield.safeClasses.find? superName = some safe ∧ after.pool = decl.pool ∧
      List.Forall₂ (fun method treated => shield.applyToMethod
        (decl.withMarks (shield.takeDecision decl.marks).2) setting method = .ok treated)
        decl.methods after.methods := by
  unfold apply at h
  dsimp only at h
  split at h
  · obtain rfl := pure_eq_ok.mp h
    exact absurd (Option.some.inj (hsafe.symm.trans hsuper)) hne
  obtain ⟨methods, hmethods, h⟩ := bind_eq_ok.mp h
  obtain rfl := pure_eq_ok.mp h
  dsimp only at hsafe
  by_cases hactive : shield.handler.isSome && shield.views
  · rw [if_pos hactive] at hsafe
    change (decl.superName.bind fun superName => shield.safeClasses.find? superName).or decl.superName =
      some safe at hsafe
    rw [hsuper, Option.bind_some] at hsafe
    obtain ⟨hhandler, hviews⟩ := (Bool.and_eq_true _ _).mp hactive
    obtain ⟨handler, hhandler⟩ := Option.isSome_iff_exists.mp hhandler
    have hfound : shield.safeClasses.find? superName = some safe := by
      cases hfound : shield.safeClasses.find? superName with
      | none =>
        rw [hfound] at hsafe
        exact absurd (Option.some.inj hsafe).symm hne
      | some found => rwa [hfound] at hsafe
    refine ⟨_, handler, hhandler, hviews, rfl, ?_, hfound, rfl,
      (mapM_eq_ok.mp hmethods).imp fun _ _ => PolicyFault.lift_eq_ok.mp⟩
    change (decl.superName.bind fun superName => shield.safeClasses.find? superName) = some safe
    rw [hsuper, Option.bind_some, hfound]
  · rw [if_neg hactive] at hsafe
    exact absurd (Option.some.inj (hsafe.symm.trans hsuper)) hne

/-- **Calls that name the old superclass.**  When a class gets a safe superclass in the place of its own one,
its constructors keep exactly those calls of the old superclass on their receivers that the scan for the
delegating call does not single out.  If the class is a view, then calls of callbacks under their old names
are kept in constructors and in the static initializer, and nowhere else. -/
theorem leavesCalls_of_apply (h : (Policy.crashShield shield).apply catalog decl = .ok after)
    (hsuper : decl.superName = some superName) (hsafe : after.superName = some safe) (hne : safe ≠ superName)
    (howns : ∀ method ∈ decl.methods, ∀ body, method.body = .edited body → body.OwnsLabels) :
    shield.safeClasses.find? superName = some safe ∧
      List.Forall₂ (fun method treated => ∀ edited, after.decodeBody treated = .ok (some edited) →
        ∃ body, decl.decodeBody method = .ok (some body) ∧
          LeavesCalls decl.name superName (isView (catalog.closure decl.name)) method treated body edited)
        decl.methods after.methods := by
  unfold Policy.apply at h
  split at h
  · obtain rfl := Except.ok.inj h
    exact absurd (Option.some.inj (hsafe.symm.trans hsuper)) hne
  obtain ⟨setting, handler, hhandler, hviews, hclosure, hsafe, hfound, hpool, hmethods⟩ :=
    exists_setting_of_apply h hsuper hsafe hne
  refine ⟨hfound, forall₂_imp_mem hmethods fun method hmem treated htreated edited hedited => ?_⟩
  unfold applyToMethod at htreated
  simp only [hhandler] at htreated
  rw [ClassDecl.decodeBody, hpool] at hedited
  have htreats := treats_of_applyToBody htreated
  obtain ⟨body, hbody⟩ := htreats.exists_body hedited
  have hleaves := htreats.leavesCalls hsuper hsafe hviews hne hbody
    (ClassDecl.ownsLabels_of_decodeBody hbody (howns method hmem)) hedited
  rw [hclosure] at hleaves
  exact ⟨body, hbody, hleaves.constructors, hleaves.callbacks⟩

/-- A call of a method of the framework's views. -/
def callView (name descriptor : String) : Instruction :=
  .method Opcode.invokespecial { owner := view, name, descriptor }

/-- The body of a constructor that calls the constructor of its superclass in one of two branches, and in the
first one a callback. -/
def branchingBody : Body where
  instructions := [.var Opcode.iload 1, .jump Opcode.ifeq ⟨0⟩, .aload 0, callView "<init>" "()V", .aload 0,
    callView "onFinishInflate" "()V", .plain Opcode.returnVoid, .label ⟨0⟩, .aload 0, callView "<init>" "()V",
    .plain Opcode.returnVoid]
  nextLabel := 1

/-- A view with such a constructor, and with a method that calls the same callback. -/
def branchingView : ClassDecl where
  version := ⟨52, 0⟩
  access := ⟨0x0021⟩
  name := "a/V"
  superName := some view
  methods :=
    [{ access := ⟨1⟩, name := "<init>", descriptor := "(Z)V", body := .edited branchingBody },
      { access := ⟨1⟩, name := "inflate", descriptor := "()V"
        body := .edited { instructions :=
          [.aload 0, callView "onFinishInflate" "()V", .plain Opcode.returnVoid] } }]

/-- Shielding with the standard safe superclasses. -/
def safeViews : CrashShield := { handler := some "h/H", views := true, safeClasses := standardSafeClasses }

/-- The first call of the constructor of the superclass runs on the receiver. -/
theorem delegates_branchingBody : branchingBody.Delegates ⟨"a/V", "<init>", "(Z)V", false⟩ view 3 := by
  have hreal : ∀ position < 4, branchingBody.HasReal position := by
    intro position hlt
    interval_cases position <;> exact ⟨_, rfl, rfl⟩
  have hnext : ∀ position < 3, ∀ {instruction before after},
      branchingBody.ComesWith ⟨"a/V", "<init>", "(Z)V", false⟩ position before →
      branchingBody.instructions[position]? = some instruction → instruction.fallsThrough →
      Transfer.execute ⟨"a/V", "<init>", "(Z)V", false⟩ branchingBody.instructions.toArray position
        instruction before = .ok after →
      branchingBody.ComesWith ⟨"a/V", "<init>", "(Z)V", false⟩ (position + 1) after := by
    intro position hlt instruction before after hcomes here falls runs
    exact hcomes.step (.next here runs falls (hreal _ (Nat.succ_lt_succ hlt)).heads)
  have hentry : branchingBody.ComesWith ⟨"a/V", "<init>", "(Z)V", false⟩ 0
      ⟨[.uninitThis, .int], Slots.empty⟩ := .enter (by cbv) (hreal 0 (by decide)).heads
  have hloaded := hnext 0 (by decide) hentry rfl rfl (Eq.refl (Except.ok _))
  have hbranched := hnext 1 (by decide) hloaded rfl rfl (Eq.refl (Except.ok _))
  have hreceiver := hnext 2 (by decide) hbranched rfl rfl (Eq.refl (Except.ok _))
  exact ⟨_, _, rfl, by decide, rfl, hreceiver, by decide⟩

/-- The scan singles out neither call of the superclass, so both of them stay, and the call of the callback in
the constructor keeps its name; the one in the other method does not. -/
theorem leavesCalls_branchingView : ∃ after constructor other rest,
    (Policy.crashShield safeViews).apply (.ofList [branchingView]) branchingView = .ok after ∧
      after.superName = some "com/facebook/ads/internal/shield/SafeView" ∧
      after.methods = [constructor, other] ∧
      constructor.body = .edited branchingBody ∧
      (∃ position, branchingBody.Delegates (constructor.context "a/V") view position) ∧
      callsOldCallback branchingBody = true ∧
      other.body = .edited rest ∧ callsOldCallback rest = false := by
  have hcomputed : ((Policy.crashShield safeViews).apply (.ofList [branchingView]) branchingView).toOption.map
      (fun after => (after.superName, after.methods.map fun method =>
        (method.name, method.descriptor, method.access.isStatic, method.body))) =
      some (some "com/facebook/ads/internal/shield/SafeView",
        [("<init>", "(Z)V", false, .edited branchingBody),
          ("inflate", "()V", false, .edited { instructions := [.aload 0, .method Opcode.invokespecial
            { owner := "com/facebook/ads/internal/shield/SafeView", name := "safe_onFinishInflate"
              descriptor := "()V" }, .plain Opcode.returnVoid] })]) := by
    decide +kernel
  obtain ⟨after, happly, hafter⟩ := Option.map_eq_some_iff.mp hcomputed
  replace happly := toOption_eq_some.mp happly
  obtain ⟨hsafe, hmethods⟩ := Prod.mk.inj hafter
  obtain ⟨constructor, treated, hafter, hconstructor, htreated⟩ := List.map_eq_cons_iff.mp hmethods
  obtain ⟨other, none, rfl, hother, hnone⟩ := List.map_eq_cons_iff.mp htreated
  obtain rfl := List.map_eq_nil_iff.mp hnone
  simp only [Prod.mk.injEq] at hconstructor hother
  obtain ⟨hname, -, -, hbody⟩ := hconstructor
  obtain ⟨hname', -, -, hbody'⟩ := hother
  have hleaves := (leavesCalls_of_apply happly rfl hsafe (by decide) fun method hmem body hedited => by
    simp only [branchingView, List.mem_cons, List.not_mem_nil, or_false] at hmem
    rcases hmem with rfl | rfl <;> cases hedited <;> exact ⟨by decide, by decide⟩).2
  rw [hafter] at hleaves
  obtain _ | ⟨hfirst, hrest⟩ := hleaves
  obtain _ | ⟨hsecond, -⟩ := hrest
  obtain ⟨_, ⟨⟩, hkept⟩ := hfirst _ (by rw [ClassDecl.decodeBody, hbody]; rfl)
  obtain ⟨_, ⟨⟩, hrerouted⟩ := hsecond _ (by rw [ClassDecl.decodeBody, hbody']; rfl)
  refine ⟨after, constructor, other, _, happly, hsafe, hafter, hbody, ?_, by decide, hbody', ?_⟩
  · exact (hkept.constructors (hname ▸ rfl)).mpr ⟨3, delegates_branchingBody, by decide⟩
  · have hname : (Name.isConstructor other.name || Name.isStaticInitializer other.name) = false := by
      rw [hname']
      decide
    rw [hrerouted.callbacks (by decide +kernel), hname, Bool.and_false]

end

end CrashShield

end ClassInstrument
