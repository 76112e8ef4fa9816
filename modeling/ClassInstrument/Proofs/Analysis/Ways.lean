import ClassInstrument.Proofs.Analysis.ConstructorCalls
import ClassInstrument.Proofs.Analysis.FrameShape
import ClassInstrument.Proofs.Analysis.Renumbering
import ClassInstrument.Proofs.Execution.Insertion

/-!
# Ways through a body

An analysis merges the frames of all ways to an instruction, and refuses a body in which they do not fit
together.  Here every way is followed on its own: `Body.ComesWith` holds of the frames with which control can
come to an instruction.  So it can be said of any body which of its constructor calls run on the receiver of
the body itself (`Body.Delegates`), whether an analysis accepts the body or not.

The ways through one body are found again in another one if its instructions stand there in the same order and
lead to each other alike (`Body.Shadows`).  Control may leave these instructions, but then it does not come
back.
-/

namespace ClassInstrument

open Outcome

/-! ## Instructions that differ in a name -/

/-- An instruction leads to the same places as another one, and does the same to every frame. -/
structure Instruction.Alike (instruction other : Instruction) : Prop where
  falls : other.fallsThrough = instruction.fallsThrough
  targets : other.targets = instruction.targets
  executes : ∀ method code position frame, Transfer.execute method code position other frame =
    Transfer.execute method code position instruction frame

namespace Instruction.Alike

/-- An instruction is like itself. -/
theorem refl (instruction : Instruction) : instruction.Alike instruction := ⟨rfl, rfl, fun _ _ _ _ => rfl⟩

/-- Frames do not tell in which class a called method is looked up. -/
theorem owner (opcode : Opcode) (callee : Member) (owner : String) :
    Instruction.Alike (.method opcode callee) (.method opcode { callee with owner }) :=
  ⟨rfl, rfl, fun _ _ _ _ => rfl⟩

end Instruction.Alike

/-- A call on a frame with moved creation sites has the moved receiver. -/
theorem Frame.receiver?_mapSites (move : ℕ → ℕ) (frame : FlowFrame) (descriptor : String) :
    Frame.receiver? (frame.mapSites move) descriptor =
      (frame.receiver? descriptor).map (·.mapSite move) := by
  unfold receiver?
  split
  · simp [Slots.peek?, mapSites, Slots.map, Function.comp_def]
  · rfl

/-! ## Ways -/

namespace Body

/-- An instruction is the first one at a position or behind it. -/
structure Heads (body : Body) (start position : ℕ) : Prop where
  le : start ≤ position
  real : body.HasReal position
  first : ∀ between, start ≤ between → between < position → ¬ body.HasReal between

/-- Control carries a frame from one instruction to another one. -/
inductive Carries (body : Body) (method : MethodContext) (position : ℕ) (before : FlowFrame) :
    ℕ → FlowFrame → Prop
  /-- Control continues with the next instruction. -/
  | next {instruction after later} (here : body.instructions[position]? = some instruction)
      (runs : Transfer.execute method body.instructions.toArray position instruction before = .ok after)
      (falls : instruction.fallsThrough) (heads : body.Heads (position + 1) later) :
      Carries body method position before later after
  /-- Control is transferred to a label. -/
  | jump {instruction after target later} (here : body.instructions[position]? = some instruction)
      (runs : Transfer.execute method body.instructions.toArray position instruction before = .ok after)
      (targeted : target ∈ instruction.targets) (denotes : body.Denotes target later) :
      Carries body method position before later after
  /-- The instruction throws, before or after it has changed a variable. -/
  | throw {instruction locals entry caught later} (here : body.instructions[position]? = some instruction)
      (thrown : locals = before.locals ∨ ∃ after, locals = after.locals ∧
        Transfer.execute method body.instructions.toArray position instruction before = .ok after)
      (catches : (entry, caught) ∈ body.catchers position) (denotes : body.Denotes entry later) :
      Carries body method position before later
        (Frame.push ⟨locals, Slots.empty⟩ (.object (caught.getD Name.throwable)))

/-- On some way from the start of a method, control comes to an instruction with a frame. -/
inductive ComesWith (body : Body) (method : MethodContext) : ℕ → FlowFrame → Prop
  | enter {initial position} (starts : method.initialFrame = .ok initial) (heads : body.Heads 0 position) :
      ComesWith body method position initial
  | step {position before later frame} (comes : ComesWith body method position before)
      (carries : body.Carries method position before later frame) : ComesWith body method later frame

/-- A constructor of a class is called at a position, and on some way there it is called on the receiver of
the body itself, which no constructor has run on yet. -/
def Delegates (body : Body) (method : MethodContext) (owner : String) (position : ℕ) : Prop :=
  ∃ callee frame, body.instructions[position]? = some (.method Opcode.invokespecial callee) ∧
    Name.isConstructor callee.name ∧ callee.owner = owner ∧ body.ComesWith method position frame ∧
      frame.receiver? callee.descriptor = some .uninitThis

variable {body other : Body} {method : MethodContext} {position later : ℕ} {before frame : FlowFrame}

/-- An instruction is the first one at its own position. -/
theorem HasReal.heads (h : body.HasReal position) : body.Heads position position :=
  ⟨le_rfl, h, fun _ hfrom hto => absurd hto (Nat.not_lt.mpr hfrom)⟩

/-- Where exceptions go is a label of the body. -/
theorem mem_labels_of_catcher {entry : Label} {caught : Option String}
    (h : (entry, caught) ∈ body.catchers position) : entry ∈ body.labels := by
  obtain ⟨handler, hmem, heq⟩ := List.mem_map.mp h
  obtain ⟨rfl, -⟩ := Prod.mk.inj heq
  exact mem_labels_of_handler (List.mem_of_mem_filter hmem) (by simp)

/-- Control goes from instruction to instruction. -/
theorem Carries.hasReal (h : body.Carries method position before later frame) : body.HasReal later := by
  cases h with
  | next _ _ _ heads => exact heads.real
  | jump _ _ _ denotes => exact denotes.real
  | throw _ _ _ denotes => exact denotes.real

/-- Control comes to instructions only. -/
theorem ComesWith.hasReal (h : body.ComesWith method position frame) : body.HasReal position := by
  cases h with
  | enter _ heads => exact heads.real
  | step _ carries => exact carries.hasReal

/-! ## The same ways in another body -/

/-- The instructions of a body that are inside of something stand in another body, where they have moved, and
lead there to each other alike.  From outside control does not come back. -/
structure Shadows (body other : Body) (method : MethodContext) (move : ℕ → ℕ) (inside : ℕ → Prop) : Prop where
  injective : Function.Injective move
  /-- The instructions inside are in the other body. -/
  kept : ∀ {position instruction}, inside position → body.instructions[position]? = some instruction →
    instruction.isReal → ∃ same, other.instructions[move position]? = some same ∧ instruction.Alike same
  /-- Wherever objects are created, they are created in the other body. -/
  creates : ∀ {site : ℕ} {name}, body.instructions[site]? = some (.type Opcode.create name) →
    other.instructions[move site]? = some (.type Opcode.create name)
  /-- The first instruction is the first one. -/
  first : ∀ {position}, inside position → body.Heads 0 position → other.Heads 0 (move position)
  /-- The next instruction is the next one. -/
  next : ∀ {position later}, inside position → body.HasReal position → inside later →
    body.Heads (position + 1) later → other.Heads (move position + 1) (move later)
  /-- Jumps lead to the same instructions. -/
  targets : ∀ {position instruction target later}, inside position →
    body.instructions[position]? = some instruction → target ∈ instruction.targets → inside later →
      body.Denotes target later → other.Denotes target (move later)
  /-- Instructions are covered by the same handlers. -/
  catches : ∀ {position entry caught later}, inside position → body.HasReal position →
    (entry, caught) ∈ body.catchers position → inside later → body.Denotes entry later →
      (entry, caught) ∈ other.catchers (move position) ∧ other.Denotes entry (move later)
  /-- From outside control does not come back. -/
  closed : ∀ {position before later frame}, ¬ inside position → body.HasReal position →
    body.Carries method position before later frame → ¬ inside later

namespace Shadows

variable {move : ℕ → ℕ} {inside : ℕ → Prop} (h : body.Shadows other method move inside)
include h

/-- An instruction inside runs in the other body on the frame with its creation sites moved. -/
theorem execute_mapSites {instruction same : Instruction} {after : FlowFrame}
    (halike : instruction.Alike same)
    (hruns : Transfer.execute method body.instructions.toArray position instruction before = .ok after) :
    Transfer.execute method other.instructions.toArray (move position) same (before.mapSites move) =
      .ok (after.mapSites move) := by
  rw [halike.executes]
  refine Transfer.execute_mapSites h.injective (fun site _ name here => ?_) hruns
  rw [List.getElem?_toArray] at here ⊢
  exact h.creates here

/-- What control carries from one instruction inside to another one, it carries in the other body. -/
theorem carries (hinside : inside position) (hreal : body.HasReal position) (hinside' : inside later)
    (hcarries : body.Carries method position before later frame) :
    other.Carries method (move position) (before.mapSites move) (move later) (frame.mapSites move) := by
  obtain ⟨found, hfound, real⟩ := hreal
  have hsame : ∀ {instruction}, body.instructions[position]? = some instruction →
      ∃ same, other.instructions[move position]? = some same ∧ instruction.Alike same := by
    intro instruction here
    exact h.kept hinside here (Option.some.inj (hfound.symm.trans here) ▸ real)
  cases hcarries with
  | next here runs falls heads =>
    obtain ⟨same, here', halike⟩ := hsame here
    exact .next here' (h.execute_mapSites halike runs) (halike.falls ▸ falls)
      (h.next hinside ⟨_, hfound, real⟩ hinside' heads)
  | jump here runs targeted denotes =>
    obtain ⟨same, here', halike⟩ := hsame here
    exact .jump here' (h.execute_mapSites halike runs) (halike.targets ▸ targeted)
      (h.targets hinside here targeted hinside' denotes)
  | @throw _ locals entry caught _ here thrown catches denotes =>
    obtain ⟨same, here', halike⟩ := hsame here
    obtain ⟨catches', denotes'⟩ := h.catches hinside ⟨_, hfound, real⟩ catches hinside' denotes
    rw [Frame.mapSites_push]
    refine .throw here' ?_ catches' denotes'
    rcases thrown with rfl | ⟨after, rfl, runs⟩
    · exact Or.inl rfl
    · exact Or.inr ⟨after.mapSites move, rfl, h.execute_mapSites halike runs⟩

/-- **The same ways.**  Control comes to the instructions inside with the same frames in the other body, up to
creation sites that have moved. -/
theorem comesWith (hcomes : body.ComesWith method position frame) (hinside : inside position) :
    other.ComesWith method (move position) (frame.mapSites move) := by
  induction hcomes with
  | enter starts heads =>
    have hplain := MethodContext.sound_initialFrame starts
    rw [Frame.mapSites_of_plain hplain.locals hplain.stack]
    exact .enter starts (h.first hinside heads)
  | @step position before later frame comes carries ih =>
    have hreal := comes.hasReal
    have hbefore : inside position := by
      by_contra houtside
      exact h.closed houtside hreal carries hinside
    exact .step (ih hbefore) (h.carries hbefore hreal hinside carries)

/-- A constructor call that stands in the other body as well runs there on the receiver if it does here. -/
theorem delegates {owner : String} (hdelegates : body.Delegates method owner position)
    (hinside : inside position)
    (hkept : other.instructions[move position]? = body.instructions[position]?) :
    other.Delegates method owner (move position) := by
  obtain ⟨callee, frame, here, hname, howner, hcomes, hreceiver⟩ := hdelegates
  refine ⟨callee, frame.mapSites move, hkept.trans here, hname, howner, h.comesWith hcomes hinside, ?_⟩
  rw [Frame.receiver?_mapSites, hreceiver]
  rfl

end Shadows

/-! ## Bodies with the same outline -/

/-- A label denotes the first instruction behind its place. -/
theorem denotes_iff_heads {label : Label} :
    body.Denotes label position ↔ ∃ place, body.Places label place ∧ body.Heads place position := by
  constructor
  · rintro ⟨hreal, place, hle, hplaces, hfirst⟩
    refine ⟨place, hplaces, hle, hreal, ?_⟩
    rintro between hfrom hto ⟨instruction, here, real⟩
    simp [hfirst between instruction hfrom hto here] at real
  · rintro ⟨place, hplaces, hle, hreal, hfirst⟩
    refine ⟨hreal, place, hle, hplaces, fun between instruction hfrom hto here => ?_⟩
    by_contra real
    exact hfirst between hfrom hto ⟨instruction, here, by simpa using real⟩

/-- Two bodies have instructions and labels at the same positions, and the same handlers. -/
structure SameOutline (body other : Body) : Prop where
  real : other.instructions.map Instruction.isReal = body.instructions.map Instruction.isReal
  labels : ∀ label, other.instructions.map (· == .label label) = body.instructions.map (· == .label label)
  handlers : other.handlers = body.handlers

namespace SameOutline

variable (h : body.SameOutline other)
include h

theorem hasReal_iff : other.HasReal position ↔ body.HasReal position := by
  have hentry := congrArg (·[position]? = some true) h.real
  simpa [HasReal] using hentry

theorem heads_iff {start : ℕ} : other.Heads start position ↔ body.Heads start position := by
  have hreal : other.HasReal = body.HasReal := funext fun _ => propext h.hasReal_iff
  constructor <;>
  · rintro ⟨hle, hhead, hfirst⟩
    exact ⟨hle, by rwa [hreal] at *, by rwa [hreal] at *⟩

theorem label_iff {label : Label} : other.instructions[position]? = some (.label label) ↔
    body.instructions[position]? = some (.label label) := by
  have hentry := congrArg (·[position]? = some true) (h.labels label)
  simpa using hentry

theorem denotes_iff {label : Label} : other.Denotes label position ↔ body.Denotes label position := by
  simp only [denotes_iff_heads, Places, h.label_iff, h.heads_iff, ne_eq]

theorem catchers_eq : other.catchers = body.catchers := by
  have hplace (label : Label) : other.labelPosition? label = body.labelPosition? label := by
    have hfound := congrArg (List.findIdx? id) (h.labels label)
    rwa [List.findIdx?_map, List.findIdx?_map] at hfound
  have hprotected : other.isProtectedBy = body.isProtectedBy := by
    funext position handler
    simp only [isProtectedBy, hplace]
  funext position
  rw [catchers, catchers, hprotected, h.handlers]

/-- If the instructions are alike as well, then the ways are the same. -/
theorem shadows (halike : ∀ {position : ℕ} {instruction}, body.instructions[position]? = some instruction →
      ∃ same, other.instructions[position]? = some same ∧ instruction.Alike same)
    (hcreates : ∀ {site : ℕ} {name}, body.instructions[site]? = some (.type Opcode.create name) →
      other.instructions[site]? = some (.type Opcode.create name)) :
    body.Shadows other method id fun _ => True where
  injective := Function.injective_id
  kept _ here _ := halike here
  creates := hcreates
  first _ := h.heads_iff.mpr
  next _ _ _ := h.heads_iff.mpr
  targets _ _ _ _ := h.denotes_iff.mpr
  catches _ _ catches _ denotes := ⟨h.catchers_eq ▸ catches, h.denotes_iff.mpr denotes⟩
  closed houtside := absurd trivial houtside

end SameOutline

end Body

end ClassInstrument
