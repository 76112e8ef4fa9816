import ClassInstrument.Proofs.Code.Decodable
import ClassInstrument.Proofs.Execution.Machine

/-!
# Where control goes

Jumps and switches decide by the operand stack where a run goes on.  What all other instructions do to the
stack is left open here: it is a relation that everything below is stated for.  So control is described for
every opcode, whereas the machine knows the instructions only that injected code is made of.

`Body.Goes` is one step of control, and `Body.Comes` goes on from an entry to the next one that counts,
over labels, line numbers and whatever else is not counted.
-/

namespace ClassInstrument

/-! ## Conditions -/

/-- The comparisons of conditional jumps, in the order of their opcodes. -/
inductive Comparison where
  | eq | ne | lt | ge | gt | le
deriving DecidableEq, Repr

namespace Comparison

/-- Does a comparison hold of two numbers? -/
def holds : Comparison → Int32 → Int32 → Bool
  | eq, left, right => left = right
  | ne, left, right => left ≠ right
  | lt, left, right => left < right
  | ge, left, right => right ≤ left
  | gt, left, right => right < left
  | le, left, right => left ≤ right

/-- The comparison that holds exactly when one does not. -/
def negate : Comparison → Comparison
  | eq => ne
  | ne => eq
  | lt => ge
  | ge => lt
  | gt => le
  | le => gt

theorem holds_negate (comparison : Comparison) (left right : Int32) :
    comparison.negate.holds left right = !comparison.holds left right := by
  cases comparison with
  | eq => simp [negate, holds]
  | ne => simp [negate, holds]
  | lt => exact decide_eq_decide.mpr Int32.not_lt.symm |>.trans (decide_not ..)
  | ge => exact decide_eq_decide.mpr Int32.not_le.symm |>.trans (decide_not ..)
  | gt => exact decide_eq_decide.mpr Int32.not_lt.symm |>.trans (decide_not ..)
  | le => exact decide_eq_decide.mpr Int32.not_le.symm |>.trans (decide_not ..)

end Comparison

/-- What a conditional jump tests. -/
inductive Condition where
  /-- A number is compared with zero. -/
  | zero (comparison : Comparison)
  /-- Two numbers are compared. -/
  | numbers (comparison : Comparison)
  /-- Two references are the same, or differ. -/
  | references (same : Bool)
  /-- A reference is null, or not. -/
  | null (isNull : Bool)
deriving DecidableEq, Repr

namespace Condition

/-- Tests a condition on the operand stack, last value first, and gives the values that are left. -/
def test? : Condition → List Value → Option (Bool × List Value)
  | zero comparison, .int value :: rest => some (comparison.holds value 0, rest)
  | numbers comparison, .int right :: .int left :: rest => some (comparison.holds left right, rest)
  | references same, right :: left :: rest =>
    if left.kind = .reference ∧ right.kind = .reference then some ((left == right) == same, rest) else none
  | null isNull, value :: rest =>
    if value.kind = .reference then some ((value == .null) == isNull, rest) else none
  | _, _ => none

/-- The condition that holds exactly when one does not. -/
def negate : Condition → Condition
  | zero comparison => zero comparison.negate
  | numbers comparison => numbers comparison.negate
  | references same => references !same
  | null isNull => null !isNull

/-- The negated condition has the opposite outcome and leaves the same values. -/
theorem test?_negate (condition : Condition) (stack : List Value) :
    condition.negate.test? stack = (condition.test? stack).map fun (outcome, rest) => (!outcome, rest) := by
  cases condition with
  | zero comparison =>
    rcases stack with - | ⟨value, rest⟩
    · rfl
    · cases value <;> simp [negate, test?, Comparison.holds_negate]
  | numbers comparison =>
    rcases stack with - | ⟨right, - | ⟨left, rest⟩⟩
    · rfl
    · cases right <;> rfl
    · cases right <;> cases left <;> simp [negate, test?, Comparison.holds_negate]
  | references same =>
    rcases stack with - | ⟨right, - | ⟨left, rest⟩⟩
    · rfl
    · rfl
    · simp only [negate, test?]
      split <;> cases same <;> simp
  | null isNull =>
    rcases stack with - | ⟨value, rest⟩
    · rfl
    · simp only [negate, test?]
      split <;> cases isNull <;> simp

/-- A negated condition holds exactly when the condition does not. -/
theorem test?_negate_eq_some {condition : Condition} {stack rest : List Value} {outcome : Bool} :
    condition.negate.test? stack = some (outcome, rest) ↔ condition.test? stack = some (!outcome, rest) := by
  rw [test?_negate]
  cases condition.test? stack with
  | none => simp
  | some tested =>
    obtain ⟨held, values⟩ := tested
    cases held <;> cases outcome <;> simp

end Condition

/-- The condition of a conditional jump. -/
def Opcode.condition? (opcode : Opcode) : Option Condition :=
  match opcode.toNat with
  | 153 => some (.zero .eq)
  | 154 => some (.zero .ne)
  | 155 => some (.zero .lt)
  | 156 => some (.zero .ge)
  | 157 => some (.zero .gt)
  | 158 => some (.zero .le)
  | 159 => some (.numbers .eq)
  | 160 => some (.numbers .ne)
  | 161 => some (.numbers .lt)
  | 162 => some (.numbers .ge)
  | 163 => some (.numbers .gt)
  | 164 => some (.numbers .le)
  | 165 => some (.references true)
  | 166 => some (.references false)
  | 198 => some (.null true)
  | 199 => some (.null false)
  | _ => none

/-- The inverse of a jump tests the negated condition. -/
theorem Opcode.exists_condition_of_inverse {opcode inverse : Opcode} (h : opcode.inverse? = some inverse) :
    ∃ condition, opcode.condition? = some condition ∧ inverse.condition? = some condition.negate := by
  have hall : ∀ opcode : Opcode, opcode.inverse?.all fun inverse =>
      opcode.condition?.any fun condition => inverse.condition? == some condition.negate :=
    forall_of_fin (by decide +kernel)
  have hopcode := hall opcode
  rw [h, Option.all_some, Option.any_eq_true] at hopcode
  obtain ⟨condition, hcondition, hinverse⟩ := hopcode
  exact ⟨condition, hcondition, eq_of_beq hinverse⟩

/-- A jump with a condition is not one without. -/
theorem Opcode.ne_goto_of_condition {opcode : Opcode} {condition : Condition}
    (h : opcode.condition? = some condition) : opcode ≠ goto ∧ opcode ≠ gotoWide := by
  constructor <;>
  · rintro rfl
    cases h

/-! ## Steps -/

/-- Where control goes from an instruction. -/
inductive Way where
  /-- To what follows it. -/
  | on
  /-- To a label. -/
  | at (target : Label)

namespace Instruction

/-- The label that a switch selects by a key; the first of equal keys counts. -/
def selected? (key : Int32) : Instruction → Option Label
  | tableSwitch low default targets =>
    if key.toInt < low.toInt then some default
    else some (targets[(key.toInt - low.toInt).toNat]?.getD default)
  | lookupSwitch default pairs => some (((pairs.find? fun pair => pair.1 = key).map Prod.snd).getD default)
  | _ => none

/-- Where control goes from an instruction with values on the operand stack, and which values are left
there.  What other instructions do with the values is given. -/
inductive Takes (effect : Instruction → List Value → List Value → Prop) :
    Instruction → List Value → Way → List Value → Prop
  /-- Labels and line numbers do nothing. -/
  | pass {mark} (unreal : mark.isReal = false) (stack) : Takes effect mark stack .on stack
  /-- A jump without a condition. -/
  | goto {opcode} (always : opcode = Opcode.goto ∨ opcode = Opcode.gotoWide) (target stack) :
      Takes effect (.jump opcode target) stack (.at target) stack
  /-- A jump whose condition holds. -/
  | branch {opcode condition stack rest} (target) (tests : opcode.condition? = some condition)
      (holds : condition.test? stack = some (true, rest)) :
      Takes effect (.jump opcode target) stack (.at target) rest
  /-- A jump whose condition does not hold. -/
  | fall {opcode condition stack rest} (target) (tests : opcode.condition? = some condition)
      (fails : condition.test? stack = some (false, rest)) :
      Takes effect (.jump opcode target) stack .on rest
  /-- A switch goes where its key tells. -/
  | switch {instruction key target} (selects : selected? key instruction = some target) (rest) :
      Takes effect instruction (.int key :: rest) (.at target) rest
  /-- Any other instruction that goes on with the next one. -/
  | act {instruction stack rest} (real : instruction.isReal) (falls : instruction.fallsThrough)
      (straight : instruction.targets = []) (acts : effect instruction stack rest) :
      Takes effect instruction stack .on rest

variable {effect : Instruction → List Value → List Value → Prop} {stack rest : List Value} {way : Way}

/-- A switch selects one of its labels. -/
theorem mem_targets_of_selected {key : Int32} {instruction : Instruction} {target : Label}
    (h : instruction.selected? key = some target) : target ∈ instruction.targets := by
  cases instruction with
  | tableSwitch low default targets =>
    rw [selected?] at h
    split at h
    · obtain rfl := Option.some.inj h
      exact List.mem_cons_self
    · obtain rfl := Option.some.inj h
      cases hfound : targets[(key.toInt - low.toInt).toNat]? with
      | none => exact List.mem_cons_self
      | some target => exact List.mem_cons_of_mem _ (List.mem_of_getElem? hfound)
  | lookupSwitch default pairs =>
    obtain rfl := Option.some.inj h
    cases hfound : pairs.find? fun pair => pair.1 = key with
    | none => exact List.mem_cons_self
    | some pair => exact List.mem_cons_of_mem _ (List.mem_map_of_mem (List.mem_of_find?_eq_some hfound))
  | _ => cases h

/-- Control goes to labels that an instruction refers to. -/
theorem Takes.mem_targets {instruction : Instruction} {target : Label}
    (h : instruction.Takes effect stack (.at target) rest) : target ∈ instruction.targets := by
  cases h with
  | goto | branch => exact List.mem_singleton_self _
  | switch selects => exact mem_targets_of_selected selects

/-- Labels and line numbers are passed. -/
theorem Takes.eq_of_unreal {mark : Instruction} (h : mark.Takes effect stack way rest)
    (unreal : mark.isReal = false) : way = .on ∧ rest = stack := by
  cases h with
  | pass => exact ⟨rfl, rfl⟩
  | goto | branch | fall => cases unreal
  | act real => simp [unreal] at real
  | switch selects =>
    have hmem := mem_targets_of_selected selects
    cases mark with
    | label | line => cases hmem
    | _ => cases unreal

/-- A jump without a condition leads to its target. -/
theorem Takes.eq_of_goto {opcode : Opcode} {target : Label}
    (h : (Instruction.jump opcode target).Takes effect stack way rest)
    (always : opcode = Opcode.goto ∨ opcode = Opcode.gotoWide) : way = .at target ∧ rest = stack := by
  cases h with
  | pass unreal => cases unreal
  | goto => exact ⟨rfl, rfl⟩
  | branch _ tests | fall _ tests =>
    obtain ⟨hgoto, hwide⟩ := Opcode.ne_goto_of_condition tests
    exact absurd always (not_or.mpr ⟨hgoto, hwide⟩)
  | switch selects => cases selects
  | act _ _ straight => cases straight

/-- A conditional jump goes where its condition tells. -/
theorem takes_jump_iff {opcode : Opcode} {condition : Condition} {target : Label}
    (tests : opcode.condition? = some condition) :
    (Instruction.jump opcode target).Takes effect stack way rest ↔ ∃ outcome,
      condition.test? stack = some (outcome, rest) ∧ way = if outcome then .at target else .on := by
  constructor
  · intro h
    cases h with
    | pass unreal => cases unreal
    | goto always =>
      obtain ⟨hgoto, hwide⟩ := Opcode.ne_goto_of_condition tests
      exact absurd always (not_or.mpr ⟨hgoto, hwide⟩)
    | branch _ tests' holds =>
      obtain rfl := Option.some.inj (tests'.symm.trans tests)
      exact ⟨true, holds, rfl⟩
    | fall _ tests' fails =>
      obtain rfl := Option.some.inj (tests'.symm.trans tests)
      exact ⟨false, fails, rfl⟩
    | switch selects => cases selects
    | act _ _ straight => cases straight
  · rintro ⟨outcome, htest, rfl⟩
    cases outcome with
    | true => exact .branch target tests htest
    | false => exact .fall target tests htest

end Instruction

namespace Body

variable (effect : Instruction → List Value → List Value → Prop) (body : Body)

/-- A way leads from a position to another one. -/
def Leading (position : ℕ) : Way → ℕ → Prop
  | .on, place => place = position + 1
  | .at target, place => body.instructions[place]? = some (.label target)

/-- One step of control, from a position with values on the operand stack to another one. -/
def Goes : ℕ × List Value → ℕ × List Value → Prop
  | (position, stack), (place, rest) => ∃ instruction way, body.instructions[position]? = some instruction ∧
    instruction.Takes effect stack way rest ∧ body.Leading position way place

/-- Control comes from a position to the next one that counts: there is one step, and then others over
positions that do not count. -/
def Comes (counts : ℕ → Prop) (run later : ℕ × List Value) : Prop :=
  ∃ between, body.Goes effect run between ∧
    Relation.ReflTransGen (fun run later => ¬ counts run.1 ∧ body.Goes effect run later) between later ∧
      counts later.1

/-- An instruction stands at a position. -/
def HasReal (position : ℕ) : Prop :=
  ∃ instruction, body.instructions[position]? = some instruction ∧ instruction.isReal

end Body

end ClassInstrument
