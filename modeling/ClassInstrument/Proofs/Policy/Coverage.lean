import ClassInstrument.Proofs.Execution.Insertion
import ClassInstrument.Proofs.Policy.Shielding

/-!
# What a shield covers

A shielded body is the body that it was, with a label in front of what is protected, the catcher behind
everything else, and for a method that is no constructor the guard in front of everything else.  The handler
of the shield comes last, so it catches what nothing else in the body catches: each protected instruction has
the handlers that it had, in their order, and then that one (`Shields.behind`).  What is in front of the
delegating call of a constructor, and the call itself, has the handlers that it had (`Shields.before`); the
guard and the catcher have none (`Shields.bare`).

The pieces are put in one after the other, and each keeps what the body owned before it.
-/

namespace ClassInstrument

open Outcome

namespace CrashShield

/-- Where an entry stands once a label was put in at a position and code in front of everything else. -/
def shieldedPlace (lead start place : ℕ) : ℕ := lead + shiftBehind start 1 place

/-- A body is shielded from a position on, by a catcher that starts with a label, and with instructions in
front of everything else. -/
structure Shields (body edited : Body) (lead start : ℕ) (catcher : Label) : Prop where
  /-- Every entry of the body is there. -/
  kept : ∀ place < body.instructions.length,
    edited.instructions[shieldedPlace lead start place]? = body.instructions[place]?
  /-- What is in front of the position has the handlers that it had. -/
  before : ∀ place < start, edited.catchers (shieldedPlace lead start place) = body.catchers place
  /-- What is behind the position has the handlers that it had, and then the shield. -/
  behind : ∀ place < body.instructions.length, start ≤ place →
    edited.catchers (shieldedPlace lead start place) =
      body.catchers place ++ [(catcher, some Name.throwable)]
  /-- No other instruction has any handler. -/
  bare : ∀ {position : ℕ} {instruction}, edited.instructions[position]? = some instruction →
    instruction.isReal → (∀ place < body.instructions.length, position ≠ shieldedPlace lead start place) →
      edited.catchers position = []
  /-- A label denotes the instruction that it denoted. -/
  denotes : ∀ {label position}, body.Denotes label position →
    edited.Denotes label (shieldedPlace lead start position)
  /-- A label that denoted no instruction denotes the first one of the catcher. -/
  ends : ∀ {label}, label ∈ placedLabels body.instructions → (∀ position, ¬ body.Denotes label position) →
    edited.Denotes label (lead + body.instructions.length + 2)
  /-- The label of the catcher denotes the same instruction. -/
  catches : edited.Denotes catcher (lead + body.instructions.length + 2)
  /-- The labels that were put in are new, and different from each other. -/
  fresh : ∃ added, (placedLabels edited.instructions).Perm (added ++ placedLabels body.instructions) ∧
    added.Nodup ∧ catcher ∈ added ∧ ∀ label ∈ added, label ∉ body.labels
  /-- The shielded body has handed out its labels and places none of them twice. -/
  owns : edited.OwnsLabels

section

variable {body : Body} {start : ℕ} {owner descriptor handler : String} {isStatic : Bool}

/-! ## Protection -/

/-- A body with a label in front of what is protected has one entry more. -/
theorem length_opened (hstart : start ≤ body.instructions.length) :
    (opened body start).instructions.length = body.instructions.length + 1 :=
  Body.length_insertAt hstart

/-- What was there stands where it has moved. -/
theorem getElem?_opened (hstart : start ≤ body.instructions.length) (place : ℕ) :
    (opened body start).instructions[shiftBehind start 1 place]? = body.instructions[place]? :=
  @Body.getElem?_insertAt_shift { body with nextLabel := body.nextLabel + 2 } start
    [.label ⟨body.nextLabel⟩] hstart place

/-- The label in front of what is protected stands there. -/
theorem getElem?_opened_start (hstart : start ≤ body.instructions.length) :
    (opened body start).instructions[start]? = some (.label ⟨body.nextLabel⟩) :=
  @Body.getElem?_insertAt_block { body with nextLabel := body.nextLabel + 2 } start
    [.label ⟨body.nextLabel⟩] hstart 0 Nat.one_pos

/-- A label that is put in front of what is protected is new. -/
theorem fresh_opened (h : body.OwnsLabels) :
    ∀ label ∈ placedLabels [.label ⟨body.nextLabel⟩], label ∉ body.labels := by
  intro label hmem
  obtain rfl : label = ⟨body.nextLabel⟩ := by simpa [placedLabels, Instruction.placed?] using hmem
  exact h.not_mem_of_le le_rfl

/-- A body with a label in front of what is protected owns its labels. -/
theorem ownsLabels_opened (h : body.OwnsLabels) (start : ℕ) : (opened body start).OwnsLabels :=
  (h.moreLabels (Nat.le_add_right _ 2)).insertAt start (by simp [Instruction.labels]) (fresh_opened h)
    (by simp [placedLabels, Instruction.placed?])

/-- A label in front of what is protected changes nothing in what protects it. -/
theorem catchers_opened (h : body.OwnsLabels) (hstart : start ≤ body.instructions.length) (place : ℕ) :
    (opened body start).catchers (shiftBehind start 1 place) = body.catchers place :=
  (h.moreLabels (Nat.le_add_right _ 2)).catchers_insertAt (ownsLabels_opened h start) hstart
    (fresh_opened h) place

/-- The only label in a catcher is the one at its start. -/
theorem eq_of_mem_labels_catcher {label other : Label} {instruction : Instruction}
    (hmem : instruction ∈ catcher label owner descriptor isStatic handler)
    (hother : other ∈ instruction.labels) : other = label := by
  simp only [catcher, List.cons_append, List.nil_append, List.mem_cons] at hmem
  rcases hmem with rfl | rfl | rfl | hmem
  · simpa [Instruction.labels] using hother
  · cases isStatic <;> simp [Editing.loadReceiver, Instruction.pushClass, Instruction.aload,
      Instruction.labels, Instruction.targets] at hother
  · simp [Callback.call, Instruction.invokeStatic, Instruction.labels, Instruction.targets] at hother
  · obtain ⟨opcode, -, rfl⟩ := List.mem_map.mp hmem
    simp [Instruction.labels, Instruction.targets] at hother

/-- A body with its catcher, which no handler leads to yet. -/
def withCatcher (body : Body) (start : ℕ) (owner descriptor : String) (isStatic : Bool)
    (handler : String) : Body :=
  (opened body start).insertAt (opened body start).instructions.length
    (catcher ⟨body.nextLabel + 1⟩ owner descriptor isStatic handler)

/-- The label of a catcher is new. -/
theorem fresh_catcher (h : body.OwnsLabels) (start : ℕ) :
    ∀ label ∈ placedLabels (catcher ⟨body.nextLabel + 1⟩ owner descriptor isStatic handler),
      label ∉ (opened body start).labels := by
  intro label hmem hother
  rw [placedLabels_catcher, List.mem_singleton] at hmem
  subst hmem
  rcases Body.mem_labels.mp hother with ⟨instruction, hinstruction, hlabel⟩ | htable
  · have hsplit : instruction ∈ body.instructions ∨ instruction = .label ⟨body.nextLabel⟩ := by
      rw [opened, Body.instructions_insertAt, List.mem_append, List.mem_append] at hinstruction
      rcases hinstruction with hfront | hblock | hrest
      · exact Or.inl (List.mem_of_mem_take hfront)
      · exact Or.inr (List.mem_singleton.mp hblock)
      · exact Or.inl (List.mem_of_mem_drop hrest)
    rcases hsplit with hold | rfl
    · exact h.not_mem_of_le (Nat.le_succ _) (Body.mem_labels.mpr (Or.inl ⟨_, hold, hlabel⟩))
    · simp [Instruction.labels] at hlabel
  · exact h.not_mem_of_le (Nat.le_succ _) (Body.mem_labels.mpr (Or.inr htable))

/-- A body with its catcher owns its labels. -/
theorem ownsLabels_withCatcher (h : body.OwnsLabels) (start : ℕ) :
    (withCatcher body start owner descriptor isStatic handler).OwnsLabels := by
  refine (ownsLabels_opened h start).insertAt _ ?_ (fresh_catcher h start) (by simp [placedLabels_catcher])
  intro instruction hmem label hlabel
  rw [eq_of_mem_labels_catcher hmem hlabel]
  exact Nat.lt_succ_self _

/-- A protected body owns its labels. -/
theorem ownsLabels_protect (h : body.OwnsLabels) (start : ℕ) :
    (protect body start owner descriptor isStatic handler).OwnsLabels := by
  rw [protect_eq]
  refine (ownsLabels_withCatcher h start).addHandler fun label hmem => ?_
  have hnext : (withCatcher body start owner descriptor isStatic handler).nextLabel =
      body.nextLabel + 2 := rfl
  simp only [catchAll, List.mem_cons, List.not_mem_nil, or_false] at hmem
  rcases hmem with rfl | rfl | rfl <;> simp [hnext]

/-- The labels that protection puts in are new. -/
theorem fresh_protect (h : body.OwnsLabels) :
    (placedLabels (protect body start owner descriptor isStatic handler).instructions).Perm
        ([⟨body.nextLabel + 1⟩, ⟨body.nextLabel⟩] ++ placedLabels body.instructions) ∧
      ∀ label ∈ [(⟨body.nextLabel + 1⟩ : Label), ⟨body.nextLabel⟩], label ∉ body.labels := by
  refine ⟨?_, by simp [h.not_mem_of_le]⟩
  have hcatcher := Body.placedLabels_insertAt (opened body start) (opened body start).instructions.length
    (catcher ⟨body.nextLabel + 1⟩ owner descriptor isStatic handler)
  have hentry := Body.placedLabels_insertAt { body with nextLabel := body.nextLabel + 2 } start
    [.label ⟨body.nextLabel⟩]
  rw [placedLabels_catcher] at hcatcher
  rw [protect_eq]
  exact hcatcher.trans (hentry.append_left _)

variable (hstart : start ≤ body.instructions.length)
include hstart

/-- What is in front of the catcher stands where it stood. -/
theorem getElem?_protect {place : ℕ} (hplace : place < body.instructions.length + 1) :
    (protect body start owner descriptor isStatic handler).instructions[place]? =
      (opened body start).instructions[place]? := by
  rw [protect_eq]
  have hmoved := @Body.getElem?_insertAt_shift (opened body start) _
    (catcher ⟨body.nextLabel + 1⟩ owner descriptor isStatic handler) le_rfl place
  rwa [shiftBehind, if_neg (by rw [length_opened hstart]; omega)] at hmoved

/-- The catcher stands behind everything else. -/
theorem getElem?_protect_catcher {index : ℕ}
    (hindex : index < (catcher ⟨body.nextLabel + 1⟩ owner descriptor isStatic handler).length) :
    (protect body start owner descriptor isStatic handler).instructions[
        body.instructions.length + 1 + index]? =
      (catcher ⟨body.nextLabel + 1⟩ owner descriptor isStatic handler)[index]? := by
  rw [protect_eq, ← length_opened hstart]
  exact Body.getElem?_insertAt_block le_rfl hindex

/-- A protected body has a label and the catcher more. -/
theorem length_protect : (protect body start owner descriptor isStatic handler).instructions.length =
    body.instructions.length + 1 +
      (catcher ⟨body.nextLabel + 1⟩ owner descriptor isStatic handler).length := by
  rw [protect_eq, ← length_opened hstart]
  exact Body.length_insertAt le_rfl

/-- The handler of a shield protects what is between its label and the catcher. -/
theorem isProtectedBy_catchAll (h : body.OwnsLabels) (position : ℕ) :
    (protect body start owner descriptor isStatic handler).isProtectedBy position
        (catchAll ⟨body.nextLabel⟩ ⟨body.nextLabel + 1⟩) = true ↔
      start ≤ position ∧ position < body.instructions.length + 1 := by
  have hlabelled : (protect body start owner descriptor isStatic handler).WellLabelled :=
    (ownsLabels_protect h start).wellLabelled
  have hentry : (protect body start owner descriptor isStatic handler).instructions[start]? =
      some (.label ⟨body.nextLabel⟩) :=
    (getElem?_protect hstart (Nat.lt_succ_of_le hstart)).trans (getElem?_opened_start hstart)
  have hstop : (protect body start owner descriptor isStatic handler).instructions[
      body.instructions.length + 1 + 0]? = some (.label ⟨body.nextLabel + 1⟩) :=
    getElem?_protect_catcher hstart (by simp [catcher])
  rw [Body.isProtectedBy, catchAll, hlabelled.labelPosition?_eq_some.mpr hentry,
    hlabelled.labelPosition?_eq_some.mpr hstop]
  simp

/-- Protection adds its handler behind the others, for what is behind the position. -/
theorem catchers_protect (h : body.OwnsLabels) {place : ℕ} (hplace : place < body.instructions.length + 1) :
    (protect body start owner descriptor isStatic handler).catchers place =
      (opened body start).catchers place ++
        if start ≤ place then [(⟨body.nextLabel + 1⟩, some Name.throwable)] else [] := by
  have hcovers : (withCatcher body start owner descriptor isStatic handler).isProtectedBy place
      (catchAll ⟨body.nextLabel⟩ ⟨body.nextLabel + 1⟩) = true ↔ start ≤ place := by
    have hprotected := @isProtectedBy_catchAll body start owner descriptor handler isStatic hstart h place
    rw [protect_eq] at hprotected
    exact hprotected.trans (and_iff_left hplace)
  have hkept := (ownsLabels_opened h start).catchers_insertAt
    (ownsLabels_withCatcher h start : (withCatcher body start owner descriptor isStatic handler).OwnsLabels)
    le_rfl (fresh_catcher h start) place
  rw [shiftBehind, if_neg (by rw [length_opened hstart]; omega)] at hkept
  rw [protect_eq, Body.catchers_addHandler, hkept]
  simp only [← hcovers]
  rfl

/-- The catcher is protected by nothing. -/
theorem catchers_protect_catcher (h : body.OwnsLabels) {index : ℕ}
    (hindex : index < (catcher ⟨body.nextLabel + 1⟩ owner descriptor isStatic handler).length) :
    (protect body start owner descriptor isStatic handler).catchers
      (body.instructions.length + 1 + index) = [] := by
  have hfree : ¬ (withCatcher body start owner descriptor isStatic handler).isProtectedBy
      (body.instructions.length + 1 + index) (catchAll ⟨body.nextLabel⟩ ⟨body.nextLabel + 1⟩) = true := by
    have hprotected := @isProtectedBy_catchAll body start owner descriptor handler isStatic hstart h
      (body.instructions.length + 1 + index)
    rw [protect_eq] at hprotected
    exact fun hcovers => absurd (hprotected.mp hcovers).2 (by omega)
  have hinside : (withCatcher body start owner descriptor isStatic handler).catchers
      (body.instructions.length + 1 + index) = [] := by
    rw [← length_opened hstart]
    exact (ownsLabels_opened h start).catchers_insertAt_block (ownsLabels_withCatcher h start) le_rfl
      (fresh_catcher h start) (Or.inr rfl) hindex
  rw [protect_eq, Body.catchers_addHandler]
  exact congrArg₂ _ hinside (if_neg hfree)

/-- An entry in front of the catcher is one of the body, or the label in front of what is protected. -/
theorem exists_shift_or_start {position : ℕ} {instruction : Instruction}
    (here : (opened body start).instructions[position]? = some instruction) :
    (∃ place < body.instructions.length, position = shiftBehind start 1 place ∧
        body.instructions[place]? = some instruction) ∨
      position = start ∧ instruction.isReal = false := by
  obtain ⟨place, rfl⟩ | ⟨index, hindex, rfl⟩ :=
    Body.exists_shift_or_block start [.label ⟨body.nextLabel⟩] position
  · have hold : body.instructions[place]? = some instruction := (getElem?_opened hstart place).symm.trans here
    exact Or.inl ⟨place, (List.getElem?_eq_some_iff.mp hold).1, rfl, hold⟩
  · obtain rfl : index = 0 := by simpa using hindex
    obtain rfl := Option.some.inj ((getElem?_opened_start hstart).symm.trans here)
    exact Or.inr ⟨rfl, rfl⟩

/-- Labels denote what they denoted in a protected body. -/
theorem denotes_protect (h : body.OwnsLabels) {label : Label} {position : ℕ}
    (hdenotes : body.Denotes label position) :
    (protect body start owner descriptor isStatic handler).Denotes label (shiftBehind start 1 position) := by
  have hroom : Body.OwnsLabels { body with nextLabel := body.nextLabel + 2 } :=
    h.moreLabels (Nat.le_add_right _ 2)
  have hinside : position < body.instructions.length := by
    obtain ⟨⟨instruction, here, -⟩, -⟩ := hdenotes
    exact (List.getElem?_eq_some_iff.mp here).1
  have hsame : Body.Denotes { body with nextLabel := body.nextLabel + 2 } label position :=
    hdenotes.congr rfl
  have hopened : (opened body start).Denotes label (shiftBehind start 1 position) :=
    hsame.insertAt hroom.wellLabelled (ownsLabels_opened h start).wellLabelled hstart
      (Or.inl (by simp [Instruction.isReal]))
  have hcatcher := hopened.insertAt (ownsLabels_opened h start).wellLabelled
    (ownsLabels_withCatcher h start :
      (withCatcher body start owner descriptor isStatic handler).OwnsLabels).wellLabelled le_rfl
    (Or.inr (Or.inr rfl))
  rw [shiftBehind, if_neg (by rw [length_opened hstart]; unfold shiftBehind; split <;> omega)] at hcatcher
  rw [protect_eq]
  exact hcatcher.congr rfl

/-- A label with no instruction behind it denotes the start of the catcher in a protected body. -/
theorem denotes_protect_catcher {label : Label} {place : ℕ}
    (hplaces : (protect body start owner descriptor isStatic handler).Places label place)
    (hle : place ≤ body.instructions.length + 1)
    (hunreal : ∀ {between : ℕ} {instruction}, place ≤ between → between < body.instructions.length + 1 →
      (opened body start).instructions[between]? = some instruction → instruction.isReal = false) :
    (protect body start owner descriptor isStatic handler).Denotes label
      (body.instructions.length + 2) := by
  have hloads : (protect body start owner descriptor isStatic handler).instructions[
      body.instructions.length + 1 + 1]? = some (Editing.loadReceiver owner isStatic) :=
    getElem?_protect_catcher hstart (by simp [catcher])
  refine ⟨⟨_, hloads, by cases isStatic <;> rfl⟩, place, by omega, hplaces, ?_⟩
  intro between instruction hfrom hto here
  rcases Nat.lt_or_ge between (body.instructions.length + 1) with hfront | hbehind
  · rw [getElem?_protect hstart hfront] at here
    exact hunreal hfrom hfront here
  · obtain rfl : between = body.instructions.length + 1 + 0 := by omega
    rw [getElem?_protect_catcher hstart (by simp [catcher])] at here
    obtain rfl := Option.some.inj here
    rfl

/-- **Protection.**  Everything from a position on is covered by a catcher, which comes last. -/
theorem shields_protect (h : body.OwnsLabels) :
    Shields body (protect body start owner descriptor isStatic handler) 0 start
      ⟨body.nextLabel + 1⟩ := by
  have howns : (protect body start owner descriptor isStatic handler).OwnsLabels :=
    ownsLabels_protect h start
  have hmoved : ∀ place, shieldedPlace 0 start place = shiftBehind start 1 place := fun place =>
    Nat.zero_add _
  have hinside : ∀ {place}, place < body.instructions.length →
      shiftBehind start 1 place < body.instructions.length + 1 := by
    intro place hplace
    unfold shiftBehind
    split <;> omega
  obtain ⟨hlabels, hfresh⟩ := @fresh_protect body start owner descriptor handler isStatic h
  refine ⟨?_, ?_, ?_, ?_, ?_, ?_, ?_, ⟨_, hlabels, by simp, by simp, hfresh⟩, howns⟩
  · intro place hplace
    rw [hmoved, getElem?_protect hstart (hinside hplace), getElem?_opened hstart]
  · intro place hplace
    rw [hmoved, catchers_protect hstart h (hinside (hplace.trans_le hstart)), catchers_opened h hstart,
      shiftBehind, if_neg (Nat.not_le.mpr hplace), if_neg (Nat.not_le.mpr hplace), List.append_nil]
  · intro place hplace hbehind
    rw [hmoved, catchers_protect hstart h (hinside hplace), catchers_opened h hstart, shiftBehind,
      if_pos hbehind, if_pos (by omega)]
  · intro position instruction here real hother
    rcases Nat.lt_or_ge position (body.instructions.length + 1) with hfront | hbehind
    · rw [getElem?_protect hstart hfront] at here
      rcases exists_shift_or_start hstart here with ⟨place, hplace, rfl, -⟩ | ⟨-, unreal⟩
      · exact absurd (hmoved place).symm (hother place hplace)
      · simp [unreal] at real
    · obtain ⟨index, rfl⟩ := Nat.exists_eq_add_of_le hbehind
      refine catchers_protect_catcher hstart h ?_
      have hlt := (List.getElem?_eq_some_iff.mp here).1
      rw [length_protect hstart] at hlt
      omega
  · intro label position hdenotes
    rw [hmoved]
    exact denotes_protect hstart h hdenotes
  · intro label hmem hnone
    obtain ⟨place, hplace⟩ := List.mem_iff_getElem?.mp (mem_placedLabels.mp hmem)
    have hlt := (List.getElem?_eq_some_iff.mp hplace).1
    rw [Nat.zero_add]
    refine denotes_protect_catcher hstart (howns.wellLabelled.places_iff.mpr
      ((getElem?_protect hstart (hinside hlt)).trans ((getElem?_opened hstart place).trans hplace)))
      (hinside hlt).le ?_
    intro between instruction hfrom hto here
    rcases exists_shift_or_start hstart here with ⟨middle, -, rfl, hmiddle⟩ | ⟨-, unreal⟩
    · exact Body.unreal_of_not_denotes (h.wellLabelled.places_iff.mpr hplace) hnone
        (shiftBehind_le_iff.mp hfrom) hmiddle
    · exact unreal
  · rw [Nat.zero_add]
    have hplaced : (protect body start owner descriptor isStatic handler).instructions[
        body.instructions.length + 1 + 0]? = some (.label ⟨body.nextLabel + 1⟩) :=
      getElem?_protect_catcher hstart (by simp [catcher])
    exact denotes_protect_catcher hstart (howns.wellLabelled.places_iff.mpr hplaced) le_rfl
      fun hfrom hto _ => absurd hto (by omega)

end

/-! ## The guard -/

section

variable {body edited : Body} {lead start : ℕ} {label : Label} {owner descriptor handler : String}
  {isStatic : Bool}

/-- The only label in a guard is the one behind it. -/
theorem eq_of_mem_labels_guardCode {skip other : Label} {instruction : Instruction}
    (hmem : instruction ∈ guardCode skip owner descriptor isStatic handler)
    (hother : other ∈ instruction.labels) : other = skip := by
  simp only [guardCode, List.cons_append, List.nil_append, List.mem_cons, List.mem_append,
    List.not_mem_nil, or_false] at hmem
  rcases hmem with rfl | rfl | rfl | hmem | rfl
  · cases isStatic <;> simp [Editing.loadReceiver, Instruction.pushClass, Instruction.aload,
      Instruction.labels, Instruction.targets] at hother
  · simp [Callback.call, Instruction.invokeStatic, Instruction.labels, Instruction.targets] at hother
  · simpa [Instruction.labels, Instruction.targets] using hother
  · obtain ⟨opcode, -, rfl⟩ := List.mem_map.mp hmem
    simp [Instruction.labels, Instruction.targets] at hother
  · simpa [Instruction.labels] using hother

/-- A guard places one label. -/
theorem placedLabels_guardCode (skip : Label) (owner descriptor : String) (isStatic : Bool)
    (handler : String) : placedLabels (guardCode skip owner descriptor isStatic handler) = [skip] := by
  rw [guardCode, placedLabels_append, placedLabels_append, Editing.placedLabels_defaultReturn]
  cases isStatic <;> rfl

/-- A shielded body may hand out more labels. -/
theorem Shields.moreLabels (h : Shields body edited lead start label) {next : ℕ}
    (hnext : edited.nextLabel ≤ next) :
    Shields body { edited with nextLabel := next } lead start label where
  kept := h.kept
  before := h.before
  behind := h.behind
  bare := h.bare
  denotes hdenotes := (h.denotes hdenotes).congr rfl
  ends hmem hnone := (h.ends hmem hnone).congr rfl
  catches := h.catches.congr rfl
  fresh := h.fresh
  owns := h.owns.moreLabels hnext

/-- Code with new labels in front of everything else leaves the shield as it was, and is itself covered by
nothing. -/
theorem Shields.inFront (h : Shields body edited lead start label) {front : List Instruction}
    (howns : (edited.insertAt 0 front).OwnsLabels)
    (hfresh : ∀ label ∈ placedLabels front, label ∉ edited.labels ∧ label ∉ body.labels)
    (honce : (placedLabels front).Nodup) :
    Shields body (edited.insertAt 0 front) (front.length + lead) start label := by
  have hnew : ∀ label ∈ placedLabels front, label ∉ edited.labels := fun other hmem =>
    (hfresh other hmem).1
  have hmoved : ∀ position, front.length + position = shiftBehind 0 front.length position :=
    fun position => by rw [shiftBehind, if_pos (Nat.zero_le _), Nat.add_comm]
  have hplace : ∀ place, shieldedPlace (front.length + lead) start place =
      shiftBehind 0 front.length (shieldedPlace lead start place) := fun place => by
    rw [← hmoved]
    exact Nat.add_assoc _ _ _
  have hget := @Body.getElem?_insertAt_shift edited 0 front (Nat.zero_le _)
  have hcatchers := h.owns.catchers_insertAt howns (Nat.zero_le _) hnew
  have hdenotes : ∀ {other position}, edited.Denotes other position →
      (edited.insertAt 0 front).Denotes other (shiftBehind 0 front.length position) := fun hother =>
    hother.insertAt h.owns.wellLabelled howns.wellLabelled (Nat.zero_le _) (Or.inr (Or.inl rfl))
  obtain ⟨added, hadded, hnodup, hlabel, hother⟩ := h.fresh
  refine ⟨?_, ?_, ?_, ?_, ?_, ?_, ?_, ⟨placedLabels front ++ added, ?_, ?_, by simp [hlabel], ?_⟩, howns⟩
  · intro place hlt
    rw [hplace, hget, h.kept place hlt]
  · intro place hlt
    rw [hplace, hcatchers, h.before place hlt]
  · intro place hlt hbehind
    rw [hplace, hcatchers, h.behind place hlt hbehind]
  · intro position instruction here real hdifferent
    obtain ⟨middle, rfl⟩ | ⟨index, hindex, rfl⟩ := Body.exists_shift_or_block 0 front position
    · rw [hcatchers]
      exact h.bare ((hget middle).symm.trans here) real fun place hlt heq =>
        hdifferent place hlt ((congrArg _ heq).trans (hplace place).symm)
    · exact h.owns.catchers_insertAt_block howns (Nat.zero_le _) hnew (Or.inl rfl) hindex
  · intro other position hbefore
    rw [hplace]
    exact hdenotes (h.denotes hbefore)
  · intro other hmem hnone
    rw [Nat.add_assoc, Nat.add_assoc, hmoved, ← Nat.add_assoc]
    exact hdenotes (h.ends hmem hnone)
  · rw [Nat.add_assoc, Nat.add_assoc, hmoved, ← Nat.add_assoc]
    exact hdenotes h.catches
  · rw [List.append_assoc]
    exact (Body.placedLabels_insertAt edited 0 front).trans (hadded.append_left _)
  · refine List.nodup_append.mpr ⟨honce, hnodup, fun first hfirst second hsecond heq => ?_⟩
    exact hnew first hfirst (Body.mem_labels_of_placed
      (hadded.mem_iff.mpr (List.mem_append_left _ (heq ▸ hsecond))))
  · intro other hmem
    rcases List.mem_append.mp hmem with hmem | hmem
    · exact (hfresh other hmem).2
    · exact hother other hmem

/-- **The guard.**  A shielded body that returns early if the receiver is crashing is shielded as before. -/
theorem Shields.guardReceiver (h : Shields body edited lead start label)
    (hnext : body.nextLabel ≤ edited.nextLabel) (hown : body.OwnsLabels) :
    Shields body (guardReceiver edited owner descriptor isStatic handler)
      ((guardCode ⟨edited.nextLabel⟩ owner descriptor isStatic handler).length + lead) start label := by
  have hroom := h.moreLabels (Nat.le_add_right edited.nextLabel 1)
  have hfresh : ∀ skip ∈ placedLabels (guardCode ⟨edited.nextLabel⟩ owner descriptor isStatic handler),
      skip ∉ edited.labels ∧ skip ∉ body.labels := by
    intro skip hmem
    rw [placedLabels_guardCode, List.mem_singleton] at hmem
    exact hmem ▸ ⟨h.owns.not_mem_of_le le_rfl, hown.not_mem_of_le hnext⟩
  rw [guardReceiver_eq]
  refine hroom.inFront (hroom.owns.insertAt 0 ?_ (fun skip hmem => (hfresh skip hmem).1) ?_) hfresh ?_
  · intro instruction hmem other hother
    rw [eq_of_mem_labels_guardCode hmem hother]
    exact Nat.lt_succ_self _
  all_goals simp [placedLabels_guardCode]

end

/-! ## Shielded methods -/

variable {decl : ClassDecl} {declared : Method} {body : Body}

/-- **A shield covers the original body and comes last.**  A method that is no constructor is shielded from
its first instruction on, and a constructor from behind its delegating call; a constructor whose delegating
call cannot be singled out stays as it is. -/
theorem shields_shieldMethod (handler : String) (hbody : decl.decodeBody declared = .ok (some body))
    (howns : body.OwnsLabels) :
    ∃ shielded edited, shieldMethod decl handler declared = .ok shielded ∧
      decl.decodeBody shielded = .ok (some edited) ∧
      (Name.isConstructor declared.name = false →
        Shields body edited (guardCode ⟨body.nextLabel + 2⟩ decl.name declared.descriptor
          declared.access.isStatic handler).length 0 ⟨body.nextLabel + 1⟩) ∧
      (Name.isConstructor declared.name → ∀ call,
        DelegatingCall.find body decl.name decl.superName = .unique call →
          Shields body edited 0 (call + 1) ⟨body.nextLabel + 1⟩) ∧
      (Name.isConstructor declared.name →
        (∀ call, DelegatingCall.find body decl.name decl.superName ≠ .unique call) →
          shielded = declared) := by
  obtain ⟨shielded, hshielded, hedited, -⟩ := exists_shieldMethod handler hbody
  refine ⟨shielded, _, hshielded, hedited, ?_, ?_, ?_⟩
  · intro hconstructor
    rw [shieldedBody, shieldStart?]
    simp only [hconstructor, Bool.false_eq_true, if_false]
    exact (shields_protect (Nat.zero_le _) howns).guardReceiver (Nat.le_add_right _ 2) howns
  · intro hconstructor call hcall
    obtain ⟨callee, hcallee, -⟩ := DelegatingCall.exists_callee_of_find hcall
    rw [shieldedBody, shieldStart?]
    simp only [hconstructor, if_true, hcall]
    exact shields_protect (List.getElem?_eq_some_iff.mp hcallee).1 howns
  · intro hconstructor hnone
    rw [shieldMethod, hbody] at hshielded
    simp only [hconstructor, if_true, bind, Except.bind] at hshielded
    exact (pure_eq_ok.mp hshielded).symm

/-- A method that returns its receiver, with a handler around the load and a label at its end. -/
def returnsCaught : Method where
  access := ⟨1⟩
  name := "self"
  descriptor := "()Ljava/lang/Object;"
  body := .edited
    { instructions := [.label ⟨0⟩, .aload 0, .label ⟨1⟩, .plain Opcode.areturn, .label ⟨2⟩]
      handlers := [{ start := ⟨0⟩, stop := ⟨1⟩, handler := ⟨1⟩, caught := none }]
      nextLabel := 3 }

/-- The load is caught by its own handler and then by the shield, the return by the shield alone, and the
label at the end denotes the start of the catcher. -/
theorem shields_returnsCaught :
    ∃ shielded edited, shieldMethod returning "h/Handler" returnsCaught = .ok shielded ∧
      returning.decodeBody shielded = .ok (some edited) ∧
      edited.catchers 8 = [(⟨1⟩, none), (⟨4⟩, some Name.throwable)] ∧
      edited.catchers 10 = [(⟨4⟩, some Name.throwable)] ∧ edited.Denotes ⟨2⟩ 13 := by
  obtain ⟨shielded, edited, hshielded, hedited, hshields, -, -⟩ :=
    @shields_shieldMethod returning returnsCaught _ "h/Handler" rfl ⟨by decide, by decide⟩
  have h := hshields (by decide)
  refine ⟨shielded, edited, hshielded, hedited, h.behind 1 (by decide) (Nat.zero_le _),
    h.behind 3 (by decide) (Nat.zero_le _), h.ends (by decide) fun position => ?_⟩
  exact Body.not_denotes_of_getLast? rfl

end CrashShield

end ClassInstrument
