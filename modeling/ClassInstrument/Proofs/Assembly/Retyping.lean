import ClassInstrument.Proofs.Analysis.Maxima
import ClassInstrument.Proofs.Assembly.Mirroring

/-!
# Typings of bodies with the same control

A typing of a body gives one to each body that mirrors it: a position gets the frame before the next instruction,
which is the frame that the instruction of the same number has (`Body.Mirrors.typing_retype`).  No control may run off
the end of the typed body, for there is no frame behind the last instruction.
-/

namespace ClassInstrument

open Outcome

@[simp] theorem Instruction.extent_bare (instruction : Instruction) (frame : FlowFrame) :
    instruction.bare.extent frame = instruction.extent frame := by
  cases instruction <;> rfl

namespace Body

/-- The frame at a position by a typing of another body: the one before the instruction that is next. -/
def retype (body original : Body) (typing : ℕ → Option FlowFrame) (position : ℕ) : Option FlowFrame :=
  original.realPositions[body.ordinalAt position]?.bind typing

/-- Where the instruction at a place of another body is found.  Other places get positions behind the body. -/
def counterpart (body original : Body) (place : ℕ) : ℕ :=
  if original.realPositions[original.ordinalAt place]? = some place then
    body.realPositions.getD (original.ordinalAt place) 0
  else body.instructions.length + place

variable {body original : Body} {position place later k : ℕ} {instruction other : Instruction}
  {hierarchy : Hierarchy} {typing : ℕ → Option FlowFrame} {method : MethodContext}
  {source : Array Instruction} {site : ℕ → ℕ} {before after frame : FlowFrame}

theorem retype_eq_some : body.retype original typing position = some frame ↔
    ∃ place, original.realPositions[body.ordinalAt position]? = some place ∧ typing place = some frame :=
  Option.bind_eq_some_iff

/-- An instruction behind a position is behind it or comes next there. -/
theorem RealBehind.exists_realPositions (h : body.RealBehind position) :
    ∃ place, body.realPositions[body.ordinalAt position]? = some place := by
  obtain ⟨later, instruction, hlt, here, real⟩ := h
  exact Body.exists_realPositions here real hlt.le

/-- What arrives at a position of a typed body arrives at the next instruction from there on. -/
theorem Typing.arrives_pass (htyping : body.Typing hierarchy typing method source site)
    (h : Arrives hierarchy typing position frame)
    (hnext : body.realPositions[body.ordinalAt position]? = some later) :
    Arrives hierarchy typing later frame := by
  refine pass_induction (motive := fun place => Arrives hierarchy typing place frame) h hnext
    fun place instruction _ here unreal harrives => ?_
  obtain ⟨super, hsuper, hfits⟩ := harrives
  obtain ⟨origin, after, runs, -, -, -, htyped⟩ := htyping.step here hsuper
  obtain rfl : super = after := by
    cases instruction <;> first | exact pure_eq_ok.mp runs | cases unreal
  obtain ⟨found, hfound, hkeeps⟩ := (htyped.falls (Instruction.fallsThrough_of_unreal unreal)).2
  exact ⟨found, hfound, fun site own hown => hkeeps site own (hfits site own hown)⟩

/-- What arrives at a position arrives where as many instructions come before, if there is one behind. -/
theorem Typing.arrives_retype (htyping : original.Typing hierarchy typing method source site)
    (h : Arrives hierarchy typing place frame) (hreal : original.RealBehind place)
    (hordinal : original.ordinalAt place = body.ordinalAt position) :
    Arrives hierarchy (body.retype original typing) position frame := by
  obtain ⟨later, hlater⟩ := hreal.exists_realPositions
  obtain ⟨super, hsuper, hfits⟩ := htyping.arrives_pass h hlater
  exact ⟨super, retype_eq_some.mpr ⟨later, hordinal ▸ hlater, hsuper⟩, hfits⟩

namespace Mirrors

variable (h : body.Mirrors original)
include h

/-- There is an instruction of each number that the other body has one of. -/
theorem exists_realPositions (hplace : original.realPositions[k]? = some place) :
    ∃ position, body.realPositions[k]? = some position := by
  have hlt := (List.getElem?_eq_some_iff.mp hplace).1
  exact ⟨_, List.getElem?_eq_getElem (h.length_realPositions.symm ▸ hlt)⟩

/-- The instruction at a position is the counterpart of that of the same number, and of no other place. -/
theorem counterpart_eq_iff (here : body.instructions[position]? = some instruction) :
    body.counterpart original k = position ↔
      instruction.isReal ∧ original.realPositions[body.ordinalAt position]? = some k := by
  have hlt := (List.getElem?_eq_some_iff.mp here).1
  unfold counterpart
  split
  · next hk =>
    obtain ⟨found, hfound⟩ := h.exists_realPositions hk
    rw [List.getD_eq_getElem?_getD, hfound, Option.getD_some]
    obtain ⟨other, hother, real, hordinal⟩ := getElem?_realPositions.mp hfound
    constructor
    · rintro rfl
      obtain rfl := Option.some.inj (here.symm.trans hother)
      exact ⟨real, hordinal ▸ hk⟩
    · rintro ⟨hreal, hk'⟩
      obtain ⟨-, -, -, hordinal'⟩ := getElem?_realPositions.mp hk'
      have hposition := realPositions_ordinalAt here hreal
      rw [← hordinal', hfound] at hposition
      exact Option.some.inj hposition
  · next hk =>
    refine ⟨fun hsame => by omega, fun ⟨hreal, hk'⟩ => ?_⟩
    obtain ⟨-, -, -, hordinal⟩ := getElem?_realPositions.mp hk'
    exact absurd (hordinal ▸ hk') hk

/-- Different places have different counterparts. -/
theorem counterpart_injective : Function.Injective (body.counterpart original) := by
  intro i j hsame
  by_cases hlt : body.counterpart original i < body.instructions.length
  · obtain ⟨instruction, here⟩ : ∃ instruction,
        body.instructions[body.counterpart original i]? = some instruction :=
      ⟨_, List.getElem?_eq_getElem hlt⟩
    have hi := ((h.counterpart_eq_iff here).mp rfl).2
    have hj := ((h.counterpart_eq_iff here).mp hsame.symm).2
    exact Option.some.inj (hi.symm.trans hj)
  · have hbehind {place : ℕ} (hout : ¬ body.counterpart original place < body.instructions.length) :
        body.counterpart original place = body.instructions.length + place := by
      unfold counterpart at hout ⊢
      split
      · next hk =>
        obtain ⟨found, hfound⟩ := h.exists_realPositions hk
        obtain ⟨other, hother, -, -⟩ := getElem?_realPositions.mp hfound
        rw [if_pos hk, List.getD_eq_getElem?_getD, hfound, Option.getD_some] at hout
        exact absurd (List.getElem?_eq_some_iff.mp hother).1 hout
      · rfl
    have hi := hbehind hlt
    have hj := hbehind (hsame ▸ hlt)
    omega

/-- A position that comes before an instruction of the other body lies within the body. -/
theorem lt_of_realPositions (hplace : original.realPositions[body.ordinalAt position]? = some place) :
    position < body.instructions.length := by
  obtain ⟨found, hfound⟩ := h.exists_realPositions hplace
  obtain ⟨other, hother, -, -⟩ := getElem?_realPositions.mp hfound
  exact (le_of_realPositions hfound).trans_lt (List.getElem?_eq_some_iff.mp hother).1

/-- Where the instruction of the same number leads to something, the instruction does. -/
theorem typedAt (hlabelled : body.WellLabelled) (hlabelled' : original.WellLabelled) (hclosed : original.Closed)
    (htyping : original.Typing hierarchy typing method source site)
    (here : body.instructions[position]? = some instruction) (real : instruction.isReal)
    (hplace : original.realPositions[body.ordinalAt position]? = some place)
    (hthere : original.instructions[place]? = some other) (hbare : instruction.bare = other.bare)
    (htargets : ∀ target ∈ instruction.targets, ∃ written ∈ other.targets, body.SamePlace original target written)
    (htyped : original.TypedAt hierarchy typing place other before after) :
    body.TypedAt hierarchy (body.retype original typing) position instruction before after where
  falls falls := by
    have hreal : other.isReal := by rwa [← Instruction.isReal_bare, ← hbare, Instruction.isReal_bare]
    have hfalls : other.fallsThrough := by
      rwa [← Instruction.fallsThrough_bare, ← hbare, Instruction.fallsThrough_bare]
    obtain ⟨later, behind, hlt, hlater, hbehind⟩ := hclosed.falls hthere hreal hfalls
    obtain ⟨-, -, -, hordinal⟩ := getElem?_realPositions.mp hplace
    have hnext : original.ordinalAt (place + 1) = body.ordinalAt (position + 1) := by
      rw [ordinalAt_succ_of_real hthere hreal, ordinalAt_succ_of_real here real, hordinal]
    obtain ⟨found, hfound⟩ := Body.exists_realPositions hlater hbehind (Nat.succ_le_of_lt hlt)
    obtain ⟨super, hsuper, hfits⟩ := htyping.arrives_pass (htyped.falls hfalls).2 hfound
    rw [hnext] at hfound
    exact ⟨h.lt_of_realPositions hfound, super, retype_eq_some.mpr ⟨found, hfound, hsuper⟩, hfits⟩
  jumps target htarget := by
    obtain ⟨written, hwritten, hsame⟩ := htargets target htarget
    obtain ⟨origin, horigin, harrives⟩ := htyped.jumps written hwritten
    obtain ⟨found, hfound, hordinal⟩ := hsame.symm.exists_places hlabelled' hlabelled horigin.1
    exact ⟨found, hfound,
      htyping.arrives_retype harrives (hclosed.jumps hthere hwritten horigin.1) hordinal.symm⟩
  throws _ handler hmem start stop entry hstart hstop hentry hcovered := by
    obtain ⟨caught, hcaught, hmatches, start', stop', hstart', hstop', hcovered'⟩ :=
      h.exists_handler hlabelled hlabelled' here real hplace hmem ⟨start, stop, hstart.1, hstop.1, hcovered⟩
    obtain ⟨found, hfound, hordinal⟩ := hmatches.handler.exists_places hlabelled hlabelled' hentry.1
    obtain ⟨hbefore, hafter⟩ := htyped.throws (by
        rwa [← Instruction.isReal_bare, ← hbare, Instruction.isReal_bare]) caught hcaught start' stop' found
      (hlabelled'.places_iff.mpr hstart') (hlabelled'.places_iff.mpr hstop') hfound hcovered'
    have hreal := hclosed.throws hcaught ⟨start', stop', hstart', hstop', hcovered'⟩ hthere
      (by rwa [← Instruction.isReal_bare, ← hbare, Instruction.isReal_bare]) hfound.1
    have hentry (locals : List FlowType) : handler.entryFrame locals = caught.entryFrame locals := by
      rw [Handler.entryFrame, Handler.entryFrame, hmatches.caught]
    rw [hentry, hentry]
    exact ⟨htyping.arrives_retype hbefore hreal hordinal, htyping.arrives_retype hafter hreal hordinal⟩

/-- **Bodies with the same control have the same typings.**  A typing of a body in which control does not run off
the end gives one to each body that mirrors it. -/
theorem typing_retype (hlabelled : body.WellLabelled) (hlabelled' : original.WellLabelled) (hclosed : original.Closed)
    (hresolved : body.Resolved) (hknown : body.ClassesKnown hierarchy)
    (htyping : original.Typing hierarchy typing method original.instructions.toArray id) :
    body.Typing hierarchy (body.retype original typing) method original.instructions.toArray
      (body.counterpart original) where
  sites := by
    refine ⟨h.counterpart_injective, fun {place name} hcreation => ?_, htyping.sites.known⟩
    rw [List.getElem?_toArray] at hcreation ⊢
    have hplace := realPositions_ordinalAt hcreation rfl
    obtain ⟨found, hfound⟩ := h.exists_realPositions hplace
    obtain ⟨instruction, here, real, hordinal⟩ := getElem?_realPositions.mp hfound
    rw [← hordinal] at hplace
    obtain ⟨place', other, hplace', hthere, -, hbare, -⟩ := h.exists_counterpart here real
    obtain rfl := Option.some.inj (hplace.symm.trans hplace')
    obtain rfl := Option.some.inj (hcreation.symm.trans hthere)
    rw [(h.counterpart_eq_iff here).mpr ⟨real, hplace⟩, here]
    cases instruction <;> cases hbare
    rfl
  inside hframe := by
    obtain ⟨place, hplace, -⟩ := retype_eq_some.mp hframe
    exact h.lt_of_realPositions hplace
  canonical hframe := by
    obtain ⟨place, -, hframe⟩ := retype_eq_some.mp hframe
    exact htyping.canonical hframe
  known := hknown.instructions
  handlers handler hmem := by
    have hplaces {label : Label} (hmem : .label label ∈ body.instructions) : ∃ place, body.Places label place := by
      obtain ⟨place, hplace⟩ := List.mem_iff_getElem?.mp hmem
      exact ⟨place, hlabelled.places_iff.mpr hplace⟩
    obtain ⟨hstart, hstop, hentry⟩ := hresolved.handlers hmem
    exact ⟨hplaces hstart, hplaces hstop, hplaces hentry, hknown.handlers handler hmem⟩
  step {position instruction before} here hbefore := by
    obtain ⟨place, hplace, hbefore⟩ := retype_eq_some.mp hbefore
    by_cases real : instruction.isReal
    · obtain ⟨place', other, hplace', hthere, -, hbare, htargets⟩ := h.exists_counterpart here real
      obtain rfl := Option.some.inj (hplace.symm.trans hplace')
      obtain ⟨origin, after, runs, horigin, -, hfinds, htyped⟩ := htyping.step hthere hbefore
      obtain rfl := horigin place rfl
      refine ⟨origin, after, ?_, fun k hk => ?_, fun name _ => ?_, ?_,
        h.typedAt hlabelled hlabelled' hclosed htyping here real hplace hthere hbare htargets htyped⟩
      · rwa [← Instruction.execute_bare, hbare, Instruction.execute_bare]
      · exact Option.some.inj (hplace.symm.trans ((h.counterpart_eq_iff here).mp hk.symm).2)
      · exact ((h.counterpart_eq_iff here).mpr ⟨real, hplace⟩).symm
      · rintro opcode rfl
        cases other <;> cases hbare
        exact hfinds opcode rfl
    · have unreal := Bool.not_eq_true _ ▸ real
      have hsame : body.ordinalAt (position + 1) = body.ordinalAt position := ordinalAt_succ_of_unreal here unreal
      refine ⟨0, before, ?_, fun k hk => ?_, ?_, ?_, fun _ => ⟨?_, before, ?_, fun _ _ hown => hown⟩, ?_, ?_⟩
      · cases instruction <;> first | rfl | cases unreal
      · exact absurd ((h.counterpart_eq_iff here).mp hk.symm).1 real
      · rintro name rfl
        cases unreal
      · rintro opcode rfl
        cases unreal
      · exact h.lt_of_realPositions (hsame.symm ▸ hplace)
      · exact retype_eq_some.mpr ⟨place, hsame.symm ▸ hplace, hbefore⟩
      · simp [Instruction.targets_of_unreal unreal]
      · exact fun hreal => absurd hreal real

/-- **Bodies with the same control have the same maxima.**  If an analysis of a body gets to all instructions, then
so many stack slots and local variables are in use in each body that mirrors it and in which an analysis gets to
all instructions, too. -/
theorem maxima_eq (hwf : hierarchy.WellFormed) (hroot : hierarchy.Knows Name.object)
    (howner : NameKnown hierarchy method.owner) (hlabelled : body.WellLabelled)
    (hlabelled' : original.WellLabelled) (hclosed : original.Closed) (hresolved : body.Resolved)
    (hknown : body.ClassesKnown hierarchy)
    (htyping : original.Typing hierarchy typing method original.instructions.toArray id) {initial : FlowFrame}
    (hinitial : method.initialFrame = .ok initial) {roots roots' : List Root}
    (hroots : ∀ root ∈ (0, initial) :: roots, ∃ super, typing root.1 = some super ∧
      FrameFits hierarchy id root.2 super)
    (hroots' : ∀ root ∈ (0, initial) :: roots', ∃ super, body.retype original typing root.1 = some super ∧
      FrameFits hierarchy (body.counterpart original) root.2 super)
    (hlocals : ∀ root ∈ roots ++ roots', root.2.locals = []) {analysis analysis' : Analysis}
    (hanalysis : analyze original method hierarchy roots = .ok analysis)
    (hanalysis' : analyze body method hierarchy roots' = .ok analysis')
    (hreaches : ∀ {place : ℕ} {other : Instruction}, original.instructions[place]? = some other →
      other.isReal → analysis.reaches place)
    (hreaches' : ∀ {position : ℕ} {instruction : Instruction}, body.instructions[position]? = some instruction →
      instruction.isReal → analysis'.reaches position) :
    analysis'.maxStack = analysis.maxStack ∧ analysis'.maxLocals = analysis.maxLocals := by
  have htyping' := h.typing_retype hlabelled hlabelled' hclosed hresolved hknown htyping
  obtain ⟨hstart, hbound⟩ := htyping.le_maxima hwf hroot howner hinitial hroots hanalysis
  obtain ⟨hstart', hbound'⟩ := htyping'.le_maxima hwf hroot howner hinitial hroots' hanalysis'
  have hshort {roots : List Root} {locals : ℕ} (hstart : initial.locals.length ≤ locals)
      (hlocals : ∀ root ∈ roots, root.2.locals = []) :
      ∀ root ∈ (0, initial) :: roots, root.2.locals.length ≤ locals := by
    intro root hmem
    rcases List.mem_cons.mp hmem with rfl | hmem
    · exact hstart
    · simp [hlocals root hmem]
  obtain ⟨hstack, hmore⟩ := htyping'.maxima_le hwf hroot howner hinitial hroots' hanalysis'
    (hshort hstart fun root hmem => hlocals root (List.mem_append_right _ hmem))
    fun {position instruction origin before after} here real hbefore runs horigin => by
      obtain ⟨place, hplace, hbefore⟩ := retype_eq_some.mp hbefore
      obtain ⟨place', other, hplace', hthere, hreal, hbare, -⟩ := h.exists_counterpart here real
      obtain rfl := Option.some.inj (hplace.symm.trans hplace')
      obtain rfl := horigin place ((h.counterpart_eq_iff here).mpr ⟨real, hplace⟩).symm
      obtain ⟨origin', after', runs', horigin', hcounts⟩ := hbound hthere hreal hbefore (hreaches hthere hreal)
      obtain rfl := horigin' origin rfl
      rw [← Instruction.execute_bare, ← hbare, Instruction.execute_bare, runs] at runs'
      obtain rfl := Except.ok.inj runs'
      rwa [← Instruction.extent_bare, ← hbare, Instruction.extent_bare] at hcounts
  obtain ⟨hstack', hmore'⟩ := htyping.maxima_le hwf hroot howner hinitial hroots hanalysis
    (hshort hstart' fun root hmem => hlocals root (List.mem_append_left _ hmem))
    fun {place other origin before after} hthere hreal hbefore runs horigin => by
      obtain rfl := horigin place rfl
      have hplace := realPositions_ordinalAt hthere hreal
      obtain ⟨position, hposition⟩ := h.exists_realPositions hplace
      obtain ⟨instruction, here, real, hordinal⟩ := getElem?_realPositions.mp hposition
      rw [← hordinal] at hplace
      obtain ⟨place', other', hplace', hthere', -, hbare, -⟩ := h.exists_counterpart here real
      obtain rfl := Option.some.inj (hplace.symm.trans hplace')
      obtain rfl := Option.some.inj (hthere.symm.trans hthere')
      obtain ⟨origin', after', runs', horigin', hcounts⟩ := hbound' here real
        (retype_eq_some.mpr ⟨origin, hplace, hbefore⟩) (hreaches' here real)
      obtain rfl := horigin' origin ((h.counterpart_eq_iff here).mpr ⟨real, hplace⟩).symm
      rw [← Instruction.execute_bare, hbare, Instruction.execute_bare, runs] at runs'
      obtain rfl := Except.ok.inj runs'
      rwa [← Instruction.extent_bare, hbare, Instruction.extent_bare] at hcounts
  exact ⟨le_antisymm hstack hstack', le_antisymm hmore hmore'⟩

end Mirrors

end Body

end ClassInstrument
