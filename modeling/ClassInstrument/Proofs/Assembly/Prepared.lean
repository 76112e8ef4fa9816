import ClassInstrument.Proofs.Assembly.Closed
import ClassInstrument.Proofs.Assembly.Widening
import ClassInstrument.Proofs.Assembly.Offsets
import ClassInstrument.Proofs.Code.Passes

/-!
# How a body is prepared

A body that is about to be laid out is analyzed, freed of dead code, and widened.  The frames that it
gets are those of the body that comes out, entered at its start and at the replacements of dead code.

The number of entries of a table takes two bytes, and the length of a scope is not negative.  A body whose
tables can be written keeps such tables while it is prepared: passes add no line numbers, and put no labels in
a new order.
-/

namespace ClassInstrument

open Interning Outcome

namespace Assembly

variable {body final : Body} {method : MethodContext} {hierarchy : Hierarchy} {pool pool' : Pool}
  {analysis : Analysis}

/-- How a body was prepared: dead code was replaced by the frames of a first analysis, jumps were
widened, and the outcome was analyzed. -/
structure Prepared (body : Body) (method : MethodContext) (hierarchy : Hierarchy) (pool : Pool)
    (first : Analysis) (runs : List DeadRun) (middle : Body) (changed : Bool) (roots : List Root)
    (final : Body) (analysis : Analysis) : Prop where
  /-- The body was analyzed. -/
  once : analyze body method hierarchy [] = .ok first
  /-- Dead code was replaced. -/
  replaced : DeadCode.Replaced first runs body middle
  /-- Jumps were widened. -/
  widened : middle.widenJumps.Settled pool (final, changed)
  /-- The entries are the start and the replacements of dead code. -/
  entered : deadCodeRoots final (runs.map DeadRun.start) = .ok roots
  /-- The outcome was analyzed. -/
  analyzed : analyze final method hierarchy roots = .ok analysis

/-- The stages in which a body was prepared. -/
theorem exists_stages (h : (prepare body method hierarchy).Settled pool (final, analysis)) :
    ∃ first middle dead changed roots, analyze body method hierarchy [] = .ok first ∧
      body.replaceDeadCode first = .ok (middle, dead) ∧ middle.widenJumps.Settled pool (final, changed) ∧
        deadCodeRoots final dead = .ok roots ∧ analyze final method hierarchy roots = .ok analysis := by
  unfold prepare at h
  have hlast : ∀ (dead : List Label) (body : Body) (widened : Bool) (first : Analysis),
      Repeats (if dead.isEmpty && !widened then return (body, first)
        else do
          let roots ← deadCodeRoots body dead
          return (body, ← analyze body method hierarchy roots)) := by
    intro dead body widened first
    split
    · exact .pure _
    · exact (Repeats.lift _).bind fun roots => (Repeats.lift _).bind fun _ => .pure _
  obtain ⟨first, hfirst, h⟩ := ((Repeats.lift _).settled_bind fun first => (Repeats.lift _).bind
    fun (middle, dead) => (Widening.repeats_rounds _ middle false).bind fun (body, widened) =>
      hlast dead body widened first).mp h
  obtain ⟨⟨middle, dead⟩, hmiddle, h⟩ := ((Repeats.lift _).settled_bind fun (middle, dead) =>
    (Widening.repeats_rounds _ middle false).bind fun (body, widened) =>
      hlast dead body widened first).mp h
  obtain ⟨⟨widened, changed⟩, hwidened, h⟩ :=
    ((Widening.repeats_rounds _ middle false).settled_bind fun (body, widened) =>
      hlast dead body widened first).mp h
  have hmiddle := settled_lift.mp hmiddle
  dsimp only at h
  split at h
  · next hsame =>
    obtain ⟨rfl, rfl⟩ := Prod.mk.inj (settled_pure.mp h)
    simp only [List.isEmpty_iff, Bool.and_eq_true, Bool.not_eq_true'] at hsame
    obtain ⟨rfl, rfl⟩ := hsame
    obtain ⟨runs, hreplaced, hnone⟩ := DeadCode.replaced_of_eq_ok hmiddle
    obtain rfl := hreplaced.unchanged (List.map_eq_nil_iff.mp hnone.symm)
    obtain rfl := (Body.widenJumps_induction (fun _ => True) (fun _ _ => trivial) trivial hwidened).2 rfl
    exact ⟨first, _, [], false, [], settled_lift.mp hfirst, hmiddle, hwidened, rfl, settled_lift.mp hfirst⟩
  · obtain ⟨roots, hroots, h⟩ := ((Repeats.lift _).settled_bind fun _ =>
      (Repeats.lift _).bind fun _ => .pure _).mp h
    obtain ⟨second, hsecond, h⟩ := ((Repeats.lift _).settled_bind fun _ => .pure _).mp h
    obtain ⟨rfl, rfl⟩ := Prod.mk.inj (settled_pure.mp h)
    exact ⟨first, middle, dead, changed, roots, settled_lift.mp hfirst, hmiddle, hwidened,
      settled_lift.mp hroots, settled_lift.mp hsecond⟩

/-- What a body was prepared from. -/
theorem exists_prepared (h : (prepare body method hierarchy).Settled pool (final, analysis)) :
    ∃ first runs middle changed roots,
      Prepared body method hierarchy pool first runs middle changed roots final analysis := by
  obtain ⟨first, middle, dead, changed, roots, hfirst, hmiddle, hwidened, hroots, hsecond⟩ := exists_stages h
  obtain ⟨runs, hreplaced, rfl⟩ := DeadCode.replaced_of_eq_ok hmiddle
  exact ⟨first, runs, middle, changed, roots, hfirst, hreplaced, hwidened, hroots, hsecond⟩

/-- What a body was prepared from, as it was asked for. -/
theorem exists_widened (h : (prepare body method hierarchy).finish pool = .ok ((final, analysis), pool')) :
    ∃ first middle dead changed later, analyze body method hierarchy [] = .ok first ∧
      body.replaceDeadCode first = .ok (middle, dead) ∧
        middle.widenJumps.finish pool = .ok ((final, changed), later) := by
  obtain ⟨first, left, hfirst, h⟩ := finish_bind.mp h
  obtain ⟨hanalyze, rfl⟩ := finish_lift.mp hfirst
  obtain ⟨⟨middle, dead⟩, left, hmiddle, h⟩ := finish_bind.mp h
  obtain ⟨hreplace, rfl⟩ := finish_lift.mp hmiddle
  obtain ⟨⟨widened, changed⟩, later, hwidened, h⟩ := finish_bind.mp h
  have hsame : widened = final := by
    dsimp only at h
    split at h
    · exact (Prod.mk.inj (finish_pure.mp h).1).1
    · obtain ⟨roots, left, -, h⟩ := finish_bind.mp h
      obtain ⟨second, left, -, h⟩ := finish_bind.mp h
      exact (Prod.mk.inj (finish_pure.mp h).1).1
  exact ⟨first, middle, dead, changed, later, hanalyze, hreplace, hsame ▸ hwidened⟩

/-- A body that was prepared is well labelled. -/
theorem Prepared.wellLabelled {first : Analysis} {runs : List DeadRun} {middle : Body}
    {changed : Bool} {roots : List Root}
    (h : Prepared body method hierarchy pool first runs middle changed roots final analysis)
    (hlabelled : body.WellLabelled) : final.WellLabelled :=
  (Body.widenJumps_induction Body.WellLabelled (fun hround => hround.wellLabelled)
    (h.replaced.wellLabelled hlabelled) h.widened).1

/-- What all instructions have, those of a body that is ready to be laid out have. -/
theorem Prepared.forall_mem {p : Instruction → Prop} {first : Analysis} {runs : List DeadRun}
    {middle : Body} {changed : Bool} {roots : List Root}
    (h : Prepared body method hierarchy pool first runs middle changed roots final analysis)
    (hbody : ∀ instruction ∈ body.instructions, p instruction) (hlabel : ∀ label, p (.label label))
    (hthrow : p (.plain Opcode.athrow)) (hgoto : ∀ target, p (.jump Opcode.gotoWide target))
    (hinverse : ∀ opcode inverse target, Opcode.inverse? opcode = some inverse →
      p (.jump inverse target)) : ∀ instruction ∈ final.instructions, p instruction :=
  (Body.widenJumps_induction (fun body => ∀ instruction ∈ body.instructions, p instruction)
    (fun hround hkept => hround.forall_mem hkept hlabel hgoto hinverse)
    (h.replaced.forall_mem hbody hlabel hthrow) h.widened).1

end Assembly

/-- A label is placed, and another one behind it or at the same instruction. -/
structure Body.Ordered (body : Body) (first last : Label) : Prop where
  first_mem : .label first ∈ body.instructions
  last_mem : .label last ∈ body.instructions
  ordinal_le : body.ordinal first ≤ body.ordinal last

/-- The tables of a body can be written: they are short enough, and no scope stops before it starts. -/
structure Body.TablesFit (body : Body) : Prop where
  lines : lineCount body.instructions ≤ 65535
  scopes : body.scopes.length ≤ 65535
  typeScopes : body.typeScopes.length ≤ 65535
  ordered : ∀ range ∈ body.scopes ++ body.typeScopes, body.Ordered range.start range.stop

/-- A pass over the instructions of a body keeps its tables such that they can be written. -/
theorem Body.TablesFit.of_pass {rewrites : Rewriting} (tame : rewrites.Tame)
    {entries : List (Instruction × ℕ)} {pieces : List (List Instruction)} {body body' : Body}
    (h : Pass rewrites entries body.nextLabel pieces body'.nextLabel)
    (hentries : entries.map Prod.fst = body.instructions) (houtput : body'.instructions = pieces.flatten)
    (hlines : lineCount body'.instructions ≤ lineCount body.instructions)
    (hscopes : body'.scopes = body.scopes) (htypeScopes : body'.typeScopes = body.typeScopes)
    (hlabelled : body.WellLabelled) (hlabelled' : body'.WellLabelled) (hfit : body.TablesFit) :
    body'.TablesFit where
  lines := hlines.trans hfit.lines
  scopes := hscopes ▸ hfit.scopes
  typeScopes := htypeScopes ▸ hfit.typeScopes
  ordered range hmem := by
    rw [hscopes, htypeScopes] at hmem
    have hordered := hfit.ordered range hmem
    have hkept : ∀ {label : Label}, .label label ∈ body.instructions →
        .label label ∈ body'.instructions := by
      intro label hmem
      obtain ⟨i, here⟩ := List.mem_iff_getElem?.mp hmem
      exact List.mem_of_getElem? (h.getElem?_label tame hentries houtput here)
    exact ⟨hkept hordered.first_mem, hkept hordered.last_mem, h.ordinal_le tame hentries houtput hlabelled
      hlabelled' hordered.first_mem hordered.last_mem hordered.ordinal_le⟩

section

variable {analysis : Analysis} {runs : List DeadRun} {body body' : Body}

/-- Replacing dead code adds no line numbers. -/
theorem DeadCode.Replaced.lineCount_le (h : Replaced analysis runs body body') :
    lineCount body'.instructions ≤ lineCount body.instructions := by
  obtain ⟨pieces, hpass, houtput, -⟩ := h.pass
  have hle := hpass.lineCount_le (tame_rewrites analysis runs) fun hrewrites hreal instruction hmem => by
    cases hrewrites with
    | keep => exact .inl (List.mem_singleton.mp hmem ▸ hreal)
    | replace =>
      simp only [replacement, List.mem_cons, List.not_mem_nil, or_false] at hmem
      rcases hmem with rfl | rfl | rfl
      · exact .inr ⟨_, rfl⟩
      · exact .inl rfl
      · exact .inr ⟨_, rfl⟩
    | drop => cases hmem
  rwa [List.zipIdx_map_fst, ← houtput] at hle

/-- Replacing dead code keeps the tables. -/
theorem DeadCode.Replaced.tablesFit (h : Replaced analysis runs body body') (hlabelled : body.WellLabelled)
    (hfit : body.TablesFit) : body'.TablesFit := by
  obtain ⟨pieces, hpass, houtput, -⟩ := h.pass
  exact hfit.of_pass (tame_rewrites analysis runs) hpass (List.zipIdx_map_fst 0 _) houtput h.lineCount_le h.scopes
    h.typeScopes hlabelled (h.wellLabelled hlabelled)

/-- A round of widening adds no line numbers. -/
theorem Widening.Rounded.lineCount_le (h : Rounded body body') :
    lineCount body'.instructions ≤ lineCount body.instructions := by
  obtain ⟨entries, pieces, hentries, hpass, houtput⟩ := h.pass
  have hle := hpass.lineCount_le tame_rewrites fun hrewrites hreal instruction hmem => by
    cases hrewrites with
    | keep => exact .inl (List.mem_singleton.mp hmem ▸ hreal)
    | goto => exact .inl (List.mem_singleton.mp hmem ▸ rfl)
    | conditional =>
      simp only [List.mem_cons, List.not_mem_nil, or_false] at hmem
      rcases hmem with rfl | rfl | rfl
      · exact .inl rfl
      · exact .inl rfl
      · exact .inr ⟨_, rfl⟩
  rwa [hentries, ← houtput] at hle

/-- A round of widening keeps the tables. -/
theorem Widening.Rounded.tablesFit (h : Rounded body body') (hlabelled : body.WellLabelled)
    (hfit : body.TablesFit) : body'.TablesFit := by
  obtain ⟨entries, pieces, hentries, hpass, houtput⟩ := h.pass
  exact hfit.of_pass tame_rewrites hpass hentries houtput h.lineCount_le h.scopes h.typeScopes hlabelled
    (h.wellLabelled hlabelled)

end

namespace Assembly.Prepared

variable {body final : Body} {method : MethodContext} {hierarchy : Hierarchy} {pool : Pool}
  {analysis first : Analysis} {runs : List DeadRun} {middle : Body} {changed : Bool} {roots : List Root}
  (h : Prepared body method hierarchy pool first runs middle changed roots final analysis)
include h

/-- A body that is prepared has as many line numbers as before at most. -/
theorem lineCount_le : lineCount final.instructions ≤ lineCount body.instructions :=
  (Body.widenJumps_induction (fun next => lineCount next.instructions ≤ lineCount body.instructions)
    (fun hround hle => hround.lineCount_le.trans hle) h.replaced.lineCount_le h.widened).1

/-- A body that is prepared has the scopes that it had. -/
theorem scopes_eq : final.scopes = body.scopes ∧ final.typeScopes = body.typeScopes :=
  (Body.widenJumps_induction (fun next => next.scopes = body.scopes ∧ next.typeScopes = body.typeScopes)
    (fun hround hsame => ⟨hround.scopes.trans hsame.1, hround.typeScopes.trans hsame.2⟩)
    ⟨h.replaced.scopes, h.replaced.typeScopes⟩ h.widened).1

/-- The tables of a body that is ready to be laid out can be written. -/
theorem tablesFit (hlabelled : body.WellLabelled) (hfit : body.TablesFit) : final.TablesFit :=
  (Body.widenJumps_induction (fun body => body.WellLabelled ∧ body.TablesFit)
    (fun hround hkept => ⟨hround.wellLabelled hkept.1, hround.tablesFit hkept.1 hkept.2⟩)
    ⟨h.replaced.wellLabelled hlabelled, h.replaced.tablesFit hlabelled hfit⟩ h.widened).1.2

end Assembly.Prepared

end ClassInstrument
