import ClassInstrument.Proofs.Assembly.Relaying
import ClassInstrument.Proofs.Assembly.Reanalysis

/-!
# The code of bodies that say the same

Bodies that say the same are written with the same bytes, the same handlers, and the same tables of lines and scopes:
what is written depends on the offsets of labels, and labels that denote the same have the same offset.  Only the frames
are left out here, for they come from an analysis.
-/

namespace ClassInstrument

open Interning Outcome Encoding

/-! ## Instructions and lines -/

namespace Encoding

variable {labels : Placements} {pool : Pool} {start : ℕ} {located : List (Instruction × ℕ)} {code : Bytes}

theorem writeAll_cons (labels : Placements) (entry : Instruction × ℕ) (located : List (Instruction × ℕ)) :
    writeAll labels (entry :: located) = (do
      let bytes ← write labels entry.2 entry.1
      return bytes ++ (← writeAll labels located)) := by
  simp [writeAll]

/-- Labels and line numbers make no difference to the bytes. -/
theorem writeAll_reals (labels : Placements) (located : List (Instruction × ℕ)) :
    writeAll labels (reals located) = writeAll labels located := by
  induction located with
  | nil => rfl
  | cons entry located ih =>
    obtain ⟨instruction, offset⟩ := entry
    by_cases real : instruction.isReal
    · rw [reals_cons_of_real real, writeAll_cons, writeAll_cons, ih]
    · have hnone : write labels offset instruction = pure [] := by
        cases instruction <;> first | rfl | exact absurd rfl real
      rw [reals_cons_of_unreal real, ih, writeAll_cons, hnone]
      simp

end Encoding

namespace Assembly

/-- The entries for the lines in front of instructions that stand at some offsets. -/
def linesFrom : List Instruction → List ℕ → List LineEntry
  | [], _ => []
  | .line number :: instructions, offsets =>
    ⟨UInt16.ofNat (offsets.headD 0), number⟩ :: linesFrom instructions offsets
  | _ :: instructions, offsets => linesFrom instructions offsets.tail

theorem linesFrom_cons_of_real {instruction : Instruction} (real : instruction.isReal)
    (instructions : List Instruction) (offsets : List ℕ) :
    linesFrom (instruction :: instructions) offsets = linesFrom instructions offsets.tail := by
  cases instruction <;> first | rfl | cases real

/-- The lines of instructions that match are the same. -/
theorem linesFrom_eq {related : Label → Label → Prop} {instructions originals : List Instruction}
    (h : List.Forall₂ (fun instruction original => instruction.Matches related original.sortKeys) instructions
      originals) (offsets : List ℕ) : linesFrom instructions offsets = linesFrom originals offsets := by
  induction h generalizing offsets with
  | nil => rfl
  | @cons instruction original instructions originals hmatches _ ih =>
    have hreal : instruction.isReal = original.isReal := by rw [hmatches.isReal_eq, Instruction.isReal_sortKeys]
    by_cases real : original.isReal
    · rw [linesFrom_cons_of_real real, linesFrom_cons_of_real (hreal.trans real), ih]
    · cases original with
      | line number =>
        cases hmatches with
        | same => exact congrArg (_ :: ·) (ih _)
      | label label =>
        cases hmatches with
        | same => exact ih _
      | _ => exact absurd rfl real

/-- The lines of code are those in front of its instructions. -/
theorem filterMap_lineEntry {labels : Placements} {pool : Pool} {start : ℕ} {located : List (Instruction × ℕ)}
    {code : Bytes} (h : Spells labels pool start located code) :
    located.filterMap (lineEntry (start + code.length)) =
      linesFrom (unlabelled (located.map Prod.fst)) ((reals located).map Prod.snd) := by
  induction h with
  | nil => rfl
  | @cons start first bytes located code writes others ih =>
    rw [List.length_append, ← Nat.add_assoc, List.map_cons]
    by_cases real : first.isReal
    · rw [unlabelled_cons_of_real real, linesFrom_cons_of_real real, reals_cons_of_real real, List.map_cons,
        List.tail_cons, ← ih, List.filterMap_cons_none]
      cases first <;> first | rfl | cases real
    · obtain rfl := writes.eq_nil real
      rw [reals_cons_of_unreal real]
      cases first with
      | label label => exact ih
      | line number =>
        have hroom : start < start + ([] : Bytes).length + code.length ↔ 0 < code.length := by simp
        rw [List.filterMap_cons, lineEntry, unlabelled]
        by_cases hpos : 0 < code.length
        · rw [if_pos (hroom.mpr hpos), if_pos (others.any_isReal_iff.mpr hpos), linesFrom, ← ih]
          obtain ⟨entry, hmem, real⟩ := others.exists_real (List.ne_nil_of_length_pos hpos)
          have hsome : reals located ≠ [] := List.ne_nil_of_mem (List.mem_filter.mpr ⟨hmem, real⟩)
          obtain ⟨first, rest, hreals⟩ := List.exists_cons_of_ne_nil hsome
          rw [hreals, List.map_cons, List.headD_cons, others.offset_of_reals_eq_cons hreals]
          rfl
        · rw [if_neg (hroom.not.mpr hpos), if_neg (others.any_isReal_iff.not.mpr hpos)]
          exact ih
      | _ => exact absurd rfl real

/-! ## Handlers and scopes -/

section

variable {labels labels' : Placements}

/-- Handlers that match have the same entry, if their labels have the same offsets. -/
theorem handlerEntry_eq {handler original : Handler}
    (h : handler.Matches (fun label other => labels.find label = labels'.find other) original) :
    handlerEntry labels handler = handlerEntry labels' original := by
  rw [handlerEntry, handlerEntry, h.start, h.stop, h.handler, h.caught]

/-- Scopes that match have the same entry, if their labels have the same offsets. -/
theorem variableEntry_eq {range original : VariableRange}
    (h : range.Matches (fun label other => labels.find label = labels'.find other) original) :
    variableEntry labels range = variableEntry labels' original := by
  rw [variableEntry, variableEntry, h.start, h.stop, h.name, h.descriptor, h.slot]

/-- Scopes that match have the same table, if their labels have the same offsets. -/
theorem variableAttributes_eq (name : String) {ranges originals : List VariableRange}
    (h : List.Forall₂ (VariableRange.Matches fun label other => labels.find label = labels'.find other) ranges
      originals) : variableAttributes name labels ranges = variableAttributes name labels' originals := by
  have hentries : variableEntries labels ranges = variableEntries labels' originals :=
    mapM_eq_mapM_of_forall₂ (h.imp fun _ _ => variableEntry_eq)
  rw [variableAttributes, variableAttributes, hentries]
  cases h <;> rfl

end

end Assembly

/-! ## Widening -/

namespace Widening

variable {labels : Placements} {pool : Pool} {start : ℕ} {located : List (Instruction × ℕ)} {code : Bytes}

/-- Jumps that can be written stay. -/
theorem step_of_writes {instruction : Instruction} {offset : ℕ} {bytes : Bytes}
    (h : Writes labels pool offset instruction bytes) (state : State) :
    step labels state (instruction, offset) = .ok { state with done := instruction :: state.done } := by
  cases h with
  | jump short leads =>
    obtain ⟨place, hplace, hnear, -⟩ := shortDistance_eq_ok.mp leads
    simp [step, short, hplace, fits, hnear, bind, Except.bind, pure, Except.pure]
  | wideJump wide => simp [step, wide]
  | _ => rfl

theorem foldlM_step_of_spells (h : Spells labels pool start located code) (state : State) :
    located.foldlM (step labels) state = .ok { state with done := (located.map Prod.fst).reverse ++ state.done } := by
  induction h generalizing state with
  | nil => rfl
  | cons writes _ ih =>
    rw [List.foldlM_cons, step_of_writes writes]
    refine (ih _).trans ?_
    simp

/-- **A body that can be written as it is laid out needs no wide jumps.** -/
theorem settled_widenJumps {body : Body} {offsets : Layout.Offsets}
    (hlaid : (Layout.offsets body.instructions).Settled pool offsets)
    (h : Spells (offsets.labels body.instructions) pool 0 (offsets.locate body.instructions) code) :
    body.widenJumps.Settled pool (body, false) := by
  have hwiden : widenAt body offsets = .ok { done := body.instructions.reverse, changed := false, nextLabel := body.nextLabel } := by
    rw [widenAt, foldlM_step_of_spells h, (Layout.lays_of_offsets hlaid).1, List.append_nil]
  have hround : (round body).Settled pool (body, false) := by
    refine Settled.bind hlaid (Settled.bind (settled_lift.mpr hwiden) ?_)
    simpa using settled_pure.mpr rfl
  exact Settled.bind hround (settled_pure.mpr rfl)

end Widening

/-! ## Bodies -/

namespace Body

variable {body original : Body} {pool : Pool} {offsets offsets' : Layout.Offsets} {version : Version}
  {method : MethodContext} {analysis : Analysis} {code : CodeAttribute}

/-- The instructions of a body that is laid out as another one are written with the same bytes. -/
theorem RelaidAs.writeAll_eq (h : body.RelaidAs original pool offsets' offsets) :
    writeAll (offsets'.labels body.instructions) (offsets'.locate body.instructions) =
      writeAll (offsets.labels original.instructions) (offsets.locate original.instructions) := by
  rw [← writeAll_reals, ← writeAll_reals (offsets.labels original.instructions), writeAll, writeAll]
  refine congrArg (· >>= _) (mapM_eq_mapM_of_forall₂ (h.entries.imp fun entry other hsame => ?_))
  dsimp only
  rw [hsame.1, (hsame.2.mono fun _ _ => h.labels).write_eq]

variable (h : body.Restores original) (hrelaid : body.RelaidAs original pool offsets' offsets)
  (hwritten : Assembly.Written version original method analysis offsets pool code)
include h hrelaid hwritten

/-- The handlers of a body that says the same are written with the same entries. -/
theorem Restores.exists_handlers (hlabelled : original.WellLabelled) : ∃ entries,
    (body.handlers.mapM (Assembly.handlerEntry (offsets'.labels body.instructions))).Settled pool entries ∧
      entries.filterMap id = code.handlers := by
  obtain ⟨written, hentries, hcode⟩ := hwritten.handlers
  have hhandlers := h.handlers
  rw [hcode]
  clear hcode
  generalize original.handlers = handlers at hentries hhandlers
  generalize body.handlers = others at hhandlers
  suffices hsettled : ∃ entries, List.Forall₂ (fun handler entry =>
      (Assembly.handlerEntry (offsets'.labels body.instructions) handler).Settled pool entry) others entries ∧
        entries.filterMap id = written.filterMap id by
    obtain ⟨entries, hentries, hsame⟩ := hsettled
    exact ⟨entries, (Repeats.settled_mapM (Assembly.repeats_handlerEntry _)).mpr hentries, hsame⟩
  induction hentries generalizing others with
  | nil =>
    cases hhandlers
    exact ⟨[], .nil, rfl⟩
  | @cons handler entry handlers written hentry _ ih =>
    obtain ⟨first, last, hfirst, hlast, hcase⟩ := Assembly.handlerEntry_settled hentry
    have hprotects : original.protects handler = decide (first < last) := by
      rw [Body.protects, decide_eq_decide, hwritten.ordinal_lt_iff hlabelled hfirst hlast]
    rcases hcase with ⟨hle, rfl⟩ | ⟨hlt, -⟩
    · rw [List.filter_cons_of_neg (by simpa [hprotects] using hle)] at hhandlers
      exact ih _ hhandlers
    · rw [List.filter_cons_of_pos (by simpa [hprotects] using hlt)] at hhandlers
      cases hhandlers with
      | cons hmatches hothers =>
        obtain ⟨entries, hentries, hsame⟩ := ih _ hothers
        refine ⟨entry :: entries, .cons ?_ hentries, ?_⟩
        · rwa [Assembly.handlerEntry_eq (hmatches.mono fun _ _ => hrelaid.labels)]
        · rw [List.filterMap_cons, List.filterMap_cons, hsame]

/-- The lines of a body that says the same are written with the same entries. -/
theorem Restores.lineEntries_eq
    (hcode : (writeAll (offsets'.labels body.instructions) (offsets'.locate body.instructions)).Settled pool code.code) :
    Assembly.lineEntries body offsets' = Assembly.lineEntries original offsets := by
  obtain ⟨hspells, hlength⟩ := spells_of_settled hrelaid.laid hcode
  have hbody := Assembly.filterMap_lineEntry hspells
  have horiginal := Assembly.filterMap_lineEntry hwritten.spells
  have hstarts : (reals (offsets'.locate body.instructions)).map Prod.snd =
      (reals (offsets.locate original.instructions)).map Prod.snd :=
    map_eq_map_of_forall₂ hrelaid.entries fun _ _ hsame => hsame.1
  rw [Nat.zero_add, ← hlength] at hbody
  rw [Nat.zero_add, ← hwritten.length_eq] at horiginal
  rw [Assembly.lineEntries_eq, Assembly.lineEntries_eq, hbody, horiginal,
    (Layout.lays_of_offsets hrelaid.laid).1, (Layout.lays_of_offsets hwritten.laid).1, hstarts]
  exact Assembly.linesFrom_eq h.instructions _

end Body

end ClassInstrument

/-!
## Scopes that stop before they start

A scope that stops before it starts is written with length zero, like one that stops where it starts.  So the code of
a body is that of one whose scopes are in order (`Assembly.Written.orderScopes`), and scopes make no difference to the
way of control.
-/

namespace ClassInstrument

open Interning Outcome

namespace Body

/-- A scope, except that one which stops before it starts is empty. -/
def orderScope (body : Body) (range : VariableRange) : VariableRange :=
  if body.ordinal range.stop < body.ordinal range.start then { range with stop := range.start } else range

/-- A body with scopes that do not stop before they start. -/
def orderScopes (body : Body) : Body :=
  { body with scopes := body.scopes.map body.orderScope, typeScopes := body.typeScopes.map body.orderScope }

variable {body : Body} {position next : ℕ}

theorem WellLabelled.orderScopes (h : body.WellLabelled) : body.orderScopes.WellLabelled where
  handedOut := h.handedOut
  placedOnce := h.placedOnce

theorem ClassesKnown.orderScopes {hierarchy : Hierarchy} (h : body.ClassesKnown hierarchy) :
    body.orderScopes.ClassesKnown hierarchy where
  instructions := h.instructions
  handlers := h.handlers

/-- The tables of a body with few lines and scopes can be written when the scopes are in order. -/
theorem tablesFit_orderScopes (hlines : lineCount body.instructions ≤ 65535) (hscopes : body.scopes.length ≤ 65535)
    (htypeScopes : body.typeScopes.length ≤ 65535)
    (hplaced : ∀ range ∈ body.scopes ++ body.typeScopes,
      .label range.start ∈ body.instructions ∧ .label range.stop ∈ body.instructions) :
    body.orderScopes.TablesFit where
  lines := hlines
  scopes := (List.length_map body.orderScope).trans_le hscopes
  typeScopes := (List.length_map body.orderScope).trans_le htypeScopes
  ordered range hmem := by
    rw [Body.orderScopes, ← List.map_append] at hmem
    obtain ⟨other, hother, rfl⟩ := List.mem_map.mp hmem
    obtain ⟨hstart, hstop⟩ := hplaced other hother
    unfold orderScope
    split
    · exact ⟨hstart, hstart, le_rfl⟩
    · next hle => exact ⟨hstart, hstop, Nat.not_lt.mp hle⟩

theorem Flows.orderScopes (h : body.Flows position next) : body.orderScopes.Flows position next := by
  cases h with
  | next here falls room => exact .next here falls room
  | jump here targeted placed => exact .jump here targeted placed
  | throw here real listed starts stops covered placed =>
    exact .throw here real listed starts stops covered placed

theorem Condensed.orderScopes (h : body.Condensed) : body.orderScopes.Condensed := by
  have hreachable {place : ℕ} (hreach : body.Reachable [0] place) : body.orderScopes.Reachable [0] place := by
    obtain ⟨entry, hentry, hpath⟩ := hreach
    exact ⟨entry, hentry, hpath.lift id fun _ _ => Flows.orderScopes⟩
  have hstrays {place : ℕ} (hstrays : body.orderScopes.Strays place) : body.Strays place :=
    ⟨hstrays.1, fun hreach => hstrays.2 (hreachable hreach)⟩
  refine ⟨fun hk => h.throws (hstrays hk), fun hk => h.uncaught (hstrays hk), fun hlt hj hk => ?_⟩
  obtain ⟨i, hji, hik, hreal, hreach⟩ := h.apart hlt (hstrays hj) (hstrays hk)
  exact ⟨i, hji, hik, hreal, hreachable hreach⟩

end Body

namespace Assembly

variable {version : Version} {final : Body} {method : MethodContext} {hierarchy : Hierarchy} {roots : List Root}
  {analysis : Analysis} {offsets : Layout.Offsets} {pool : Pool} {code : CodeAttribute}

theorem Ready.orderScopes (h : Ready final method hierarchy roots analysis) :
    Ready final.orderScopes method hierarchy roots analysis where
  wellLabelled := h.wellLabelled.orderScopes
  closed := ⟨h.closed.nonempty, h.closed.falls, h.closed.jumps, h.closed.throws⟩
  condensed := h.condensed.orderScopes
  analyzed := h.analyzed
  rooted := h.rooted
  reaches := h.reaches

namespace Written

variable (h : Written version final method analysis offsets pool code) (hlabelled : final.WellLabelled)
include h

/-- The scopes of a body that was written have entries. -/
theorem exists_variableEntry : ∀ range ∈ final.scopes ++ final.typeScopes, ∃ entry,
    variableEntry (offsets.labels final.instructions) range = .ok entry := by
  have hentries {name : String} {ranges : List VariableRange} {attrs : List Attribute}
      (h : (variableAttributes name (offsets.labels final.instructions) ranges).Settled pool attrs) :
      ∀ range ∈ ranges, ∃ entry, variableEntry (offsets.labels final.instructions) range = .ok entry := by
    unfold variableAttributes at h
    split at h
    · next hnone => simp [List.isEmpty_iff.mp hnone]
    · obtain ⟨entries, hentries, -⟩ := ((Repeats.lift _).settled_bind fun _ =>
        (Attribute.repeats_make _ _).bind fun _ => .pure _).mp h
      intro range hmem
      obtain ⟨entry, -, hentry⟩ := exists_right_of_forall₂ (mapM_eq_ok.mp (settled_lift.mp hentries)) hmem
      exact ⟨entry, hentry⟩
  obtain ⟨frames, lines, scopes, typeScopes, -, -, hscopes, htypeScopes, -⟩ := h.exists_attributes
  intro range hmem
  exact (List.mem_append.mp hmem).elim (hentries hscopes range) (hentries htypeScopes range)

include hlabelled

/-- The labels of scopes are placed. -/
theorem scopes_placed : ∀ range ∈ final.scopes ++ final.typeScopes,
    .label range.start ∈ final.instructions ∧ .label range.stop ∈ final.instructions := by
  intro range hmem
  obtain ⟨entry, hentry⟩ := h.exists_variableEntry range hmem
  obtain ⟨start, hstart, hentry⟩ := bind_eq_ok.mp hentry
  obtain ⟨stop, hstop, -⟩ := bind_eq_ok.mp hentry
  exact ⟨h.mem_of_find hlabelled hstart, h.mem_of_find hlabelled hstop⟩

/-- A scope is written with the same entry when it is in order. -/
theorem variableEntry_orderScope {range : VariableRange} (hmem : range ∈ final.scopes ++ final.typeScopes) :
    variableEntry (offsets.labels final.instructions) (final.orderScope range) =
      variableEntry (offsets.labels final.instructions) range := by
  unfold Body.orderScope
  split
  · next hlt =>
    obtain ⟨entry, hentry⟩ := h.exists_variableEntry range hmem
    obtain ⟨start, hstart, hentry⟩ := bind_eq_ok.mp hentry
    obtain ⟨stop, hstop, -⟩ := bind_eq_ok.mp hentry
    have hbefore := (h.ordinal_lt_iff hlabelled hstop hstart).mp hlt
    simp [variableEntry, hstart, hstop, bind, Except.bind, Nat.sub_eq_zero_of_le hbefore.le]
  · rfl

/-- **The order of scopes makes no difference** to what is written for a body. -/
theorem orderScopes : Written version final.orderScopes method analysis offsets pool code where
  laid := h.laid
  length_eq := h.length_eq
  length_le := h.length_le
  spells := h.spells
  handlers := h.handlers
  attributes := by
    have hattributes (name : String) (ranges : List VariableRange)
        (hmem : ∀ range ∈ ranges, range ∈ final.scopes ++ final.typeScopes) :
        variableAttributes name (offsets.labels final.instructions) (ranges.map final.orderScope) =
          variableAttributes name (offsets.labels final.instructions) ranges := by
      have hentries : variableEntries (offsets.labels final.instructions) (ranges.map final.orderScope) =
          variableEntries (offsets.labels final.instructions) ranges :=
        mapM_eq_mapM_of_forall₂ (List.forall₂_map_left_iff.mpr
          (List.forall₂_same.mpr fun range hrange => h.variableEntry_orderScope hlabelled (hmem range hrange)))
      rw [variableAttributes, variableAttributes, hentries, List.isEmpty_map]
    have hscopes := hattributes VariableEntry.attributeName final.scopes fun range =>
      List.mem_append_left _
    have htypeScopes := hattributes VariableEntry.typeAttributeName final.typeScopes fun range =>
      List.mem_append_right _
    have hsettled := h.attributes
    rw [Assembly.attributes] at hsettled ⊢
    dsimp only [Body.orderScopes] at hsettled ⊢
    rwa [hscopes, htypeScopes]
  maxStack_lt := h.maxStack_lt
  maxLocals_lt := h.maxLocals_lt

end Written

end Assembly

end ClassInstrument
