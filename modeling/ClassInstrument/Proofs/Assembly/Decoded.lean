import ClassInstrument.Proofs.Assembly.Prepared
import ClassInstrument.Proofs.Code.Placing

/-!
# Decoding what was assembled

The parts that are read from the code of a written body are its instructions, handlers, lines and scopes,
with labels that are given to the offsets of its own labels.  So decoding undoes assembly: it restores the
body that was laid out, up to the names of labels and to handlers that protect nothing.
-/

namespace ClassInstrument

open Interning Outcome Encoding

/-! ## Bodies that say the same -/

namespace Body

/-- Labels of two bodies denote the same: both are placed, and as many instructions come before them. -/
structure SamePlace (body original : Body) (label written : Label) : Prop where
  mem : .label label ∈ body.instructions
  written_mem : .label written ∈ original.instructions
  ordinal_eq : body.ordinal label = original.ordinal written

/-- A handler of a body protects an instruction. -/
def protects (body : Body) (handler : Handler) : Bool :=
  body.ordinal handler.start < body.ordinal handler.stop

/-- A body says the same as another one: it has the same instructions behind the same line numbers, the same
handlers but for those that protect nothing, and the same scopes, with labels that denote the same. -/
structure Restores (body original : Body) : Prop where
  wellLabelled : body.WellLabelled
  instructions : List.Forall₂ (fun instruction (written : Instruction) =>
      instruction.Matches (body.SamePlace original) written.sortKeys)
    (unlabelled body.instructions) (unlabelled original.instructions)
  handlers : List.Forall₂ (Handler.Matches (body.SamePlace original)) body.handlers
    (original.handlers.filter original.protects)
  scopes : List.Forall₂ (VariableRange.Matches (body.SamePlace original)) body.scopes original.scopes
  typeScopes : List.Forall₂ (VariableRange.Matches (body.SamePlace original)) body.typeScopes
    original.typeScopes

end Body

/-! ## Offsets and ordinals -/

namespace Encoding.Spells

variable {labels : Placements} {pool : Pool} {start : ℕ} {located : List (Instruction × ℕ)}
  {code : Bytes}

/-- The instructions before an entry are those at lower offsets. -/
theorem countP_take (h : Spells labels pool start located code) {i offset : ℕ} {instruction : Instruction}
    (here : located[i]? = some (instruction, offset)) :
    (located.take i).countP (·.1.isReal) = (reals located).countP (·.2 < offset) := by
  have hbefore : ∀ entry ∈ located.take i, entry.1.isReal → entry.2 < offset := by
    intro entry hmem real
    obtain ⟨k, hk⟩ := List.mem_iff_getElem?.mp hmem
    rw [List.getElem?_take] at hk
    split at hk
    · next hlt => exact (h.offset_lt_iff hlt.le hk here).2.mpr ⟨k, entry, le_rfl, hlt, hk, real⟩
    · cases hk
  have hbehind : ∀ entry ∈ located.drop i, ¬ entry.2 < offset := by
    intro entry hmem
    obtain ⟨k, hk⟩ := List.mem_iff_getElem?.mp hmem
    rw [List.getElem?_drop] at hk
    exact Nat.not_lt.mpr (h.offset_lt_iff (Nat.le_add_right i k) here hk).1
  have hnone : (located.drop i).countP (fun entry => entry.2 < offset && entry.1.isReal) = 0 := by
    refine List.countP_eq_zero.mpr fun entry hmem => ?_
    simp [hbehind entry hmem]
  conv_rhs => rw [reals, List.countP_filter, ← List.take_append_drop i located, List.countP_append, hnone]
  refine List.countP_congr fun entry hmem => ?_
  by_cases real : entry.1.isReal
  · simp [real, hbefore entry hmem real]
  · simp [real]

/-- An entry stands where an instruction starts, or at the end. -/
theorem starts_or_end (h : Spells labels pool start located code) {entry : Instruction × ℕ}
    (hmem : entry ∈ located) :
    entry.2 = start + code.length ∨ ∃ first ∈ reals located, first.2 = entry.2 := by
  obtain ⟨i, here⟩ := List.mem_iff_getElem?.mp hmem
  obtain ⟨front, bytes, rest, rfl, hoffset, hwrites, hrest⟩ := h.split here
  by_cases real : entry.1.isReal
  · exact .inr ⟨entry, List.mem_filter.mpr ⟨hmem, real⟩, rfl⟩
  · obtain rfl := hwrites.eq_nil real
    by_cases hnone : rest = []
    · left
      simp [hoffset, hnone]
    · obtain ⟨instruction, hfirst, hreal⟩ := hrest.exists_first (hrest.exists_real hnone)
      exact .inr ⟨_, List.mem_filter.mpr ⟨List.mem_of_mem_drop hfirst, hreal⟩, by simp⟩

end Encoding.Spells

namespace Assembly.Written

variable {version : Version} {final : Body} {method : MethodContext} {analysis : Analysis}
  {pool : Pool} {offsets : Layout.Offsets} {code : CodeAttribute}

/-- A label is placed where it has an offset. -/
theorem mem_of_find (h : Written version final method analysis offsets pool code)
    (hlabelled : final.WellLabelled) {label : Label} {offset : ℕ}
    (hfind : (offsets.labels final.instructions).find label = .ok offset) :
    .label label ∈ final.instructions := by
  obtain ⟨i, hi⟩ := (Layout.find_labels hlabelled h.laid).mp hfind
  exact List.mem_of_getElem? ((Layout.getElem?_locate h.laid).mpr ⟨offset, hi⟩)

/-- Before a label come the instructions at lower offsets. -/
theorem ordinal_eq (h : Written version final method analysis offsets pool code)
    (hlabelled : final.WellLabelled) {label : Label} {offset : ℕ}
    (hfind : (offsets.labels final.instructions).find label = .ok offset) :
    final.ordinal label =
      (reals (offsets.locate final.instructions)).countP (·.2 < offset) := by
  obtain ⟨i, hi⟩ := (Layout.find_labels hlabelled h.laid).mp hfind
  have here := (Layout.getElem?_locate h.laid).mpr ⟨offset, hi⟩
  rw [hlabelled.ordinal_eq here, ← h.spells.countP_take hi]
  conv_lhs => rw [← (Layout.lays_of_offsets h.laid).1, ← List.map_take, List.countP_map]
  rfl

/-- Labels have offsets in the order of what they denote. -/
theorem ordinal_lt_iff (h : Written version final method analysis offsets pool code)
    (hlabelled : final.WellLabelled) {label other : Label} {offset offset' : ℕ}
    (hfind : (offsets.labels final.instructions).find label = .ok offset)
    (hother : (offsets.labels final.instructions).find other = .ok offset') :
    final.ordinal label < final.ordinal other ↔ offset < offset' := by
  obtain ⟨i, hi⟩ := (Layout.find_labels hlabelled h.laid).mp hfind
  obtain ⟨j, hj⟩ := (Layout.find_labels hlabelled h.laid).mp hother
  rw [h.offset_lt_iff hi hj]
  exact hlabelled.ordinal_lt_iff ((Layout.getElem?_locate h.laid).mpr ⟨offset, hi⟩)
    ((Layout.getElem?_locate h.laid).mpr ⟨offset', hj⟩)

/-! ## Parts of the code -/

/-- The handlers that protect something are read back. -/
theorem reads_handlers (h : Written version final method analysis offsets pool code)
    (hlabelled : final.WellLabelled) (start offset : ℕ) :
    CodeReader.Reads (offsets.labels final.instructions) start offset
      (code.handlers.mapM (CodeReader.handler pool)) [] fun later handlers =>
        List.Forall₂ (Handler.Matches (Agrees later (offsets.labels final.instructions))) handlers
          (final.handlers.filter final.protects) := by
  obtain ⟨written, hwritten, hhandlers⟩ := h.handlers
  rw [hhandlers]
  refine CodeReader.Reads.mapM ?_
  clear hhandlers
  generalize final.handlers = handlers at hwritten
  induction hwritten with
  | nil => exact .nil
  | @cons handler entry handlers written hentry _ ih =>
    obtain ⟨first, last, hfirst, hlast, hcase⟩ := handlerEntry_settled hentry
    have hprotects : final.protects handler = decide (first < last) := by
      rw [Body.protects, decide_eq_decide, h.ordinal_lt_iff hlabelled hfirst hlast]
    rcases hcase with ⟨hle, rfl⟩ | ⟨hlt, place, caught, hplace, hcaught, rfl⟩
    · rw [List.filterMap_cons_none rfl, List.filter_cons_of_neg (by simpa [hprotects] using hle)]
      exact ih
    · rw [List.filter_cons_of_pos (by simpa [hprotects] using hlt)]
      exact .cons (CodeReader.reads_handler (h.toNat_ofNat hlabelled) hentry) ih

/-- The tables are read back from the attributes. -/
theorem reads_tables (h : Written version final method analysis offsets pool code)
    (hlabelled : final.WellLabelled) (hfit : final.TablesFit) (start offset : ℕ) :
    CodeReader.Reads (offsets.labels final.instructions) start offset
      (code.attributes.foldlM (BodyTables.note pool) {}) [] fun later tables =>
        tables.lines = (lineEntries final offsets).foldl BodyTables.noteLine ∅ ∧
        List.Forall₂ (VariableRange.Matches (Agrees later (offsets.labels final.instructions)))
          tables.scopes final.scopes ∧
        List.Forall₂ (VariableRange.Matches (Agrees later (offsets.labels final.instructions)))
          tables.typeScopes final.typeScopes := by
  obtain ⟨frames, lines, scopes, typeScopes, hframes, hlines, hscopes, htypeScopes, hattributes⟩ :=
    h.exists_attributes
  rw [hattributes, List.foldlM_append, List.foldlM_append, List.foldlM_append]
  have hplaced : ∀ {label : Label} {place : ℕ},
      (offsets.labels final.instructions).find label = .ok place → (UInt16.ofNat place).toNat = place :=
    h.toNat_ofNat hlabelled
  have hordered : ∀ range ∈ final.scopes ++ final.typeScopes, ∀ first last,
      (offsets.labels final.instructions).find range.start = .ok first →
        (offsets.labels final.instructions).find range.stop = .ok last → first ≤ last := by
    intro range hmem first last hfirst hlast
    have hle := (hfit.ordered range hmem).ordinal_le
    by_contra hlt
    have := (h.ordinal_lt_iff hlabelled hlast hfirst).mpr (Nat.not_le.mp hlt)
    omega
  have hlength : (lineEntries final offsets).length ≤ 65535 := by
    have hcount := h.spells.length_lineEntries
    rw [Nat.zero_add, ← h.length_eq, ← lineEntries_eq, (Layout.lays_of_offsets h.laid).1] at hcount
    exact hcount ▸ hfit.lines
  -- Each list of attributes is taken into the tables that the ones before it have left.
  have hfirst : CodeReader.Reads (offsets.labels final.instructions) start offset
      (frames.foldlM (BodyTables.note pool) {} >>= fun tables =>
        lines.foldlM (BodyTables.note pool) tables) [] fun _ tables =>
      tables = { lines := (lineEntries final offsets).foldl BodyTables.noteLine ∅ } :=
    (CodeReader.reads_frameAttributes hframes {}).bind fun tables =>
      (CodeReader.reads_lineAttributes hlines hlength tables).mono fun later value hvalue htables => by
        rw [hvalue, htables]
  have hsecond : CodeReader.Reads (offsets.labels final.instructions) start offset
      (frames.foldlM (BodyTables.note pool) {} >>= (fun tables =>
        lines.foldlM (BodyTables.note pool) tables) >>= fun tables =>
          scopes.foldlM (BodyTables.note pool) tables) [] fun later tables =>
      tables.lines = (lineEntries final offsets).foldl BodyTables.noteLine ∅ ∧ tables.typeScopes = [] ∧
        List.Forall₂ (VariableRange.Matches (Agrees later (offsets.labels final.instructions)))
          tables.scopes final.scopes := by
    refine hfirst.bindKnown fun tables given htables => ?_
    refine (CodeReader.reads_scopes hfit.scopes hplaced (fun range hmem => hordered range
      (List.mem_append_left _ hmem)) hscopes (by rw [htables])).mono ?_
    rintro later value ⟨scopes, rfl, hscopes⟩ rfl
    exact ⟨rfl, rfl, hscopes⟩
  refine hsecond.bindKnown fun tables given htables => ?_
  refine (CodeReader.reads_typeScopes hfit.typeScopes hplaced (fun range hmem => hordered range
    (List.mem_append_right _ hmem)) htypeScopes htables.2.1).mono ?_
  rintro later value ⟨typeScopes, rfl, htypeScopes⟩ ⟨hlines, -, hscopes⟩
  exact ⟨hlines, hscopes, htypeScopes⟩

/-- What is read from the code of a body: its instructions at their offsets, its handlers and its tables, with
labels given to the offsets of its labels. -/
structure Recovered (final : Body) (offsets : Layout.Offsets) (entries : List (ℕ × Instruction))
    (handlers : List Handler) (tables : BodyTables) (given : OffsetLabels) : Prop where
  follows : given.Follows (offsets.labels final.instructions)
  instructions : List.Forall₂ (CodeReader.ReadAs given (offsets.labels final.instructions)) entries
    (reals (offsets.locate final.instructions))
  handlers : List.Forall₂ (Handler.Matches (Agrees given (offsets.labels final.instructions))) handlers
    (final.handlers.filter final.protects)
  lines : tables.lines = (lineEntries final offsets).foldl BodyTables.noteLine ∅
  scopes : List.Forall₂ (VariableRange.Matches (Agrees given (offsets.labels final.instructions)))
    tables.scopes final.scopes
  typeScopes : List.Forall₂ (VariableRange.Matches (Agrees given (offsets.labels final.instructions)))
    tables.typeScopes final.typeScopes

/-- The parts of the code that was written for a body are read. -/
theorem exists_recovered (h : Written version final method analysis offsets pool code)
    (hlabelled : final.WellLabelled) (hfit : final.TablesFit)
    (hdecodable : ∀ instruction ∈ final.instructions, instruction.Decodable pool) :
    ∃ entries handlers tables start given,
      (Body.decodeParts code pool).run { rest := code.code } =
        .ok ((entries, handlers, tables), ⟨start, code.code.length, [], given⟩) ∧
      Recovered final offsets entries handlers tables given := by
  have hlocated := (Layout.lays_of_offsets h.laid).1
  have hwritable : ∀ entry ∈ offsets.locate final.instructions, entry.1.Decodable pool := fun entry hmem =>
    hdecodable _ (hlocated ▸ List.mem_map_of_mem hmem)
  obtain ⟨entries, start, given, hentries, hfollows, -, hread⟩ :=
    CodeReader.instructionsAfter_of_spells h.spells hwritable h.length_le le_rfl 0 []
      (OffsetLabels.follows_empty _)
  obtain ⟨handlers, given', hhandlers, hfollows', hgrows, hsame⟩ :=
    h.reads_handlers hlabelled start (0 + code.code.length) [] given hfollows
  obtain ⟨tables, given'', htables, hfollows'', hgrows', hpost⟩ :=
    h.reads_tables hlabelled hfit start (0 + code.code.length) [] given' hfollows'
  obtain ⟨hlines, hscopes, htypeScopes⟩ := hpost _ (.refl _)
  refine ⟨entries, handlers, tables, start, given'', ?_, hfollows'', hread _ (hgrows.trans hgrows'),
    hsame _ hgrows', hlines, hscopes, htypeScopes⟩
  rw [Nat.zero_add] at hentries hhandlers htables
  exact (CodeReader.bind_apply hentries).trans ((CodeReader.bind_apply hhandlers).trans
    (CodeReader.bind_apply htables))

/-! ## The decoded body -/

section

variable {entries : List (ℕ × Instruction)} {handlers : List Handler} {tables : BodyTables}
  {given : OffsetLabels} {label original : Label} {offset : ℕ}
  (h : Written version final method analysis offsets pool code)
  (hread : Recovered final offsets entries handlers tables given)
include h hread

/-- What is read are instructions, before the end of the code. -/
theorem recovered_entry {entry : ℕ × Instruction} (hmem : entry ∈ entries) :
    entry.2.isReal ∧ entry.1 < code.code.length := by
  obtain ⟨original, horiginal, hoffset, hmatches⟩ := exists_right_of_forall₂ hread.instructions hmem
  obtain ⟨hlocated, real⟩ := List.mem_filter.mp horiginal
  rw [hmatches.isReal_eq, Instruction.isReal_sortKeys, hoffset]
  have hbound := (h.spells.bounds hlocated).2.2 real
  exact ⟨real, by omega⟩

/-- What is read stands at increasing offsets. -/
theorem recovered_sorted : entries.Pairwise (·.1 < ·.1) := by
  have hoffsets := map_eq_map_of_forall₂ hread.instructions fun _ _ hsame => hsame.1
  exact List.pairwise_map.mp (hoffsets ▸ List.pairwise_map.mpr h.spells.pairwise_reals)

/-- Labels are given to starts of instructions and to the end only. -/
theorem recovered_starts (hlabelled : final.WellLabelled) (hmarks : given.Marks label offset) :
    Body.Starts entries code.code.length offset := by
  obtain ⟨original, hfind⟩ := hread.follows.placed hmarks
  obtain ⟨i, hi⟩ := (Layout.find_labels hlabelled h.laid).mp hfind
  refine (h.spells.starts_or_end (List.mem_of_getElem? hi)).imp (fun hend => by simpa using hend) ?_
  rintro ⟨first, hfirst, rfl⟩
  obtain ⟨entry, hmem, hoffset, -⟩ := exists_left_of_forall₂ hread.instructions hfirst
  exact ⟨entry, hmem, hoffset⟩

/-- Labels that lead to the same offset denote the same. -/
theorem recovered_samePlace (hlabelled : final.WellLabelled) {decoded : Body}
    (hdecoded : decoded.instructions = Body.placedAll given tables entries code.code.length)
    (hagrees : Agrees given (offsets.labels final.instructions) label original) :
    decoded.SamePlace final label original := by
  obtain ⟨offset, hmarks, hfind⟩ := hagrees
  have hstarts := h.recovered_starts hread hlabelled hmarks
  have hreal : ∀ entry ∈ entries, entry.2.isReal := fun entry hmem => (h.recovered_entry hread hmem).1
  have hbound : ∀ entry ∈ entries, entry.1 < code.code.length := fun entry hmem =>
    (h.recovered_entry hread hmem).2
  have hlabel : ∀ other, given.labels[other]? = some label ↔ other = offset := by
    refine fun other => ⟨fun hother => ?_, fun hsame => hsame ▸ hread.follows.label_iff.mpr hmarks⟩
    exact Option.some.inj ((hread.follows.label_iff.mp hother).symm.trans hmarks)
  refine ⟨hdecoded ▸ Body.mem_placedAll hreal ((hlabel offset).mpr rfl) hstarts,
    h.mem_of_find hlabelled hfind, ?_⟩
  have hoffsets := map_eq_map_of_forall₂ hread.instructions fun _ _ hsame => hsame.1
  have hcount := congrArg (List.countP (· < offset)) hoffsets
  rw [List.countP_map, List.countP_map] at hcount
  rw [h.ordinal_eq hlabelled hfind, Body.ordinal, hdecoded]
  exact (Body.countP_placedAll hreal (h.recovered_sorted hread) hbound hlabel hstarts).trans hcount

/-- The instructions that are read stand behind the lines that they were written behind. -/
theorem recovered_instructions {related : Label → Label → Prop}
    (himp : ∀ label original, Agrees given (offsets.labels final.instructions) label original →
      related label original) :
    List.Forall₂ (fun instruction (written : Instruction) => instruction.Matches related written.sortKeys)
      (unlabelled (Body.placedAll given tables entries code.code.length))
      (unlabelled final.instructions) := by
  have hlines : ∀ offset < code.code.length,
      (tables.lines.getD offset #[]).toList = linesAt (offsets.locate final.instructions) offset := by
    intro offset hlt
    rw [← h.length_eq] at hlt
    rw [hread.lines, BodyTables.getD_foldl_noteLine, lineEntries_eq,
      lines_filterMap_lineEntry hlt (h.length_eq ▸ h.length_le)]
    simp
  have hbound : ∀ entry ∈ entries, entry.1 < code.code.length := fun entry hmem =>
    (h.recovered_entry hread hmem).2
  conv => enter [3]; rw [← (Layout.lays_of_offsets h.laid).1, h.spells.unlabelled_eq]
  rw [Body.unlabelled_placedAll fun entry hmem => (h.recovered_entry hread hmem).1]
  refine List.rel_flatMap ((List.forall₂_and_left _ _).mpr ⟨hbound, hread.instructions⟩) ?_
  rintro entry original ⟨hlt, hoffset, hmatches⟩
  dsimp only
  rw [hlines _ hlt, hoffset, withLines, withLines]
  refine List.rel_append (List.forall₂_same.mpr fun instruction hmem => ?_) (.cons (hmatches.mono himp) .nil)
  obtain ⟨line, -, rfl⟩ := List.mem_map.mp hmem
  exact .same rfl

end

/-- The code that was written for a body is decoded, and what is decoded says the same as the body. -/
theorem exists_decoded (h : Written version final method analysis offsets pool code)
    (hlabelled : final.WellLabelled) (hfit : final.TablesFit)
    (hdecodable : ∀ instruction ∈ final.instructions, instruction.Decodable pool) :
    ∃ decoded, Body.decode code pool = .ok decoded ∧ decoded.Restores final := by
  obtain ⟨entries, handlers, tables, start, given, hrun, hread⟩ :=
    h.exists_recovered hlabelled hfit hdecodable
  have hnone : Body.strayOffset? given entries code.code.length = none := by
    refine Body.strayOffset?_eq_none fun offset hmem => ?_
    obtain ⟨number, hnumber⟩ := List.mem_iff_getElem?.mp hmem
    rw [Array.getElem?_toList] at hnumber
    exact h.recovered_starts hread hlabelled (show given.Marks ⟨number⟩ offset from hnumber)
  let decoded : Body := {
    instructions := Body.placedAll given tables entries code.code.length
    handlers := handlers
    scopes := tables.scopes
    typeScopes := tables.typeScopes
    nextLabel := given.offsets.size }
  have hdecode : Body.decode code pool = .ok decoded := by
    refine bind_eq_ok.mpr ⟨_, hrun, ?_⟩
    dsimp only
    rw [hnone]
    rfl
  have hplace : ∀ label original, Agrees given (offsets.labels final.instructions) label original →
      decoded.SamePlace final label original := fun _ _ => h.recovered_samePlace hread hlabelled rfl
  exact ⟨decoded, hdecode, {
    wellLabelled := Body.wellLabelled_placedAll rfl rfl hread.follows.label_iff
      (fun entry hmem => (h.recovered_entry hread hmem).1) (h.recovered_sorted hread)
      fun entry hmem => (h.recovered_entry hread hmem).2
    instructions := h.recovered_instructions hread hplace
    handlers := hread.handlers.imp fun _ _ hsame => hsame.mono hplace
    scopes := hread.scopes.imp fun _ _ hsame => hsame.mono hplace
    typeScopes := hread.typeScopes.imp fun _ _ hsame => hsame.mono hplace }⟩

end Assembly.Written

/-- **Decoding undoes assembly.**  If the instructions of a well labelled body can be decoded from bytecode
and its tables can be written, then the code that it is assembled to is decoded.  What is decoded says the same
as the body whose dead code was replaced and whose jumps were widened: the same instructions with the same
operands behind the same line numbers, with the pairs of sparse tables in order; the handlers that protect an
instruction; the scopes of variables; and labels that denote the same instruction or the end. -/
theorem decode_assemble {body : Body} {method : MethodContext} {version : Version} {hierarchy : Hierarchy}
    {pool pool' : Pool} {code : CodeAttribute} (hlabelled : body.WellLabelled)
    (hdecodable : ∀ instruction ∈ body.instructions, instruction.Decodable pool) (hfit : body.TablesFit)
    (h : (body.assemble method version hierarchy).finish pool = .ok (code, pool')) :
    ∃ analysis middle dead final changed later decoded, analyze body method hierarchy [] = .ok analysis ∧
      body.replaceDeadCode analysis = .ok (middle, dead) ∧
      middle.widenJumps.finish pool = .ok ((final, changed), later) ∧
      Body.decode code pool' = .ok decoded ∧ decoded.Restores final := by
  obtain ⟨hextends, final, analysis, _, offsets, hprepare, hsettled, hwritten⟩ := Body.exists_written h
  obtain ⟨first, runs, middle, changed, roots, hprepared⟩ := Assembly.exists_prepared hsettled
  have hfinal := hprepared.forall_mem (fun instruction hmem => (hdecodable instruction hmem).mono hextends)
    (fun _ => trivial) rfl (fun _ => .inr rfl)
    fun opcode inverse _ hinverse => .inl (Opcode.form_inverse opcode inverse hinverse)
  obtain ⟨decoded, hdecode, hrestores⟩ := hwritten.exists_decoded (hprepared.wellLabelled hlabelled)
    (hprepared.tablesFit hlabelled hfit) hfinal
  obtain ⟨analysis, middle, dead, changed, later, hanalyze, hreplace, hwiden⟩ :=
    Assembly.exists_widened hprepare
  exact ⟨analysis, middle, dead, final, changed, later, decoded, hanalyze, hreplace, hwiden, hdecode,
    hrestores⟩

/-- A body that counts in a protected part, and starts anew if what is thrown there is null. -/
def restarting : Body where
  instructions := [
    .label ⟨0⟩, .increment 0 (-1), .label ⟨1⟩, .plain Opcode.returnVoid,
    .label ⟨2⟩, .jump Opcode.ifnull ⟨0⟩, .jump Opcode.goto ⟨1⟩]
  handlers := [⟨⟨0⟩, ⟨1⟩, ⟨2⟩, none⟩]
  nextLabel := 3

/-- A body with jumps in both directions and a handler is assembled and decoded again. -/
theorem exists_restores_restarting : restarting.WellLabelled ∧
    (∀ instruction ∈ restarting.instructions, instruction.Decodable Pool.empty) ∧ restarting.TablesFit ∧
    ∃ analysis middle dead final changed later decoded,
      analyze restarting ⟨"A", "f", "(I)V", true⟩ Classpath.empty.hierarchy [] = .ok analysis ∧
      restarting.replaceDeadCode analysis = .ok (middle, dead) ∧
      middle.widenJumps.finish Pool.empty = .ok ((final, changed), later) ∧
      Body.decode ⟨1, 1, [132, 0, 255, 177, 198, 255, 252, 167, 255, 252], [⟨0, 3, 4, none⟩], []⟩
        Pool.empty = .ok decoded ∧ decoded.Restores final := by
  have hlabelled : restarting.WellLabelled := ⟨by decide, by decide⟩
  have hdecodable : ∀ instruction ∈ restarting.instructions, instruction.Decodable Pool.empty := by
    simp only [restarting, List.forall_mem_cons]
    exact ⟨trivial, trivial, trivial, show Opcode.form _ = _ by decide, trivial, .inl (by decide),
      .inl (by decide), by simp⟩
  have hfit : restarting.TablesFit := ⟨by decide, by decide, by decide, by simp [restarting]⟩
  have hassemble : (restarting.assemble ⟨"A", "f", "(I)V", true⟩ ⟨49, 0⟩
      Classpath.empty.hierarchy).finish Pool.empty =
        .ok (⟨1, 1, [132, 0, 255, 177, 198, 255, 252, 167, 255, 252], [⟨0, 3, 4, none⟩], []⟩,
          Pool.empty) := by
    cbv
  exact ⟨hlabelled, hdecodable, hfit, decode_assemble hlabelled hdecodable hfit hassemble⟩

end ClassInstrument
