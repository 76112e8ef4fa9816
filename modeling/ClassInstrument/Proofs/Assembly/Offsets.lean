import ClassInstrument.Proofs.Assembly.Encoding
import ClassInstrument.Proofs.Code.Placements

/-!
# What an assembly has written, and where

A body that was assembled was prepared first, and then laid out, written, and given its tables.  All of
this can be told from the pool that is left.

Instructions stand in the bytecode in their order, each behind the bytes of those before it.  An entry has
a lower offset than a later one exactly if there is an instruction between them; labels and line
numbers have the offset of the next instruction.
-/

namespace ClassInstrument

open Interning Outcome

namespace Assembly

variable {version : Version} {final : Body} {method : MethodContext} {analysis : Analysis}
  {pool pool' : Pool} {offsets : Layout.Offsets} {code : CodeAttribute}

/-- A count is written if it fits in two bytes. -/
theorem slotCount_eq_ok {fault : Nat → Fault} {count : Nat} {written : UInt16} :
    slotCount fault count = .ok written ↔ count < 65536 ∧ UInt16.ofNat count = written := by
  unfold slotCount
  split <;> simp [*]

/-- What was written for a prepared body at given offsets, over the pool that is left. -/
structure Written (version : Version) (final : Body) (method : MethodContext) (analysis : Analysis)
    (offsets : Layout.Offsets) (pool : Pool) (code : CodeAttribute) : Prop where
  /-- The body is laid out at the offsets. -/
  laid : (Layout.offsets final.instructions).Settled pool offsets
  /-- The bytecode ends behind the last instruction. -/
  length_eq : offsets.length = code.code.length
  /-- The offsets fit in two bytes. -/
  length_le : code.code.length ≤ longestCode
  /-- The instructions are written at their offsets. -/
  spells : Encoding.Spells (offsets.labels final.instructions) pool 0
    (offsets.locate final.instructions) code.code
  /-- The handlers are those that protect anything. -/
  handlers : ∃ entries, List.Forall₂ (fun handler entry =>
      (handlerEntry (offsets.labels final.instructions) handler).Settled pool entry)
    final.handlers entries ∧ code.handlers = entries.filterMap id
  /-- The attributes are those of the body. -/
  attributes : (Assembly.attributes version final method analysis offsets).Settled pool
    code.attributes
  /-- The number of stack slots fits in two bytes. -/
  maxStack_lt : analysis.maxStack < 65536
  /-- The number of local variables fits in two bytes. -/
  maxLocals_lt : analysis.maxLocals < 65536

/-- The attributes of a written body: its list of frames, then its lines, and then the two kinds of scopes. -/
theorem Written.exists_attributes (h : Written version final method analysis offsets pool code) :
    ∃ frames lines scopes typeScopes,
      (frameAttributes version final method analysis offsets.starts).Settled pool frames ∧
      (lineAttributes final offsets).Settled pool lines ∧
      (variableAttributes VariableEntry.attributeName (offsets.labels final.instructions)
        final.scopes).Settled pool scopes ∧
      (variableAttributes VariableEntry.typeAttributeName (offsets.labels final.instructions)
        final.typeScopes).Settled pool typeScopes ∧
      code.attributes = frames ++ lines ++ scopes ++ typeScopes := by
  have hlines := repeats_lineAttributes final offsets
  have hscopes := repeats_variableAttributes VariableEntry.attributeName
    (offsets.labels final.instructions) final.scopes
  have htypeScopes := repeats_variableAttributes VariableEntry.typeAttributeName
    (offsets.labels final.instructions) final.typeScopes
  obtain ⟨frames, hframes, hrest⟩ :=
    ((repeats_frameAttributes version final method analysis offsets.starts).settled_bind fun _ =>
      hlines.bind fun _ => hscopes.bind fun _ => htypeScopes.bind fun _ => .pure _).mp h.attributes
  obtain ⟨lines, hlines, hrest⟩ := (hlines.settled_bind fun _ =>
    hscopes.bind fun _ => htypeScopes.bind fun _ => .pure _).mp hrest
  obtain ⟨scopes, hscopes, hrest⟩ :=
    (hscopes.settled_bind fun _ => htypeScopes.bind fun _ => .pure _).mp hrest
  obtain ⟨typeScopes, htypeScopes, hrest⟩ := (htypeScopes.settled_bind fun _ => .pure _).mp hrest
  exact ⟨frames, lines, scopes, typeScopes, hframes, hlines, hscopes, htypeScopes,
    (settled_pure.mp hrest).symm⟩

/-- The parts of what is written for a body when all requests are settled. -/
theorem exists_parts_of_settled (h : (write version final method analysis offsets).Settled pool code) :
    ∃ entries,
      (Encoding.writeAll (offsets.labels final.instructions) (offsets.locate final.instructions)).Settled pool
        code.code ∧
      (final.handlers.mapM (handlerEntry (offsets.labels final.instructions))).Settled pool entries ∧
      code.handlers = entries.filterMap id ∧
      (attributes version final method analysis offsets).Settled pool code.attributes ∧
      slotCount .stackTooHigh analysis.maxStack = .ok code.maxStack ∧
      slotCount .tooManyLocals analysis.maxLocals = .ok code.maxLocals := by
  have hhandlers := Repeats.mapM (repeats_handlerEntry (offsets.labels final.instructions))
    final.handlers
  have hattributes := repeats_attributes version final method analysis offsets
  obtain ⟨bytes, hbytes, h⟩ := ((Encoding.repeats_writeAll _ _).settled_bind fun _ =>
    hhandlers.bind fun _ => hattributes.bind fun _ => (Repeats.lift _).bind fun _ =>
      (Repeats.lift _).bind fun _ => .pure _).mp h
  obtain ⟨entries, hentries, h⟩ := (hhandlers.settled_bind fun _ => hattributes.bind fun _ =>
    (Repeats.lift _).bind fun _ => (Repeats.lift _).bind fun _ => .pure _).mp h
  obtain ⟨attributes, hattributes, h⟩ := (hattributes.settled_bind fun _ =>
    (Repeats.lift _).bind fun _ => (Repeats.lift _).bind fun _ => .pure _).mp h
  obtain ⟨maxStack, hstack, h⟩ := ((Repeats.lift _).settled_bind fun _ =>
    (Repeats.lift _).bind fun _ => .pure _).mp h
  obtain ⟨maxLocals, hlocals, h⟩ := ((Repeats.lift _).settled_bind fun _ => .pure _).mp h
  obtain rfl := settled_pure.mp h
  exact ⟨entries, hbytes, hentries, rfl, hattributes, settled_lift.mp hstack, settled_lift.mp hlocals⟩

/-- What is written for a body when all requests are settled. -/
theorem written_of_settled (hlaid : (Layout.offsets final.instructions).Settled pool offsets)
    (hlength : offsets.length ≤ longestCode)
    (h : (write version final method analysis offsets).Settled pool code) :
    Written version final method analysis offsets pool code := by
  obtain ⟨entries, hbytes, hentries, hhandlers, hattributes, hstack, hlocals⟩ := exists_parts_of_settled h
  obtain ⟨hspells, heq⟩ := Encoding.spells_of_settled hlaid hbytes
  exact {
    laid := hlaid
    length_eq := heq
    length_le := heq ▸ hlength
    spells := hspells
    handlers := ⟨entries, (Repeats.settled_mapM (repeats_handlerEntry _)).mp hentries, hhandlers⟩
    attributes := hattributes
    maxStack_lt := (slotCount_eq_ok.mp hstack).1
    maxLocals_lt := (slotCount_eq_ok.mp hlocals).1 }

end Assembly

/-- An assembled body was prepared and laid out, and is written when all requests are settled. -/
theorem Body.exists_settled_write {body : Body} {method : MethodContext} {version : Version}
    {hierarchy : Hierarchy} {pool pool' : Pool} {code : CodeAttribute}
    (h : (body.assemble method version hierarchy).finish pool = .ok (code, pool')) :
    pool.Extends pool' ∧ ∃ final analysis middle offsets,
      (Assembly.prepare body method hierarchy).finish pool = .ok ((final, analysis), middle) ∧
      (Assembly.prepare body method hierarchy).Settled pool' (final, analysis) ∧
        (Layout.offsets final.instructions).Settled pool' offsets ∧ offsets.length ≤ Assembly.longestCode ∧
          (Assembly.write version final method analysis offsets).Settled pool' code := by
  refine ⟨(body.repeats_assemble method version hierarchy).extends_of_finish h, ?_⟩
  obtain ⟨⟨final, analysis⟩, middle, hprepared, h⟩ := finish_bind.mp h
  have hrest := Assembly.repeats_layOut version method (final, analysis)
  have hagain := (Assembly.repeats_prepare body method hierarchy).again hprepared (hrest.extends_of_finish h)
  obtain ⟨offsets, hlaid, h⟩ := ((Layout.repeats_offsets _).settled_bind fun offsets => by
    split
    · exact .throw _
    · exact Assembly.repeats_write version final method analysis offsets).mp (hrest.settled h)
  split at h
  · exact absurd h not_settled_throw
  · next hlength =>
    exact ⟨final, analysis, middle, offsets, hprepared, hagain, hlaid, Nat.not_lt.mp hlength, h⟩

/-- An assembled body was prepared, laid out and written. -/
theorem Body.exists_written {body : Body} {method : MethodContext} {version : Version}
    {hierarchy : Hierarchy} {pool pool' : Pool} {code : CodeAttribute}
    (h : (body.assemble method version hierarchy).finish pool = .ok (code, pool')) :
    pool.Extends pool' ∧ ∃ final analysis middle offsets,
      (Assembly.prepare body method hierarchy).finish pool = .ok ((final, analysis), middle) ∧
      (Assembly.prepare body method hierarchy).Settled pool' (final, analysis) ∧
        Assembly.Written version final method analysis offsets pool' code := by
  obtain ⟨hextends, final, analysis, middle, offsets, hprepared, hsettled, hlaid, hlength, hwrite⟩ :=
    exists_settled_write h
  exact ⟨hextends, final, analysis, middle, offsets, hprepared, hsettled,
    Assembly.written_of_settled hlaid hlength hwrite⟩

namespace Encoding

variable {labels : Placements} {pool : Pool} {start : Nat} {located : List (Instruction × Nat)}
  {code : Bytes}

/-- Nothing is written for labels and line numbers. -/
theorem Writes.eq_nil {instruction : Instruction} {bytes : Bytes}
    (h : Writes labels pool start instruction bytes) (hunreal : ¬ instruction.isReal) : bytes = [] := by
  by_contra hne
  exact hunreal (h.length_pos.mp (List.length_pos_of_ne_nil hne))

/-- The bytes of an instruction are determined. -/
theorem Writes.unique {instruction : Instruction} {bytes bytes' : Bytes}
    (h : Writes labels pool start instruction bytes)
    (h' : Writes labels pool start instruction bytes') : bytes = bytes' := by
  have hsame : ∀ {α : Type} {requests : Interning α} {result result' : α},
      requests.Settled pool result → requests.Settled pool result' → result = result' := by
    intro α requests result result' hresult hresult'
    have := hresult.symm.trans hresult'
    simpa using this
  cases h with
  | label | line | plain | int | var | increment | invokeDynamic => cases h'; rfl
  | type _ asked =>
    cases h' with
    | type _ asked' => rw [hsame asked asked']
  | field _ asked =>
    cases h' with
    | field _ asked' => rw [hsame asked asked']
  | load asked =>
    cases h' with
    | load asked' => rw [hsame asked asked']
  | multiArray _ asked =>
    cases h' with
    | multiArray _ asked' => rw [hsame asked asked']
  | method asked counted =>
    cases h' with
    | method asked' counted' =>
      rw [hsame asked asked', Except.ok.inj (counted.symm.trans counted')]
  | jump short leads =>
    cases h' with
    | jump _ leads' => rw [Except.ok.inj (leads.symm.trans leads')]
    | wideJump wide => simp [short] at wide
  | wideJump wide leads =>
    cases h' with
    | jump short => simp [short] at wide
    | wideJump _ leads' => rw [Except.ok.inj (leads.symm.trans leads')]
  | tableSwitch leads =>
    cases h' with
    | tableSwitch leads' => exact Except.ok.inj (leads.symm.trans leads')
  | lookupSwitch leads =>
    cases h' with
    | lookupSwitch leads' => exact Except.ok.inj (leads.symm.trans leads')

namespace Spells

/-- The bytecode at an entry: its own bytes come behind those of the entries before it. -/
theorem split (h : Spells labels pool start located code) {i offset : Nat}
    {instruction : Instruction} (here : located[i]? = some (instruction, offset)) :
    ∃ front bytes rest, code = front ++ (bytes ++ rest) ∧ offset = start + front.length ∧
      Writes labels pool offset instruction bytes ∧
        Spells labels pool (offset + bytes.length) (located.drop (i + 1)) rest := by
  induction h generalizing i with
  | nil => simp at here
  | @cons start first bytes located code writes others ih =>
    cases i with
    | zero =>
      obtain ⟨rfl, rfl⟩ := Prod.mk.inj (Option.some.inj here)
      exact ⟨[], bytes, code, rfl, rfl, writes, others⟩
    | succ i =>
      obtain ⟨front, own, rest, rfl, hoffset, hwrites, hrest⟩ := ih here
      exact ⟨bytes ++ front, own, rest, by simp, by simp [hoffset, Nat.add_assoc], hwrites, hrest⟩

/-- The first instruction stands at the start, whatever labels and line numbers come before it. -/
theorem exists_first (h : Spells labels pool start located code)
    (hreal : ∃ entry ∈ located, entry.1.isReal) :
    ∃ instruction, (instruction, start) ∈ located ∧ instruction.isReal := by
  induction h with
  | nil => simp at hreal
  | @cons start first bytes located code writes others ih =>
    by_cases real : first.isReal
    · exact ⟨first, List.mem_cons_self, real⟩
    · obtain rfl := writes.eq_nil real
      obtain ⟨entry, hmem, hentry⟩ := hreal
      rcases List.mem_cons.mp hmem with rfl | hmem
      · exact absurd hentry real
      · obtain ⟨instruction, hmem, hinstruction⟩ := ih ⟨entry, hmem, hentry⟩
        exact ⟨instruction, List.mem_cons_of_mem _ hmem, hinstruction⟩

/-- Bytecode that is not empty holds an instruction. -/
theorem exists_real (h : Spells labels pool start located code) (hne : code ≠ []) :
    ∃ entry ∈ located, entry.1.isReal := by
  induction h with
  | nil => exact absurd rfl hne
  | @cons start first bytes located code writes others ih =>
    by_cases real : first.isReal
    · exact ⟨_, List.mem_cons_self, real⟩
    · obtain ⟨entry, hmem, hentry⟩ := ih (by simpa [writes.eq_nil real] using hne)
      exact ⟨entry, List.mem_cons_of_mem _ hmem, hentry⟩

/-- Entries stand between the start and the end, and instructions before the end. -/
theorem bounds (h : Spells labels pool start located code) {instruction : Instruction} {offset : Nat}
    (hmem : (instruction, offset) ∈ located) : start ≤ offset ∧ offset ≤ start + code.length ∧
      (instruction.isReal → offset < start + code.length) := by
  obtain ⟨i, here⟩ := List.mem_iff_getElem?.mp hmem
  obtain ⟨front, bytes, rest, rfl, rfl, hwrites, -⟩ := h.split here
  refine ⟨Nat.le_add_right _ _, by simp, fun real => ?_⟩
  have := hwrites.length_pos.mpr real
  simp only [List.length_append]
  omega

/-- A later entry has a higher offset exactly if there is an instruction before it. -/
theorem offset_iff (h : Spells labels pool start located code) {j offset : Nat}
    {instruction : Instruction} (here : located[j]? = some (instruction, offset)) :
    start ≤ offset ∧ (start < offset ↔ ∃ (i : Nat) (entry : Instruction × Nat), i < j ∧
      located[i]? = some entry ∧ entry.1.isReal) := by
  induction h generalizing j with
  | nil => simp at here
  | @cons start first bytes located code writes others ih =>
    cases j with
    | zero =>
      obtain ⟨rfl, rfl⟩ := Prod.mk.inj (Option.some.inj here)
      simp
    | succ j =>
      obtain ⟨hle, hlt⟩ := ih here
      have hpos := writes.length_pos
      refine ⟨by omega, fun hstart => ?_, ?_⟩
      · by_cases real : first.isReal
        · exact ⟨0, _, Nat.zero_lt_succ j, rfl, real⟩
        · have hnil := writes.eq_nil real
          obtain ⟨i, entry, hij, hentry, real⟩ := hlt.mp (by simpa [hnil] using hstart)
          exact ⟨i + 1, entry, by omega, hentry, real⟩
      · rintro ⟨i, entry, hij, hentry, real⟩
        cases i with
        | zero =>
          obtain rfl := Option.some.inj hentry
          have := hpos.mpr real
          omega
        | succ i =>
          have := hlt.mpr ⟨i, entry, by omega, hentry, real⟩
          omega

/-- The bytecode from an entry on. -/
theorem drop (h : Spells labels pool start located code) {i offset : Nat}
    {instruction : Instruction} (here : located[i]? = some (instruction, offset)) :
    ∃ rest, Spells labels pool offset (located.drop i) rest := by
  obtain ⟨front, bytes, rest, -, -, hwrites, hrest⟩ := h.split here
  obtain ⟨hlt, hget⟩ := List.getElem?_eq_some_iff.mp here
  rw [List.drop_eq_getElem_cons hlt, hget]
  exact ⟨_, .cons hwrites hrest⟩

/-- An entry has a higher offset than an earlier one exactly if there is an instruction between them. -/
theorem offset_lt_iff (h : Spells labels pool start located code) {i j offset offset' : Nat}
    {instruction instruction' : Instruction} (hij : i ≤ j)
    (hi : located[i]? = some (instruction, offset))
    (hj : located[j]? = some (instruction', offset')) :
    offset ≤ offset' ∧ (offset < offset' ↔ ∃ (k : Nat) (entry : Instruction × Nat),
      i ≤ k ∧ k < j ∧ located[k]? = some entry ∧ entry.1.isReal) := by
  obtain ⟨rest, hrest⟩ := h.drop hi
  have hj' : (located.drop i)[j - i]? = some (instruction', offset') := by
    rw [List.getElem?_drop, Nat.add_sub_cancel' hij, hj]
  obtain ⟨hle, hlt⟩ := hrest.offset_iff hj'
  refine ⟨hle, hlt.trans ⟨?_, ?_⟩⟩
  · rintro ⟨k, entry, hk, hentry, real⟩
    rw [List.getElem?_drop] at hentry
    exact ⟨i + k, entry, by omega, by omega, hentry, real⟩
  · rintro ⟨k, entry, hik, hkj, hentry, real⟩
    refine ⟨k - i, entry, by omega, ?_, real⟩
    rw [List.getElem?_drop, Nat.add_sub_cancel' hik, hentry]

/-- An instruction stands right behind the bytes of an entry exactly if one comes behind the entry. -/
theorem starts_iff (h : Spells labels pool start located code) {i offset : Nat} {bytes : Bytes}
    {instruction : Instruction} (here : located[i]? = some (instruction, offset))
    (hwrites : Writes labels pool offset instruction bytes) :
    (∃ next, (next, offset + bytes.length) ∈ located ∧ next.isReal) ↔
      ∃ (later : Nat) (entry : Instruction × Nat), i < later ∧ located[later]? = some entry ∧
        entry.1.isReal := by
  constructor
  · rintro ⟨next, hmem, real⟩
    obtain ⟨j, hj⟩ := List.mem_iff_getElem?.mp hmem
    refine ⟨j, _, ?_, hj, real⟩
    by_contra hle
    obtain ⟨hle', hlt⟩ := h.offset_lt_iff (Nat.not_lt.mp hle) hj here
    rcases Nat.eq_or_lt_of_le (Nat.not_lt.mp hle) with rfl | hbefore
    · obtain ⟨rfl, -⟩ := Prod.mk.inj (Option.some.inj (hj.symm.trans here))
      have := hwrites.length_pos.mpr real
      omega
    · have := hlt.mpr ⟨j, _, le_rfl, hbefore, hj, real⟩
      omega
  · rintro ⟨later, entry, hlt, hentry, real⟩
    obtain ⟨front, bytes', rest, -, -, hwrites', hrest⟩ := h.split here
    obtain rfl := hwrites.unique hwrites'
    have hmem : entry ∈ located.drop (i + 1) := by
      refine List.mem_of_getElem? (i := later - (i + 1)) ?_
      rw [List.getElem?_drop, Nat.add_sub_cancel' hlt, hentry]
    obtain ⟨next, hnext, hreal⟩ := hrest.exists_first ⟨entry, hmem, real⟩
    exact ⟨next, List.mem_of_mem_drop hnext, hreal⟩

end Spells

end Encoding

/-! ## The offsets of a body -/

namespace Layout

/-- The instructions of a body with their offsets, by position. -/
theorem getElem?_locate {pool : Pool} {instructions : List Instruction} {offsets : Offsets}
    (h : (Layout.offsets instructions).Settled pool offsets) {i : Nat} {instruction : Instruction} :
    instructions[i]? = some instruction ↔
      ∃ offset, (offsets.locate instructions)[i]? = some (instruction, offset) := by
  obtain ⟨hfst, -, -⟩ := lays_of_offsets h
  conv_lhs => rw [← hfst]
  simp only [List.getElem?_map, Option.map_eq_some_iff, Prod.exists, exists_and_right,
    exists_eq_right]

/-- A label of a well labelled body has the offset of the entry that places it. -/
theorem find_labels {pool : Pool} {body : Body} {offsets : Offsets} (hlabelled : body.WellLabelled)
    (h : (Layout.offsets body.instructions).Settled pool offsets) {label : Label} {offset : Nat} :
    (offsets.labels body.instructions).find label = .ok offset ↔
      ∃ i : Nat, (offsets.locate body.instructions)[i]? = some (.label label, offset) := by
  rw [Placements.find_eq_ok, Offsets.labels, Placements.getElem?_ofList_eq_some]
  refine exists_congr fun i => and_iff_left_of_imp fun here later entry hlt hlater hlabel => ?_
  have hi := (getElem?_locate h).mpr ⟨offset, here⟩
  have hj : body.instructions[later]? = some (.label label) :=
    (getElem?_locate h).mpr ⟨entry.2, by rw [hlater, ← hlabel]⟩
  have := eq_of_placedLabels hlabelled.placedOnce hi hj
  omega

end Layout

end ClassInstrument
