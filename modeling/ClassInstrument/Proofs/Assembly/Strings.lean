import ClassInstrument.Proofs.Assembly.Prepared
import ClassInstrument.Proofs.Code.Listing
import ClassInstrument.Proofs.Code.Taking

/-!
# Texts that are pushed

Assembly keeps the texts that a body pushes: dead code pushes none, what stands in its place pushes none
either, and neither do the jumps that are widened.  Each text is found in the bytecode again, spelled anew.
-/

namespace ClassInstrument

open Interning Outcome Encoding

/-! ## Texts of a body -/

/-- The texts that the instructions of a list push. -/
def strings (instructions : List Instruction) : List String := instructions.filterMap Instruction.string?

theorem strings_append (front rest : List Instruction) :
    strings (front ++ rest) = strings front ++ strings rest :=
  List.filterMap_append

/-- The texts that are left when dead code is replaced are those of the instructions that are reached. -/
theorem DeadCode.strings_of_pass {analysis : Analysis} {runs : List DeadRun}
    {entries : List (Instruction × ℕ)} {first next : ℕ} {pieces : List (List Instruction)}
    (h : Pass (Rewrites analysis runs) entries first pieces next) :
    strings pieces.flatten = entries.filterMap fun entry =>
      if analysis.reaches entry.2 then entry.1.string? else none := by
  have hpiece : ∀ {entry first piece next}, Rewrites analysis runs entry first piece next →
      strings piece = (if analysis.reaches entry.2 then entry.1.string? else none).toList := by
    intro entry first piece next hrewrites
    cases hrewrites with
    | keep alive =>
      by_cases real : entry.1.isReal
      · rw [if_pos (alive real), strings, List.filterMap_cons, List.filterMap_nil]
        cases entry.1.string? <;> rfl
      · obtain ⟨instruction, position⟩ := entry
        cases instruction with
        | label | line => simp [strings, Instruction.string?]
        | _ => exact absurd rfl real
    | replace _ dead | drop _ dead =>
      rw [dead]
      rfl
  induction h with
  | nil => rfl
  | cons here _ ih =>
    rw [List.flatten_cons, strings_append, List.filterMap_cons, hpiece here, ih]
    cases (if analysis.reaches _ then _ else none : Option String) <;> rfl

/-- Jumps push no texts. -/
theorem Widening.strings_of_pass {entries : List (Instruction × ℕ)} {first next : ℕ}
    {pieces : List (List Instruction)} (h : Pass Rewrites entries first pieces next) :
    strings pieces.flatten = strings (entries.map Prod.fst) := by
  induction h with
  | nil => rfl
  | cons here _ ih =>
    rw [List.flatten_cons, List.map_cons, ← List.singleton_append, strings_append, strings_append, ih]
    cases here with
    | keep | goto | conditional => rfl

theorem Widening.Rounded.strings_eq {body body' : Body} (h : Rounded body body') :
    strings body'.instructions = strings body.instructions := by
  obtain ⟨entries, pieces, hentries, hpass, houtput⟩ := h.pass
  rw [houtput, ← hentries, strings_of_pass hpass]

/-- The texts of a body that is ready to be laid out are those of the instructions that are reached. -/
theorem Assembly.Prepared.strings_eq {body middle final : Body} {method : MethodContext}
    {hierarchy : Hierarchy} {pool : Pool} {first analysis : Analysis} {runs : List DeadRun}
    {changed : Bool} {roots : List Root}
    (h : Prepared body method hierarchy pool first runs middle changed roots final analysis) :
    strings final.instructions = body.instructions.zipIdx.filterMap fun entry =>
      if first.reaches entry.2 then entry.1.string? else none := by
  obtain ⟨pieces, hpass, houtput, -⟩ := h.replaced.pass
  have hmiddle := DeadCode.strings_of_pass hpass
  rw [← houtput] at hmiddle
  rw [← hmiddle]
  exact (Body.widenJumps_induction (fun body => strings body.instructions = strings middle.instructions)
    (fun hround hkept => hround.strings_eq.trans hkept) rfl h.widened).1

/-! ## Texts of bytecode -/

namespace Instruction

/-- Instructions that match push the same text. -/
theorem Matches.string?_eq {related : Label → Label → Prop} {instruction original : Instruction}
    (h : instruction.Matches related original) : instruction.string? = original.string? := by
  cases h <;> rfl

@[simp] theorem string?_sortKeys (instruction : Instruction) :
    instruction.sortKeys.string? = instruction.string? := by
  cases instruction <;> rfl

@[simp] theorem string?_onClass (instruction : Instruction) :
    instruction.onClass.string? = instruction.string? := by
  cases instruction <;> rfl

@[simp] theorem isReal_onClass (instruction : Instruction) :
    instruction.onClass.isReal = instruction.isReal := by
  cases instruction <;> rfl

end Instruction

namespace Encoding

variable {labels : Placements} {pool : Pool} {start : ℕ} {located : List (Instruction × ℕ)}
  {code : Bytes}

/-- A field is written alike whether or not it is said to belong to an interface. -/
theorem Writes.onClass {offset : ℕ} {instruction : Instruction} {bytes : Bytes}
    (h : Writes labels pool offset instruction bytes) :
    Writes labels pool offset instruction.onClass bytes := by
  cases h with
  | field opcode asked => exact .field opcode asked
  | label => exact .label _
  | line => exact .line _
  | plain => exact .plain _
  | int => exact .int _ _
  | var => exact .var _ _
  | increment => exact .increment _ _
  | type opcode asked => exact .type opcode asked
  | method asked counted => exact .method asked counted
  | invokeDynamic => exact .invokeDynamic _ _
  | jump short leads => exact .jump short leads
  | wideJump wide leads => exact .wideJump wide leads
  | load asked => exact .load asked
  | tableSwitch leads => exact .tableSwitch leads
  | lookupSwitch leads => exact .lookupSwitch leads
  | multiArray dimensions asked => exact .multiArray dimensions asked

theorem Spells.onClass (h : Spells labels pool start located code) :
    Spells labels pool start (located.map fun entry => (entry.1.onClass, entry.2)) code := by
  induction h with
  | nil offset => exact .nil offset
  | cons writes _ ih => exact .cons writes.onClass ih

/-- The text object at an index that a text was asked for at. -/
theorem stringBytes?_of_settled {text : String} {index : PoolIndex}
    (h : (Loadable.string text).intern.Settled pool index) :
    pool.stringBytes? index = some (ModifiedUtf8.encode text) := by
  obtain ⟨utf8, hutf8, hindex⟩ := ((Pool.repeats_internUtf8 text).settled_bind fun _ => .intern _).mp h
  unfold Pool.stringBytes?
  rw [Pool.get_of_settled hindex]
  dsimp only
  rw [show pool.get utf8 = .ok (.utf8 (ModifiedUtf8.encode text)) from Pool.get_of_settled hutf8]

/-- The index that is pushed is found in the bytes of the instruction. -/
theorem loadedIndex?_push (text : String) (index : PoolIndex) (rest : Bytes) :
    loadedIndex? (push (.string text) index ++ rest) = some index := by
  unfold push
  rw [if_neg (by simp [Loadable.isWide])]
  split
  · next hshort =>
    change some index.toUInt8.toUInt16 = _
    rw [Operand.short_of_byte hshort]
  · rw [List.cons_append, loadedIndex?, Reader.u2_append]
    rfl

/-- A text is found where the instruction that pushes it was written. -/
theorem Spells.stringAt?_eq (h : Spells labels pool 0 located code) {text : String} {offset : ℕ}
    (hmem : (Instruction.load (.string text), offset) ∈ located) :
    stringAt? pool code offset = some (ModifiedUtf8.encode text) := by
  obtain ⟨i, here⟩ := List.mem_iff_getElem?.mp hmem
  obtain ⟨front, bytes, rest, rfl, hoffset, hwrites, -⟩ := h.split here
  obtain rfl : offset = front.length := by simpa using hoffset
  cases hwrites with
  | load asked =>
    rw [stringAt?, List.drop_left, loadedIndex?_push]
    exact stringBytes?_of_settled asked

/-- Labels and line numbers push no texts. -/
theorem filterMap_reals (located : List (Instruction × ℕ)) :
    (reals located).filterMap (fun entry => entry.1.string?) = strings (located.map Prod.fst) := by
  induction located with
  | nil => rfl
  | cons entry located ih =>
    have hsplit : strings (entry.1 :: located.map Prod.fst) =
        strings [entry.1] ++ strings (located.map Prod.fst) := strings_append [entry.1] _
    rw [List.map_cons, hsplit, ← ih]
    by_cases real : entry.1.isReal
    · rw [reals_cons_of_real real, ← List.singleton_append, List.filterMap_append]
      rfl
    · rw [reals_cons_of_unreal real]
      obtain ⟨instruction, offset⟩ := entry
      cases instruction with
      | label | line => rfl
      | _ => exact absurd rfl real

/-- No field is a text. -/
theorem strings_map_onClass (located : List (Instruction × ℕ)) : strings (located.map Prod.fst) =
    strings ((located.map fun entry => (entry.1.onClass, entry.2)).map Prod.fst) := by
  rw [List.map_map, strings, strings, List.filterMap_map, List.filterMap_map]
  exact List.filterMap_congr fun entry _ => (Instruction.string?_onClass entry.1).symm

/-- The texts that are found in bytecode are those that its instructions push, spelled anew. -/
theorem Spells.strings_eq {written : CodeAttribute} (h : Spells labels pool 0 located written.code)
    (hdecodable : ∀ entry ∈ located, entry.1.onClass.Decodable pool)
    (hlength : written.code.length ≤ 65535) : ∃ entries, written.listing pool = .ok entries ∧
      entries.filterMap (fun entry => stringAt? pool written.code entry.1) =
        (strings (located.map Prod.fst)).map ModifiedUtf8.encode := by
  have hspells := h.onClass
  have hwritable : ∀ entry ∈ located.map fun entry => (entry.1.onClass, entry.2),
      entry.1.Decodable pool := by
    intro entry hmem
    obtain ⟨original, horiginal, rfl⟩ := List.mem_map.mp hmem
    exact hdecodable original horiginal
  obtain ⟨entries, start', given', hentries, -, -, hread⟩ :=
    CodeReader.instructionsAfter_of_spells hspells hwritable hlength le_rfl 0 []
      (OffsetLabels.follows_empty labels)
  have hlisting : written.listing pool = .ok entries :=
    Outcome.bind_eq_ok.mpr ⟨_, hentries, rfl⟩
  have hstands := CodeAttribute.standsAt_of_listing hlisting
  refine ⟨entries, hlisting, ?_⟩
  have hread := (List.forall₂_and_left _ _).mpr ⟨hstands, hread given' (.refl given')⟩
  have hpairs := (List.forall₂_and_left _ _).mpr
    ⟨fun original hmem => List.mem_of_mem_filter hmem, hread.flip⟩
  rw [strings_map_onClass, ← filterMap_reals, List.map_filterMap]
  refine (filterMap_eq_filterMap_of_forall₂ hpairs fun original entry h => ?_).symm
  obtain ⟨hmem, hentry, hoffset, hmatches⟩ := h
  have hstring := hentry.string
  rw [hmatches.string?_eq, Instruction.string?_sortKeys, hoffset] at hstring
  rw [hoffset]
  cases horiginal : original.1.string? with
  | none =>
    rw [horiginal] at hstring
    rw [Option.map_eq_none_iff.mp hstring]
    rfl
  | some text =>
    have hload : original.1 = .load (.string text) := by
      obtain ⟨instruction, place⟩ := original
      cases instruction with
      | load constant => cases constant <;> simp_all [Instruction.string?]
      | _ => cases horiginal
    rw [hspells.stringAt?_eq (by rwa [← hload])]
    rfl

end Encoding

/-! ## Texts of a body that was read -/

/-- The offsets of the instructions of a written body that the analysis of the editable one reaches. -/
def reachedOffsets (analysis : Analysis) (body : Body) (entries : List (ℕ × Instruction)) : List ℕ :=
  ((entries.map Prod.fst).zip body.realPositions).filterMap fun place =>
    if analysis.reaches place.2 then some place.1 else none

/-- What is pushed by instructions that stand in bytecode, at places of a body that are reached. -/
theorem filterMap_reached {code : Bytes} {pool : Pool} (analysis : Analysis)
    {entries : List (ℕ × Instruction)} {placed : List (Instruction × ℕ)}
    (h : List.Forall₂ (fun entry place => CodeReader.StandsAt pool code entry ∧ entry.2 = place.1)
      entries placed) :
    (placed.filterMap fun place => if analysis.reaches place.2 then place.1.string? else none) =
      ((((entries.map Prod.fst).zip (placed.map Prod.snd)).filterMap fun place =>
        if analysis.reaches place.2 then some place.1 else none).filterMap (stringAt? pool code)).map
          ModifiedUtf8.decode := by
  induction h with
  | nil => rfl
  | @cons entry place entries others h _ ih =>
    obtain ⟨hentry, hsame⟩ := h
    have hstring := hentry.string
    rw [hsame] at hstring
    rw [List.filterMap_cons, ih, List.map_cons, List.map_cons, List.zip_cons_cons,
      List.filterMap_cons, ← hstring]
    dsimp only
    cases analysis.reaches place.2 with
    | false => rfl
    | true =>
      simp only [↓reduceIte, List.filterMap_cons]
      cases stringAt? pool code entry.1 <;> rfl

/-- The instructions that push texts are those that stand where texts are pushed. -/
theorem strings_of_listing {code : CodeAttribute} {pool : Pool} {body : Body}
    {entries : List (ℕ × Instruction)} (hlisting : code.listing pool = .ok entries)
    (hreals : body.instructions.filter Instruction.isReal = entries.map Prod.snd) (analysis : Analysis) :
    (body.instructions.zipIdx.filterMap fun entry =>
      if analysis.reaches entry.2 then entry.1.string? else none) =
    ((reachedOffsets analysis body entries).filterMap (stringAt? pool code.code)).map
      ModifiedUtf8.decode := by
  have hpositions : body.realPositions =
      (body.instructions.zipIdx.filter fun entry => entry.1.isReal).map Prod.snd := by
    rw [Body.realPositions, ← List.filterMap_eq_map, List.filterMap_filter]
    rfl
  have hunreal : ∀ entry ∈ body.instructions.zipIdx,
      (if analysis.reaches entry.2 then entry.1.string? else none) =
        if entry.1.isReal then (if analysis.reaches entry.2 then entry.1.string? else none)
          else none := by
    rintro ⟨instruction, position⟩ -
    cases instruction <;> simp [Instruction.isReal, Instruction.string?]
  rw [List.filterMap_congr hunreal, ← List.filterMap_filter, reachedOffsets, hpositions]
  have hpairs : List.Forall₂ (fun (entry : ℕ × Instruction) (placed : Instruction × ℕ) =>
      entry.2 = placed.1) entries (body.instructions.zipIdx.filter fun entry => entry.1.isReal) := by
    refine List.forall₂_map_left_iff.mp (List.forall₂_map_right_iff.mp ?_)
    rw [List.forall₂_eq_eq_eq, ← hreals]
    conv_lhs => rw [← List.zipIdx_map_fst 0 body.instructions, List.filter_map]
    rfl
  have hstands := (List.forall₂_and_left _ _).mpr ⟨CodeAttribute.standsAt_of_listing hlisting, hpairs⟩
  exact filterMap_reached analysis hstands

/-- The texts that a body pushes when it was read and assembled again are those of the instructions that are
reached, each spelled as it was read. -/
theorem Body.strings_of_assemble {code assembled : CodeAttribute} {pool later : Pool} {body : Body}
    {method : MethodContext} {version : Version} {hierarchy : Hierarchy}
    (hdecode : decode code pool = .ok body) (hextends : pool.Extends later)
    (h : (body.assemble method version hierarchy).Settled later assembled) :
    ∃ analysis entries entries', analyze body method hierarchy [] = .ok analysis ∧
      code.listing pool = .ok entries ∧ assembled.listing later = .ok entries' ∧
      entries'.filterMap (fun entry => stringAt? later assembled.code entry.1) =
        ((reachedOffsets analysis body entries).filterMap (stringAt? pool code.code)).map
          ModifiedUtf8.respell := by
  obtain ⟨entries, hlisting, hreals⟩ := listing_of_decode hdecode
  obtain ⟨-, final, analysis, -, offsets, -, hprepared, hwritten⟩ := exists_written h
  obtain ⟨first, runs, middle, changed, roots, hprepared⟩ := Assembly.exists_prepared hprepared
  have hlocated := (Layout.lays_of_offsets hwritten.laid).1
  have hbody : ∀ instruction ∈ body.instructions, instruction.onClass.Decodable later := by
    intro instruction hmem
    by_cases real : instruction.isReal
    · have hkept : instruction ∈ entries.map Prod.snd := hreals ▸ List.mem_filter.mpr ⟨hmem, real⟩
      obtain ⟨entry, hentry, rfl⟩ := List.mem_map.mp hkept
      exact (CodeAttribute.standsAt_of_listing hlisting entry hentry).decodable.mono hextends
    · cases instruction with
      | label | line => trivial
      | _ => exact absurd rfl real
  have hfinal := hprepared.forall_mem hbody (fun _ => trivial) rfl (fun _ => .inr rfl)
    fun opcode inverse _ hinverse => .inl (Opcode.form_inverse opcode inverse hinverse)
  have hdecodable : ∀ entry ∈ offsets.locate final.instructions, entry.1.onClass.Decodable later :=
    fun entry hmem => hfinal _ (hlocated ▸ List.mem_map_of_mem hmem)
  obtain ⟨entries', hlisting', hstrings⟩ :=
    hwritten.spells.strings_eq hdecodable hwritten.length_le
  refine ⟨first, entries, entries', hprepared.once, hlisting, hlisting', ?_⟩
  rw [hstrings, hlocated, hprepared.strings_eq, strings_of_listing hlisting hreals, List.map_map]
  rfl

end ClassInstrument
