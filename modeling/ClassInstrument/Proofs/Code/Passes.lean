import ClassInstrument.Proofs.Code.Placements

/-!
# Passes over bodies

Dead code is replaced and jumps are widened in passes over a body.  A pass keeps labels and line numbers,
puts a piece in the place of each instruction, and places fresh labels.  So labels keep their order, and
a well labelled body stays well labelled.

`Pieces.shift` tells where the piece of an entry begins: behind the pieces of all entries before it.  Every
position of the new list lies in exactly one piece.
-/

namespace ClassInstrument

/-! ## Replacing entries by pieces -/

namespace Pieces

variable {α : Type} {pieces : List (List α)} {piece : List α} {i j k : ℕ}

/-- The position at which the piece of the entry at a position begins. -/
def shift (pieces : List (List α)) (i : ℕ) : ℕ := (pieces.take i).flatten.length

@[simp] theorem shift_zero : shift pieces 0 = 0 := rfl

/-- A piece ends where the next one begins. -/
theorem shift_succ (h : pieces[i]? = some piece) : shift pieces (i + 1) = shift pieces i + piece.length := by
  simp [shift, List.take_add_one, h]

/-- Pieces stand in the order of their entries. -/
theorem shift_le (h : i ≤ j) : shift pieces i ≤ shift pieces j :=
  (List.Sublist.flatten (List.take_sublist_take_left h)).length_le

/-- A piece ends before any later one begins. -/
theorem shift_add_le (h : pieces[i]? = some piece) (hlt : i < j) :
    shift pieces i + piece.length ≤ shift pieces j :=
  shift_succ h ▸ shift_le hlt

/-- What a piece holds is found from where it begins. -/
theorem getElem?_shift (h : pieces[i]? = some piece) (hlt : j < piece.length) :
    pieces.flatten[shift pieces i + j]? = piece[j]? := by
  have hi : i < pieces.length := (List.getElem?_eq_some_iff.mp h).1
  have hsplit : pieces.flatten = (pieces.take i).flatten ++ (piece ++ (pieces.drop (i + 1)).flatten) := by
    rw [← List.flatten_cons, ← List.flatten_append, (List.getElem?_eq_some_iff.mp h).2.symm,
      ← List.drop_eq_getElem_cons hi, List.take_append_drop]
  rw [hsplit, shift, List.getElem?_append_right (Nat.le_add_right _ _), Nat.add_sub_cancel_left,
    List.getElem?_append_left hlt]

/-- Every position lies in a piece. -/
theorem exists_shift (hlt : k < pieces.flatten.length) : ∃ i piece j,
    pieces[i]? = some piece ∧ j < piece.length ∧ k = shift pieces i + j := by
  induction pieces generalizing k with
  | nil => simp at hlt
  | cons first others ih =>
    by_cases hfirst : k < first.length
    · exact ⟨0, first, k, rfl, hfirst, by simp⟩
    · rw [List.flatten_cons, List.length_append] at hlt
      obtain ⟨i, piece, j, hpiece, hj, hk⟩ := ih (k := k - first.length) (by omega)
      refine ⟨i + 1, piece, j, hpiece, hj, ?_⟩
      simp only [shift, List.take_succ_cons, List.flatten_cons, List.length_append] at hk ⊢
      omega

end Pieces

/-! ## Fresh labels -/

/-- The labels that are handed out while the next fresh one goes from one number to another one. -/
def freshLabels (first next : ℕ) : List Label := (List.range' first (next - first)).map Label.mk

@[simp] theorem freshLabels_self (first : ℕ) : freshLabels first first = [] := by
  simp [freshLabels]

/-- Labels are handed out one after the other. -/
theorem freshLabels_append {first middle next : ℕ} (h : first ≤ middle) (h' : middle ≤ next) :
    freshLabels first middle ++ freshLabels middle next = freshLabels first next := by
  have hmiddle : middle = first + (middle - first) := by omega
  have hcount : next - first = middle - first + (next - middle) := by omega
  rw [freshLabels, freshLabels, freshLabels, ← List.map_append, hcount, ← List.range'_append_1,
    ← hmiddle]

/-- The labels that are handed out lie between the numbers. -/
theorem mem_freshLabels {first next : ℕ} {label : Label} (hle : first ≤ next) :
    label ∈ freshLabels first next ↔ first ≤ label.number ∧ label.number < next := by
  obtain ⟨number⟩ := label
  simp only [freshLabels, List.mem_map, List.mem_range'_1, Label.mk.injEq, exists_eq_right]
  omega

/-- No label is handed out twice. -/
theorem nodup_freshLabels (first next : ℕ) : (freshLabels first next).Nodup :=
  (List.nodup_range').map fun _ _ => Label.mk.inj

/-- What a pass may put in the place of an entry while the next fresh label goes from one number to
another one. -/
abbrev Rewriting := Instruction × ℕ → ℕ → List Instruction → ℕ → Prop

/-- A rewriting keeps labels and line numbers, and places the labels that it hands out. -/
structure Rewriting.Tame (rewrites : Rewriting) : Prop where
  /-- Labels are handed out in order. -/
  le : ∀ {entry first piece next}, rewrites entry first piece next → first ≤ next
  /-- Labels and line numbers stay. -/
  marks : ∀ {entry first piece next}, rewrites entry first piece next → entry.1.isReal = false →
    piece = [entry.1]
  /-- The labels that are handed out are placed. -/
  fresh : ∀ {entry first piece next}, rewrites entry first piece next → entry.1.isReal →
    (placedLabels piece).Perm (freshLabels first next)
  /-- No label is handed out for a label or line number. -/
  idle : ∀ {entry first piece next}, rewrites entry first piece next → entry.1.isReal = false →
    next = first

/-- A piece with an instruction stands for an instruction. -/
theorem Rewriting.Tame.isReal_of_mem {rewrites : Rewriting} (tame : rewrites.Tame)
    {entry : Instruction × ℕ} {first next : ℕ} {piece : List Instruction} {instruction : Instruction}
    (h : rewrites entry first piece next) (hmem : instruction ∈ piece) (real : instruction.isReal) :
    entry.1.isReal := by
  by_contra hunreal
  obtain rfl := tame.marks h (by simpa using hunreal)
  obtain rfl := List.mem_singleton.mp hmem
  exact hunreal real

/-- A pass puts pieces in the places of the entries of a list. -/
inductive Pass (rewrites : Rewriting) : List (Instruction × ℕ) → ℕ → List (List Instruction) → ℕ → Prop
  | nil (first : ℕ) : Pass rewrites [] first [] first
  | cons {entry entries first piece pieces middle next} (here : rewrites entry first piece middle)
      (others : Pass rewrites entries middle pieces next) :
      Pass rewrites (entry :: entries) first (piece :: pieces) next

namespace Pass

variable {rewrites : Rewriting} {entries : List (Instruction × ℕ)} {first next : ℕ}
  {pieces : List (List Instruction)}

/-- Labels are handed out in order. -/
theorem le (tame : rewrites.Tame) (h : Pass rewrites entries first pieces next) : first ≤ next := by
  induction h with
  | nil => exact le_rfl
  | cons here _ ih => exact (tame.le here).trans ih

/-- There is a piece for each entry. -/
theorem length_eq (h : Pass rewrites entries first pieces next) : pieces.length = entries.length := by
  induction h with
  | nil => rfl
  | cons _ _ ih => rw [List.length_cons, List.length_cons, ih]

/-- What the piece of an entry is. -/
theorem exists_piece (h : Pass rewrites entries first pieces next) {i : ℕ} {entry : Instruction × ℕ}
    (hentry : entries[i]? = some entry) :
    ∃ before piece after, pieces[i]? = some piece ∧ rewrites entry before piece after := by
  induction h generalizing i with
  | nil => simp at hentry
  | cons here _ ih =>
    cases i with
    | zero =>
      obtain rfl := Option.some.inj hentry
      exact ⟨_, _, _, rfl, here⟩
    | succ i => exact ih hentry

/-- Which entry a piece stands for. -/
theorem exists_entry (h : Pass rewrites entries first pieces next) {i : ℕ} {piece : List Instruction}
    (hpiece : pieces[i]? = some piece) :
    ∃ entry before after, entries[i]? = some entry ∧ rewrites entry before piece after := by
  have hlt : i < entries.length := h.length_eq ▸ (List.getElem?_eq_some_iff.mp hpiece).1
  obtain ⟨before, found, after, hfound, hrewrites⟩ := h.exists_piece (List.getElem?_eq_getElem hlt)
  obtain rfl := Option.some.inj (hfound.symm.trans hpiece)
  exact ⟨_, before, after, List.getElem?_eq_getElem hlt, hrewrites⟩

/-- Labels and line numbers stand where their pieces begin. -/
theorem getElem?_of_unreal (tame : rewrites.Tame) (h : Pass rewrites entries first pieces next)
    {i : ℕ} {entry : Instruction × ℕ} (hentry : entries[i]? = some entry)
    (hunreal : entry.1.isReal = false) :
    pieces[i]? = some [entry.1] ∧ pieces.flatten[Pieces.shift pieces i]? = some entry.1 := by
  obtain ⟨before, piece, after, hpiece, hrewrites⟩ := h.exists_piece hentry
  obtain rfl := tame.marks hrewrites hunreal
  have hget := Pieces.getElem?_shift (j := 0) hpiece (by simp)
  exact ⟨hpiece, hget⟩

/-- Every entry of the new list comes from one of the old list. -/
theorem exists_origin (h : Pass rewrites entries first pieces next) {k : ℕ} {instruction : Instruction}
    (hk : pieces.flatten[k]? = some instruction) :
    ∃ i entry before piece after j, entries[i]? = some entry ∧ pieces[i]? = some piece ∧
      rewrites entry before piece after ∧ piece[j]? = some instruction ∧
        k = Pieces.shift pieces i + j := by
  obtain ⟨i, piece, j, hpiece, hj, rfl⟩ :=
    Pieces.exists_shift (List.getElem?_eq_some_iff.mp hk).1
  obtain ⟨entry, before, after, hentry, hrewrites⟩ := h.exists_entry hpiece
  exact ⟨i, entry, before, piece, after, j, hentry, hpiece, hrewrites,
    (Pieces.getElem?_shift hpiece hj).symm.trans hk, rfl⟩

/-- The labels that are placed are those that were placed, and those that are handed out. -/
theorem perm_labels (tame : rewrites.Tame) (h : Pass rewrites entries first pieces next) :
    (placedLabels pieces.flatten).Perm
      (placedLabels (entries.map Prod.fst) ++ freshLabels first next) := by
  induction h with
  | nil first => simp [placedLabels]
  | @cons entry entries first piece pieces middle next here others ih =>
    rw [List.flatten_cons, List.map_cons, ← freshLabels_append (tame.le here) (others.le tame)]
    simp only [placedLabels, List.filterMap_append, List.filterMap_cons] at ih ⊢
    by_cases hreal : entry.1.isReal
    · rw [Instruction.placed?_of_real hreal]
      refine ((tame.fresh here hreal).append ih).trans ?_
      exact (List.perm_append_comm_assoc _ _ _)
    · rw [Bool.not_eq_true] at hreal
      obtain rfl := tame.idle here hreal
      rw [tame.marks here hreal, freshLabels_self, List.nil_append]
      cases hplaced : entry.1.placed? with
      | none => simpa [hplaced] using ih
      | some label => simpa [hplaced] using ih

end Pass

/-- A body that places the labels of a well labelled one and those that it hands out is well labelled. -/
theorem Body.WellLabelled.of_perm {body body' : Body} (h : body.WellLabelled)
    (hle : body.nextLabel ≤ body'.nextLabel)
    (hperm : (placedLabels body'.instructions).Perm
      (placedLabels body.instructions ++ freshLabels body.nextLabel body'.nextLabel)) :
    body'.WellLabelled where
  handedOut label hmem := by
    rcases List.mem_append.mp (hperm.mem_iff.mp hmem) with hold | hfresh
    · exact (h.handedOut label hold).trans_le hle
    · exact ((mem_freshLabels hle).mp hfresh).2
  placedOnce := by
    refine hperm.nodup_iff.mpr (List.nodup_append.mpr ⟨h.placedOnce, nodup_freshLabels _ _, ?_⟩)
    rintro label hold _ hfresh rfl
    have := h.handedOut label hold
    have := ((mem_freshLabels hle).mp hfresh).1
    omega

end ClassInstrument

/-!
## What labels denote

A label denotes the instruction behind its place, or the end of the body.  The ordinal of a label, the
number of instructions before its place, says which; so labels of different bodies can be compared.  One
label has a lower ordinal than another one exactly if an instruction stands between them, and passes over
a body put no labels in a new order.

What is left of a body without its labels are the instructions, each behind the line numbers in front of
it.  Passes add no line numbers.
-/

namespace ClassInstrument

namespace Body

/-- The number of instructions before the place of a label. -/
def ordinal (body : Body) (label : Label) : ℕ :=
  (body.instructions.takeWhile (· != .label label)).countP Instruction.isReal

variable {body : Body} {label other : Label}

/-- The ordinal counts the instructions before the first place. -/
theorem ordinal_eq {front rest : List Instruction}
    (h : body.instructions = front ++ .label label :: rest) (hnew : .label label ∉ front) :
    body.ordinal label = front.countP Instruction.isReal := by
  have hfront : ∀ instruction ∈ front, (instruction != .label label) = true := by
    intro instruction hmem
    simp only [bne_iff_ne, ne_eq]
    rintro rfl
    exact hnew hmem
  rw [ordinal, h, List.takeWhile_append_of_pos hfront, List.takeWhile_cons_of_neg (by simp),
    List.append_nil]

/-- In a well labelled body the ordinal counts the instructions before the place. -/
theorem WellLabelled.ordinal_eq (h : body.WellLabelled) {i : ℕ}
    (here : body.instructions[i]? = some (.label label)) :
    body.ordinal label = (body.instructions.take i).countP Instruction.isReal := by
  obtain ⟨hlt, hget⟩ := List.getElem?_eq_some_iff.mp here
  have hsplit : body.instructions =
      body.instructions.take i ++ .label label :: body.instructions.drop (i + 1) := by
    rw [← hget, ← List.drop_eq_getElem_cons hlt, List.take_append_drop]
  refine Body.ordinal_eq hsplit fun hmem => ?_
  obtain ⟨j, hj⟩ := List.mem_iff_getElem?.mp hmem
  rw [List.getElem?_take] at hj
  split at hj
  · have := eq_of_placedLabels h.placedOnce here hj
    omega
  · cases hj

/-- A label has a lower ordinal than another one exactly if an instruction stands between them. -/
theorem WellLabelled.ordinal_lt_iff (h : body.WellLabelled) {i j : ℕ}
    (hi : body.instructions[i]? = some (.label label))
    (hj : body.instructions[j]? = some (.label other)) :
    body.ordinal label < body.ordinal other ↔ ∃ (k : ℕ) (instruction : Instruction),
      i ≤ k ∧ k < j ∧ body.instructions[k]? = some instruction ∧ instruction.isReal := by
  rw [h.ordinal_eq hi, h.ordinal_eq hj]
  have hmono : ∀ {i j : ℕ}, i ≤ j → (body.instructions.take i).countP Instruction.isReal ≤
      (body.instructions.take j).countP Instruction.isReal := fun hle =>
    (List.take_sublist_take_left hle).countP_le
  constructor
  · intro hlt
    have hij : i ≤ j := by
      by_contra hji
      have := hmono (Nat.le_of_not_le hji)
      omega
    have hsplit : body.instructions.take j =
        body.instructions.take i ++ (body.instructions.drop i).take (j - i) := by
      rw [← List.take_add, Nat.add_sub_cancel' hij]
    rw [hsplit, List.countP_append] at hlt
    have hpos : 0 < ((body.instructions.drop i).take (j - i)).countP Instruction.isReal := by omega
    obtain ⟨instruction, hmem, real⟩ := List.countP_pos_iff.mp hpos
    obtain ⟨k, hk⟩ := List.mem_iff_getElem?.mp hmem
    rw [List.getElem?_take, List.getElem?_drop] at hk
    split at hk
    · exact ⟨i + k, instruction, by omega, by omega, hk, real⟩
    · cases hk
  · rintro ⟨k, instruction, hik, hkj, hk, real⟩
    have hnext : (body.instructions.take (k + 1)).countP Instruction.isReal =
        (body.instructions.take k).countP Instruction.isReal + 1 := by
      rw [List.take_add_one, hk, List.countP_append]
      simp [real]
    have := hmono hik
    have := hmono (i := k + 1) hkj
    omega

end Body

/-! ## Entries without labels -/

/-- The instructions of a list and the line numbers in front of them. -/
def unlabelled : List Instruction → List Instruction
  | [] => []
  | .label _ :: rest => unlabelled rest
  | .line number :: rest =>
    if rest.any Instruction.isReal then .line number :: unlabelled rest else unlabelled rest
  | instruction :: rest => instruction :: unlabelled rest

/-- The number of line numbers in front of instructions. -/
def lineCount (instructions : List Instruction) : ℕ :=
  (unlabelled instructions).countP fun instruction => !instruction.isReal

theorem unlabelled_cons_of_real {instruction : Instruction} (real : instruction.isReal)
    (rest : List Instruction) : unlabelled (instruction :: rest) = instruction :: unlabelled rest := by
  cases instruction <;> first | rfl | cases real

theorem lineCount_cons_of_real {instruction : Instruction} (real : instruction.isReal)
    (rest : List Instruction) : lineCount (instruction :: rest) = lineCount rest := by
  rw [lineCount, unlabelled_cons_of_real real, List.countP_cons_of_neg (by simp [real]), lineCount]

@[simp] theorem lineCount_cons_label (label : Label) (rest : List Instruction) :
    lineCount (.label label :: rest) = lineCount rest := rfl

theorem lineCount_cons_line (number : UInt16) (rest : List Instruction) :
    lineCount (.line number :: rest) =
      lineCount rest + if rest.any Instruction.isReal then 1 else 0 := by
  rw [lineCount, unlabelled]
  split
  · exact List.countP_cons_of_pos rfl
  · rfl

/-- The instructions are among the entries without labels. -/
theorem filter_unlabelled (instructions : List Instruction) :
    (unlabelled instructions).filter Instruction.isReal = instructions.filter Instruction.isReal := by
  induction instructions with
  | nil => rfl
  | cons instruction rest ih =>
    by_cases real : instruction.isReal
    · rw [unlabelled_cons_of_real real, List.filter_cons_of_pos real, List.filter_cons_of_pos real, ih]
    · rw [List.filter_cons_of_neg real, ← ih]
      cases instruction with
      | label => rfl
      | line number =>
        rw [unlabelled]
        split
        · exact List.filter_cons_of_neg real
        · rfl
      | _ => exact absurd rfl real

/-- A piece without line numbers adds none. -/
theorem lineCount_append {piece : List Instruction}
    (h : ∀ instruction ∈ piece, instruction.isReal ∨ ∃ label, instruction = .label label)
    (rest : List Instruction) : lineCount (piece ++ rest) = lineCount rest := by
  induction piece with
  | nil => rfl
  | cons instruction piece ih =>
    have hrest := ih fun other hmem => h other (List.mem_cons_of_mem _ hmem)
    rcases h instruction List.mem_cons_self with real | ⟨label, rfl⟩
    · rw [List.cons_append, lineCount_cons_of_real real, hrest]
    · rw [List.cons_append, lineCount_cons_label, hrest]

/-! ## Passes -/

namespace Pass

variable {rewrites : Rewriting} {entries : List (Instruction × ℕ)} {pieces : List (List Instruction)}
  {body body' : Body} {label other : Label}

/-- Where a label stands after a pass. -/
theorem getElem?_label (tame : rewrites.Tame)
    (h : Pass rewrites entries body.nextLabel pieces body'.nextLabel)
    (hentries : entries.map Prod.fst = body.instructions) (houtput : body'.instructions = pieces.flatten)
    {i : ℕ} (here : body.instructions[i]? = some (.label label)) :
    body'.instructions[Pieces.shift pieces i]? = some (.label label) := by
  rw [← hentries, List.getElem?_map, Option.map_eq_some_iff] at here
  obtain ⟨entry, hentry, hlabel⟩ := here
  have hmarks := (h.getElem?_of_unreal tame hentry (by rw [hlabel]; rfl)).2
  rwa [hlabel, ← houtput] at hmarks

/-- A pass puts no labels in a new order. -/
theorem ordinal_le (tame : rewrites.Tame)
    (h : Pass rewrites entries body.nextLabel pieces body'.nextLabel)
    (hentries : entries.map Prod.fst = body.instructions) (houtput : body'.instructions = pieces.flatten)
    (hlabelled : body.WellLabelled) (hlabelled' : body'.WellLabelled)
    (hlabel : .label label ∈ body.instructions) (hother : .label other ∈ body.instructions)
    (hle : body.ordinal label ≤ body.ordinal other) : body'.ordinal label ≤ body'.ordinal other := by
  obtain ⟨i, hi⟩ := List.mem_iff_getElem?.mp hlabel
  obtain ⟨j, hj⟩ := List.mem_iff_getElem?.mp hother
  have hi' := h.getElem?_label tame hentries houtput hi
  have hj' := h.getElem?_label tame hentries houtput hj
  by_contra hlt
  obtain ⟨k, instruction, hjk, hki, hk, real⟩ :=
    (hlabelled'.ordinal_lt_iff hj' hi').mp (Nat.not_le.mp hlt)
  -- The instruction between the labels comes from one between them.
  obtain ⟨m, entry, before, piece, after, n, hentry, hpiece, hrewrites, hn, rfl⟩ :=
    h.exists_origin (houtput ▸ hk)
  have hreal := tame.isReal_of_mem hrewrites (List.mem_of_getElem? hn) real
  have hbody : body.instructions[m]? = some entry.1 := by
    rw [← hentries, List.getElem?_map, hentry]
    rfl
  have hnlt : n < piece.length := (List.getElem?_eq_some_iff.mp hn).1
  have hjm : j ≤ m := by
    by_contra hmj
    have := Pieces.shift_add_le hpiece (Nat.not_le.mp hmj)
    omega
  have hmi : m < i := by
    by_contra him
    have hshift : Pieces.shift pieces i ≤ Pieces.shift pieces m := Pieces.shift_le (Nat.not_lt.mp him)
    omega
  have := (hlabelled.ordinal_lt_iff hj hi).mpr ⟨m, entry.1, hjm, hmi, hbody, hreal⟩
  omega

/-- A pass that puts no line number in the place of an instruction adds none. -/
theorem lineCount_le {first next : ℕ} (tame : rewrites.Tame) (hlines : ∀ {entry first piece next},
      rewrites entry first piece next → entry.1.isReal →
        ∀ instruction ∈ piece, instruction.isReal ∨ ∃ label, instruction = .label label)
    (h : Pass rewrites entries first pieces next) :
    lineCount pieces.flatten ≤ lineCount (entries.map Prod.fst) := by
  induction h with
  | nil => exact le_rfl
  | @cons entry entries first piece pieces middle next here others ih =>
    rw [List.flatten_cons, List.map_cons]
    by_cases real : entry.1.isReal
    · rw [lineCount_append (hlines here real), lineCount_cons_of_real real]
      exact ih
    · rw [tame.marks here (by simpa using real), List.singleton_append]
      obtain ⟨instruction, offset⟩ := entry
      cases instruction with
      | label => exact ih
      | line number =>
        have hreal : pieces.flatten.any Instruction.isReal →
            (entries.map Prod.fst).any Instruction.isReal := by
          simp only [List.any_eq_true]
          rintro ⟨instruction, hmem, real⟩
          obtain ⟨k, hk⟩ := List.mem_iff_getElem?.mp hmem
          obtain ⟨i, entry, before, piece, after, j, hentry, -, hrewrites, hj, -⟩ :=
            others.exists_origin hk
          exact ⟨entry.1, List.mem_map_of_mem (List.mem_of_getElem? hentry),
            tame.isReal_of_mem hrewrites (List.mem_of_getElem? hj) real⟩
        rw [lineCount_cons_line, lineCount_cons_line]
        refine Nat.add_le_add ih ?_
        split
        · next hany => rw [if_pos (hreal hany)]
        · exact Nat.zero_le _
      | _ => exact absurd rfl real

end Pass

end ClassInstrument
