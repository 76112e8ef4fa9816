import ClassInstrument.Proofs.Assembly.Mirroring

/-!
# Layouts of bodies that say the same

Labels and line numbers take no bytes, and the size of an instruction does not depend on its labels.  So where
instructions stand is the same for all bodies that say the same, and labels that denote the same have the same offset
(`Body.Restores.exists_relaidAs`).
-/

namespace ClassInstrument

open Interning Outcome Encoding

/-- Items that give the same results one by one give the same list of results. -/
theorem mapM_eq_mapM_of_forall₂ {m : Type → Type} [Monad m] {α β γ : Type} {f : α → m γ} {g : β → m γ}
    {items : List α} {others : List β} (h : List.Forall₂ (fun item other => f item = g other) items others) :
    items.mapM f = others.mapM g := by
  have hloop (done : List γ) : List.mapM.loop f items done = List.mapM.loop g others done := by
    induction h generalizing done with
    | nil => rfl
    | cons hfirst _ ih =>
      rw [List.mapM.loop, List.mapM.loop, hfirst]
      exact bind_congr fun _ => ih _
  exact hloop []

/-! ## Layouts -/

namespace Layout

variable {pool : Pool} {start stop : ℕ} {located others : List (Instruction × ℕ)} {instructions : List Instruction}
  {instruction : Instruction}

theorem size_of_unreal (unreal : instruction.isReal = false) (offset : ℕ) : size offset instruction = pure 0 := by
  cases instruction <;> first | rfl | cases unreal

/-- Labels and line numbers make no difference to a layout. -/
theorem Lays.reals (h : Lays pool start located stop) : Lays pool start (reals located) stop := by
  induction h with
  | nil offset => exact .nil offset
  | @cons offset instruction bytes located stop first _ ih =>
    by_cases real : instruction.isReal
    · rw [reals_cons_of_real real]
      exact .cons first ih
    · rw [reals_cons_of_unreal real]
      rw [size_of_unreal (by simpa using real)] at first
      obtain rfl := settled_pure.mp first
      exact ih

/-- Instructions as long as those that are laid out are laid out at the same offsets, whatever labels and line numbers
there are between them. -/
theorem Lays.exists_lays {related : Instruction → Instruction → Prop}
    (hsize : ∀ instruction other, related instruction other → ∀ offset, size offset instruction = size offset other)
    (h : Lays pool start others stop)
    (hrelated : List.Forall₂ (fun instruction (other : Instruction × ℕ) => related instruction other.1)
      (instructions.filter Instruction.isReal) others) :
    ∃ located, located.map Prod.fst = instructions ∧ Lays pool start located stop ∧
      List.Forall₂ (fun entry other => entry.2 = other.2 ∧ related entry.1 other.1) (Encoding.reals located) others := by
  induction instructions generalizing start others with
  | nil =>
    cases hrelated
    exact ⟨[], rfl, h, .nil⟩
  | cons instruction instructions ih =>
    by_cases real : instruction.isReal
    · rw [List.filter_cons_of_pos real] at hrelated
      cases hrelated with
      | cons hfirst hothers =>
        cases h with
        | cons first h =>
          obtain ⟨located, rfl, hlays, hsame⟩ := ih h hothers
          refine ⟨(instruction, start) :: located, rfl, .cons (hsize _ _ hfirst start ▸ first) hlays, ?_⟩
          rw [reals_cons_of_real real]
          exact .cons ⟨rfl, hfirst⟩ hsame
    · rw [List.filter_cons_of_neg real] at hrelated
      obtain ⟨located, rfl, hlays, hsame⟩ := ih h hrelated
      have hsize : (size start instruction).Settled pool 0 := by
        rw [size_of_unreal (by simpa using real)]
        exact settled_pure.mpr rfl
      refine ⟨(instruction, start) :: located, rfl, .cons hsize hlays, ?_⟩
      rwa [reals_cons_of_unreal real]

/-- Instructions are laid out behind others where they can be. -/
theorem Lays.settled_foldlM (h : Lays pool start located stop) (starts : Array ℕ) :
    ((located.map Prod.fst).foldlM place ⟨starts, start⟩).Settled pool
      ⟨starts ++ (located.map Prod.snd).toArray, stop⟩ := by
  induction h generalizing starts with
  | nil offset => simpa using settled_pure.mpr rfl
  | @cons offset instruction bytes located stop first _ ih =>
    rw [List.map_cons, List.foldlM_cons]
    refine Settled.bind (Settled.bind first (settled_pure.mpr rfl)) ?_
    simpa using ih (starts.push offset)

/-- Instructions are laid out where they can be. -/
theorem Lays.exists_offsets (h : Lays pool 0 located stop) : ∃ offsets,
    (Layout.offsets (located.map Prod.fst)).Settled pool offsets ∧
      offsets.locate (located.map Prod.fst) = located ∧ offsets.length = stop := by
  refine ⟨_, h.settled_foldlM #[], ?_, rfl⟩
  simp [Offsets.locate, List.zip_map']

/-- A layout starts with the first instruction, or ends at once. -/
theorem Lays.getElem?_zero (h : Lays pool start located stop) :
    ((Encoding.reals located).map Prod.snd ++ [stop])[0]? = some start := by
  induction h with
  | nil => rfl
  | @cons offset instruction bytes located stop first others ih =>
    by_cases real : instruction.isReal
    · rw [reals_cons_of_real real]
      rfl
    · rw [reals_cons_of_unreal real]
      rw [size_of_unreal (by simpa using real)] at first
      obtain rfl := settled_pure.mp first
      exact ih

/-- The offset of an entry is that of the instruction behind as many others, or the end. -/
theorem Lays.getElem?_offset (h : Lays pool start located stop) {i offset : ℕ}
    (here : located[i]? = some (instruction, offset)) :
    ((Encoding.reals located).map Prod.snd ++ [stop])[(located.take i).countP (·.1.isReal)]? = some offset := by
  induction h generalizing i with
  | nil => simp at here
  | @cons start first bytes located stop hfirst others ih =>
    cases i with
    | zero =>
      obtain ⟨rfl, rfl⟩ := Prod.mk.inj (Option.some.inj here)
      exact (Lays.cons hfirst others).getElem?_zero
    | succ i =>
      have hrest := ih here
      by_cases real : first.isReal
      · rw [reals_cons_of_real real, List.take_succ_cons, List.countP_cons_of_pos (by simpa using real)]
        exact hrest
      · rw [reals_cons_of_unreal real, List.take_succ_cons, List.countP_cons_of_neg (by simpa using real)]
        exact hrest

/-- A label has the offset of the instruction that it denotes, or the one behind the end. -/
theorem exists_find {body : Body} {offsets : Offsets} (hlabelled : body.WellLabelled)
    (h : (Layout.offsets body.instructions).Settled pool offsets) {label : Label}
    (hmem : .label label ∈ body.instructions) : ∃ offset,
      (offsets.labels body.instructions).find label = .ok offset ∧
        ((Encoding.reals (offsets.locate body.instructions)).map Prod.snd ++
          [offsets.length])[body.ordinal label]? = some offset := by
  obtain ⟨i, here⟩ := List.mem_iff_getElem?.mp hmem
  obtain ⟨offset, hi⟩ := (getElem?_locate h).mp here
  obtain ⟨hlocated, -, hlays⟩ := lays_of_offsets h
  have hcount : body.ordinal label = ((offsets.locate body.instructions).take i).countP (·.1.isReal) := by
    rw [hlabelled.ordinal_eq here]
    conv_lhs => rw [← hlocated, ← List.map_take, List.countP_map]
    rfl
  exact ⟨offset, (find_labels hlabelled h).mpr ⟨i, hi⟩, hcount ▸ hlays.getElem?_offset hi⟩

end Layout

/-! ## Instructions that match -/

namespace Instruction

variable {related : Label → Label → Prop} {labels labels' : Placements} {instruction original : Instruction}
  {target other : Label}

theorem pairwise_sortedPairs (pairs : List (Int32 × Label)) : (sortedPairs pairs).Pairwise (·.1 ≤ ·.1) := by
  have h := @List.pairwise_mergeSort _ (fun left right : Int32 × Label => decide (left.1 ≤ right.1))
    (fun _ _ _ hleft hright => decide_eq_true (Int32.le_trans (of_decide_eq_true hleft) (of_decide_eq_true hright)))
    (fun _ _ => by simp [Int32.le_total]) pairs
  exact h.imp of_decide_eq_true

/-- Sorted pairs stay as they are. -/
theorem sortedPairs_eq_self {pairs : List (Int32 × Label)} (h : pairs.Pairwise (·.1 ≤ ·.1)) :
    sortedPairs pairs = pairs :=
  List.mergeSort_of_pairwise (h.imp decide_eq_true)

/-- The order of the pairs of a sparse table does not matter to its size. -/
theorem size_sortKeys (offset : ℕ) (instruction : Instruction) :
    Layout.size offset instruction.sortKeys = Layout.size offset instruction := by
  cases instruction with
  | lookupSwitch default pairs => simp only [sortKeys, Layout.size, sortedPairs, List.length_mergeSort]
  | _ => rfl

/-- The pairs of a sparse table are written in order, whatever order they are in. -/
theorem write_sortKeys (labels : Placements) (offset : ℕ) (instruction : Instruction) :
    write labels offset instruction.sortKeys = write labels offset instruction := by
  cases instruction with
  | lookupSwitch default pairs =>
    have hlength : (sortedPairs pairs).length = pairs.length := List.length_mergeSort ..
    simp only [sortKeys, write, sparseTable, sortedPairs_eq_self (pairwise_sortedPairs pairs), hlength]
  | _ => rfl

theorem distance_eq (offset : ℕ) (h : labels.find target = labels'.find other) :
    distance labels offset target = distance labels' offset other := by
  rw [distance, distance, h]

theorem wideDistance_eq (offset : ℕ) (h : labels.find target = labels'.find other) :
    wideDistance labels offset target = wideDistance labels' offset other := by
  rw [wideDistance, wideDistance, distance_eq offset h]

/-- Instructions that match take as many bytes. -/
theorem Matches.size_eq (h : instruction.Matches related original) (offset : ℕ) :
    Layout.size offset instruction = Layout.size offset original := by
  cases h with
  | same | jump => rfl
  | tableSwitch _ _ others => simp only [Layout.size, others.length_eq]
  | lookupSwitch _ others => simp only [Layout.size, others.length_eq]

/-- Instructions that match are written with the same bytes, if their labels have the same offsets. -/
theorem Matches.write_eq
    (h : instruction.Matches (fun label other => labels.find label = labels'.find other) original.sortKeys)
    (offset : ℕ) : write labels offset instruction = write labels' offset original := by
  rw [← write_sortKeys labels' offset original]
  generalize hsorted : original.sortKeys = sorted at h ⊢
  cases h with
  | same plain => cases instruction <;> first | rfl | cases plain
  | jump opcode leads =>
    rw [write, write, wideDistance_eq offset leads, shortDistance, shortDistance, distance_eq offset leads]
  | tableSwitch low leads others =>
    have htable := mapM_eq_mapM_of_forall₂ (others.imp fun _ _ hsame => wideDistance_eq offset hsame)
    rw [write, write, denseTable, denseTable, htable, wideDistance_eq offset leads, lastKey, lastKey,
      others.length_eq]
  | @lookupSwitch target other pairs originals leads others =>
    have horiginals : originals.Pairwise (·.1 ≤ ·.1) := by
      cases original <;> cases hsorted
      exact pairwise_sortedPairs _
    have hpairs : pairs.Pairwise (·.1 ≤ ·.1) := by
      have hkeys : pairs.map Prod.fst = originals.map Prod.fst :=
        map_eq_map_of_forall₂ others fun _ _ hsame => hsame.1
      exact List.pairwise_map.mp (hkeys ▸ List.pairwise_map.mpr horiginals)
    rw [write, write, sparseTable, sparseTable, sortedPairs_eq_self hpairs, sortedPairs_eq_self horiginals,
      wideDistance_eq offset leads, others.length_eq]
    refine congrArg _ (bind_congr fun first => ?_)
    rw [mapM_eq_mapM_of_forall₂ (others.imp fun pair original hsame => ?_)]
    dsimp only
    rw [hsame.1, wideDistance_eq offset hsame.2]

end Instruction

/-! ## Bodies that say the same -/

namespace Body

variable {body original : Body} {pool : Pool} {offsets offsets' : Layout.Offsets}

/-- A body that says the same as another one is laid out as that one is. -/
structure RelaidAs (body original : Body) (pool : Pool) (offsets' offsets : Layout.Offsets) : Prop where
  laid : (Layout.offsets body.instructions).Settled pool offsets'
  length_eq : offsets'.length = offsets.length
  /-- Instructions that match have the same offset. -/
  entries : List.Forall₂ (fun entry other =>
      entry.2 = other.2 ∧ entry.1.Matches (body.SamePlace original) other.1.sortKeys)
    (reals (offsets'.locate body.instructions)) (reals (offsets.locate original.instructions))
  /-- Labels that denote the same have the same offset. -/
  labels : ∀ {label written : Label}, body.SamePlace original label written →
    (offsets'.labels body.instructions).find label = (offsets.labels original.instructions).find written

/-- **Bodies that say the same have the same layout.** -/
theorem Restores.exists_relaidAs (h : body.Restores original) (hlabelled : original.WellLabelled)
    (hlaid : (Layout.offsets original.instructions).Settled pool offsets) :
    ∃ offsets', body.RelaidAs original pool offsets' offsets := by
  obtain ⟨hlocated, -, hlays⟩ := Layout.lays_of_offsets hlaid
  have hmatches := h.forall₂_filter
  have hreals : original.instructions.filter Instruction.isReal =
      (reals (offsets.locate original.instructions)).map Prod.fst := by
    conv_lhs => rw [← hlocated, List.filter_map]
    rfl
  rw [hreals, List.forall₂_map_right_iff] at hmatches
  have hsize : ∀ instruction other : Instruction, instruction.Matches (body.SamePlace original) other.sortKeys →
      ∀ offset, Layout.size offset instruction = Layout.size offset other :=
    fun _ other hmatches offset => (hmatches.size_eq offset).trans (other.size_sortKeys offset)
  obtain ⟨located, hbody, hlays', hentries⟩ := hlays.reals.exists_lays hsize hmatches
  obtain ⟨offsets', hlaid', hlocate, hlength⟩ := hlays'.exists_offsets
  rw [hbody] at hlaid' hlocate
  refine ⟨offsets', hlaid', hlength, hlocate ▸ hentries, fun hsame => ?_⟩
  obtain ⟨offset, hfind, hoffset⟩ := Layout.exists_find h.wellLabelled hlaid' hsame.mem
  obtain ⟨other, hother, hsameOffset⟩ := Layout.exists_find hlabelled hlaid hsame.written_mem
  have hstarts : (reals located).map Prod.snd = (reals (offsets.locate original.instructions)).map Prod.snd :=
    map_eq_map_of_forall₂ hentries fun _ _ hsame => hsame.1
  rw [hlocate, hstarts, hlength, hsame.ordinal_eq, hsameOffset] at hoffset
  rw [hfind, hother, Option.some.inj hoffset]

end Body

end ClassInstrument
