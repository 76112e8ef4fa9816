import ClassInstrument.Proofs.Batch.Filing
import ClassInstrument.Proofs.Batch.Registering

/-!
# The turns of a batch

The pairs of a batch take turns, and each one finds the files that the ones before it have left.  A batch
that gets as far as this goes through all of them, and what fails is reported in the order of the turns.

From one turn to another only the outputs of the pairs in between are touched, and the drafts next to the
outputs of archives.  A draft does not outlast its turn, apart from the case that the finished archive
cannot be moved to its output.

So failures stay where they are (`Batch.run_isolates_failures`).  A batch whose archives can be read goes
through all its pairs.  Each pair comes to what its own input deserves, as if no other file had failed: the
output gets the transformed input, or the pair is among the failures that the batch reports in the end, in the
order of the pairs.

A pair can only be sure of its own files, though, if no other pair writes to its input or its output, be it
with an output of its own or with the draft of an archive, and if its own draft does not take the place of
its input.  And a damaged archive ends the batch before anything is transformed.
-/

namespace ClassInstrument

open Acting

namespace Batch

/-- What is known when the files of a batch are transformed. -/
def shop (batch : Batch) (tree : FileTree) : Workshop :=
  ⟨batch.policies, ((batch.registerAll tree).run Catalog.empty).2⟩

/-- The files after the turn of a pair. -/
def after (batch : Batch) (shop : Workshop) (progress : Progress) (pair : FilePair) : Progress :=
  ((transformFile batch shop pair).run progress).2

/-- The files when the turn of a given number comes. -/
def atTurn (batch : Batch) (tree : FileTree) (turn : ℕ) : Progress :=
  (batch.pairs.take turn).foldl (batch.after (batch.shop tree)) ⟨tree, batch.memory⟩

/-- Whether a pair succeeds at a turn. -/
def verdict (batch : Batch) (tree : FileTree) (turn : ℕ) (pair : FilePair) : Except ItemFault Unit :=
  ((transformFile batch (batch.shop tree) pair).run (batch.atTurn tree turn)).1

/-- Which pairs succeed, turn by turn. -/
def verdicts (batch : Batch) (tree : FileTree) : List (Except ItemFault Unit) :=
  batch.pairs.mapIdx (batch.verdict tree)

/-- The reason for a failure. -/
def fault? : Except ItemFault Unit → Option ItemFault
  | .ok () => none
  | .error fault => some fault

/-- What a batch reports in the end: nothing, or all failures in order. -/
def report (verdicts : List (Except ItemFault Unit)) : Option BatchFault :=
  if (verdicts.filterMap fault?).isEmpty then none else some (.failures (verdicts.filterMap fault?))

variable {batch : Batch} {tree : FileTree} {turn : ℕ} {pair : FilePair} {path : Path}

/-! ## One turn after the other -/

/-- A turn starts from what the one before has left. -/
theorem atTurn_succ (hpair : batch.pairs[turn]? = some pair) :
    batch.atTurn tree (turn + 1) = batch.after (batch.shop tree) (batch.atTurn tree turn) pair := by
  rw [atTurn, List.take_add_one, hpair, List.foldl_append]
  rfl

/-- After the last turn nothing happens. -/
theorem atTurn_of_le (h : batch.pairs.length ≤ turn) :
    batch.atTurn tree turn = batch.atTurn tree batch.pairs.length := by
  rw [atTurn, atTurn, List.take_of_length_le h, List.take_length]

/-- All pairs get their turns, and the failures come in their order. -/
theorem transformAll_eq (batch : Batch) (shop : Workshop) (pairs : List FilePair) (progress : Progress)
    (failures : List ItemFault) :
    transformAll batch shop pairs progress failures =
      ((pairs.foldl (batch.after shop) progress).tree, failures.reverse ++
        (pairs.mapIdx fun turn pair => ((transformFile batch shop pair).run
          ((pairs.take turn).foldl (batch.after shop) progress)).1).filterMap fault?) := by
  induction pairs generalizing progress failures with
  | nil => simp [transformAll]
  | cons pair rest ih =>
    rw [transformAll, List.mapIdx_cons, List.filterMap_cons, List.foldl_cons]
    simp only [List.take_zero, List.foldl_nil, List.take_succ_cons, List.foldl_cons, after]
    rcases (transformFile batch shop pair).run progress with ⟨fault | ⟨⟩, left⟩
    · exact (ih left (fault :: failures)).trans (by simp [fault?])
    · exact (ih left failures).trans (by simp [fault?])

/-- Without damaged archives, a batch goes through all its pairs. -/
theorem run_eq (h : ∀ source ∈ batch.sources tree, damage? source.2 = none) :
    batch.run tree = ⟨(batch.atTurn tree batch.pairs.length).tree,
      (batch.classes tree).foldl Catalog.register Catalog.empty, report (batch.verdicts tree)⟩ := by
  have hregister : (batch.registerAll tree).run Catalog.empty =
      (.ok (), (batch.classes tree).foldl Catalog.register Catalog.empty) := by
    rw [run_registerAll, search_eq _ _ h, classes]
  have hshop : batch.shop tree = ⟨batch.policies, (batch.classes tree).foldl Catalog.register Catalog.empty⟩ := by
    rw [shop, hregister]
  rw [run, hregister]
  dsimp only
  rw [← hshop, transformAll_eq, atTurn, List.take_length]
  rfl

/-- With a damaged archive, a batch ends before its first turn. -/
theorem run_of_damage (h : ∃ source ∈ batch.sources tree, (damage? source.2).isSome) :
    (batch.run tree).tree = tree ∧ ∃ fault, (batch.run tree).fault = some (.early fault) := by
  obtain ⟨fault, hfault⟩ := (search_fst_eq_error _ Catalog.empty).mpr h
  rw [← run_registerAll] at hfault
  rw [run]
  rcases hregister : (batch.registerAll tree).run Catalog.empty with ⟨cause | ⟨⟩, catalog⟩ <;>
    rw [hregister] at hfault
  · exact ⟨rfl, cause, rfl⟩
  · cases hfault

/-- Some archive is damaged, or none is. -/
theorem damaged_or_not (batch : Batch) (tree : FileTree) :
    (∃ source ∈ batch.sources tree, (damage? source.2).isSome) ∨
      ∀ source ∈ batch.sources tree, damage? source.2 = none := by
  by_cases h : ∃ source ∈ batch.sources tree, (damage? source.2).isSome
  · exact .inl h
  · exact .inr fun source hsource => Option.not_isSome_iff_eq_none.mp fun hsome => h ⟨source, hsource, hsome⟩

/-! ## What changes from turn to turn -/

/-- The destinations of the outputs, and of the drafts for them, of some turns. -/
def touchedBy (batch : Batch) (tree : FileTree) (turns : ℕ → Prop) (path : Path) : Prop :=
  ∃ turn pair, turns turn ∧ batch.pairs[turn]? = some pair ∧ touches tree pair.output path

/-- Routes start from the same directory at all turns. -/
theorem start_atTurn (batch : Batch) (tree : FileTree) (turn : ℕ) :
    (batch.atTurn tree turn).tree.start = tree.start := by
  induction turn with
  | zero => rfl
  | succ turn ih =>
    cases hpair : batch.pairs[turn]? with
    | none =>
      have hle := List.getElem?_eq_none_iff.mp hpair
      rw [atTurn_of_le (hle.trans turn.le_succ), ← atTurn_of_le hle, ih]
    | some pair =>
      rw [atTurn_succ hpair, ← ih]
      exact (transformFile_changes batch (batch.shop tree) pair _).1.start_eq

/-- A turn touches the output of its pair and the draft for it. -/
theorem changesAt_turn (hpair : batch.pairs[turn]? = some pair) :
    FileTree.ChangesAt (touches tree pair.output) (batch.atTurn tree turn).tree
      (batch.atTurn tree (turn + 1)).tree := by
  rw [atTurn_succ hpair, ← touches_congr (start_atTurn batch tree turn)]
  exact (transformFile_changes batch (batch.shop tree) pair _).1

/-- From one turn to another, only the outputs and drafts of the pairs in between are touched. -/
theorem changesAt_turns (batch : Batch) (tree : FileTree) {first last : ℕ} (h : first ≤ last) :
    FileTree.ChangesAt (batch.touchedBy tree fun turn => first ≤ turn ∧ turn < last)
      (batch.atTurn tree first).tree (batch.atTurn tree last).tree := by
  induction last, h using Nat.le_induction with
  | base => exact .refl _ _
  | succ last hle ih =>
    have hbefore := ih.mono fun path =>
      show _ → batch.touchedBy tree (fun turn => first ≤ turn ∧ turn < last + 1) path from
      fun ⟨turn, pair, ⟨hfirst, hlast⟩, htouched⟩ => ⟨turn, pair, ⟨hfirst, by omega⟩, htouched⟩
    cases hpair : batch.pairs[last]? with
    | none =>
      have hend := List.getElem?_eq_none_iff.mp hpair
      rw [atTurn_of_le (hend.trans last.le_succ), ← atTurn_of_le hend]
      exact hbefore
    | some pair =>
      exact hbefore.trans ((changesAt_turn hpair).mono fun path htouched =>
        ⟨last, pair, ⟨hle, last.lt_succ_self⟩, hpair, htouched⟩)

/-- The draft for a pair whose input is an archive at its turn. -/
def IsDraft (batch : Batch) (tree : FileTree) (turn : ℕ) (pair : FilePair) (path : Path) : Prop :=
  batch.pairs[turn]? = some pair ∧ path = tree.destination (pair.output.beside ".tmp") ∧
    ∃ content, (batch.atTurn tree turn).tree.file? (tree.destination pair.input) = some content ∧
      content.looksLikeArchive

/-- The finished archive of a pair cannot be moved to the output, and the pair fails for this reason. -/
def IsStranded (batch : Batch) (tree : FileTree) (turn : ℕ) (pair : FilePair) : Prop :=
  ∃ fault, (batch.atTurn tree (turn + 1)).tree.landing pair.output = .error fault ∧
    batch.verdict tree turn pair = .error (.refused fault)

/-- What is no output is kept by a turn, unless it is the draft of an archive, which is then gone or stranded. -/
theorem file?_turn (hpair : batch.pairs[turn]? = some pair) (houtput : path ≠ tree.destination pair.output) :
    (batch.atTurn tree (turn + 1)).tree.file? path = (batch.atTurn tree turn).tree.file? path ∨
      batch.IsDraft tree turn pair path ∧
        ((batch.atTurn tree (turn + 1)).tree.file? path = none ∨ batch.IsStranded tree turn pair) := by
  have hstart := start_atTurn batch tree turn
  have hkept := (transformFile_changes batch (batch.shop tree) pair (batch.atTurn tree turn)).2 path
    (FileTree.destination_congr hstart pair.output ▸ houtput)
  rw [IsStranded]
  rw [FileTree.destination_congr hstart] at hkept
  change (batch.after _ _ pair).tree.file? path = _ ∨ _ ∧ ((batch.after _ _ pair).tree.file? path = none ∨
    ∃ fault, (batch.after _ _ pair).tree.landing _ = _ ∧ batch.verdict tree turn pair = _) at hkept
  rw [← atTurn_succ hpair] at hkept
  by_cases hdraft : path = tree.destination (pair.output.beside ".tmp")
  · exact hkept.imp id fun ⟨harchive, hgone⟩ => ⟨⟨hpair, hdraft, harchive⟩, hgone⟩
  · exact .inl ((changesAt_turn hpair).file?_eq fun htouched => htouched.elim houtput hdraft)

/-- What is no output is kept up to each turn, unless it is the draft of an archive. -/
theorem file?_atTurn (houtput : ∀ pair ∈ batch.pairs, path ≠ tree.destination pair.output) (last : ℕ) :
    (batch.atTurn tree last).tree.file? path = tree.file? path ∨
      ∃ turn pair, batch.IsDraft tree turn pair path ∧
        ((batch.atTurn tree last).tree.file? path = none ∨ batch.IsStranded tree turn pair) := by
  induction last with
  | zero => exact .inl rfl
  | succ last ih =>
    cases hpair : batch.pairs[last]? with
    | none =>
      have hend := List.getElem?_eq_none_iff.mp hpair
      rw [atTurn_of_le (hend.trans last.le_succ), ← atTurn_of_le hend]
      exact ih
    | some pair =>
      rcases file?_turn hpair (houtput pair (List.mem_of_getElem? hpair)) with hkept | hgone
      · rw [hkept]
        exact ih
      · exact .inr ⟨last, pair, hgone⟩

/-- A batch keeps every file that is not one of its outputs, and makes no other file.  The one exception is
the draft of an archive: what was there before is lost, and no file is there afterwards, unless the finished
archive could not be moved to its output. -/
theorem run_keeps_others (batch : Batch) (tree : FileTree) (path : Path)
    (houtput : ∀ pair ∈ batch.pairs, path ≠ tree.destination pair.output) :
    (batch.run tree).tree.file? path = tree.file? path ∨
      ∃ turn pair, batch.IsDraft tree turn pair path ∧
        ((batch.run tree).tree.file? path = none ∨ batch.IsStranded tree turn pair) := by
  rcases damaged_or_not batch tree with h | h
  · rw [(run_of_damage h).1]
    exact .inl rfl
  · rw [run_eq h]
    exact file?_atTurn houtput _

/-- An archive, a directory in the place of its output, and a text. -/
def blockedTree : FileTree where
  nodes := [(["in.jar"], .file (.archive [⟨"n.txt", [0x31]⟩])), (["notes.txt"], .file (.bytes [0x32])),
    (["out.jar"], .directory)]
  location := ""

/-- A batch without policies that writes the archive to where the directory is. -/
def blockedBatch : Batch where
  pairs := [⟨⟨false, ["in.jar"]⟩, ⟨false, ["out.jar"]⟩⟩]
  elements := []
  memory := {}
  policies := []

/-- An archive that cannot be moved to its output leaves a text beside it alone. -/
theorem run_keeps_others_blocked :
    (blockedBatch.run blockedTree).tree.file? ["notes.txt"] = blockedTree.file? ["notes.txt"] := by
  refine (run_keeps_others blockedBatch blockedTree ["notes.txt"] (by decide)).resolve_right ?_
  rintro ⟨_ | other, pair, ⟨hpair, hpath, -⟩, -⟩
  · obtain rfl := Option.some.inj hpair
    revert hpath
    decide
  · cases hpair

end Batch

/-! ## Failures -/

namespace Batch

variable {batch : Batch} {tree : FileTree} {turn : ℕ} {pair : FilePair} {content : FileContent}

/-- The files of a pair are touched by no other pair, and the input is not in the place of the draft. -/
structure Undisturbed (batch : Batch) (tree : FileTree) (turn : ℕ) (pair : FilePair) : Prop where
  draft_ne : tree.destination pair.input ≠ tree.destination (pair.output.beside ".tmp")
  input_free : ¬ batch.touchedBy tree (· ≠ turn) (tree.destination pair.input)
  output_free : ¬ batch.touchedBy tree (· ≠ turn) (tree.destination pair.output)

/-- What the turn of a pair comes to in the end, given the files that there were at first.  The content of
the input is transformed with a classpath that sees these files, apart from outputs and drafts. -/
def Settles (batch : Batch) (tree : FileTree) (turn : ℕ) (pair : FilePair) (content : FileContent)
    (verdict : Except ItemFault Unit) (final : FileTree) : Prop :=
  ∃ classpath : Classpath, classpath.elements = batch.elements ∧
    classpath.memory = (batch.atTurn tree turn).memory ∧
    FileTree.ChangesAt (batch.touchedBy tree fun _ => True) tree classpath.tree ∧
    let result := (batch.shop tree).transformContent classpath
      (tree.locate (tree.destination pair.input)) content
    match verdict with
    | .ok () => ∃ output, result = .ok output ∧ final.file? (tree.destination pair.output) = some output
    | .error fault => result = .error fault ∨ IsRefusal fault

/-- An undisturbed pair comes to what its own input deserves. -/
theorem settles_of_undisturbed (hpair : batch.pairs[turn]? = some pair)
    (hinput : tree.fileAt? pair.input = some content) (h : batch.Undisturbed tree turn pair) :
    batch.Settles tree turn pair content (batch.verdict tree turn pair)
      (batch.atTurn tree batch.pairs.length).tree := by
  have hturn : turn < batch.pairs.length := (List.getElem?_eq_some_iff.mp hpair).1
  have hbefore : FileTree.ChangesAt _ tree _ := changesAt_turns batch tree turn.zero_le
  have hcontent := hbefore.fileAt? hinput (by
    rintro ⟨other, found, hother, htouched⟩
    exact h.input_free ⟨other, found, hother.2.ne, htouched⟩)
  have hstart := start_atTurn batch tree turn
  have hdelivers := transformFile_delivers batch (batch.shop tree) hcontent (by
    rw [FileTree.destination_congr hstart, FileTree.destination_congr hstart]
    exact h.draft_ne)
  obtain ⟨classpath, helements, hmemory, hchanges, hresult⟩ := hdelivers
  rw [touches_congr hstart] at hchanges
  refine ⟨classpath, helements, hmemory, ?_, ?_⟩
  · refine (hbefore.mono ?_).trans (hchanges.mono ?_)
    · rintro _ ⟨other, found, -, htouched⟩
      exact ⟨other, found, trivial, htouched⟩
    · exact fun _ htouched => ⟨turn, pair, trivial, hpair, htouched⟩
  · rw [FileTree.locate, hbefore.location_eq, FileTree.destination_congr hstart,
      FileTree.destination_congr hstart] at hresult
    have hafter := changesAt_turns batch tree (Nat.succ_le_of_lt hturn)
    cases hverdict : batch.verdict tree turn pair with
    | error fault =>
      rw [show ((transformFile batch (batch.shop tree) pair).run (batch.atTurn tree turn)).1 = .error fault
        from hverdict] at hresult
      exact hresult
    | ok =>
      rw [show ((transformFile batch (batch.shop tree) pair).run (batch.atTurn tree turn)).1 = .ok ()
        from hverdict] at hresult
      obtain ⟨output, houtput, hfile⟩ := hresult
      refine ⟨output, houtput, (hafter.file?_eq ?_).trans ?_⟩
      · rintro ⟨other, found, hother, htouched⟩
        exact h.output_free ⟨other, found, (Nat.lt_of_succ_le hother.1).ne', htouched⟩
      · rw [atTurn_succ hpair]
        exact hfile

/-- A batch ends early exactly if some archive on the classpath or among the inputs is damaged, and then no
file is touched.  Otherwise all classes that can be read are registered, every pair has its turn, the
failures are reported in the order of the pairs, and each undisturbed pair comes to what its own input
deserves. -/
theorem run_isolates_failures (batch : Batch) (tree : FileTree) :
    let outcome := batch.run tree
    ((∃ source ∈ batch.sources tree, (damage? source.2).isSome) →
      outcome.tree = tree ∧ ∃ fault, outcome.fault = some (.early fault)) ∧
    ((∀ source ∈ batch.sources tree, damage? source.2 = none) →
      outcome.catalog = (batch.classes tree).foldl Catalog.register Catalog.empty ∧
      (batch.shop tree).catalog = outcome.catalog ∧
      outcome.fault = report (batch.verdicts tree) ∧
      (batch.verdicts tree).length = batch.pairs.length ∧
      ∀ turn pair content, batch.pairs[turn]? = some pair → tree.fileAt? pair.input = some content →
        batch.Undisturbed tree turn pair →
        ∃ verdict, (batch.verdicts tree)[turn]? = some verdict ∧
          batch.Settles tree turn pair content verdict outcome.tree) := by
  refine ⟨run_of_damage, fun h => ?_⟩
  rw [run_eq h]
  refine ⟨rfl, ?_, rfl, List.length_mapIdx, fun turn pair content hpair hinput hundisturbed => ?_⟩
  · rw [shop, run_registerAll, search_eq _ _ h, classes]
  · refine ⟨batch.verdict tree turn pair, ?_, settles_of_undisturbed hpair hinput hundisturbed⟩
    rw [verdicts, List.getElem?_mapIdx, hpair]
    rfl

/-- Two files: what starts like a class and is none, and a text. -/
def mixedTree : FileTree where
  nodes := [(["a.class"], .file (.bytes ClassFile.magic)), (["b.txt"], .file (.bytes [0x31]))]
  location := ""

/-- A batch without policies that writes both files next to where they are. -/
def mixedBatch : Batch where
  pairs := [⟨⟨false, ["a.class"]⟩, ⟨false, ["c.class"]⟩⟩, ⟨⟨false, ["b.txt"]⟩, ⟨false, ["d.txt"]⟩⟩]
  elements := []
  memory := {}
  policies := []

/-- The text is not disturbed by the file that is no class. -/
theorem undisturbed_text :
    mixedBatch.Undisturbed mixedTree 1 ⟨⟨false, ["b.txt"]⟩, ⟨false, ["d.txt"]⟩⟩ := by
  have hfree : ∀ path ∈ [["b.txt"], ["d.txt"]], ¬ mixedBatch.touchedBy mixedTree (· ≠ 1) path := by
    rintro path hpath ⟨_ | _ | other, pair, hne, hpair, htouched⟩
    · obtain rfl := Option.some.inj hpair
      revert path
      unfold touches
      decide
    · exact hne rfl
    · cases hpair
  exact ⟨by decide, hfree _ (by decide), hfree _ (by decide)⟩

/-- A file that is no class leaves the text beside it alone. -/
theorem run_isolates_failures_mixed :
    ∃ verdict, (mixedBatch.verdicts mixedTree)[1]? = some verdict ∧
      mixedBatch.Settles mixedTree 1 ⟨⟨false, ["b.txt"]⟩, ⟨false, ["d.txt"]⟩⟩ (.bytes [0x31]) verdict
        (mixedBatch.run mixedTree).tree :=
  ((run_isolates_failures mixedBatch mixedTree).2 (by decide)).2.2.2.2 1 _ _ rfl (by decide) undisturbed_text

end Batch

end ClassInstrument
