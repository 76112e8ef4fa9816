import ClassInstrument.Batch.Basic
import ClassInstrument.Proofs.Storage.Update

/-!
# Transforming one file

What transforming a file does is written out once, step by step: where an archive is put together, what it
is made of, and where it goes; what a class is transformed to; what is copied.  From this we read off which
files are touched, the output and the draft of an archive, and that a transformation that succeeds leaves
its result at the destination of the output.
-/

namespace ClassInstrument

open Acting Outcome

namespace Batch

/-! ## The files of a batch -/

namespace Progress

/-- The files change as `FileTree.ChangesAt` says, whatever is remembered. -/
def ChangesAt (touched : Path → Prop) (progress progress' : Progress) : Prop :=
  FileTree.ChangesAt touched progress.tree progress'.tree

instance {touched : Path → Prop} : Std.Refl (ChangesAt touched) :=
  ⟨fun progress => FileTree.ChangesAt.refl touched progress.tree⟩

instance {touched : Path → Prop} : IsTrans Progress (ChangesAt touched) :=
  ⟨fun _ _ _ => FileTree.ChangesAt.trans⟩

end Progress

namespace Filing

/-- A change of the files leaves what is remembered. -/
theorem run_update (act : Updating Unit) (fault : FileFault → ItemFault) (progress : Progress) :
    (update act fault).run progress =
      ((act.run progress.tree).1.mapError fault, { progress with tree := (act.run progress.tree).2 }) := by
  rw [update, run_bind, run_get]
  dsimp only
  rcases act.run progress.tree with ⟨_ | _, tree⟩ <;> rfl

/-- The classpath has the files and what is remembered. -/
theorem run_classpath (batch : Batch) (progress : Progress) :
    (classpath batch).run progress = (.ok ⟨progress.tree, batch.elements, progress.memory⟩, progress) :=
  rfl

theorem run_remember (classpath : Classpath) (progress : Progress) :
    (remember classpath).run progress = (.ok (), { progress with memory := classpath.memory }) :=
  rfl

/-- The directory for an output touches no file, and nothing is remembered for it. -/
theorem prepare_changes (touched : Path → Prop) (directory : Route) (progress : Progress) :
    FileTree.ChangesAt touched progress.tree ((prepare directory).run progress).2.tree ∧
      ((prepare directory).run progress).2.memory = progress.memory := by
  rw [prepare, run_bind, run_get]
  dsimp only
  split
  · rw [run_update]
    exact ⟨Updating.leaves_createDirectories touched directory progress.tree, rfl⟩
  · exact ⟨.refl touched progress.tree, rfl⟩

/-- The directory for an output is there, or it cannot be created. -/
theorem prepare_eq_error {directory : Route} {progress : Progress} {fault : ItemFault}
    (h : ((prepare directory).run progress).1 = .error fault) :
    ∃ cause, fault = .noDirectory (progress.tree.locateRoute directory) cause := by
  rw [prepare, run_bind, run_get] at h
  dsimp only at h
  split at h
  · rw [run_update] at h
    cases hact : ((Updating.createDirectories directory).run progress.tree).1 with
    | ok => simp [hact, Except.mapError] at h
    | error cause => exact ⟨cause, by simpa [hact, Except.mapError, eq_comm] using h⟩
  · cases h

end Filing

/-- What is transformed in place has the same destination as its output. -/
theorem destination_eq_of_isInPlace {pair : FilePair} {tree : FileTree} (h : pair.isInPlace tree) :
    tree.destination pair.input = tree.destination pair.output := by
  unfold FilePair.isInPlace at h
  rcases Bool.or_eq_true_iff.mp h with h | h
  · obtain ⟨habsolute, hsteps⟩ := Bool.and_eq_true_iff.mp h
    rw [FileTree.destination_eq_foldl_steps, FileTree.destination_eq_foldl_steps, eq_of_beq habsolute,
      eq_of_beq hsteps]
  · split at h
    · next input output hinput houtput =>
      rw [← FileTree.eq_destination_of_follow (FileTree.place?_eq_some.mp hinput).1,
        ← FileTree.eq_destination_of_follow (FileTree.place?_eq_some.mp houtput).1]
      exact eq_of_beq h
    · cases h

/-! ## The result of a transformation -/

/-- What a file holds after the batch: an archive is taken entry by entry, a class is transformed, and
anything else is kept. -/
def Workshop.transformContent (shop : Workshop) (classpath : Classpath) (location : String)
    (content : FileContent) : Except ItemFault FileContent :=
  if content.looksLikeArchive then do
    let archive ← (Archive.ofContent content).mapError .badArchive
    let entries ← shop.transformArchive classpath location archive
    return .archive entries
  else if isClassFile location content.toBytes then do
    let bytes ← shop.transformBytes classpath location content.toBytes
    return .bytes bytes
  else return content

variable {batch : Batch} {shop : Workshop} {pair : FilePair} {progress : Progress} {draft : Route} {path : Path}

/-! ## Archives -/

/-- The entries that an archive is put together from, and what is remembered then. -/
def rebuild (batch : Batch) (shop : Workshop) (input : Route) (progress : Progress) :
    Except ItemFault (List ArchiveEntry) × ClassMemory :=
  let classpath : Classpath := ⟨progress.tree, batch.elements, progress.memory⟩
  let archive := openArchive progress.tree input
  (archive.bind (shop.transformArchive classpath (progress.tree.describe input)),
    (shop.afterArchive classpath archive).memory)

/-- Where the draft of an archive goes, if it is put together in the tree. -/
def site (tree : FileTree) (output : Route) : Except FileFault (Option Path) :=
  match draft? tree output with
  | none => .ok none
  | some draft => (tree.writable draft).map some

/-- The tree with the draft of an archive. -/
def withDraft (tree : FileTree) (site : Option Path) (content : FileContent) : FileTree :=
  site.elim tree fun path => tree.set path (.file content)

/-- The tree without the draft of an archive. -/
def withoutDraft (tree : FileTree) (site : Option Path) : FileTree :=
  site.elim tree tree.erase

/-- The draft of an archive holds what was written to it, and can be written again or removed. -/
theorem draft_of_writable {tree : FileTree} (h : tree.writable draft = .ok path) (content : FileContent) :
    let filled := tree.set path (.file content)
    filled.writable draft = .ok path ∧ filled.read draft = .ok content ∧
      filled.without draft = filled.erase path := by
  intro filled
  have hsite := FileTree.site_of_writable h
  have hfile : filled.file? path = some content := by
    rw [FileTree.file?_set_file _ hsite.ne_nil, if_pos rfl]
  have hfilled : FileTree.ChangesAt (· = path) tree filled :=
    FileTree.changesAt_set_file _ hsite.ne_nil hsite.not_directory
  have hfollow := hfilled.follow hsite.follow
  refine ⟨hfilled.writable h ?_, ?_, ?_⟩
  · exact FileTree.isDirectory_set_file content hsite.ne_nil
  · exact FileTree.read_eq_ok.mpr (FileTree.fileAt?_eq_some.mpr ⟨path, hfollow, hfile⟩)
  · exact FileTree.without_eq hfollow (Option.isSome_iff_exists.mpr ⟨content, hfile⟩)

/-- An archive is put together in its draft.  If an entry fails, the draft is removed; otherwise it is moved
to the output, or stays where it is if it cannot be moved. -/
theorem run_transformArchive (batch : Batch) (shop : Workshop) (pair : FilePair) (progress : Progress) :
    (transformArchive batch shop pair).run progress =
      match site progress.tree pair.output with
      | .error fault => (.error (.refused fault), progress)
      | .ok site =>
        let opened := withDraft progress.tree site (.bytes [])
        let rebuilt := rebuild batch shop pair.input ⟨opened, progress.memory⟩
        match rebuilt.1 with
        | .error cause => (.error cause, ⟨withoutDraft opened site, rebuilt.2⟩)
        | .ok entries =>
          let filled := withDraft opened site (.archive entries)
          match filled.landing pair.output with
          | .error fault => (.error (.refused fault), ⟨filled, rebuilt.2⟩)
          | .ok target =>
            (.ok (), ⟨(withoutDraft filled site).set target (.file (.archive entries)), rebuilt.2⟩) := by
  rw [transformArchive, run_bind, run_get]
  dsimp only
  unfold site
  cases hdraft : draft? progress.tree pair.output with
  | none =>
    dsimp only [withDraft, withoutDraft, Option.elim, Option.forM]
    rw [run_bind, run_pure]
    dsimp only
    rw [run_bind, Filing.run_classpath]
    dsimp only
    cases hrebuilt : (rebuild batch shop pair.input ⟨progress.tree, progress.memory⟩).1 with
    | error cause =>
      rw [show (openArchive progress.tree pair.input).bind (shop.transformArchive _ _) = .error cause
        from hrebuilt]
      rfl
    | ok entries =>
      rw [show (openArchive progress.tree pair.input).bind (shop.transformArchive _ _) = .ok entries
        from hrebuilt]
      dsimp only
      rw [run_bind, Filing.run_remember]
      dsimp only
      rw [Filing.run_update, Updating.run_receive]
      cases progress.tree.landing pair.output <;> rfl
  | some draft =>
    cases hwritable : progress.tree.writable draft with
    | error fault =>
      dsimp only [Except.map]
      rw [Option.forM, run_bind, Filing.run_update, Updating.run_write, hwritable]
      rfl
    | ok path =>
      dsimp only [Except.map, withDraft, withoutDraft, Option.elim]
      obtain ⟨hagain, -, hremove⟩ := draft_of_writable hwritable (.bytes [])
      rw [Option.forM, run_bind, Filing.run_update, Updating.run_write, hwritable]
      dsimp only [Except.mapError]
      rw [run_bind, Filing.run_classpath]
      dsimp only
      set opened := progress.tree.set path (.file (.bytes []))
      cases hrebuilt : (rebuild batch shop pair.input ⟨opened, progress.memory⟩).1 with
      | error cause =>
        rw [show (openArchive opened pair.input).bind (shop.transformArchive _ _) = .error cause
          from hrebuilt]
        dsimp only
        rw [run_bind, Filing.run_remember]
        dsimp only
        rw [Option.forM, run_bind, Filing.run_update, Updating.run_remove, hremove]
        rfl
      | ok entries =>
        obtain ⟨-, hread, hmove⟩ := draft_of_writable hagain (.archive entries)
        rw [show (openArchive opened pair.input).bind (shop.transformArchive _ _) = .ok entries
          from hrebuilt]
        dsimp only
        rw [run_bind, Filing.run_remember]
        dsimp only
        rw [run_bind, Filing.run_update, Updating.run_write, hagain]
        dsimp only [Except.mapError]
        rw [Filing.run_update, Updating.run_move, hread, hmove]
        cases (opened.set path (.file (.archive entries))).landing pair.output <;> rfl

variable {tree : FileTree} {output : Route} {place : Option Path}

/-- A draft is written next to its output. -/
theorem writable_of_site (h : site tree output = .ok (some path)) :
    tree.writable (output.beside ".tmp") = .ok path := by
  unfold site draft? at h
  split at h
  · cases h
  · next draft hdraft =>
    split at hdraft
    · cases hdraft
    · obtain rfl := Option.some.inj hdraft
      cases hwritable : tree.writable (output.beside ".tmp") with
      | error fault => simp [hwritable, Except.map] at h
      | ok found =>
        rw [hwritable] at h
        rw [Option.some.inj (Except.ok.inj h)]

/-- A draft that was written can be written again. -/
theorem site_withDraft (h : site tree output = .ok place) (content : FileContent) :
    site (withDraft tree place content) output = .ok place := by
  cases place with
  | none => exact h
  | some path =>
    have hagain := (draft_of_writable (writable_of_site h) content).1
    unfold site at h ⊢
    rw [show draft? (withDraft tree (some path) content) output = draft? tree output from rfl]
    split at h
    · cases h
    · next draft hdraft =>
      unfold draft? at hdraft
      split at hdraft
      · cases hdraft
      · obtain rfl := Option.some.inj hdraft
        exact congrArg (Except.map some) hagain

/-- The place of a draft is the destination next to the output. -/
theorem eq_of_site (h : site tree output = .ok place) (hpath : some path = place) :
    path = tree.destination (output.beside ".tmp") := by
  subst hpath
  exact (FileTree.site_of_writable (writable_of_site h)).eq_destination

/-- Writing a draft touches nothing else. -/
theorem changesAt_withDraft (h : site tree output = .ok place) (content : FileContent) :
    FileTree.ChangesAt (some · = place) tree (withDraft tree place content) := by
  cases place with
  | none => exact .refl _ tree
  | some path =>
    have hsite := FileTree.site_of_writable (writable_of_site h)
    exact (FileTree.changesAt_set_file content hsite.ne_nil hsite.not_directory).mono fun _ => congrArg some

/-- Removing a draft touches nothing else. -/
theorem changesAt_withoutDraft (h : site tree output = .ok place) (content : FileContent) :
    FileTree.ChangesAt (some · = place) (withDraft tree place content)
      (withoutDraft (withDraft tree place content) place) := by
  cases place with
  | none => exact .refl _ tree
  | some path =>
    have hsite := FileTree.site_of_writable (writable_of_site h)
    refine (FileTree.changesAt_erase (Option.isSome_iff_exists.mpr ⟨content, ?_⟩)).mono fun _ => congrArg some
    rw [withDraft, Option.elim, FileTree.file?_set_file content hsite.ne_nil, if_pos rfl]

/-- A draft that was removed is gone, even if there was a file in its place before. -/
theorem file?_withoutDraft (h : site tree output = .ok place) (hpath : some path = place) (filled : FileTree) :
    (withoutDraft filled place).file? path = none := by
  subst hpath
  have hsite := FileTree.site_of_writable (writable_of_site h)
  rw [withoutDraft, Option.elim, FileTree.file?_erase hsite.ne_nil, if_pos rfl]

/-- A moved archive is at the destination of its output, and nothing but the draft is touched besides. -/
theorem changesAt_moved (h : site tree output = .ok place) (entries : List ArchiveEntry) {target : Path}
    (hlanding : (withDraft tree place (.archive entries)).landing output = .ok target) :
    target = tree.destination output ∧ target ≠ [] ∧
      FileTree.ChangesAt (· = target) (withoutDraft (withDraft tree place (.archive entries)) place)
        ((withoutDraft (withDraft tree place (.archive entries)) place).set target
          (.file (.archive entries))) := by
  have hsite := FileTree.site_of_writable (FileTree.landing_eq_ok.mp hlanding)
  refine ⟨?_, hsite.ne_nil, FileTree.changesAt_set_file _ hsite.ne_nil ?_⟩
  · rw [hsite.eq_destination, (changesAt_withDraft h _).destination_eq]
  · refine Bool.eq_false_iff.mpr fun hdirectory => ?_
    refine absurd ?_ (Bool.eq_false_iff.mp hsite.not_directory)
    cases place with
    | none => exact hdirectory
    | some path =>
      exact FileTree.isDirectory_of_erase (FileTree.site_of_writable (writable_of_site h)).ne_nil hdirectory

/-! ## What a turn touches -/

/-- The destinations of an output and of the draft for it. -/
def touches (tree : FileTree) (output : Route) (path : Path) : Prop :=
  path = tree.destination output ∨ path = tree.destination (output.beside ".tmp")

/-- Trees with the same starting points have the same outputs and drafts. -/
theorem touches_congr {tree' : FileTree} (hstart : tree'.start = tree.start) (output : Route) :
    touches tree' output = touches tree output := by
  funext path
  rw [touches, touches, FileTree.destination_congr hstart, FileTree.destination_congr hstart]

/-- Transforming an archive touches its output and the draft.  The draft is gone afterwards, unless it cannot
be moved to the output. -/
theorem transformArchive_changes (batch : Batch) (shop : Workshop) (pair : FilePair) (progress : Progress) :
    let outcome := (transformArchive batch shop pair).run progress
    FileTree.ChangesAt (touches progress.tree pair.output) progress.tree outcome.2.tree ∧
      ∀ path, path ≠ progress.tree.destination pair.output →
        outcome.2.tree.file? path = progress.tree.file? path ∨ outcome.2.tree.file? path = none ∨
          ∃ fault, outcome.2.tree.landing pair.output = .error fault ∧
            outcome.1 = .error (.refused fault) := by
  rw [run_transformArchive]
  cases hsite : site progress.tree pair.output with
  | error fault => exact ⟨.refl _ _, fun _ _ => .inl rfl⟩
  | ok place =>
    have hdraft (path : Path) (hpath : some path = place) : touches progress.tree pair.output path :=
      .inr (eq_of_site hsite hpath)
    have hopened := changesAt_withDraft hsite (.bytes [])
    dsimp only
    split
    · have hchanges := hopened.trans (changesAt_withoutDraft hsite (.bytes []))
      refine ⟨hchanges.mono hdraft, fun path _ => ?_⟩
      by_cases hpath : some path = place
      · exact .inr (.inl (file?_withoutDraft hsite hpath _))
      · exact .inl (hchanges.file?_eq hpath)
    · next entries _ =>
      have hagain := site_withDraft hsite (.bytes [])
      have hfilled := hopened.trans (changesAt_withDraft hagain (.archive entries))
      split
      · next fault hlanding => exact ⟨hfilled.mono hdraft, fun _ _ => .inr (.inr ⟨fault, hlanding, rfl⟩)⟩
      · next target hlanding =>
        obtain ⟨htarget, -, hmoved⟩ := changesAt_moved hagain entries hlanding
        rw [hopened.destination_eq] at htarget
        have hcleared := hfilled.trans (changesAt_withoutDraft hagain (.archive entries))
        refine ⟨(hcleared.mono hdraft).trans (hmoved.mono fun _ h => .inl (h.trans htarget)),
          fun path hpath => ?_⟩
        rw [hmoved.file?_eq (htarget ▸ hpath)]
        by_cases hplace : some path = place
        · exact .inr (.inl (file?_withoutDraft hsite hplace _))
        · exact .inl (hcleared.file?_eq hplace)

/-- A class or any other file is written to its output, unless it fails or is where it belongs. -/
theorem run_transformPlain (batch : Batch) (shop : Workshop) (pair : FilePair) (content : FileContent)
    (progress : Progress) :
    let classpath : Classpath := ⟨progress.tree, batch.elements, progress.memory⟩
    let location := progress.tree.describe pair.input
    let after := shop.afterClass classpath content.toBytes
    (transformPlain batch shop pair content).run progress =
      if isClassFile location content.toBytes then
        match shop.transformBytes classpath location content.toBytes with
        | .ok bytes =>
          (Filing.update (Updating.write pair.output (.bytes bytes)) .refused).run ⟨progress.tree, after.memory⟩
        | .error cause => (.error cause, ⟨progress.tree, after.memory⟩)
      else if pair.isInPlace progress.tree then (.ok (), progress)
      else (Filing.update (Updating.write pair.output content) .refused).run progress := by
  rw [transformPlain, run_bind, Filing.run_classpath]
  dsimp only
  split
  · rw [run_bind, Filing.run_remember]
    cases shop.transformBytes ⟨progress.tree, batch.elements, progress.memory⟩
      (progress.tree.describe pair.input) content.toBytes <;> rfl
  · cases pair.isInPlace progress.tree <;> rfl

/-- Writing an output touches its destination, where it is found if the writing is not refused. -/
theorem update_write (content : FileContent) (output : Route) (tree : FileTree) (memory : ClassMemory) :
    let outcome := (Filing.update (Updating.write output content) .refused).run ⟨tree, memory⟩
    FileTree.ChangesAt (· = tree.destination output) tree outcome.2.tree ∧
      (outcome.1 = .ok () ∧ outcome.2.tree.file? (tree.destination output) = some content ∨
        ∃ cause, outcome.1 = .error (.refused cause)) := by
  rw [Filing.run_update, Updating.run_write]
  dsimp only
  cases hwritable : tree.writable output with
  | error fault => exact ⟨.refl _ _, .inr ⟨fault, rfl⟩⟩
  | ok path =>
    have hsite := FileTree.site_of_writable hwritable
    rw [← hsite.eq_destination]
    refine ⟨FileTree.changesAt_set_file content hsite.ne_nil hsite.not_directory, .inl ⟨rfl, ?_⟩⟩
    exact (FileTree.file?_set_file content hsite.ne_nil).trans (if_pos rfl)

/-- Transforming a class, or copying a file, touches the output. -/
theorem transformPlain_changes (batch : Batch) (shop : Workshop) (pair : FilePair) (content : FileContent)
    (progress : Progress) :
    FileTree.ChangesAt (· = progress.tree.destination pair.output) progress.tree
      ((transformPlain batch shop pair content).run progress).2.tree := by
  rw [run_transformPlain]
  split
  · split
    · exact (update_write _ pair.output progress.tree _).1
    · exact .refl _ _
  · split
    · exact .refl _ _
    · exact (update_write _ pair.output progress.tree progress.memory).1

/-! ## What a turn comes to -/

/-- Was a file operation refused? -/
def IsRefusal (fault : ItemFault) : Prop :=
  (∃ cause, fault = .refused cause) ∨ ∃ directory cause, fault = .noDirectory directory cause

/-- What is expected of the turn of a pair whose input has some content: the output gets the transformed
content; if the turn fails, the content cannot be transformed, or a file operation is refused. -/
def Delivers (batch : Batch) (shop : Workshop) (pair : FilePair) (content : FileContent)
    (progress : Progress) (outcome : Except ItemFault Unit × Progress) : Prop :=
  ∃ classpath : Classpath, classpath.elements = batch.elements ∧ classpath.memory = progress.memory ∧
    FileTree.ChangesAt (touches progress.tree pair.output) progress.tree classpath.tree ∧
    let result := shop.transformContent classpath
      (progress.tree.locate (progress.tree.destination pair.input)) content
    match outcome.1 with
    | .ok () => ∃ output, result = .ok output ∧
        outcome.2.tree.file? (progress.tree.destination pair.output) = some output
    | .error fault => result = .error fault ∨ IsRefusal fault

/-- An archive that can be opened is put together from its transformed entries. -/
theorem rebuild_eq (batch : Batch) (shop : Workshop) (pair : FilePair) (progress : Progress)
    {content : FileContent} (hinput : progress.tree.fileAt? pair.input = some content) (harchive : content.looksLikeArchive) :
    (rebuild batch shop pair.input progress).1.map .archive =
      shop.transformContent ⟨progress.tree, batch.elements, progress.memory⟩
        (progress.tree.locate (progress.tree.destination pair.input)) content := by
  have hopen : openArchive progress.tree pair.input = (Archive.ofContent content).mapError .badArchive := by
    rw [openArchive, FileTree.read_eq_ok.mpr hinput]
    rfl
  rw [Workshop.transformContent, if_pos harchive, rebuild, hopen, FileTree.describe_eq hinput]
  cases Archive.ofContent content with
  | error cause => rfl
  | ok archive =>
    dsimp only [Except.mapError, Except.bind, bind]
    cases shop.transformArchive ⟨progress.tree, batch.elements, progress.memory⟩
      (progress.tree.locate (progress.tree.destination pair.input)) archive <;> rfl

/-- An archive is transformed entry by entry, unless its own draft takes the place of it. -/
theorem transformArchive_delivers (batch : Batch) (shop : Workshop) {content : FileContent}
    (hinput : progress.tree.fileAt? pair.input = some content) (harchive : content.looksLikeArchive)
    (hdraft : progress.tree.destination pair.input ≠
      progress.tree.destination (pair.output.beside ".tmp")) :
    Delivers batch shop pair content progress ((transformArchive batch shop pair).run progress) := by
  rw [run_transformArchive]
  cases hsite : site progress.tree pair.output with
  | error fault =>
    exact ⟨⟨progress.tree, batch.elements, progress.memory⟩, rfl, rfl, .refl _ _, .inr (.inl ⟨fault, rfl⟩)⟩
  | ok place =>
    have hopened := changesAt_withDraft hsite (.bytes [])
    have hcontent := hopened.fileAt? hinput fun hplace => hdraft (eq_of_site hsite hplace)
    refine ⟨⟨withDraft progress.tree place (.bytes []), batch.elements, progress.memory⟩, rfl, rfl,
      hopened.mono fun _ hplace => .inr (eq_of_site hsite hplace), ?_⟩
    have hlocate : (withDraft progress.tree place (.bytes [])).locate
        ((withDraft progress.tree place (.bytes [])).destination pair.input) =
          progress.tree.locate (progress.tree.destination pair.input) := by
      rw [hopened.destination_eq, FileTree.locate, FileTree.locate, hopened.location_eq]
    rw [← hlocate]
    set opened := withDraft progress.tree place (.bytes [])
    have hrebuilt := rebuild_eq batch shop pair ⟨opened, progress.memory⟩ hcontent harchive
    dsimp only at hrebuilt ⊢
    rw [← hrebuilt]
    cases (rebuild batch shop pair.input ⟨opened, progress.memory⟩).1 with
    | error cause => exact .inl rfl
    | ok entries =>
      dsimp only
      cases hlanding : (withDraft opened place (.archive entries)).landing pair.output with
      | error fault => exact .inr (.inl ⟨fault, rfl⟩)
      | ok target =>
        obtain ⟨htarget, hne, -⟩ := changesAt_moved (site_withDraft hsite _) entries hlanding
        rw [hopened.destination_eq] at htarget
        refine ⟨.archive entries, rfl, ?_⟩
        rw [← htarget, FileTree.file?_set_file _ hne, if_pos rfl]

/-- A class is transformed, and any other file is copied unless it is where it belongs. -/
theorem transformPlain_delivers (batch : Batch) (shop : Workshop) {content : FileContent}
    (hinput : progress.tree.fileAt? pair.input = some content) (harchive : ¬ content.looksLikeArchive) :
    Delivers batch shop pair content progress ((transformPlain batch shop pair content).run progress) := by
  refine ⟨⟨progress.tree, batch.elements, progress.memory⟩, rfl, rfl, .refl _ _, ?_⟩
  have hdescribe := FileTree.describe_eq hinput
  rw [run_transformPlain, hdescribe, Workshop.transformContent, if_neg harchive]
  by_cases hclass :
      isClassFile (progress.tree.locate (progress.tree.destination pair.input)) content.toBytes
  · rw [if_pos hclass, if_pos hclass]
    cases shop.transformBytes ⟨progress.tree, batch.elements, progress.memory⟩
      (progress.tree.locate (progress.tree.destination pair.input)) content.toBytes with
    | error cause => exact .inl rfl
    | ok bytes =>
      obtain ⟨-, ⟨hok, hwritten⟩ | ⟨cause, hfault⟩⟩ := update_write (.bytes bytes) pair.output progress.tree
        (shop.afterClass ⟨progress.tree, batch.elements, progress.memory⟩ content.toBytes).memory
      · dsimp only
        rw [hok]
        exact ⟨.bytes bytes, rfl, hwritten⟩
      · dsimp only
        rw [hfault]
        exact .inr (.inl ⟨cause, rfl⟩)
  · rw [if_neg hclass, if_neg hclass]
    by_cases hplace : pair.isInPlace progress.tree
    · rw [if_pos hplace]
      refine ⟨content, rfl, ?_⟩
      obtain ⟨path, hfollow, hfile⟩ := FileTree.fileAt?_eq_some.mp hinput
      rw [← destination_eq_of_isInPlace hplace, ← FileTree.eq_destination_of_follow hfollow, hfile]
    · rw [if_neg hplace]
      obtain ⟨-, ⟨hok, hwritten⟩ | ⟨cause, hfault⟩⟩ :=
        update_write content pair.output progress.tree progress.memory
      · dsimp only
        rw [hok]
        exact ⟨content, rfl, hwritten⟩
      · dsimp only
        rw [hfault]
        exact .inr (.inl ⟨cause, rfl⟩)

/-! ## A whole turn -/

/-- The directory for the output comes first, and then the input as it is. -/
theorem run_transformFile (batch : Batch) (shop : Workshop) (pair : FilePair) (progress : Progress) :
    (transformFile batch shop pair).run progress =
      match (Filing.prepare pair.output.parent).run progress with
      | (.error fault, left) => (.error fault, left)
      | (.ok (), left) =>
        match left.tree.fileAt? pair.input with
        | none => (.ok (), left)
        | some content =>
          if content.looksLikeArchive then (transformArchive batch shop pair).run left
          else (transformPlain batch shop pair content).run left := by
  rw [transformFile, run_bind]
  rcases (Filing.prepare pair.output.parent).run progress with ⟨_ | ⟨⟩, left⟩
  · rfl
  · dsimp only
    rw [run_bind, run_get]
    dsimp only
    cases left.tree.fileAt? pair.input with
    | none => rfl
    | some content =>
      dsimp only
      split <;> rfl

/-- A turn touches the output, and the draft for it if the input is an archive. -/
theorem transformFile_changes (batch : Batch) (shop : Workshop) (pair : FilePair) (progress : Progress) :
    let outcome := (transformFile batch shop pair).run progress
    FileTree.ChangesAt (touches progress.tree pair.output) progress.tree outcome.2.tree ∧
      ∀ path, path ≠ progress.tree.destination pair.output →
        outcome.2.tree.file? path = progress.tree.file? path ∨
          (∃ content, progress.tree.file? (progress.tree.destination pair.input) = some content ∧
            content.looksLikeArchive) ∧
          (outcome.2.tree.file? path = none ∨
            ∃ fault, outcome.2.tree.landing pair.output = .error fault ∧
              outcome.1 = .error (.refused fault)) := by
  rw [run_transformFile]
  obtain ⟨hprepared, -⟩ := Filing.prepare_changes (fun _ => False) pair.output.parent progress
  rcases hprepare : (Filing.prepare pair.output.parent).run progress with ⟨_ | ⟨⟩, left⟩ <;>
    rw [hprepare] at hprepared <;> dsimp only at hprepared ⊢
  · exact ⟨hprepared.mono fun _ => False.elim, fun _ _ => .inl (hprepared.file?_eq id)⟩
  · cases hinput : left.tree.fileAt? pair.input with
    | none => exact ⟨hprepared.mono fun _ => False.elim, fun _ _ => .inl (hprepared.file?_eq id)⟩
    | some content =>
      have hbefore := hprepared.mono fun path => (False.elim : _ → touches progress.tree pair.output path)
      dsimp only
      split
      · next harchive =>
        obtain ⟨hchanges, hdraft⟩ := transformArchive_changes batch shop pair left
        rw [touches_congr hprepared.start_eq] at hchanges
        refine ⟨hbefore.trans hchanges, fun path hpath => ?_⟩
        rw [← hprepared.destination_eq] at hpath
        rcases hdraft path hpath with hkept | hgone
        · exact .inl (hkept.trans (hprepared.file?_eq id))
        · obtain ⟨found, hfollow, hfile⟩ := FileTree.fileAt?_eq_some.mp hinput
          rw [FileTree.eq_destination_of_follow hfollow, hprepared.destination_eq,
            hprepared.file?_eq id] at hfile
          exact .inr ⟨⟨content, hfile, harchive⟩, hgone⟩
      · have hchanges := transformPlain_changes batch shop pair content left
        rw [hprepared.destination_eq] at hchanges
        exact ⟨hbefore.trans (hchanges.mono fun _ => .inl),
          fun path hpath => .inl ((hchanges.file?_eq hpath).trans (hprepared.file?_eq id))⟩

/-- A turn comes to what is expected, unless an archive would be put together in the place of the input. -/
theorem transformFile_delivers (batch : Batch) (shop : Workshop) {content : FileContent}
    (hinput : progress.tree.fileAt? pair.input = some content)
    (hdraft : progress.tree.destination pair.input ≠
      progress.tree.destination (pair.output.beside ".tmp")) :
    Delivers batch shop pair content progress ((transformFile batch shop pair).run progress) := by
  rw [run_transformFile]
  obtain ⟨hprepared, hmemory⟩ := Filing.prepare_changes (fun _ => False) pair.output.parent progress
  rcases hprepare : (Filing.prepare pair.output.parent).run progress with ⟨fault | ⟨⟩, left⟩ <;>
    rw [hprepare] at hprepared hmemory <;> dsimp only at hprepared hmemory ⊢
  · obtain ⟨cause, rfl⟩ := Filing.prepare_eq_error (congrArg Prod.fst hprepare)
    exact ⟨⟨progress.tree, batch.elements, progress.memory⟩, rfl, rfl, .refl _ _,
      .inr (.inr ⟨_, cause, rfl⟩)⟩
  · have hleft := hprepared.fileAt? hinput id
    rw [hleft]
    dsimp only
    have hdelivers : Delivers batch shop pair content left
        (if content.looksLikeArchive then (transformArchive batch shop pair).run left
          else (transformPlain batch shop pair content).run left) := by
      split
      · next harchive =>
        refine transformArchive_delivers batch shop hleft harchive ?_
        rwa [hprepared.destination_eq, hprepared.destination_eq]
      · next harchive => exact transformPlain_delivers batch shop hleft harchive
    obtain ⟨classpath, helements, hremembered, hchanges, hresult⟩ := hdelivers
    rw [touches_congr hprepared.start_eq] at hchanges
    refine ⟨classpath, helements, hremembered.trans hmemory, ?_, ?_⟩
    · exact (hprepared.mono fun _ => False.elim).trans hchanges
    · rwa [FileTree.locate, hprepared.location_eq, hprepared.destination_eq, hprepared.destination_eq] at hresult

end Batch

end ClassInstrument
