import ClassInstrument.Proofs.Batch.Filing

/-!
# Turns that fail

A turn begins with the directory for its output, before anything is known about the input.  A turn that fails later
on, because a class cannot be transformed, has written nothing but perhaps the draft of an archive, and that is gone
again.  So all that it leaves are directories on the way to the output, in places where nothing was
(`FileTree.Builds`).

These places are shorter than the output, unless the route to it goes up somewhere: `x/../x` leads to a directory that
is made on the way to it.
-/

namespace ClassInstrument

open Acting Outcome

/-! ## Routes on the way to others -/

namespace Route

/-- Pieces that stay where they are do not matter at the end of a route. -/
theorem filter_dropWhile_stays (pieces : List String) (p : String → Bool) (hp : ∀ piece, p piece → stays piece) :
    (pieces.dropWhile p).filter (fun piece => !stays piece) = pieces.filter fun piece => !stays piece := by
  induction pieces with
  | nil => rfl
  | cons piece rest ih =>
    rw [List.dropWhile_cons]
    split
    · next hfirst => rw [ih, List.filter_cons_of_neg (by simp [hp piece hfirst])]
    · rfl

/-- A route to the directory above has one step less. -/
theorem steps_parent (route : Route) : route.parent.steps = route.steps.dropLast := by
  have htrimmed : ∀ pieces : List String,
      (trimmed pieces).filter (fun piece => !stays piece) = pieces.filter fun piece => !stays piece := by
    intro pieces
    rw [trimmed, List.filter_reverse, filter_dropWhile_stays _ _ fun _ => id, List.filter_reverse,
      List.reverse_reverse]
  rw [parent, steps, steps, htrimmed, ← htrimmed route.pieces]
  rcases List.eq_nil_or_concat' (trimmed route.pieces) with hnil | ⟨front, piece, hpieces⟩
  · simp [hnil]
  · have hlast : stays piece = false := by
      have hhead : (route.pieces.reverse.dropWhile stays) = piece :: front.reverse := by
        rw [← List.reverse_inj, ← trimmed, hpieces]
        simp
      have hnot := List.head?_dropWhile_not stays route.pieces.reverse
      rw [hhead] at hnot
      simpa using hnot
    rw [hpieces, List.dropLast_concat, List.filter_append, List.filter_cons_of_pos (by simp [hlast]), List.filter_nil,
      List.dropLast_concat]

/-- The routes to the directory for an output and to those above it. -/
def onTheWay (output : Route) : List Route :=
  output.parent :: output.parent.ancestors output.parent.pieces.length

/-- A route above another one has the first steps of it. -/
theorem of_mem_ancestors {route other : Route} {count : ℕ} (h : other ∈ route.ancestors count) :
    other.isAbsolute = route.isAbsolute ∧ other.steps <+: route.steps := by
  induction count generalizing route with
  | zero => cases h
  | succ count ih =>
    rw [ancestors] at h
    split at h
    · cases h
    · have hparent : route.parent.steps <+: route.steps := by
        rw [steps_parent]
        exact List.dropLast_prefix _
      rcases List.mem_cons.mp h with rfl | h
      · exact ⟨rfl, hparent⟩
      · exact ⟨(ih h).1, (ih h).2.trans hparent⟩

/-- A route on the way to an output has fewer steps, if it has any. -/
theorem of_mem_onTheWay {output route : Route} (h : route ∈ output.onTheWay) (hsteps : route.steps ≠ []) :
    route.isAbsolute = output.isAbsolute ∧ route.steps <+: output.steps ∧
      route.steps.length < output.steps.length := by
  have hparent : route.isAbsolute = output.isAbsolute ∧ route.steps <+: output.parent.steps := by
    rcases List.mem_cons.mp h with rfl | h
    · exact ⟨rfl, List.prefix_rfl⟩
    · exact of_mem_ancestors h
  rw [steps_parent] at hparent
  have hlength := hparent.2.length_le
  have hpos := List.length_pos_iff.mpr hsteps
  rw [List.length_dropLast] at hlength
  exact ⟨hparent.1, hparent.2.trans (List.dropLast_prefix _), by omega⟩

end Route

namespace FileTree

variable {tree tree' tree'' : FileTree} {path : Path} {route : Route} {routes : List Route}

/-- Routes with the same steps from the same place have the same destination. -/
theorem destination_eq_of_steps {other : Route} (habsolute : other.isAbsolute = route.isAbsolute)
    (hsteps : other.steps = route.steps) : tree.destination other = tree.destination route := by
  rw [destination_eq_foldl_steps, destination_eq_foldl_steps, habsolute, hsteps]

/-- The destination of a route that goes nowhere up has all steps in it. -/
theorem destination_eq_append (hup : ".." ∉ route.steps) :
    tree.destination route = (if route.isAbsolute then [] else tree.start) ++ route.steps := by
  have hfold : ∀ (steps : List String) (start : Path), (∀ step ∈ steps, Route.stays step = false ∧ step ≠ "..") →
      steps.foldl advance start = start ++ steps := by
    intro steps
    induction steps with
    | nil => simp
    | cons step rest ih =>
      intro start hsteps
      obtain ⟨⟨hstays, hstep⟩, hrest⟩ := List.forall_mem_cons.mp hsteps
      rw [List.foldl_cons, advance, hstays, if_neg (by simp), if_neg hstep, ih _ hrest]
      simp
  rw [destination_eq_foldl_steps]
  refine hfold _ _ fun step hmem => ⟨?_, fun heq => hup (heq ▸ hmem)⟩
  simpa using (List.mem_filter.mp hmem).2

/-- A last step that leads on by a name leads to the destination of its route. -/
theorem LastStep.eq_destination {last : LastStep} (h : tree.lastStep route = .ok last)
    (hnamed : last.isUnnamed = false) (hpiece : last.piece ≠ "") :
    last.path = tree.destination route ∧ route.steps ≠ [] := by
  obtain ⟨origin, horigin, hwalk, -, hlast, -⟩ := lastStep_eq_ok.mp h
  simp only [isUnnamed, Bool.or_eq_false_iff, beq_eq_false_iff_ne] at hnamed
  have hstays : Route.stays last.piece = false := by simp [Route.stays, hpiece, hnamed.1]
  set pieces := (route.pieces.reverse.dropWhile (· == "")).reverse with hpieces
  have hsteps : route.steps = pieces.filter fun piece => !Route.stays piece := by
    rw [hpieces, List.filter_reverse, Route.filter_dropWhile_stays _ _ fun piece hblank => by simp_all [Route.stays],
      List.filter_reverse, List.reverse_reverse, Route.steps]
  rcases List.eq_nil_or_concat' pieces with hnil | ⟨front, piece, hfront⟩
  · rw [hnil, List.getLast?_nil, Option.getD_none] at hlast
    split at hlast
    · exact absurd hlast hnamed.1
    · exact absurd hlast hpiece
  · obtain rfl : last.piece = piece := by simpa [hfront] using hlast
    have hdestination : tree.destination ⟨route.isAbsolute, pieces⟩ = tree.destination route :=
      destination_eq_of_steps rfl hsteps.symm
    rw [hfront, List.dropLast_concat] at hwalk
    refine ⟨?_, ?_⟩
    · rw [← hdestination, destination, hfront, List.foldl_append, List.foldl_cons, List.foldl_nil,
        ← eq_of_origin horigin, ← eq_of_walk hwalk, LastStep.path, if_neg hpiece, advance, if_neg (by simp [hstays]), if_neg hnamed.2]
    · rw [hsteps, hfront, List.filter_append, List.filter_cons_of_pos (by simp [hstays])]
      simp

/-! ## Trees with more directories -/

/-- A tree that comes from another one by directories that are made where some routes lead, and nothing was. -/
structure Builds (routes : List Route) (tree tree' : FileTree) : Prop where
  location_eq : tree'.location = tree.location
  start_eq : tree'.start = tree.start
  node?_eq : ∀ path, tree'.node? path = tree.node? path ∨
    tree.node? path = none ∧ tree'.node? path = some .directory ∧
      ∃ route ∈ routes, route.steps ≠ [] ∧ path = tree.destination route

namespace Builds

theorem refl (routes : List Route) (tree : FileTree) : Builds routes tree tree := ⟨rfl, rfl, fun _ => .inl rfl⟩

theorem trans (h : Builds routes tree tree') (h' : Builds routes tree' tree'') : Builds routes tree tree'' where
  location_eq := h'.location_eq.trans h.location_eq
  start_eq := h'.start_eq.trans h.start_eq
  node?_eq path := by
    rcases h'.node?_eq path with heq' | ⟨hnone', hmade', route, hmem, hsteps, hpath⟩ <;>
      rcases h.node?_eq path with heq | ⟨hnone, hmade, hroute⟩
    · exact .inl (heq'.trans heq)
    · exact .inr ⟨hnone, heq'.trans hmade, hroute⟩
    · exact .inr ⟨heq.symm.trans hnone', hmade', route, hmem, hsteps,
        hpath.trans (destination_congr h.start_eq route)⟩
    · rw [hmade] at hnone'
      cases hnone'

instance : Std.Refl (Builds routes) := ⟨refl routes⟩

instance : IsTrans FileTree (Builds routes) := ⟨fun _ _ _ => trans⟩

theorem mono (h : Builds routes tree tree') {more : List Route} (hsub : routes ⊆ more) : Builds more tree tree' :=
  ⟨h.location_eq, h.start_eq, fun path => (h.node?_eq path).imp_right fun ⟨hnone, hmade, route, hmem, hroute⟩ =>
    ⟨hnone, hmade, route, hsub hmem, hroute⟩⟩

/-- Whatever was there is still there. -/
theorem node?_eq_some (h : Builds routes tree tree') {node : FileNode} (hnode : tree.node? path = some node) :
    tree'.node? path = some node := by
  rcases h.node?_eq path with heq | ⟨hnone, -, -⟩
  · rw [heq, hnode]
  · rw [hnone] at hnode
    cases hnode

/-- No file comes or goes. -/
theorem file?_eq (h : Builds routes tree tree') (path : Path) : tree'.file? path = tree.file? path := by
  rcases h.node?_eq path with heq | ⟨hnone, hmade, -⟩
  · rw [FileTree.file?, FileTree.file?, heq]
  · rw [FileTree.file?, FileTree.file?, hnone, hmade]

/-- Directories that are made change no file. -/
theorem changesAt (h : Builds routes tree tree') : ChangesAt (fun _ => False) tree tree' :=
  ⟨h.location_eq, h.start_eq, fun hdirectory => isDirectory_iff.mpr (h.node?_eq_some (isDirectory_iff.mp hdirectory)),
    fun _ => h.file?_eq _⟩

end Builds

/-- What is at the destination of a route that goes nowhere up is not made on the way to it. -/
theorem Builds.node?_destination (h : Builds route.onTheWay tree tree') (hup : ".." ∉ route.steps) :
    tree'.node? (tree.destination route) = tree.node? (tree.destination route) := by
  refine (h.node?_eq _).resolve_right ?_
  rintro ⟨-, -, other, hmem, hsteps, hpath⟩
  obtain ⟨habsolute, hfirst, hlength⟩ := Route.of_mem_onTheWay hmem hsteps
  rw [destination_eq_append hup, destination_eq_append fun hother => hup (hfirst.subset hother), habsolute,
    List.append_cancel_left_eq] at hpath
  rw [hpath] at hlength
  exact Nat.lt_irrefl _ hlength

end FileTree

namespace Updating

open FileTree (Builds)

/-- A directory is created where its route leads, if nothing is there. -/
theorem builds_createDirectory (route : Route) : Leaves (Builds [route]) (createDirectory route) := by
  intro tree
  rw [createDirectory, run_bind, run_lastStep]
  cases hlast : tree.lastStep route with
  | error fault => exact .refl _ tree
  | ok last =>
    dsimp only
    rw [run_bind, run_get]
    dsimp only
    split
    · exact .refl _ tree
    · next hfree =>
      have hnamed : last.isUnnamed = false ∧ tree.node? last.path = none := by simpa using hfree
      -- a directory that is left with an empty step is there already
      have hpiece : last.piece ≠ "" := by
        intro hempty
        obtain ⟨_, -, -, hdirectory, -⟩ := FileTree.lastStep_eq_ok.mp hlast
        rw [FileTree.LastStep.path, if_pos hempty, FileTree.isDirectory_iff.mp hdirectory] at hnamed
        cases hnamed.2
      obtain ⟨hpath, hsteps⟩ := FileTree.LastStep.eq_destination hlast hnamed.1 hpiece
      have hne : last.path ≠ [] := by
        intro hroot
        rw [hroot, FileTree.node?_nil] at hnamed
        cases hnamed.2
      refine ⟨rfl, rfl, fun path => ?_⟩
      by_cases hother : path = last.path
      · subst hother
        exact .inr ⟨hnamed.2, (FileTree.node?_set _ hne).trans (if_pos rfl), route, List.mem_singleton_self _,
          hsteps, hpath⟩
      · exact .inl ((FileTree.node?_set _ hne).trans (if_neg hother))

theorem builds_ensureDirectory (route : Route) : Leaves (Builds [route]) (ensureDirectory route) := by
  refine .tryCatch (builds_createDirectory route) fun fault => .bind .get fun tree => ?_
  split
  · exact .throw fault
  · exact .pure ()

theorem builds_createChain (route : Route) (above : List Route) :
    Leaves (Builds (route :: above)) (createChain route above) := by
  have hensure : ∀ above, Leaves (Builds (route :: above)) (ensureDirectory route) := fun above tree =>
    (builds_ensureDirectory route tree).mono (by simp)
  induction above generalizing route with
  | nil => exact hensure []
  | cons next rest ih =>
    refine .tryCatch (hensure _) fun fault => ?_
    split
    · refine .bind (fun tree => ?_) fun _ => hensure _
      exact (ih next (fun above tree => (builds_ensureDirectory next tree).mono (by simp)) tree).mono (by simp)
    · exact .throw fault

end Updating

/-! ## What a failed turn leaves -/

namespace Batch

open FileTree (Builds)

variable {pair : FilePair} {tree : FileTree} {place : Option Path}

/-- The directory for an output is made with those on the way to it. -/
theorem Filing.builds_prepare (output : Route) (progress : Progress) :
    Builds output.onTheWay progress.tree ((prepare output.parent).run progress).2.tree := by
  rw [prepare, run_bind, run_get]
  dsimp only
  split
  · rw [run_update]
    exact Updating.builds_createChain _ _ progress.tree
  · exact .refl _ _

/-- A draft that is put where nothing was and taken away leaves nothing. -/
theorem node?_withoutDraft (h : site tree pair.output = .ok place) (content : FileContent)
    (hfree : tree.file? (tree.destination (pair.output.beside ".tmp")) = none) (path : Path) :
    (withoutDraft (withDraft tree place content) place).node? path = tree.node? path := by
  cases place with
  | none => rfl
  | some draft =>
    have hsite := FileTree.site_of_writable (writable_of_site h)
    have hnone : tree.node? draft = none := by
      have hdirectory := hsite.not_directory
      rw [← hsite.eq_destination] at hfree
      cases hnode : tree.node? draft with
      | none => rfl
      | some node => cases node <;> simp [FileTree.file?, FileTree.isDirectory, hnode] at hfree hdirectory
    rw [withoutDraft, withDraft, Option.elim, Option.elim, FileTree.node?_erase hsite.ne_nil,
      FileTree.node?_set _ hsite.ne_nil]
    split
    · next heq => rw [heq, hnone]
    · rfl

/-- An archive that fails leaves what was there. -/
theorem builds_transformArchive {batch : Batch} {shop : Workshop} {before after : Progress} {cause : ItemFault}
    (hfail : (transformArchive batch shop pair).run before = (.error cause, after)) (hcause : ¬ IsRefusal cause)
    (hfree : before.tree.file? (before.tree.destination (pair.output.beside ".tmp")) = none) (routes : List Route) :
    Builds routes before.tree after.tree := by
  rw [run_transformArchive] at hfail
  cases hsite : site before.tree pair.output with
  | error fault =>
    rw [hsite] at hfail
    obtain ⟨hfault, rfl⟩ := Prod.mk.inj hfail
    exact .refl _ _
  | ok place =>
    rw [hsite] at hfail
    dsimp only at hfail
    split at hfail
    · obtain ⟨-, rfl⟩ := Prod.mk.inj hfail
      have hsame := node?_withoutDraft hsite (.bytes []) hfree
      exact ⟨by cases place <;> rfl, by cases place <;> rfl, fun path => .inl (hsame path)⟩
    · split at hfail
      · next fault _ => exact absurd (.inl ⟨fault, (Except.error.inj (Prod.mk.inj hfail).1).symm⟩) hcause
      · cases (Prod.mk.inj hfail).1

/-- A class that fails leaves what was there. -/
theorem builds_transformPlain {batch : Batch} {shop : Workshop} {content : FileContent} {before after : Progress}
    {cause : ItemFault} (hfail : (transformPlain batch shop pair content).run before = (.error cause, after))
    (hcause : ¬ IsRefusal cause) (routes : List Route) : Builds routes before.tree after.tree := by
  have hwrite : ∀ written tree memory,
      (Filing.update (Updating.write pair.output written) .refused).run ⟨tree, memory⟩ ≠ (.error cause, after) := by
    intro written tree memory hwritten
    obtain ⟨-, ⟨hok, -⟩ | ⟨fault, hfault⟩⟩ := update_write written pair.output tree memory <;>
      rw [hwritten] at *
    · cases hok
    · exact hcause (.inl ⟨fault, Except.error.inj hfault⟩)
  rw [run_transformPlain] at hfail
  split at hfail
  · split at hfail
    · exact absurd hfail (hwrite _ _ _)
    · obtain ⟨-, rfl⟩ := Prod.mk.inj hfail
      exact .refl _ _
  · split at hfail
    · cases (Prod.mk.inj hfail).1
    · exact absurd hfail (hwrite _ _ _)

/-- A turn that fails, but not for a file operation, loses nothing and leaves no draft.  All that it makes are
directories on the way to the output, and none at the output unless the route to it goes up somewhere. -/
theorem transformFile_rejected (batch : Batch) (shop : Workshop) (pair : FilePair) {before after : Progress}
    {cause : ItemFault} (hfail : (transformFile batch shop pair).run before = (.error cause, after))
    (hcause : ¬ IsRefusal cause)
    (hfree : before.tree.node? (before.tree.destination (pair.output.beside ".tmp")) = none) :
    (∀ path node, before.tree.node? path = some node → after.tree.node? path = some node) ∧
    (∀ route content, before.tree.fileAt? route = some content → after.tree.fileAt? route = some content) ∧
    after.tree.file? (before.tree.destination (pair.output.beside ".tmp")) = none ∧
    Builds pair.output.onTheWay before.tree after.tree ∧
    (".." ∉ pair.output.steps →
      after.tree.node? (before.tree.destination pair.output) =
        before.tree.node? (before.tree.destination pair.output)) := by
  have hbuilds : Builds pair.output.onTheWay before.tree after.tree := by
    have hprepared := Filing.builds_prepare pair.output before
    rw [run_transformFile] at hfail
    rcases hprepare : (Filing.prepare pair.output.parent).run before with ⟨fault | ⟨⟩, left⟩ <;>
      rw [hprepare] at hprepared hfail <;> dsimp only at hprepared hfail
    · obtain ⟨hfault, rfl⟩ := Prod.mk.inj hfail
      exact hprepared
    · split at hfail
      · cases (Prod.mk.inj hfail).1
      · split at hfail
        · refine hprepared.trans (builds_transformArchive hfail hcause ?_ _)
          rw [FileTree.destination_congr hprepared.start_eq, hprepared.file?_eq, FileTree.file?, hfree]
        · exact hprepared.trans (builds_transformPlain hfail hcause _)
  refine ⟨fun path node => hbuilds.node?_eq_some, fun route content hfile => hbuilds.changesAt.fileAt? hfile id, ?_,
    hbuilds, fun hup => hbuilds.node?_destination hup⟩
  rw [hbuilds.file?_eq, FileTree.file?, hfree]

/-- A batch without policies and classes. -/
def quiet : Batch := { pairs := [], elements := [], memory := {}, policies := [] }

/-- No policies are applied, and no classes are known. -/
def idle : Workshop := { policies := [], catalog := .empty }

/-- An archive whose second entry breaks off where a class begins. -/
def damagedArchive : FileContent :=
  .archive [⟨"n.txt", [0x31]⟩, ⟨"A.class", ClassFile.magic ++ [0, 0]⟩]

/-- The files with the archive. -/
def damagedTree : FileTree where
  nodes := [(["in.jar"], .file damagedArchive)]
  location := "/t"

/-- The archive is still there when its turn in place has failed, and there is no draft. -/
theorem transformFile_rejected_inPlace : ∃ cause after,
    (transformFile quiet idle (.inPlace ⟨false, ["in.jar"]⟩)).run ⟨damagedTree, {}⟩ = (.error cause, after) ∧
    after.tree.fileAt? ⟨false, ["in.jar"]⟩ = some damagedArchive ∧ after.tree.file? ["in.jar.tmp"] = none := by
  have hfault : ((transformFile quiet idle (.inPlace ⟨false, ["in.jar"]⟩)).run ⟨damagedTree, {}⟩).1 =
      .error (.within "Failed to process zip '/t/in.jar'" (.within "Failed to process zip entry 'A.class'"
        (.within "Failed to transform file 'A.class'" (.rejected (.unusable (.unreadable .endOfInput)))))) := by
    decide +kernel
  obtain ⟨-, hkept, hdraft, -⟩ := transformFile_rejected quiet idle _ (Prod.ext hfault rfl) (by simp [IsRefusal])
    (by decide +kernel)
  exact ⟨_, _, Prod.ext hfault rfl, hkept _ _ (by decide +kernel), hdraft⟩

/-- A class that breaks off. -/
def detourTree : FileTree where
  nodes := [(["in.class"], .file (.bytes (ClassFile.magic ++ [0, 0])))]
  location := "/t"

/-- The class, with a route to its output that goes up again from the directory that is made for it. -/
def detour : FilePair := ⟨⟨false, ["in.class"]⟩, ⟨false, ["x", "..", "x"]⟩⟩

/-- Where nothing was there is a directory after a failed turn, if the route to the output goes up again from it. -/
theorem transformFile_makes_output : ∃ cause after,
    (transformFile quiet idle detour).run ⟨detourTree, {}⟩ = (.error cause, after) ∧ ¬ IsRefusal cause ∧
    detourTree.node? (detourTree.destination (detour.output.beside ".tmp")) = none ∧
    detourTree.node? (detourTree.destination detour.output) = none ∧
    after.tree.node? (detourTree.destination detour.output) = some .directory := by
  have hfault : ((transformFile quiet idle detour).run ⟨detourTree, {}⟩).1 =
      .error (.within "Failed to transform file '/t/in.class'"
        (.rejected (.unusable (.unreadable .endOfInput)))) := by
    decide +kernel
  exact ⟨_, _, Prod.ext hfault rfl, by simp [IsRefusal], by decide +kernel, by decide +kernel, by decide +kernel⟩

end Batch

end ClassInstrument
