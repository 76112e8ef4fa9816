import ClassInstrument.Proofs.Outcome
import ClassInstrument.Storage.Tree

/-!
# What is at a path

Putting something at a path of a tree changes what is at this path and nothing else.  A route that can be
followed leads to its destination, the path that one gets from the text of the route alone; directories
only decide whether it can be followed.  So a tree that keeps its directories keeps where routes lead.
-/

namespace ClassInstrument

open Outcome

namespace FileTree

variable {tree tree' tree'' : FileTree} {path other : Path} {route : Route}

/-! ## Putting and taking away -/

/-- What is found at the front of a list, or behind it. -/
theorem lookup_cons (found : Path) (node : FileNode) (entries : List (Path × FileNode)) :
    ((found, node) :: entries).lookup other = if other = found then some node else entries.lookup other := by
  rw [List.lookup_cons]
  by_cases h : other = found
  · simp [h]
  · rw [beq_eq_false_iff_ne.mpr h, if_neg h]

/-- An entry is found after it was put among others, and the others are found as before. -/
theorem lookup_insertNode (node : FileNode) (entries : List (Path × FileNode)) :
    (insertNode path node entries).lookup other =
      if other = path then some node else entries.lookup other := by
  induction entries with
  | nil => rw [insertNode, lookup_cons]
  | cons entry rest ih =>
    obtain ⟨found, old⟩ := entry
    rw [insertNode]
    split
    · next heq =>
      subst heq
      rw [lookup_cons, lookup_cons]
      split <;> rfl
    · next hne =>
      split
      · rw [lookup_cons]
      · rw [lookup_cons, lookup_cons, ih]
        grind

/-- An entry is not found after it was taken away, and the others are found as before. -/
theorem lookup_filter_ne (entries : List (Path × FileNode)) :
    (entries.filter fun entry => entry.1 ≠ path).lookup other =
      if other = path then none else entries.lookup other := by
  induction entries with
  | nil => simp
  | cons entry rest ih =>
    obtain ⟨found, old⟩ := entry
    rw [List.filter_cons, lookup_cons]
    by_cases hfound : found = path
    · rw [if_neg (by simpa using hfound), ih]
      grind
    · rw [if_pos (by simpa using hfound), lookup_cons, ih]
      grind

@[simp] theorem location_set (node : FileNode) : (tree.set path node).location = tree.location := rfl

@[simp] theorem start_set (node : FileNode) : (tree.set path node).start = tree.start := rfl

@[simp] theorem location_erase : (tree.erase path).location = tree.location := rfl

@[simp] theorem start_erase : (tree.erase path).start = tree.start := rfl

/-- What is at the paths of a tree after something was put at one of them. -/
theorem node?_set (node : FileNode) (hpath : path ≠ []) :
    (tree.set path node).node? other = if other = path then some node else tree.node? other := by
  by_cases hroot : other = []
  · subst hroot
    simp [node?, Ne.symm hpath]
  · rw [node?, node?, if_neg hroot, if_neg hroot, set, lookup_insertNode]

/-- What is at the paths of a tree after something was taken away. -/
theorem node?_erase (hpath : path ≠ []) :
    (tree.erase path).node? other = if other = path then none else tree.node? other := by
  by_cases hroot : other = []
  · subst hroot
    simp [node?, Ne.symm hpath]
  · rw [node?, node?, if_neg hroot, if_neg hroot, erase, lookup_filter_ne]

/-- There is a directory at a path. -/
theorem isDirectory_iff : tree.isDirectory path ↔ tree.node? path = some .directory := by
  simp [isDirectory]

/-- There is a file at a path. -/
theorem file?_eq_some {content : FileContent} :
    tree.file? path = some content ↔ tree.node? path = some (.file content) := by
  unfold file?
  split
  · next found hfound => simp [hfound]
  · next hnone => simpa using hnone content

/-- The root is a directory. -/
@[simp] theorem node?_nil : tree.node? [] = some .directory := if_pos rfl

/-- No file is at the root. -/
theorem ne_nil_of_file? {content : FileContent} (h : tree.file? path = some content) : path ≠ [] := by
  rintro rfl
  simp [file?_eq_some] at h

/-- The files of a tree after one was put at a path. -/
theorem file?_set_file (content : FileContent) (hpath : path ≠ []) :
    (tree.set path (.file content)).file? other =
      if other = path then some content else tree.file? other := by
  unfold file?
  rw [node?_set _ hpath]
  by_cases h : other = path <;> simp [h]

/-- The files of a tree after one was taken away. -/
theorem file?_erase (hpath : path ≠ []) :
    (tree.erase path).file? other = if other = path then none else tree.file? other := by
  unfold file?
  rw [node?_erase hpath]
  by_cases h : other = path <;> simp [h]

/-- A file in the place of something is no directory. -/
theorem isDirectory_set_file (content : FileContent) (hpath : path ≠ []) :
    (tree.set path (.file content)).isDirectory path = false := by
  simp [isDirectory, node?_set _ hpath]

/-- Taking something away makes no directory. -/
theorem isDirectory_of_erase (hpath : path ≠ []) (h : (tree.erase path).isDirectory other) :
    tree.isDirectory other := by
  rw [isDirectory_iff, node?_erase hpath] at h
  split at h
  · cases h
  · exact isDirectory_iff.mpr h

/-! ## Where routes lead -/

/-- The path after one step, as the text of the step has it. -/
def advance (path : Path) (piece : String) : Path :=
  if Route.stays piece then path else if piece = ".." then path.parent else path ++ [piece]

/-- The path that a route names: each piece leads on from the directory from which the route starts. -/
def destination (tree : FileTree) (route : Route) : Path :=
  route.pieces.foldl advance (if route.isAbsolute then [] else tree.start)

/-- Trees with the same starting points have the same destinations. -/
theorem destination_congr (hstart : tree'.start = tree.start) (route : Route) :
    tree'.destination route = tree.destination route := by
  rw [destination, destination, hstart]

/-- Pieces that stay where they are do not matter for a destination. -/
theorem destination_eq_foldl_steps (tree : FileTree) (route : Route) :
    tree.destination route = route.steps.foldl advance (if route.isAbsolute then [] else tree.start) := by
  rw [destination, Route.steps, List.foldl_filter]
  refine List.foldl_ext _ _ _ fun path piece _ => ?_
  unfold advance
  cases Route.stays piece <;> rfl

/-- A directory can be entered. -/
theorem enter_eq_ok : tree.enter path = .ok () ↔ tree.isDirectory path := by
  unfold enter
  rw [isDirectory_iff]
  split <;> simp_all

/-- A step that can be made starts in a directory and leads where its text says. -/
theorem step_eq_ok {piece : String} :
    tree.step path piece = .ok other ↔ tree.isDirectory path ∧ other = advance path piece ∧
      (piece = ".." → path = [] → tree.location = "") := by
  have hstays : Route.stays ".." = false := by decide
  unfold step
  rw [bind_eq_ok, Unique.exists_iff]
  refine and_congr enter_eq_ok ?_
  unfold advance
  split
  · next h =>
    rw [pure_eq_ok]
    refine ⟨fun heq => ⟨heq.symm, fun hup => ?_⟩, fun h => h.1.symm⟩
    simp [hup, hstays] at h
  · split
    · next hup =>
      unfold above
      split
      · next hout => exact ⟨nofun, fun ⟨_, hroot⟩ => absurd (hroot hup hout.1) hout.2⟩
      · next hin =>
        simp only [Except.ok.injEq, hup, forall_const]
        refine ⟨fun heq => ⟨heq.symm, fun hroot => ?_⟩, fun h => h.1.symm⟩
        by_contra hlocation
        exact hin ⟨hroot, hlocation⟩
    · next hup =>
      rw [pure_eq_ok]
      exact ⟨fun heq => ⟨heq.symm, fun hpiece => absurd hpiece hup⟩, fun h => h.1.symm⟩

/-- The directories from which a list of steps is made lead to its destination. -/
theorem eq_of_walk {pieces : List String} (h : tree.walk path pieces = .ok other) :
    other = pieces.foldl advance path := by
  induction pieces generalizing path with
  | nil => exact (Except.ok.inj h).symm
  | cons piece rest ih =>
    obtain ⟨next, hnext, h⟩ := bind_eq_ok.mp h
    rw [ih h, (step_eq_ok.mp hnext).2.1, List.foldl_cons]

/-- Steps behind others start where those lead. -/
theorem walk_append {pieces more : List String} :
    tree.walk path (pieces ++ more) = .ok other ↔
      ∃ middle, tree.walk path pieces = .ok middle ∧ tree.walk middle more = .ok other := by
  induction pieces generalizing path with
  | nil => simp [walk]
  | cons piece rest ih =>
    rw [List.cons_append, walk, walk, bind_eq_ok]
    simp only [bind_eq_ok, ih]
    constructor
    · rintro ⟨next, hnext, middle, hmiddle, hother⟩
      exact ⟨middle, ⟨next, hnext, hmiddle⟩, hother⟩
    · rintro ⟨middle, ⟨next, hnext, hmiddle⟩, hother⟩
      exact ⟨next, hnext, middle, hmiddle, hother⟩

/-- A route starts from its origin. -/
theorem eq_of_origin (h : tree.origin route = .ok path) :
    path = if route.isAbsolute then [] else tree.start := by
  unfold origin at h
  split at h
  · next hrelative =>
    rw [← Except.ok.inj h, if_neg (by simpa using hrelative)]
  · next habsolute =>
    rw [if_pos (by simpa using habsolute)]
    split at h
    · exact (Except.ok.inj h).symm
    · simp at h

/-- A route that can be followed leads to its destination. -/
theorem eq_destination_of_follow (h : tree.follow route = .ok path) :
    path = tree.destination route := by
  obtain ⟨origin, horigin, h⟩ := bind_eq_ok.mp h
  rw [eq_of_walk h, eq_of_origin horigin, destination]

/-- The place that a route leads to is its destination, and something is there. -/
theorem place?_eq_some :
    tree.place? route = some path ↔ tree.follow route = .ok path ∧ (tree.node? path).isSome := by
  unfold place?
  split
  · next found hfound =>
    rw [Option.ite_none_right_eq_some, hfound, Option.some.injEq, Except.ok.injEq]
    exact ⟨fun ⟨hsome, heq⟩ => ⟨heq, heq ▸ hsome⟩, fun ⟨heq, hsome⟩ => ⟨heq ▸ hsome, heq⟩⟩
  · next fault hfault => simp [hfault]

/-- The file that a route leads to is at its destination. -/
theorem fileAt?_eq_some {content : FileContent} :
    tree.fileAt? route = some content ↔ ∃ path, tree.follow route = .ok path ∧
      tree.file? path = some content := by
  unfold fileAt?
  rw [Option.bind_eq_some_iff]
  simp only [place?_eq_some]
  constructor
  · rintro ⟨path, ⟨hfollow, -⟩, hfile⟩
    exact ⟨path, hfollow, hfile⟩
  · rintro ⟨path, hfollow, hfile⟩
    refine ⟨path, ⟨hfollow, ?_⟩, hfile⟩
    rw [file?_eq_some.mp hfile]
    rfl

/-- A file that a route leads to is called by the path to it. -/
theorem describe_eq {content : FileContent} (h : tree.fileAt? route = some content) :
    tree.describe route = tree.locate (tree.destination route) := by
  obtain ⟨path, hfollow, hfile⟩ := fileAt?_eq_some.mp h
  have hplace : tree.place? route = some path :=
    place?_eq_some.mpr ⟨hfollow, by rw [file?_eq_some.mp hfile]; rfl⟩
  rw [describe, hplace, ← eq_destination_of_follow hfollow]

/-- A file can be read that a route leads to. -/
theorem read_eq_ok {content : FileContent} :
    tree.read route = .ok content ↔ tree.fileAt? route = some content := by
  unfold read
  rw [bind_eq_ok, fileAt?_eq_some]
  refine exists_congr fun path => and_congr_right fun _ => ?_
  rw [file?_eq_some]
  split <;> simp_all

/-! ## The last step of a route -/

/-- The last step of a route is made in a directory. -/
theorem lastStep_eq_ok {last : LastStep} :
    tree.lastStep route = .ok last ↔ ∃ origin, tree.origin route = .ok origin ∧
      tree.walk origin (route.pieces.reverse.dropWhile (· == "")).reverse.dropLast = .ok last.directory ∧
      tree.isDirectory last.directory ∧
      last.piece = (route.pieces.reverse.dropWhile (· == "")).reverse.getLast?.getD
        (if tree.location = "" then "." else "") ∧ last.slash = route.endsInSlash := by
  obtain ⟨directory, piece, slash⟩ := last
  unfold lastStep
  simp only [bind_eq_ok, Unique.exists_iff, pure_eq_ok, LastStep.mk.injEq]
  constructor
  · rintro ⟨origin, horigin, found, hwalk, henter, rfl, rfl, rfl⟩
    exact ⟨origin, horigin, hwalk, enter_eq_ok.mp henter, rfl, rfl⟩
  · rintro ⟨origin, horigin, hwalk, hdirectory, rfl, rfl⟩
    exact ⟨origin, horigin, directory, hwalk, enter_eq_ok.mpr hdirectory, rfl, rfl, rfl⟩

/-- A route whose last step names what it leads to can be followed to its destination, unless it ends in a
slash or at a directory. -/
theorem LastStep.path_eq {last : LastStep} (h : tree.lastStep route = .ok last)
    (hnamed : last.isUnnamed = false) (hslash : last.slash = false)
    (hpath : tree.isDirectory last.path = false) :
    last.path ≠ [] ∧ tree.follow route = .ok last.path := by
  obtain ⟨origin, horigin, hwalk, hdirectory, hpiece, hends⟩ := lastStep_eq_ok.mp h
  have hne : last.piece ≠ "" := by
    intro hempty
    rw [LastStep.path, if_pos hempty, hdirectory] at hpath
    cases hpath
  rw [LastStep.path, if_neg hne]
  refine ⟨by simp, bind_eq_ok.mpr ⟨origin, horigin, ?_⟩⟩
  have hlast : route.pieces.getLast? ≠ some "" := by simpa [hslash, Route.endsInSlash] using hends
  -- No empty piece stands at the end, so none is passed over.
  have htrimmed : (route.pieces.reverse.dropWhile (· == "")).reverse = route.pieces := by
    rcases List.eq_nil_or_concat route.pieces with hnil | ⟨front, piece, hpieces⟩
    · simp [hnil]
    · rw [hpieces] at hlast ⊢
      simp_all
  rw [htrimmed] at hwalk hpiece
  obtain ⟨front, hpieces⟩ : ∃ front, route.pieces = front ++ [last.piece] := by
    rcases List.eq_nil_or_concat route.pieces with hnil | ⟨front, piece, hpieces⟩
    · rw [hnil, List.getLast?_nil, Option.getD_none] at hpiece
      split at hpiece
      · simp [LastStep.isUnnamed, hpiece] at hnamed
      · exact absurd hpiece hne
    · rw [hpieces] at hpiece
      exact ⟨front, by simpa [hpieces] using hpiece.symm⟩
  rw [hpieces, List.dropLast_concat] at hwalk
  rw [hpieces]
  refine walk_append.mpr ⟨_, hwalk, ?_⟩
  simp only [LastStep.isUnnamed, Bool.or_eq_false_iff, beq_eq_false_iff_ne] at hnamed
  refine bind_eq_ok.mpr ⟨_, step_eq_ok.mpr ⟨hdirectory, ?_, fun hup => absurd hup hnamed.2⟩, rfl⟩
  rw [advance, if_neg (by simp [Route.stays, hne, hnamed.1]), if_neg hnamed.2]

/-! ## Trees that keep their directories -/

/-- A tree that comes from another one by changes that lose no directory, and touch files only at paths of
some kind. -/
structure ChangesAt (touched : Path → Prop) (tree tree' : FileTree) : Prop where
  location_eq : tree'.location = tree.location
  start_eq : tree'.start = tree.start
  isDirectory : ∀ {path}, tree.isDirectory path → tree'.isDirectory path
  file?_eq : ∀ {path}, ¬ touched path → tree'.file? path = tree.file? path

namespace ChangesAt

variable {touched touched' : Path → Prop}

theorem refl (touched : Path → Prop) (tree : FileTree) : ChangesAt touched tree tree :=
  ⟨rfl, rfl, id, fun _ => rfl⟩

theorem trans (h : ChangesAt touched tree tree') (h' : ChangesAt touched tree' tree'') :
    ChangesAt touched tree tree'' where
  location_eq := h'.location_eq.trans h.location_eq
  start_eq := h'.start_eq.trans h.start_eq
  isDirectory hdirectory := h'.isDirectory (h.isDirectory hdirectory)
  file?_eq hpath := (h'.file?_eq hpath).trans (h.file?_eq hpath)

theorem mono (h : ChangesAt touched tree tree') (hle : ∀ path, touched path → touched' path) :
    ChangesAt touched' tree tree' :=
  ⟨h.location_eq, h.start_eq, h.isDirectory, fun hpath => h.file?_eq fun htouched => hpath (hle _ htouched)⟩

instance : Std.Refl (ChangesAt touched) := ⟨refl touched⟩

instance : IsTrans FileTree (ChangesAt touched) := ⟨fun _ _ _ => trans⟩

/-- Destinations stay the same. -/
theorem destination_eq (h : ChangesAt touched tree tree') (route : Route) :
    tree'.destination route = tree.destination route :=
  destination_congr h.start_eq route

/-- Steps that could be made still can. -/
theorem walk (h : ChangesAt touched tree tree') {pieces : List String}
    (hwalk : tree.walk path pieces = .ok other) : tree'.walk path pieces = .ok other := by
  induction pieces generalizing path with
  | nil => exact hwalk
  | cons piece rest ih =>
    obtain ⟨next, hnext, hwalk⟩ := bind_eq_ok.mp hwalk
    obtain ⟨hdirectory, hadvance, hup⟩ := step_eq_ok.mp hnext
    exact bind_eq_ok.mpr ⟨next, step_eq_ok.mpr ⟨h.isDirectory hdirectory, hadvance,
      fun hpiece hroot => h.location_eq.trans (hup hpiece hroot)⟩, ih hwalk⟩

/-- Routes start where they did. -/
theorem origin_eq (h : ChangesAt touched tree tree') : tree'.origin route = tree.origin route := by
  rw [origin, origin, h.location_eq, h.start_eq]

/-- Routes that could be followed still can. -/
theorem follow (h : ChangesAt touched tree tree') (hfollow : tree.follow route = .ok path) :
    tree'.follow route = .ok path := by
  obtain ⟨origin, horigin, hwalk⟩ := bind_eq_ok.mp hfollow
  exact bind_eq_ok.mpr ⟨origin, h.origin_eq.trans horigin, h.walk hwalk⟩

/-- Last steps that could be made still can. -/
theorem lastStep (h : ChangesAt touched tree tree') {last : LastStep}
    (hlast : tree.lastStep route = .ok last) : tree'.lastStep route = .ok last := by
  obtain ⟨origin, horigin, hwalk, hdirectory, hpiece, hslash⟩ := lastStep_eq_ok.mp hlast
  rw [lastStep_eq_ok, h.location_eq, h.origin_eq]
  exact ⟨origin, horigin, h.walk hwalk, h.isDirectory hdirectory, hpiece, hslash⟩

/-- A file that a route leads to is still found if it is not touched. -/
theorem fileAt? (h : ChangesAt touched tree tree') {content : FileContent}
    (hfile : tree.fileAt? route = some content) (hpath : ¬ touched (tree.destination route)) :
    tree'.fileAt? route = some content := by
  obtain ⟨path, hfollow, hfile⟩ := fileAt?_eq_some.mp hfile
  rw [← eq_destination_of_follow hfollow] at hpath
  exact fileAt?_eq_some.mpr ⟨path, h.follow hfollow, (h.file?_eq hpath).trans hfile⟩

end ChangesAt

/-- A file in the place of another one, or of nothing, is a change at its path. -/
theorem changesAt_set_file (content : FileContent) (hpath : path ≠ [])
    (hdirectory : tree.isDirectory path = false) :
    ChangesAt (· = path) tree (tree.set path (.file content)) where
  location_eq := rfl
  start_eq := rfl
  isDirectory {other} h := by
    rw [isDirectory_iff, node?_set _ hpath, if_neg, ← isDirectory_iff]
    · exact h
    · rintro rfl
      rw [hdirectory] at h
      cases h
  file?_eq {other} h := by rw [file?_set_file content hpath, if_neg h]

/-- A file that is taken away is a change at its path. -/
theorem changesAt_erase (hfile : tree.isFile path) :
    ChangesAt (· = path) tree (tree.erase path) := by
  obtain ⟨content, hcontent⟩ := Option.isSome_iff_exists.mp hfile
  have hpath := ne_nil_of_file? hcontent
  refine ⟨rfl, rfl, fun {other} h => ?_, fun h => by rw [file?_erase hpath, if_neg h]⟩
  rw [isDirectory_iff, node?_erase hpath, if_neg, ← isDirectory_iff]
  · exact h
  · rintro rfl
    rw [isDirectory_iff, file?_eq_some.mp hcontent] at h
    cases h

/-- A directory in the place of nothing touches no file. -/
theorem changesAt_set_directory (touched : Path → Prop) (hpath : tree.node? path = none) :
    ChangesAt touched tree (tree.set path .directory) := by
  have hne : path ≠ [] := by
    rintro rfl
    simp at hpath
  refine ⟨rfl, rfl, fun {other} h => ?_, fun {other} _ => ?_⟩
  · rw [isDirectory_iff, node?_set _ hne]
    split
    · rfl
    · exact isDirectory_iff.mp h
  · unfold file?
    rw [node?_set _ hne]
    by_cases h : other = path <;> simp [h, hpath]

end FileTree

end ClassInstrument
