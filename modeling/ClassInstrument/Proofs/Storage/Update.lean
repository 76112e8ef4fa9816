import ClassInstrument.Proofs.Actions
import ClassInstrument.Proofs.Storage.Tree
import ClassInstrument.Storage.Update

/-!
# What operations on files change

A file is written, or moved, to the destination of a route, and only if the last step of the route names a
place where no directory is (`FileTree.writable`).  Whatever an operation does, it loses no directory, and
touches no file but those that its routes lead to; in particular the directories that are created on the
way to something touch no file at all.
-/

namespace ClassInstrument

open Acting Outcome

namespace FileTree

variable {tree : FileTree} {path : Path} {route : Route}

/-- Where a file can be written. -/
def writable (tree : FileTree) (route : Route) : Except FileFault Path := do
  let last ← tree.lastStep route
  if last.isUnnamed || last.slash || tree.isDirectory last.path then throw .isADirectory
  else return last.path

/-- Where a file can be moved. -/
def landing (tree : FileTree) (route : Route) : Except FileFault Path := do
  let last ← tree.lastStep route
  if last.isUnnamed then throw .busy
  else if last.slash then throw .notADirectory
  else if tree.isDirectory last.path then throw .isADirectory
  else return last.path

/-- A file can be written where the last step of the route names a place that holds no directory. -/
theorem writable_eq_ok : tree.writable route = .ok path ↔ ∃ last, tree.lastStep route = .ok last ∧
    last.isUnnamed = false ∧ last.slash = false ∧ tree.isDirectory last.path = false ∧ path = last.path := by
  unfold writable
  rw [bind_eq_ok]
  refine exists_congr fun last => and_congr_right fun _ => ?_
  cases last.isUnnamed <;> cases last.slash <;> cases tree.isDirectory last.path <;>
    simp [pure, Except.pure, eq_comm, throw, throwThe, MonadExceptOf.throw]

/-- A file can be moved exactly to where one can be written. -/
theorem landing_eq_ok : tree.landing route = .ok path ↔ tree.writable route = .ok path := by
  rw [writable_eq_ok]
  unfold landing
  rw [bind_eq_ok]
  refine exists_congr fun last => and_congr_right fun _ => ?_
  cases last.isUnnamed <;> cases last.slash <;> cases tree.isDirectory last.path <;>
    simp [pure, Except.pure, eq_comm, throw, throwThe, MonadExceptOf.throw]

/-- A place where a file can be written is the destination of its route. -/
structure Site (tree : FileTree) (route : Route) (path : Path) : Prop where
  ne_nil : path ≠ []
  not_directory : tree.isDirectory path = false
  follow : tree.follow route = .ok path

/-- A file is written at the site that its route leads to. -/
theorem site_of_writable (h : tree.writable route = .ok path) : tree.Site route path := by
  obtain ⟨last, hlast, hnamed, hslash, hdirectory, rfl⟩ := writable_eq_ok.mp h
  obtain ⟨hne, hfollow⟩ := LastStep.path_eq hlast hnamed hslash hdirectory
  exact ⟨hne, hdirectory, hfollow⟩

/-- A site is the destination of its route. -/
theorem Site.eq_destination (h : tree.Site route path) : path = tree.destination route :=
  eq_destination_of_follow h.follow

/-- A file can still be written where no directory has come in its place. -/
theorem ChangesAt.writable {touched : Path → Prop} {tree' : FileTree} (h : ChangesAt touched tree tree')
    (hwritable : tree.writable route = .ok path) (hdirectory : tree'.isDirectory path = false) :
    tree'.writable route = .ok path := by
  obtain ⟨last, hlast, hnamed, hslash, -, rfl⟩ := writable_eq_ok.mp hwritable
  exact writable_eq_ok.mpr ⟨last, h.lastStep hlast, hnamed, hslash, hdirectory, rfl⟩

/-- The tree without the file that a route leads to. -/
def without (tree : FileTree) (route : Route) : FileTree :=
  match tree.place? route with
  | some path => if tree.isFile path then tree.erase path else tree
  | none => tree

/-- A file that a route leads to is gone once it was taken away. -/
theorem without_eq (hfollow : tree.follow route = .ok path) (hfile : tree.isFile path) :
    tree.without route = tree.erase path := by
  have hplace : tree.place? route = some path := by
    refine place?_eq_some.mpr ⟨hfollow, ?_⟩
    obtain ⟨content, hcontent⟩ := Option.isSome_iff_exists.mp hfile
    rw [file?_eq_some.mp hcontent]
    rfl
  rw [without, hplace]
  exact if_pos hfile

end FileTree

namespace Updating

variable {tree : FileTree} {path : Path} {route : Route} {content : FileContent}

/-- The last step of a route is looked for in the tree as it is. -/
theorem run_lastStep (route : Route) (tree : FileTree) :
    (lastStep route).run tree = (tree.lastStep route, tree) := by
  rw [lastStep, run_bind, run_get]
  exact run_lift _ _

/-- A file is written where one can be, or the tree stays as it is. -/
theorem run_write (route : Route) (content : FileContent) (tree : FileTree) :
    (write route content).run tree =
      match tree.writable route with
      | .ok path => (.ok (), tree.set path (.file content))
      | .error fault => (.error fault, tree) := by
  rw [write, run_bind, run_lastStep, FileTree.writable]
  cases tree.lastStep route with
  | error fault => rfl
  | ok last =>
    dsimp only
    rw [run_bind, run_get]
    dsimp only [bind, Except.bind]
    split <;> rfl

/-- The place where a file ends up is looked for in the tree as it is. -/
theorem run_landing (route : Route) (tree : FileTree) :
    (landing route).run tree = (tree.landing route, tree) := by
  rw [landing, run_bind, run_lastStep, FileTree.landing]
  cases tree.lastStep route with
  | error fault => rfl
  | ok last =>
    dsimp only [bind, Except.bind]
    split
    · rfl
    · split
      · rfl
      · change ((do
          if (← get).isDirectory last.path then throw .isADirectory else return last.path :
            Updating Path).run tree) = _
        rw [run_bind, run_get]
        dsimp only
        split <;> rfl

/-- A file is taken away if there is one. -/
theorem run_remove (route : Route) (tree : FileTree) :
    (remove route).run tree = (.ok (), tree.without route) := by
  rw [remove, run_bind, run_get, FileTree.without]
  dsimp only
  cases tree.place? route with
  | none => rfl
  | some path =>
    dsimp only
    split <;> rfl

/-- A file is moved to where it can be, or the tree stays as it is. -/
theorem run_move (source target : Route) (tree : FileTree) :
    (move source target).run tree =
      match tree.read source, tree.landing target with
      | .error fault, _ => (.error fault, tree)
      | .ok _, .error fault => (.error fault, tree)
      | .ok content, .ok path => (.ok (), (tree.without source).set path (.file content)) := by
  rw [move, run_bind, run_get]
  dsimp only
  rw [run_bind, run_lift]
  cases tree.read source with
  | error fault => rfl
  | ok content =>
    dsimp only
    rw [run_bind, run_landing]
    cases tree.landing target with
    | error fault => rfl
    | ok path =>
      dsimp only
      rw [run_bind, run_remove]
      rfl

/-- A file is moved into a tree to where it can be, or the tree stays as it is. -/
theorem run_receive (content : FileContent) (target : Route) (tree : FileTree) :
    (receive content target).run tree =
      match tree.landing target with
      | .ok path => (.ok (), tree.set path (.file content))
      | .error fault => (.error fault, tree) := by
  rw [receive, run_bind, run_landing]
  cases tree.landing target <;> rfl

/-! ## Creating directories -/

/-- A directory that is created touches no file. -/
theorem leaves_createDirectory (touched : Path → Prop) (route : Route) :
    Leaves (FileTree.ChangesAt touched) (createDirectory route) := by
  intro tree
  rw [createDirectory, run_bind, run_lastStep]
  cases tree.lastStep route with
  | error fault => exact .refl _ tree
  | ok last =>
    dsimp only
    rw [run_bind, run_get]
    dsimp only
    split
    · exact .refl _ tree
    · next hfree =>
      refine FileTree.changesAt_set_directory touched ?_
      exact Option.not_isSome_iff_eq_none.mp fun hsome => hfree (by simp [hsome])

theorem leaves_ensureDirectory (touched : Path → Prop) (route : Route) :
    Leaves (FileTree.ChangesAt touched) (ensureDirectory route) := by
  refine .tryCatch (leaves_createDirectory touched route) fun fault => .bind .get fun tree => ?_
  split
  · exact .throw fault
  · exact .pure ()

theorem leaves_createChain (touched : Path → Prop) (route : Route) (above : List Route) :
    Leaves (FileTree.ChangesAt touched) (createChain route above) := by
  induction above generalizing route with
  | nil => exact leaves_ensureDirectory touched route
  | cons next rest ih =>
    refine .tryCatch (leaves_ensureDirectory touched route) fun fault => ?_
    split
    · exact .bind (ih next) fun _ => leaves_ensureDirectory touched route
    · exact .throw fault

/-- The directories on the way to another one touch no file. -/
theorem leaves_createDirectories (touched : Path → Prop) (route : Route) :
    Leaves (FileTree.ChangesAt touched) (createDirectories route) :=
  leaves_createChain touched route _

end Updating

end ClassInstrument
