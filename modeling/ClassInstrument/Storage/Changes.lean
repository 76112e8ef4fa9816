import ClassInstrument.Storage.Archive.Basic

/-!
# Comparing trees of files

What is new, different or gone in the second of two trees.  Files are compared by what is shown of
them, so an archive that is put together anew from the same entries is no change.
-/

namespace ClassInstrument

/-- What is shown of something in a tree. -/
def FileNode.shown : FileNode → FileNode
  | directory => directory
  | file content => file content.shown

namespace FileTree

/-- The text of a path that shows a directory by a slash at the end. -/
def shownPath (path : Path) : FileNode → String
  | .directory => path.toText ++ "/"
  | .file _ => path.toText

/-- What is shown in the second tree and new or different there, and `none` for what is gone, by the
texts of the paths. -/
def changes (before after : FileTree) : List (String × Option FileNode) :=
  let fresh := after.nodes.filterMap fun (path, node) =>
    let old := before.node? path
    if old == some node || old.map FileNode.shown == some node.shown then none
    else some (shownPath path node, some node.shown)
  let gone := before.nodes.filterMap fun (path, node) =>
    if (after.node? path).isSome then none else some (shownPath path node, none)
  (fresh ++ gone).mergeSort fun a b => a.1 ≤ b.1

end FileTree

end ClassInstrument
