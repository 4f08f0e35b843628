import MachTree.Path.Normal
import MachTree.Text.Quoted

/-! Paths below a directory: the test on normalized text, and the move of a path from one root to
another. -/
namespace MachTree
namespace Path

/-- Whether a path is a directory or lies below it: its normalized text is that of the directory, or
starts with that text and a slash. -/
def isWithin (path root : Path) : Bool :=
  let key := path.normal.text
  let rootKey := root.normal.text
  let stem := (rootKey.reverse.dropWhile (· = '/')).reverse
  key == rootKey || (stem ++ ['/']).isPrefixOf key

/-- The reason why a path cannot be moved. -/
structure NotBelow where
  path : Path
  root : Path
deriving DecidableEq

/-- The root is written without the dot that stands for no components. -/
def NotBelow.message (e : NotBelow) : String :=
  let root := if e.root = here then "" else e.root.toString
  quoted e.path.toString ++ " is not in the subpath of " ++ quoted root ++
    " OR one path is relative and the other is absolute."

/-- What leads from `root` to `path`, both in normal form. -/
def relativeTo (path root : Path) : Except NotBelow Path :=
  if path.anchor = root.anchor ∧ root.parts.isPrefixOf path.parts then
    .ok ⟨.relative, path.parts.drop root.parts.length⟩
  else .error ⟨path, root⟩

/-- The place below `newRoot` that `path` has below `oldRoot`. -/
def rebase (path oldRoot newRoot : Path) : Except NotBelow Path :=
  (relativeTo path.normal oldRoot.normal).map (newRoot ++ ·)

end Path
end MachTree
