import MachTree.Build

/-! The root of the source tree around a place: the nearest directory upwards that has mach in
it. -/
namespace MachTree
namespace Root

/-- The place around which there is no tree. -/
structure NotFound where
  start : Path
deriving DecidableEq

def NotFound.message (e : NotFound) : String :=
  "No mach found in " ++ e.start.toString ++ " or any parent directory"

def firstWithMach {ε : Type} : List Path → Activity ε (Option Path)
  | [] => pure none
  | dir :: rest => do
    if ← Activity.isFile (dir.child Build.machFile) then pure (some dir) else firstWithMach rest

/-- The root around a place, which is itself asked if it is a directory.  The way up is that of the
path as written, below the current directory. -/
def detect (start : Path) : Activity NotFound Path := do
  let start ← if start.isAbsolute then pure start
    else do pure ((← Activity.currentDirectory) ++ start)
  let own := if ← Activity.isDirectory start then [start] else []
  match ← firstWithMach (own ++ start.parents) with
  | some dir => pure dir
  | none => Activity.fail ⟨start⟩

/-- The root that is given, as it is, or else the one around a place. -/
def find (start : Path) (root : Option Path) : Activity NotFound Path :=
  match root with
  | some root => pure root
  | none => detect start

end Root
end MachTree
