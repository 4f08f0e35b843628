import MachTree.Files.Tree
import MachTree.Path.Normal

/-! A tree of files, directories and symbolic links, and the places that paths lead to in it.  A
path is followed step by step from a directory; links are followed as they come, up to a number of
them.  There are no permissions: every directory can be searched, and every file can be read. -/
namespace MachTree

structure Files where
  root : Files.Tree := .empty

namespace Files

/-- What is stored at a place; the root is always a directory. -/
def node? (t : Files) (loc : Location) : Option Node :=
  if loc = [] then some .directory else (t.root.at? loc).map Tree.node

def namesIn (t : Files) (loc : Location) : List Component :=
  match t.root.at? loc with
  | some (.mk .directory branches) => branches.map Prod.fst
  | _ => []

def entries (t : Files) : List (Location × Node) := t.root.entries []

/-- Why a path leads nowhere. -/
inductive Blocked
  | missing
  | notDirectory
  | tooManyLinks
  | nameTooLong
deriving DecidableEq, Repr

def maxNameBytes : Nat := 255

def maxPathBytes : Nat := 4095

def maxLinks : Nat := 40

def Component.isTooLong (c : Component) : Bool := c.val.utf8ByteSize > maxNameBytes

def isTooLong (text : List Char) : Bool := (String.ofList text).utf8ByteSize > maxPathBytes

/-- The places from the root to one, the last one first, each with its name and the tree from it
on. -/
abbrev Trail := List (Component × Tree)

namespace Trail

def location (trail : Trail) : Location := trail.reverse.map Prod.fst

def tree (t : Files) (trail : Trail) : Tree := (trail.head?.map Prod.snd).getD t.root

def step (t : Files) (trail : Trail) (c : Component) : Option Tree := (tree t trail).child? c

end Trail

/-- The trail to a place; where nothing is there any more, the way up is as it was. -/
def trailTo (t : Files) (loc : Location) : Trail :=
  loc.foldl (fun trail c => (c, (Trail.step t trail c).getD .empty) :: trail) []

/-- The trail that steps lead to from a directory.  After anything but a directory there is no next
step, not even one that stays. -/
def walk (t : Files) (links : Nat) (here : Trail) : Way → Except Blocked Trail
  | [] => .ok here
  | .nothing :: rest | .stay :: rest => walk t links here rest
  | .up :: rest => walk t links here.tail rest
  | .enter c :: rest =>
    if Component.isTooLong c then .error .nameTooLong
    else
      match Trail.step t here c with
      | none => .error .missing
      | some (.mk (.link target) _) =>
        match links with
        | 0 => .error .tooManyLinks
        | links + 1 =>
          walk t links (if startsAtRoot target then [] else here) (Way.ofText target ++ rest)
      | some (.mk .directory branches) => walk t links ((c, .mk .directory branches) :: here) rest
      | some u => if rest = [] then .ok ((c, u) :: here) else .error .notDirectory
termination_by way => (links, way.length)

def locateText (t : Files) (cwd : Path) (text : List Char) : Except Blocked Location :=
  if text = [] then .error .missing
  else if isTooLong text then .error .nameTooLong
  else
    (t.walk maxLinks (if startsAtRoot text then [] else t.trailTo cwd.parts) (Way.ofText text)).map
      Trail.location

/-- The place that a path leads to from the current directory. -/
def locate (t : Files) (cwd p : Path) : Except Blocked Location := t.locateText cwd p.text

def stat (t : Files) (cwd p : Path) : Except Blocked Node :=
  match t.locate cwd p with
  | .ok loc => (t.node? loc).elim (.error .missing) .ok
  | .error b => .error b

/-- A path with a name that no file can have. -/
structure NameTooLong where
  path : Path
deriving DecidableEq

/-- Whether a path leads to a node of some kind; a path that leads nowhere does not. -/
def leadsTo (t : Files) (cwd p : Path) (kind : Node → Bool) : Except NameTooLong Bool :=
  if p.hasNull then .ok false
  else
    match t.stat cwd p with
    | .ok node => .ok (kind node)
    | .error .nameTooLong => .error ⟨p⟩
    | .error _ => .ok false

def Node.isFile : Node → Bool
  | .file _ _ => true
  | _ => false

def Node.isDirectory : Node → Bool
  | .directory => true
  | _ => false

def isFile (t : Files) (cwd p : Path) : Except NameTooLong Bool := t.leadsTo cwd p Node.isFile

def isDirectory (t : Files) (cwd p : Path) : Except NameTooLong Bool :=
  t.leadsTo cwd p Node.isDirectory

def read? (t : Files) (cwd p : Path) : Option (List UInt8) :=
  match t.stat cwd p with
  | .ok (.file bytes _) => some bytes
  | _ => none

/-- The name of a directory that has been removed: it holds a character that no name can hold, so
that no path finds it. -/
def removedName (c : Component) : Component :=
  ⟨"\x00" ++ c.val, by
    obtain ⟨s, h⟩ := c
    refine ⟨?_, ?_, ?_⟩
    · intro he
      simpa using congrArg String.toList he
    · intro he
      simpa using congrArg String.toList he
    · simpa using h.2.2⟩

/-- Where a directory is after a place has been removed.  The way up from it is as it was. -/
def afterRemoval (removed dir : Location) : Location :=
  match removed.getLast? with
  | some last =>
    if removed.isPrefixOf dir then
      removed.dropLast ++ removedName last :: dir.drop removed.length
    else dir
  | none => dir

end Files

def Path.isRemoved (p : Path) : Bool := p.hasNull

end MachTree
