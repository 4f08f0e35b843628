import MachTree.Files.Refusal
import MachTree.Files.Resolve

/-! Changes to a file tree.  Setting up a tree makes the directories above each file; removing takes
all that lies below. -/
namespace MachTree
namespace Files

/-- The place of a path, with the links on the way followed as far as they lead. -/
def place (t : Files) (cwd p : Path) : Location :=
  match t.followAll cwd p with
  | .ok q | .error (.looping q) => placeOf cwd q
  | .error .nullCharacter | .error .nestedTooDeep => placeOf cwd p

/-- The place of a path itself, which may be a link. -/
def ownPlace (t : Files) (cwd p : Path) : Location :=
  match p.parts.getLast? with
  | none => t.place cwd p
  | some last =>
    if last = Component.up then t.place cwd p else t.place cwd p.parent ++ [last]

def put (t : Files) (loc : Location) (node : Node) : Files :=
  if loc = [] then t else ⟨t.root.put loc node⟩

/-- Makes a directory and those above it, wherever nothing is yet. -/
def makeDirectories (t : Files) (loc : Location) : Files :=
  (List.range loc.length).foldl (fun t k =>
    let above := loc.take (k + 1)
    if (t.node? above).isSome then t else t.put above .directory) t

def addDirectory (t : Files) (cwd p : Path) : Files := t.makeDirectories (t.place cwd p)

def write (t : Files) (cwd p : Path) (bytes : List UInt8) (executable : Bool) : Files :=
  let loc := t.place cwd p
  (t.makeDirectories loc.dropLast).put loc (.file bytes executable)

def addLink (t : Files) (cwd p : Path) (target : String) : Files :=
  let loc := t.ownPlace cwd p
  (t.makeDirectories loc.dropLast).put loc (.link target.toList)

def removeAt (t : Files) (loc : Location) : Files := ⟨t.root.remove loc⟩

/-- The place that a way leads to, for a file to write to.  The file need not be there, but its
directory has to be. -/
def walkToWrite (t : Files) (links : Nat) (here : Trail) : Way → Except Refusal Location
  | [] => .error .isDirectory
  | .nothing :: rest | .stay :: rest => walkToWrite t links here rest
  | .up :: rest => walkToWrite t links here.tail rest
  | .enter c :: rest =>
    if rest ≠ [] ∧ rest.all (· = .nothing) then .error .isDirectory
    else if Component.isTooLong c then .error .nameTooLong
    else
      match Trail.step t here c with
      | none =>
        let dir := here.location
        if rest = [] ∧ t.node? dir = some .directory then .ok (dir ++ [c]) else .error .missing
      | some (.mk (.link target) _) =>
        match links with
        | 0 => .error .tooManyLinks
        | links + 1 =>
          walkToWrite t links (if startsAtRoot target then [] else here) (Way.ofText target ++ rest)
      | some (.mk .directory branches) =>
        walkToWrite t links ((c, .mk .directory branches) :: here) rest
      | some u =>
        if rest = [] then .ok (Trail.location ((c, u) :: here)) else .error .notDirectory
termination_by way => (links, way.length)

def placeToWrite (t : Files) (cwd : Path) (text : List Char) : Except Refusal Location :=
  if text = [] then .error .missing
  else if isTooLong text then .error .nameTooLong
  else
    t.walkToWrite maxLinks (if startsAtRoot text then [] else t.trailTo cwd.parts) (Way.ofText text)

/-- Writes bytes to the file at a place, which is made if it is not there.  What is no file keeps
nothing. -/
def writeAt (t : Files) (loc : Location) (bytes : List UInt8) : Files :=
  match t.node? loc with
  | some (.file _ executable) => t.put loc (.file bytes executable)
  | none => t.put loc (.file bytes false)
  | _ => t

def appendAt (t : Files) (loc : Location) (bytes : List UInt8) : Files :=
  match t.node? loc with
  | some (.file before executable) => t.put loc (.file (before ++ bytes) executable)
  | none => t.put loc (.file bytes false)
  | _ => t

/-- The files of another tree that this one does not have as they are there. -/
def changesTo (t u : Files) : List (Path × List UInt8) :=
  u.entries.filterMap fun e =>
    match e.2 with
    | .file bytes _ => if t.node? e.1 = some e.2 then none else some (⟨.root, e.1⟩, bytes)
    | _ => none

end Files
end MachTree
