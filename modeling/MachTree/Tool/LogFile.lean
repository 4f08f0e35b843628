import MachTree.CommandLine.Basic
import MachTree.Files.Edit
import MachTree.Files.Refusal
import MachTree.Text.Quoted

/-! The file that a log goes to: made with the directories above it before anything is logged, and
added to at the end. -/
namespace MachTree
namespace LogFile

open Files (Refusal)

inductive Error
  /-- without a path, it is the current directory that is not there -/
  | refused (reason : Refusal) (path : Option Path)
  | nullCharacter
  /-- the operand names no file -/
  | notNamed
deriving DecidableEq

def Error.message : Error → String
  | .refused reason none => reason.message
  | .refused reason (some path) => reason.message ++ ": " ++ quoted path.toString
  | .nullCharacter => "embedded null byte"
  | .notNamed => "'list' object has no attribute 'parent'"

def placeIn (t : Files) (cwd p : Path) : Except Refusal Location :=
  if Files.isTooLong p.text then .error .nameTooLong
  else
    match p.parts.getLast? with
    | none => (t.locate cwd p).mapError .ofBlocked
    | some name =>
      match t.locate cwd p.parent with
      | .error b => .error (.ofBlocked b)
      | .ok dir =>
        if t.node? dir ≠ some .directory then .error .notDirectory
        else if name = Component.up then .ok dir.dropLast
        else if Files.Component.isTooLong name then .error .nameTooLong
        else .ok (dir ++ [name])

def makeDirectory (t : Files) (cwd p : Path) : Except Refusal Files :=
  match placeIn t cwd p with
  | .error r => .error r
  | .ok loc => if (t.node? loc).isSome then .error .exists else .ok (t.put loc .directory)

/-- Whether a directory is there already.  The current directory is, even after its removal. -/
def isThere (t : Files) (cwd p : Path) : Bool :=
  p = Path.here ||
    match t.isDirectory cwd p with
    | .ok b => b
    | .error _ => false

/-- Makes a directory if it is not there, the directories above it first where they are missing. -/
def makeDirectories (t : Files) (cwd : Path) : (depth : Nat) → Path → Except Error Files
  | depth, p =>
    if p.hasNull then .error .nullCharacter
    else
      match makeDirectory t cwd p, depth with
      | .ok t, _ => .ok t
      | .error .missing, depth + 1 =>
        if p.parent = p then .error (.refused .missing (some p))
        else
          match makeDirectories t cwd depth p.parent with
          | .error e => .error e
          | .ok t =>
            match makeDirectory t cwd p with
            | .ok t => .ok t
            | .error r =>
              if isThere t cwd p then .ok t else .error (.refused r (some p))
      | .error r, _ => if isThere t cwd p then .ok t else .error (.refused r (some p))

/-- Makes a log file; the place is where it is found again. -/
def create (t : Files) (cwd p : Path) : Except Error (Files × Location) :=
  match makeDirectories t cwd p.parts.length p.parent with
  | .error e => .error e
  | .ok t =>
    if p.hasNull then .error .nullCharacter
    else if !p.isAbsolute && cwd.isRemoved then .error (.refused .missing none)
    else
      let path := Path.absolute cwd p
      match t.placeToWrite path path.text with
      | .ok loc => .ok (t.appendAt loc [], loc)
      | .error r => .error (.refused r (some path))

end LogFile
end MachTree
