import MachTree.Activity
import MachTree.Files.Refusal
import MachTree.Text.Bytes
import MachTree.Text.Lines

/-! Commands run to their end by whatever system starts their programs, and the lines of what these
print. -/
namespace MachTree
namespace Launch

open Files (Refusal)

/-- A command with the directory and the variables that it is started with. -/
structure Request where
  command : List String
  /-- the text of a directory -/
  cwd : Option String := none
  /-- variables over the inherited ones -/
  env : Table String String := ∅
  inherited : Table String String := ∅

/-- Why a program does not start. -/
inductive Error
  | refused (reason : Refusal) (subject : String)
  | noCommand
  | nullCharacter
  | badVariable
deriving DecidableEq

def Error.message : Error → String
  | .refused reason subject => reason.message ++ ": " ++ quoted subject
  | .noCommand => "list index out of range"
  | .nullCharacter => "embedded null byte"
  | .badVariable => "illegal environment variable name"

def hasNull (s : String) : Bool := s.toList.contains '\x00'

def Request.defect? (q : Request) : Option Error :=
  if q.command = [] then some .noCommand
  else if q.env.keys.any fun k => k.toList.contains '=' then some .badVariable
  else if (q.command ++ q.cwd.toList ++ q.env.keys ++ q.env.values).any hasNull then
    some .nullCharacter
  else none

def Request.environment (q : Request) : Table String String := q.inherited.insertAll q.env.entries

/-- What a program leaves: its exit code, below zero if a signal killed it, and the bytes that it
has printed to its output and to its complaints. -/
structure Captured where
  exitCode : Int
  stdout : List Char
  stderr : List Char

/-- What starts programs.  What a program leaves is there once it is waited for. -/
abbrev System := (files : Files) → (cwd : Path) → Request → Except Error (Unit → Captured)

/-- The lines of what a program has printed; every kind of line end counts. -/
def printedLines (cs : List Char) : List String :=
  (Text.lines (Text.unifyNewlines (Utf8.decodeLenient (Text.bytesOf cs)))).map String.ofList

def Request.shownDirectory (q : Request) (cwd : Path) : String :=
  (q.cwd.filter fun s => s ≠ "").getD cwd.toString

/-- Runs a command to its end.  An interrupt kills the program as soon as it has started, and is
handed on. -/
def run (system : System) (q : Request) (interrupt : Option String) : Activity Error Outcome := do
  let host ← Activity.host
  Activity.debug ("Running " ++ " ".intercalate q.command ++
    " (cwd=" ++ q.shownDirectory host.cwd ++ ")")
  if let some e := q.defect? then Activity.fail e
  let started ← Activity.ofExcept id (system host.files host.cwd q)
  match interrupt with
  | some text => Activity.halt (.interrupted text)
  | none =>
    let left := started ()
    let stdout := printedLines left.stdout
    pure { command := q.command, exitCode := left.exitCode, stdout,
           output := stdout ++ printedLines left.stderr }

end Launch
end MachTree
