import MachTree.Fault
import MachTree.Files.Edit
import MachTree.Platform
import MachTree.Process.Basic

/-! Activities: what is done on a host, with a journal of everything that others can see of it.
The host stays as it is during an activity; the journal grows, and with it the file that the log
goes to. -/
namespace MachTree

inductive Level
  | debug
  | info
  | warning
  | error
deriving DecidableEq, Repr

namespace Level

def name : Level → String
  | .debug => "DEBUG"
  | .info => "INFO"
  | .warning => "WARNING"
  | .error => "ERROR"

def rank : Level → Nat
  | .debug => 0
  | .info => 1
  | .warning => 2
  | .error => 3

end Level

def logLine (time : String) (level : Level) (text : String) : String :=
  time ++ " - root - " ++ level.name ++ " - " ++ text ++ "\n"

/-- One thing that can be seen of an activity. -/
inductive Event
  | logged (level : Level) (text : String)
  | called (call : Call)
  | printed (text : String)
  | complained (text : String)
deriving DecidableEq

abbrev Journal := List Event

namespace Journal

def calls (j : Journal) : List Call :=
  j.filterMap fun
    | .called call => some call
    | _ => none

def logLines (j : Journal) : List (Level × String) :=
  j.filterMap fun
    | .logged level text => some (level, text)
    | _ => none

def printedText (j : Journal) : String :=
  String.join (j.filterMap fun
    | .printed text => some text
    | _ => none)

def complainedText (j : Journal) : String :=
  String.join (j.filterMap fun
    | .complained text => some text
    | _ => none)

def logText (time : String) (j : Journal) : String :=
  String.join (j.logLines.map fun e => logLine time e.1 e.2)

end Journal

/-- A file that the log goes to while it is made. -/
structure LogTarget where
  place : Location
  /-- the time that entries are given -/
  time : String
deriving DecidableEq

structure Host where
  files : Files := {}
  /-- the current directory, absolute and without links -/
  cwd : Path := ⟨.root, []⟩
  platform : Platform := .generic
  log : Option LogTarget := none
  runner : Runner
  /-- the error that standard output raises for a text, after all that it has taken -/
  refuses : (taken text : String) → Option Trouble := fun _ _ => none

namespace Host

def filesAfter (h : Host) (j : Journal) : Files :=
  match h.log with
  | none => h.files
  | some log => h.files.appendAt log.place (j.logText log.time).toUTF8.toList

def remove (h : Host) (p : Path) : Host :=
  let loc := h.files.ownPlace h.cwd p
  { h with files := h.files.removeAt loc, cwd := ⟨.root, Files.afterRemoval loc h.cwd.parts⟩ }

end Host

/-- How an activity ends early: from outside, by a fault, or by a failure of its own. -/
inductive Halt (ε : Type)
  | interrupted (text : String)
  | fault (f : Fault)
  | failed (e : ε)
deriving DecidableEq

/-- A computation on a host that keeps a journal and may end early. -/
abbrev Activity (ε : Type) : Type → Type := ExceptT (Halt ε) (ReaderT Host (StateM Journal))

namespace Activity

variable {ε ε' α : Type}

def perform (x : Activity ε α) (host : Host) (j : Journal) : Except (Halt ε) α × Journal :=
  (x.run.run host).run j

def host : Activity ε Host := fun h j => (.ok h, j)

def note (e : Event) : Activity ε Unit := fun _ j => (.ok (), j ++ [e])

def halt (h : Halt ε) : Activity ε α := fun _ j => (.error h, j)

def fail (e : ε) : Activity ε α := halt (.failed e)

def raise (f : Fault) : Activity ε α := halt (.fault f)

/-- Goes on with a handler after a failure; interrupts and faults pass. -/
def handle (x : Activity ε α) (h : ε → Activity ε' α) : Activity ε' α := fun host j =>
  match x.perform host j with
  | (.ok a, j) => (.ok a, j)
  | (.error (.failed e), j) => (h e).perform host j
  | (.error (.fault f), j) => (.error (.fault f), j)
  | (.error (.interrupted text), j) => (.error (.interrupted text), j)

def mapError (f : ε → ε') (x : Activity ε α) : Activity ε' α := x.handle fun e => fail (f e)

/-- The result of an activity as a value; only an interrupt still ends it early. -/
def settle (x : Activity ε α) : Activity ε' (Except (Fault ⊕ ε) α) := fun host j =>
  match x.perform host j with
  | (.ok a, j) => (.ok (.ok a), j)
  | (.error (.failed e), j) => (.ok (.error (.inr e)), j)
  | (.error (.fault f), j) => (.ok (.error (.inl f)), j)
  | (.error (.interrupted text), j) => (.error (.interrupted text), j)

def ofExcept (f : ε → ε') : Except ε α → Activity ε' α
  | .ok a => pure a
  | .error e => fail (f e)

def log (level : Level) (text : String) : Activity ε Unit := note (.logged level text)

def debug (text : String) : Activity ε Unit := log .debug text
def info (text : String) : Activity ε Unit := log .info text
def warn (text : String) : Activity ε Unit := log .warning text
def error (text : String) : Activity ε Unit := log .error text

/-- Prints a text and ends the line, if standard output takes the text. -/
def printLine (text : String) : Activity ε Unit := fun h j =>
  match h.refuses j.printedText text with
  | none => (.ok (), j ++ [.printed (text ++ "\n")])
  | some t => (.error (.fault (.outside t)), j)

/-- Hands a call to the host's runner. -/
def run (call : Call) : Activity LaunchError Outcome := fun h j =>
  let j' := j ++ [.called call]
  match h.runner j.calls call with
  | .finished exitCode stdout output => (.ok ⟨call.command, exitCode, stdout, output⟩, j')
  | .refused reason => (.error (.failed ⟨call.command, reason⟩), j')
  | .interrupted text => (.error (.interrupted text), j')
  | .raised t => (.error (.fault (.outside t)), j')

/-- Asks the host's files about a path. -/
def askFiles (f : Files → Path → Except Files.NameTooLong Bool) : Activity ε Bool := fun h j =>
  match f h.files h.cwd with
  | .ok b => (.ok b, j)
  | .error e => (.error (.fault (.nameTooLong e.path)), j)

def isFile (p : Path) : Activity ε Bool := askFiles fun t cwd => t.isFile cwd p

def isDirectory (p : Path) : Activity ε Bool := askFiles fun t cwd => t.isDirectory cwd p

/-- The bytes of a file; a path that leads to no file has none. -/
def readBytes (p : Path) : Activity ε (List UInt8) := fun h j =>
  (.ok (((h.filesAfter j).read? h.cwd p).getD []), j)

def currentDirectory : Activity ε Path := fun h j =>
  if h.cwd.isRemoved then (.error (.fault .noCurrentDirectory), j) else (.ok h.cwd, j)

def absolute (p : Path) : Activity ε Path := fun h j =>
  if !p.isAbsolute && h.cwd.isRemoved then (.error (.fault .noCurrentDirectory), j)
  else (.ok (Path.absolute h.cwd p), j)

/-- What a path without links comes to. -/
def resolved (f : Host → Except Files.Unresolved Path) : Activity ε Path := fun h j =>
  match f h with
  | .ok q => (.ok q, j)
  | .error reason => (.error (.fault (.ofUnresolved reason)), j)

/-- The path without links that leads to the same place. -/
def resolve (p : Path) : Activity ε Path := resolved fun h => h.files.resolve h.cwd p

/-- The path without links that a build tool means by a text. -/
def resolveText (s : Symbols) : Activity ε Path :=
  resolved fun h => h.files.resolveText h.cwd h.platform s

end Activity
end MachTree
