import MachTree.Script.Job
import MachTree.Script.Syntax
import MachTree.Text.Bytes

/-! The state of a script: its variables and functions, and what it shares with others. -/
namespace MachTree
namespace Script

def pathOf (cs : List Char) : Path := Path.ofString (Text.decoded cs)

def shownNat (n : Nat) : List Char := (toString n).toList

def inTableOrder (places : Nat) (names : List (List Char)) : List (List Char) :=
  let place (name : List Char) : Nat :=
    (name.foldl (fun n c => n + c.toNat) (16 * (name.headD '\x00').toNat)) % 32768 % places
  names.mergeSort fun a b => place a ≤ place b

abbrev Args := List (List Char)

structure Variable where
  value : Option (List Char) := none
  isExported : Bool := false
  isReadOnly : Bool := false
deriving DecidableEq

structure Function where
  body : Command
  documents : Documents

/-- How a script goes on after a command. -/
inductive Control
  | going
  | leaving (loops : Nat)
  | repeating (loops : Nat)
  /-- the end of a function or a file of commands, maybe with a status of its own -/
  | returning (hasStatus : Bool)
  /-- the script ends, in order or by an error -/
  | exiting (isError : Bool)
deriving DecidableEq

/-- Where the next option among words stands: in which word, counted from one, and after how many of
its characters if it has been begun. -/
structure OptionPlace where
  index : Nat := 1
  offset : Option Nat := none

structure State extends World where
  /-- the number of the process that runs the script -/
  self : Nat := first
  /-- the current directory, without links -/
  dir : Path
  /-- the current directory as the script came to it -/
  shownDir : List Char
  /-- the name by which the script was called -/
  name : List Char
  args : Args := []
  /-- the command that complaints name -/
  command : List Char := []
  vars : Table (List Char) Variable := ∅
  functions : Table (List Char) Function := ∅
  /-- the number of functions that have been called and not yet ended -/
  depth : Nat := 0
  /-- the variables that functions have made their own, with what they were before -/
  locals : List (List (List Char × Option Variable)) := []
  options : List Char := []
  /-- what is done at the end and on signals, by their numbers -/
  traps : Table Nat (List Char) := ∅
  /-- the signals that were without effect when the script began -/
  ignored : List Nat := []
  /-- the status before the action on a signal, or at the end, that is being done -/
  statusBefore : Option Nat := none
  aliases : Table (List Char) (List Char) := ∅
  /-- the aliases whose texts end where the script has been read to, which stay for so long -/
  heldAliases : List (List Char) := []
  /-- the aliases that are to go once they are no longer held -/
  doomedAliases : List (List Char) := []
  /-- the names of programs whose paths have been found -/
  tracked : List (List Char) := []
  /-- the permissions that new files do not get -/
  mask : Nat := 18
  /-- whether output could not be printed -/
  hasLost : Bool := false
  status : Nat := 0
  /-- the status of the last command whose output was put into a word -/
  outputStatus : Nat := 0
  control : Control := .going
  loops : Nat := 0
  line : Nat := 0
  fds : Table Nat Nat := ∅
  /-- the channels that descriptors will lead to again -/
  kept : List Nat := []
  /-- whether something was printed to a pipe that nobody reads -/
  isBroken : Bool := false
  /-- whether a command is being shown -/
  isTracing : Bool := false
  jobs : Jobs := {}
  /-- the last process that was put into the background -/
  backgroundProcess : Option Nat := none
  nextOption : OptionPlace := {}
  /-- the number of the process that the script started as -/
  pid : Nat := self

namespace State

def withStatus (st : State) (n : Nat) : State := { st with status := n }

def isGoing (st : State) : Bool := st.control = .going

def channel? (st : State) (fd : Nat) : Option Channel :=
  (st.fds.get? fd).bind st.channels.get?

def setChannel (st : State) (fd : Nat) (c : Channel) : State :=
  match st.fds.get? fd with
  | some k => { st with channels := st.channels.insert k c }
  | none => st

def newChannel (st : State) (c : Channel) : Nat × State :=
  (st.nextChannel, { st with
    channels := st.channels.insert st.nextChannel c, nextChannel := st.nextChannel + 1 })

def openChannel (st : State) (fd : Nat) (c : Channel) : State :=
  let (k, st) := st.newChannel c
  { st with fds := st.fds.insert fd k }

def close (st : State) (fd : Nat) : State := { st with fds := st.fds.erase fd }

/-- The channels that the script's own descriptors lead to, now or later. -/
def held (st : State) : List Nat := st.fds.values ++ st.kept

def hasEnd (st : State) (c : Channel) : Bool :=
  (st.held.any fun k => st.channels.get? k = some c) || st.toWorld.hasEnd (some st.self) c

/-- The state without the channels that nobody can use any more. -/
def forgetUnused (st : State) : State :=
  let w := match st.processes.get? st.self with
    | some p =>
      { st.toWorld with processes := st.processes.insert st.self { p with holds := st.held } }
    | none => st.toWorld
  { st with toWorld := w.withoutUnused st.held }

def fileBytes (st : State) (place : Location) : List UInt8 :=
  match st.files.node? place with
  | some (.file bytes _) => bytes
  | _ => []

def overwritten (old new : List UInt8) (offset : Nat) : List UInt8 :=
  old.take offset ++ List.replicate (offset - old.length) 0 ++ new ++
    old.drop (offset + new.length)

def print (st : State) (fd : Nat) (cs : List Char) : State × Bool :=
  let lost (st : State) : State × Bool :=
    (if fd = 1 then { st with hasLost := true } else st, false)
  if cs = [] then (st, true)
  else
    let st := { st with changes := st.changes + 1 }
    match st.channel? fd with
    | none | some (.text _) | some .directory | some (.source _) => lost st
    | some .nothing => (st, true)
    | some (.gathered texts) => (st.setChannel fd (.gathered (cs :: texts)), true)
    | some (.sink pipe) =>
      if st.hasEnd (.source pipe) then
        ({ st with pipes := st.pipes.insert pipe ((st.pipeOf pipe).add cs) }, true)
      else lost { st with isBroken := true }
    | some (.file place offset access) =>
      if access = .read then lost st
      else
        let old := st.fileBytes place
        let bytes := Text.bytesOf cs
        if access = .append then
          ({ st with files := st.files.writeAt place (old ++ bytes) }, true)
        else
          let st := { st with files := st.files.writeAt place (overwritten old bytes offset) }
          (st.setChannel fd (.file place (offset + cs.length) access), true)

def printErr (st : State) (cs : List Char) : State := (st.print 2 cs).1

def input (st : State) (fd : Nat) : Option (List Char) :=
  match st.channel? fd with
  | none | some (.gathered _) | some .directory | some (.sink _) => none
  | some .nothing => some []
  | some (.text left) => some left
  | some (.source pipe) => some (st.pipeOf pipe).text
  | some (.file place offset access) =>
    if access ∈ [.write, .append] then none
    else some (Text.charsOf ((st.fileBytes place).drop offset))

def advance (st : State) (fd n : Nat) : State :=
  match st.channel? fd with
  | some (.text left) => st.setChannel fd (.text (left.drop n))
  | some (.source pipe) =>
    { st with
      pipes := st.pipes.insert pipe ((st.pipeOf pipe).drop n), changes := st.changes + 1 }
  | some (.file place offset access) => st.setChannel fd (.file place (offset + n) access)
  | _ => st

end State

def World.gatheredIn (w : World) (k : Nat) : List Char :=
  match w.channels.get? k with
  | some (.gathered texts) => texts.reverse.flatten
  | _ => []

namespace State

def complain (st : State) (what : List Char) : State :=
  let subject := if st.command = [] then [] else st.command ++ ": ".toList
  st.printErr
    (st.name ++ ": ".toList ++ shownNat st.line ++ ": ".toList ++ subject ++ what ++ ['\n'])

def failWith (st : State) (status : Nat) (what : List Char) : State :=
  (st.complain what).withStatus status

def abort (st : State) (what : List Char) : State :=
  { st.failWith 2 what with control := .exiting true }

def find? (st : State) (name : List Char) : Option (List Char) :=
  (st.vars.get? name).bind Variable.value

def get (st : State) (name : List Char) : List Char := (st.find? name).getD []

/-- Sets a variable without asking whether it may be set. -/
def put (st : State) (name value : List Char) : State :=
  let old := (st.vars.get? name).getD {}
  let isExported := old.isExported || 'a' ∈ st.options
  { st with vars := st.vars.insert name { old with value := some value, isExported } }

def isReadOnly (st : State) (name : List Char) : Bool :=
  (st.vars.get? name).any Variable.isReadOnly

def illegalNumber (cs : List Char) : List Char := "Illegal number: ".toList ++ cs

/-- Sets a variable; one that may only be read ends the script, and so does a place of options that
is no number. -/
def assign (st : State) (name value : List Char) : State :=
  if st.isReadOnly name then st.abort (name ++ ": is read only".toList)
  else if name = "PATH".toList then { st.put name value with tracked := [] }
  else if name ≠ "OPTIND".toList then st.put name value
  else
    match Arithmetic.naturalOf? value with
    | some n => { st.put name value with nextOption := { index := max n 1 } }
    | none => st.abort (illegalNumber value)

def setExported (st : State) (name : List Char) : State :=
  let old := (st.vars.get? name).getD {}
  { st with vars := st.vars.insert name { old with isExported := true } }

def setReadOnly (st : State) (name : List Char) : State :=
  let old := (st.vars.get? name).getD {}
  { st with vars := st.vars.insert name { old with isReadOnly := true } }

def exported (st : State) : List (List Char × List Char) :=
  (inTableOrder 39 st.vars.keys).filterMap fun name =>
    (st.vars.get? name).bind fun v =>
      if v.isExported then v.value.map fun value => (name, value) else none

def separators (st : State) : List Char := (st.find? "IFS".toList).getD [' ', '\t', '\n']

def searchPath (st : State) : String := Text.decoded (st.get "PATH".toList)

def optionText (st : State) : List Char :=
  ['u', 'b', 'a', 'C', 'E', 'V', 'v', 'x', 's', 'n', 'm', 'i', 'I', 'f', 'e'].filter fun c =>
    c ∈ st.options

def parameter? (st : State) (name : List Char) : Option (List Char) :=
  match name with
  | ['#'] => some (shownNat st.args.length)
  | ['?'] => some (shownNat st.status)
  | ['$'] => some (shownNat st.pid)
  | ['!'] => st.backgroundProcess.map shownNat
  | ['-'] => some st.optionText
  | ['0'] => some st.name
  | name =>
    if name.head?.any Char.isDigit then
      st.args[name.foldl (fun n c => n * 10 + (c.toNat - 48)) 0 - 1]?
    else st.find? name

def makeLocal (st : State) (name : List Char) : State :=
  match st.locals with
  | [] => st
  | own :: outer =>
    if own.any fun e => e.1 = name then st
    else { st with locals := ((name, st.vars.get? name) :: own) :: outer }

def restore (st : State) (saved : List (List Char × Option Variable)) : State :=
  { st with vars := saved.foldl (fun t e =>
      match e.2 with
      | some v => t.insert e.1 v
      | none => t.erase e.1) st.vars }

/-- The actions that a part of a script starts with: only those that keep signals out. -/
def innerTraps (st : State) : Table Nat (List Char) :=
  .ofList (st.traps.entries.filter fun e => e.2 = [])

/-- Shows the others what they can see of the script's process. -/
def published (st : State) : State :=
  match st.processes.get? st.self with
  | none => st
  | some p =>
    let caught := (st.traps.entries.filter fun e => e.2 ≠ []).map Prod.fst
    let ignored := st.innerTraps.keys ++ st.ignored
    { st with
      processes := st.processes.insert st.self { p with holds := st.held, caught, ignored } }

/-- Whether the script's process has nothing more to do. -/
def isOver (st : State) : Bool := !(st.processes.get? st.self).any Process.isActive

def tellEnding (st : State) : Ending → State
  | .killed n => if Signal.isSilent n then st else st.printErr (Signal.meaning n ++ "\n").toList
  | .exited _ => st

/-- Hears of the processes that have ended, in order; of those of one job the endings are told. -/
def hearEndings (st : State) (job : Option Nat) : State :=
  let ended := (st.children st.self).filterMap fun e => e.2.ending.map fun how => (e.1, how)
  let ended := ended.mergeSort fun a b => a.2.1 ≤ b.2.1
  ended.foldl (fun st e =>
    let st := { st with processes := st.processes.erase e.1 }
    match st.jobs.numberOf? e.1 with
    | none => st
    | some n =>
      let st := { st with jobs := st.jobs.record n e.1 e.2.2 }
      if job = some n then st.tellEnding e.2.2 else st) st

/-- Keeps in mind that the path of a program has been found. -/
def track (st : State) (name : List Char) : State :=
  if '/' ∈ name || st.tracked.contains name then st
  else { st with tracked := st.tracked ++ [name] }

end State
end Script
end MachTree
