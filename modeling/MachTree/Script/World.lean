import MachTree.Files.Edit
import MachTree.Script.Signal

/-! What the processes of a script share: the files, what their descriptors lead to, and what each
can see of the others. -/
namespace MachTree
namespace Script

/-- What may be done with an open file. -/
inductive Access
  | read
  | write
  /-- all that is written goes to the end -/
  | append
  | both
deriving DecidableEq

inductive Channel
  | nothing
  /-- a directory, from which nothing can be read -/
  | directory
  /-- texts that have been printed, the last one first -/
  | gathered (texts : List (List Char))
  /-- a text that is left to read -/
  | text (left : List Char)
  | file (place : Location) (offset : Nat) (access : Access)
  /-- the end of a pipe to read from -/
  | source (pipe : Nat)
  /-- the end of a pipe to print to -/
  | sink (pipe : Nat)
deriving DecidableEq

/-- What has been printed to a pipe and not been read. -/
structure Pipe where
  front : List Char := []
  /-- the texts after the front, the last one first -/
  back : List (List Char) := []
  size : Nat := 0

namespace Pipe

/-- What a pipe holds while those who print to it may go on. -/
def capacity : Nat := 65536

def text (p : Pipe) : List Char := p.front ++ p.back.reverse.flatten

def joined (p : Pipe) : Pipe := { p with front := p.text, back := [] }

def add (p : Pipe) (cs : List Char) : Pipe :=
  { p with back := cs :: p.back, size := p.size + cs.length }

def drop (p : Pipe) (n : Nat) : Pipe :=
  if n ≤ p.front.length then { p with front := p.front.drop n, size := p.size - n }
  else { p.joined with front := p.text.drop n, size := p.size - n }

end Pipe

inductive Ending
  | exited (status : Nat)
  | killed (signal : Nat)
deriving DecidableEq, Repr

def Ending.status : Ending → Nat
  | .exited n => n
  | .killed n => 128 + n

structure Process where
  parent : Nat
  /-- how it is about to end -/
  fate : Option Ending := none
  /-- how it has ended, and how many had ended before it -/
  ending : Option (Nat × Ending) := none
  isStopped : Bool := false
  /-- the signals on which it does something -/
  caught : List Nat := []
  ignored : List Nat := []
  /-- the signals that have come and that it has done nothing on yet -/
  pending : List Nat := []
  /-- the channels that its descriptors lead to -/
  holds : List Nat := []

def Process.isAlive (p : Process) : Bool := p.ending.isNone

def Process.isActive (p : Process) : Bool := p.isAlive && p.fate.isNone

structure World where
  files : Files
  channels : Table Nat Channel := ∅
  nextChannel : Nat := 0
  pipes : Table Nat Pipe := ∅
  processes : Table Nat Process := ∅
  /-- the process that all others come from -/
  first : Nat := 4711
  nextProcess : Nat := 4712
  endings : Nat := 0
  /-- how often something has changed that others can see -/
  changes : Nat := 0

namespace World

def changed (w : World) : World := { w with changes := w.changes + 1 }

/-- Whether a process that is not over holds a channel, apart from one of them. -/
def isHeld (w : World) (apart : Option Nat) (channel : Nat) : Bool :=
  w.processes.entries.any fun e =>
    some e.1 ≠ apart && e.2.isAlive && e.2.holds.contains channel

/-- Whether a process that is not over holds a channel that leads to an end of a pipe. -/
def hasEnd (w : World) (apart : Option Nat) (c : Channel) : Bool :=
  w.channels.entries.any fun e => e.2 = c && w.isHeld apart e.1

def pipeOf (w : World) (n : Nat) : Pipe := (w.pipes.get? n).getD {}

/-- The world without the channels that nobody holds; what has been gathered stays. -/
def withoutUnused (w : World) (held : List Nat) : World :=
  let keeps (e : Nat × Channel) : Bool :=
    e.2 matches .gathered _ || held.contains e.1 || w.isHeld none e.1
  if w.channels.entries.all keeps then w
  else
    let gone := (w.channels.entries.filter fun e => !keeps e).map Prod.fst
    let channels := gone.foldl Table.erase w.channels
    let isUsed (n : Nat) : Bool :=
      channels.values.any fun c => c = .source n || c = .sink n
    let empty := w.pipes.keys.filter fun n => !isUsed n
    { w with channels, pipes := empty.foldl Table.erase w.pipes }

def childSignal : Nat := 17

def note (w : World) (pid n : Nat) : World :=
  match w.processes.get? pid with
  | some p =>
    if p.isActive && p.caught.contains n then
      { w with processes := w.processes.insert pid
                { p with pending := p.pending.filter (· ≠ n) ++ [n] } }
    else w
  | none => w

def withoutParent (w : World) (parent : Nat) : Table Nat Process :=
  .ofList (w.processes.entries.filterMap fun e =>
    if e.2.parent ≠ parent then some e
    else if e.2.isAlive then some (e.1, { e.2 with parent := 1 })
    else none)

/-- Settles how a process ends, which it does a moment later. -/
def doom (w : World) (pid : Nat) (how : Ending) : World :=
  match w.processes.get? pid with
  | some p =>
    if p.isActive then
      { w with processes := w.processes.insert pid { p with fate := some how } }.changed
    else w
  | none => w

def endProcess (w : World) (pid : Nat) : World :=
  match w.processes.get? pid with
  | some { parent, fate := some how, ending := none, .. } =>
    let ended : Process := { parent, fate := some how, ending := some (w.endings, how) }
    let isWatched : Bool := pid = w.first || (w.processes.get? parent).any Process.isAlive
    let processes := w.withoutParent pid
    let processes := if isWatched then processes.insert pid ended else processes.erase pid
    let w := { w with processes, endings := w.endings + 1 }
    ((w.note parent childSignal).withoutUnused []).changed
  | _ => w

def deliver (w : World) (pid n : Nat) : World :=
  match w.processes.get? pid with
  | none => w
  | some p =>
    let set (p : Process) : World := { w with processes := w.processes.insert pid p }.changed
    let p := if n = Signal.resume then { p with isStopped := false } else p
    if n = 0 ∨ !p.isActive then w
    else if n = Signal.kill then w.doom pid (.killed n)
    else if n = Signal.stop then set { p with isStopped := true }
    else if p.ignored.contains n then set p
    else if p.caught.contains n then (set p).note pid n
    else if Signal.isHarmless n then set p
    else if Signal.stops n then set { p with isStopped := true }
    else w.doom pid (.killed n)

def children (w : World) (pid : Nat) : List (Nat × Process) :=
  w.processes.entries.filter fun e => e.2.parent = pid

def hasEndedChild (w : World) (pid : Nat) : Bool :=
  w.processes.entries.any fun e => e.2.parent = pid && !e.2.isAlive

def hasPending (w : World) (pid : Nat) : Bool :=
  (w.processes.get? pid).any fun p => p.pending ≠ []

def ending? (w : World) : Option Ending :=
  ((w.processes.get? w.first).bind Process.ending).map Prod.snd

/-- Whether the first process is over and no other one holds one of some channels. -/
def isOver (w : World) (outputs : List Nat) : Bool :=
  w.ending?.isSome && !outputs.any (w.isHeld none)

end World
end Script
end MachTree
