import MachTree.Script.Task

/-! Processes that run at the same time.  Each has a time of its own at which it goes on; the one
that is to go on first does so, and what it does takes a little time. -/
namespace MachTree
namespace Script

structure Turn where
  pid : Nat
  /-- when it goes on, in units of a thousandth of a microsecond; without a time, something has to
  happen first -/
  time : Option Nat
  wakes : World → Bool := fun _ => true
  next : World → Task
  /-- whether all that is left is to end -/
  isLast : Bool := false

namespace Turn

def forkTime : Nat := 150000

def wakeTime : Nat := 50000

def endTime : Nat := 200000

/-- The steps after which processes that change nothing are taken to wait for the others. -/
def maxIdle : Nat := 10000

/-- How much later the others may be that are then waited for. -/
def idleTime : Nat := 1000000

def last (pid time : Nat) : Turn :=
  { pid, time := some time, next := fun w => .ended (w.endProcess pid), isLast := true }

def woken (now : Nat) (w : World) (t : Turn) : Turn :=
  if t.isLast then t
  else if (w.processes.get? t.pid).any fun p => p.fate.isSome then
    last t.pid (now + wakeTime + endTime)
  else if t.time.isNone && t.wakes w then { t with time := some (now + wakeTime) }
  else t

def due? (w : World) (t : Turn) : Option Nat :=
  if t.isLast || (w.processes.get? t.pid).any fun p => !p.isStopped then t.time else none

def first? (w : World) (turns : List Turn) : Option (Nat × Turn) :=
  turns.foldl (fun best t =>
    match t.due? w, best with
    | some time, some (least, _) => if time < least then some (time, t) else best
    | some time, none => some (time, t)
    | none, _ => best) none

end Turn

def Turn.take (now : Nat) (w : World) (t : Turn) : World × List Turn :=
  match t.next w with
  | .ended w' => (w', if t.isLast then [] else [.last t.pid (now + endTime)])
  | .paused w' time wakes next => (w', [{ t with time := some (now + time), wakes, next }])
  | .forked w' child delay start next =>
    (w', [{ t with time := some (now + forkTime), wakes := fun _ => true, next },
      { pid := child, time := some (now + delay), next := start }])

/-- Lets processes run until the first one is over and nobody else prints to some channels, or until
all wait. -/
def runTurns (outputs : List Nat) (fuel idle : Nat) (turns : List Turn) (w : World) : World :=
  match fuel with
  | 0 => w
  | fuel + 1 =>
    if w.isOver outputs then w
    else
      match Turn.first? w turns with
      | none => w
      | some (now, t) =>
        let others := turns.filter fun u => u.pid ≠ t.pid
        if !t.wakes w then
          runTurns outputs fuel idle (others ++ [{ t with time := none }]) w
        else
          let (w', new) := t.take now w
          if w'.changes ≠ w.changes then
            runTurns outputs fuel 0 (others.map (Turn.woken now w') ++ new) w'
          else if idle < Turn.maxIdle then runTurns outputs fuel (idle + 1) (others ++ new) w'
          else
            let later := ((others.filterMap (Turn.due? w')).filter
              fun time => now + Turn.idleTime < time).min?.getD 0
            let new := new.map fun t => { t with time := t.time.map fun time => max time later }
            runTurns outputs fuel idle (others ++ new) w'

def runWorld (outputs : List Nat) (fuel : Nat) (st : State) (act : Act Unit) : World :=
  let st := { st with
    processes := st.processes.insert st.self { parent := st.self - 1 }, first := st.self }
  let next (w : World) : Task :=
    act { st with toWorld := w } fun _ st =>
      Act.exit (α := Unit) (.exited st.status) st fun _ st => .ended st.toWorld
  runTurns outputs fuel 0 [{ pid := st.self, time := some 0, next }] st.published.toWorld

end Script
end MachTree
