import MachTree.Script.State

/-! What processes do, step by step.  A process runs by itself up to a moment at which others may go
on; what is left of it then is a function on the world that it will find. -/
namespace MachTree
namespace Script

inductive Task
  /-- it ends -/
  | ended (w : World)
  /-- it lets others go on, for some time and until something is so -/
  | paused (w : World) (time : Nat) (wakes : World → Bool) (next : World → Task)
  /-- it has started another one, which begins after some time -/
  | forked (w : World) (child delay : Nat) (start next : World → Task)

/-- A piece of what a process does: it changes the state, maybe with pauses, and what comes after it
is told the result. -/
def Act (α : Type) : Type := State → (α → State → Task) → Task

namespace Act

variable {α : Type}

instance : Monad Act where
  pure a := fun st k => k a st
  bind x f := fun st k => x st fun a st => f a st k

instance : MonadStateOf State Act where
  get := fun st k => k st st
  set st := fun _ k => k () st
  modifyGet f := fun st k => let (a, st) := f st; k a st

/-- Lets others go on for some time and until something is so. -/
def pause (time : Nat) (wakes : World → Bool) : Act Unit := fun st k =>
  .paused st.published.toWorld time wakes fun w => k () { st with toWorld := w }

def await (wakes : World → Bool) : Act Unit := fun st k =>
  if wakes st.published.toWorld then k () st else pause 0 wakes st k

def stop : Act α := fun st _ => .ended st.published.toWorld

def exit (how : Ending) : Act α := do
  modify fun st => { st with toWorld := st.published.doom st.self how }
  stop

/-- Starts another process with a state of its own, and gives its number. -/
def fork (delay : Nat) (prepare : State → State) (child : Act Unit) : Act Nat := fun st k =>
  let pid := st.nextProcess
  let st := { st with nextProcess := pid + 1, changes := st.changes + 1 }
  let inner := prepare { st with self := pid }
  let inner :=
    { inner with processes := st.published.processes.insert pid { parent := st.self } }.published
  .forked inner.toWorld pid delay
    (fun w => child { inner with toWorld := w } fun _ st =>
      exit (α := Unit) (.exited st.status) st fun _ st => .ended st.toWorld)
    (fun w => k pid { st with toWorld := w })

def raise (n : Nat) : Act Unit := do
  modify fun st => { st with toWorld := st.published.deliver st.self n }
  if (← get).isOver then stop

def overfull (st : State) : List Nat :=
  st.fds.values.filterMap fun k =>
    match st.channels.get? k with
    | some (.sink pipe) => if Pipe.capacity < (st.pipeOf pipe).size then some pipe else none
    | _ => none

/-- Waits until all that has been printed is read or held by pipes, and tells whether that came to
be.  To print to a pipe that nobody reads is a signal. -/
def settle : Act Bool := do
  let st ← get
  if st.isOver then stop
  set { st with isBroken := false }
  if st.isBroken then raise Signal.brokenPipe
  let pipes := overfull st
  if pipes = [] then return !st.isBroken
  await fun w => pipes.all fun n =>
    (w.pipeOf n).size ≤ Pipe.capacity || !w.hasEnd none (.source n)
  if overfull (← get) = [] then return !st.isBroken
  modify fun st => { st with hasLost := true }
  raise Signal.brokenPipe
  pure false

end Act
end Script
end MachTree
