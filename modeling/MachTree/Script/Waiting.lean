import MachTree.Script.Task

/-! How a script waits for the processes that it has started. -/
namespace MachTree
namespace Script

/-- Waits until a job is done, or else until any process has ended; the answer is whether no signal
came before. -/
def awaitEnding (fuel : Nat) (job : Option Nat) (mayBreak : Bool) : Act Bool := do
  match fuel with
  | 0 => pure true
  | fuel + 1 =>
    let isDone (st : State) : Bool := job.any fun n => !(st.jobs.get? n).any fun j => !j.isDone
    let st ← get
    let self := st.self
    if st.hasEndedChild self then
      modify fun st => st.hearEndings job
      if job.isNone || isDone (← get) then pure true else awaitEnding fuel job mayBreak
    else if isDone st || (st.children self).isEmpty then pure true
    else if mayBreak && st.hasPending self then pure false
    else
      Act.await fun w => w.hasEndedChild self || (mayBreak && w.hasPending self)
      awaitEnding fuel job mayBreak

def awaitJob (fuel n : Nat) : Act Nat := do
  let _ ← awaitEnding fuel (some n) false
  let st ← get
  set { st with jobs := st.jobs.remove n }
  pure (((st.jobs.get? n).map Job.status).getD 0)

def addJob : Act Nat := modifyGet fun st =>
  let (n, jobs) := st.jobs.add
  (n, { st with jobs })

def startMember (delay job : Nat) (prepare : State → State) (child : Act Unit) : Act Nat := do
  let pid ← Act.fork delay (fun st => prepare { st with jobs := {} }) child
  modify fun st => { st with jobs := st.jobs.join job pid }
  pure pid

def brokenStatus (st : State) : Nat :=
  128 + (((st.processes.get? st.self).bind fun p => p.pending.getLast?).getD 0)

def awaitAll (fuel : Nat) : Act Unit := do
  match fuel with
  | 0 => pure ()
  | fuel + 1 =>
    let isDone (js : Jobs) (n : Nat) : Bool := (js.get? n).any Job.isDone
    modify fun st => { st with
      jobs := (st.jobs.order.takeWhile (isDone st.jobs)).foldl (fun js n =>
        js.set n { (js.get? n).getD {} with isWaited := true }) st.jobs }
    let st ← get
    if st.jobs.order.all (isDone st.jobs) then modify fun st => st.withStatus 0
    else if ← awaitEnding fuel none true then awaitAll fuel
    else modify fun st => st.withStatus (brokenStatus st)

def awaitNamed (fuel n : Nat) : Act Bool := do
  if ← awaitEnding fuel (some n) true then
    modify fun st =>
      let j := (st.jobs.get? n).getD {}
      { st.withStatus j.status with jobs := st.jobs.set n { j with isWaited := true } }
    pure true
  else
    modify fun st => st.withStatus (brokenStatus st)
    pure false

/-- The job that a word names by its number or by its last process; a process that is not known
names none. -/
def namedJob (js : Jobs) (word : List Char) : Except (List Char) (Option Nat) :=
  if word.head? = some '%' then (js.named word).map some
  else
    match Arithmetic.naturalOf? word with
    | some pid => .ok (js.ofProcess? pid)
    | none => .error (State.illegalNumber word)

/-- Waits for the jobs that words name, one after the other; what names none is passed over. -/
def awaitEach (fuel : Nat) : List (List Char) → Act Unit
  | [] => pure ()
  | word :: rest => do
    match namedJob (← get).jobs word with
    | .error what => modify fun st => st.failWith 2 what
    | .ok none => awaitEach fuel rest
    | .ok (some n) => if ← awaitNamed fuel n then awaitEach fuel rest

end Script
end MachTree
