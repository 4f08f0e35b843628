import MachTree.Script.World

/-! The commands that a script has started as processes of their own, by their numbers. -/
namespace MachTree
namespace Script

/-- Processes that run together; the last one's ending is that of all. -/
structure Job where
  members : List (Nat × Option Ending) := []
  /-- whether its ending has been asked for -/
  isWaited : Bool := false

namespace Job

def isDone (j : Job) : Bool := j.members ≠ [] && j.members.all fun m => m.2.isSome

def ending? (j : Job) : Option Ending := j.members.getLast?.bind Prod.snd

def status (j : Job) : Nat := (j.ending?.map Ending.status).getD 0

def lastProcess? (j : Job) : Option Nat := j.members.getLast?.map Prod.fst

def shownState (j : Job) : String :=
  if !j.isDone then "Running"
  else
    match j.ending? with
    | some (.killed n) => Signal.meaning n
    | some (.exited 0) | none => "Done"
    | some (.exited n) => "Done(" ++ toString n ++ ")"

end Job

structure Jobs where
  slots : Table Nat Job := ∅
  /-- the numbers of the jobs, the current one first -/
  order : List Nat := []

namespace Jobs

def get? (js : Jobs) (n : Nat) : Option Job := js.slots.get? n

def set (js : Jobs) (n : Nat) (j : Job) : Jobs := { js with slots := js.slots.insert n j }

def remove (js : Jobs) (n : Nat) : Jobs :=
  { slots := js.slots.erase n, order := js.order.filter (· ≠ n) }

def makeCurrent (js : Jobs) (n : Nat) : Jobs := { js with order := n :: js.order.filter (· ≠ n) }

def freeNumber (js : Jobs) (fuel n : Nat) : Nat :=
  match fuel, js.get? n with
  | fuel + 1, some j => if j.isDone && j.isWaited then n else freeNumber js fuel (n + 1)
  | _, _ => n

def add (js : Jobs) : Nat × Jobs :=
  let n := js.freeNumber js.slots.size 1
  (n, ((js.remove n).set n {}).makeCurrent n)

def join (js : Jobs) (n pid : Nat) : Jobs :=
  let j := (js.get? n).getD {}
  js.set n { j with members := j.members ++ [(pid, none)] }

/-- The first job in order with a process that has not been heard to end. -/
def numberOf? (js : Jobs) (pid : Nat) : Option Nat :=
  js.order.find? fun n =>
    (js.get? n).any fun j => !j.isDone && j.members.any fun m => m.1 = pid

def record (js : Jobs) (n pid : Nat) (how : Ending) : Jobs :=
  let j := (js.get? n).getD {}
  js.set n { j with members := j.members.map fun m => if m.1 = pid then (pid, some how) else m }

def ofProcess? (js : Jobs) (pid : Nat) : Option Nat :=
  js.order.find? fun n => (js.get? n).any fun j => j.lastProcess? = some pid

def named (js : Jobs) (word : List Char) : Except (List Char) Nat :=
  let missing := "No such job: ".toList ++ word
  match word with
  | ['%'] | ['%', '+'] | ['%', '%'] =>
    js.order.head?.elim (.error "No current job".toList) .ok
  | ['%', '-'] => (js.order[1]?).elim (.error "No previous job".toList) .ok
  | ['%', '?'] =>
    match js.order with
    | [n] => .ok n
    | [] => .error missing
    | _ => .error (word ++ ": ambiguous".toList)
  | '%' :: number =>
    match Arithmetic.naturalOf? number with
    | some n => if (js.get? n).isSome then .ok n else .error missing
    | none => .error missing
  | _ => .error missing

/-- A text filled up to the column after which commands would stand. -/
def filled (cs : List Char) : List Char := cs ++ List.replicate (max 1 (33 - cs.length)) ' '

def shown (js : Jobs) (n : Nat) (j : Job) (showsProcesses : Bool) : List Char :=
  let mark : Char :=
    if js.order.head? = some n then '+' else if js.order[1]? = some n then '-' else ' '
  let front := '[' :: (toString n).toList ++ [']', ' ', mark, ' ']
  let process (pid : Nat) : List Char := (toString pid).toList ++ [' ']
  let others := (j.members.drop 1).map Prod.fst
  let line :=
    if showsProcesses then
      filled (front ++ process ((j.members.head?.map Prod.fst).getD 0) ++ j.shownState.toList) ++
        others.flatMap fun pid =>
          " |\n".toList ++ filled (List.replicate 6 ' ' ++ process pid)
    else filled (front ++ j.shownState.toList) ++ others.flatMap fun _ => " | ".toList
  line ++ ['\n']

end Jobs
end Script
end MachTree
