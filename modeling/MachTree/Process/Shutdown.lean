/-! The end of a run that is interrupted: its processes are killed, leaves before the root, and the
interrupt is handed on. -/
namespace MachTree
namespace Shutdown

/-- What is known of the processes when a run ends. -/
structure Processes where
  missing : List Int := []
  /-- the processes that are gone when they are to be killed -/
  gone : List Int := []
  /-- all descendants of the process that a run has started -/
  descendants : List Int := []

inductive Step
  | kill (pid : Int)
  | wait (pids : List Int) (seconds : Nat)
deriving DecidableEq, Repr

def patience : Nat := 5

def killTree (t : Processes) (pid : Int) : List Step :=
  if pid ∈ t.missing then []
  else
    let family := t.descendants ++ [pid]
    ((family.filter fun p => p ∉ t.gone).map .kill) ++ [.wait family patience]

inductive Thread
  | main
  | worker
deriving DecidableEq, Repr

inductive Notice
  | interruptMain
  | raised (text : String)
deriving DecidableEq, Repr

/-- An interrupt reaches the caller in every thread, and the main thread as well. -/
def forward (thread : Thread) (text : String) : List Notice :=
  match thread with
  | .main => [.raised text]
  | .worker => [.interruptMain, .raised text]

end Shutdown
end MachTree
