import Mathlib.Logic.Function.Basic
import MachTree.Registry

/-! Threads that share one registry, step by step.  Each tree has a lock of its own, which is made
when it is first asked for; the table of these locks is read and changed under a master lock.  What
a thread does to the entry of a tree it does while it holds the tree's lock; the stage of a tree is
read under the master lock alone. -/
namespace MachTree
namespace Registry

/-- What a thread wants the lock of a tree for. -/
inductive Task
  | get (root : Path) (settings : Option Settings)
  | forget

/-- What a thread leaves the lock of a tree with. -/
inductive Answer
  | build (b : Option Build)
  | raised
  | forgotten

/-- Where a thread is in its call.  Locks of trees are told apart by numbers. -/
inductive Phase
  | idle
  | calling (task : Task) (key : Path)
  /-- with the master lock from here on -/
  | choosing (task : Task) (key : Path)
  | creating (task : Task) (key : Path)
  | fetching (task : Task) (key : Path)
  | chosen (task : Task) (key : Path) (lock : Nat)
  /-- without any lock -/
  | waiting (task : Task) (key : Path) (lock : Nat)
  /-- with the lock of the tree from here on -/
  | holding (task : Task) (key : Path) (lock : Nat)
  | probing (root : Path) (settings : Option Settings) (key : Path) (lock : Nat)
  | storing (found : Stage × Option Build) (key : Path) (lock : Nat)
  | leaving (answer : Answer) (key : Path) (lock : Nat)
  /-- about to take the master lock, for the stage of a tree -/
  | asking (key : Path)
  /-- with the master lock again -/
  | reading (key : Path)
  | told

namespace Phase

def InMaster : Phase → Prop
  | choosing _ _ | creating _ _ | fetching _ _ | chosen _ _ _ | reading _ | told => True
  | _ => False

def chosen? : Phase → Option (Path × Nat)
  | chosen _ key lock | waiting _ key lock | holding _ key lock | probing _ _ key lock
  | storing _ key lock | leaving _ key lock => some (key, lock)
  | _ => none

/-- The tree whose lock a thread has, and the lock. -/
def inside? : Phase → Option (Path × Nat)
  | holding _ key lock | probing _ _ key lock | storing _ key lock | leaving _ key lock =>
    some (key, lock)
  | _ => none

def IsProbing (key : Path) (p : Phase) : Prop :=
  ∃ root settings lock, p = probing root settings key lock

end Phase

/-- What happens to the entry of a tree, and what callers are told of it. -/
inductive Mark (τ : Type)
  /-- setting up the build of a tree has come to an end of its own -/
  | probed (t : τ) (key : Path) (found : Stage × Option Build)
  | stored (t : τ) (key : Path) (found : Stage × Option Build)
  | forgot (t : τ) (key : Path)
  /-- a call for a build ends, with the tree's lock given back -/
  | returned (t : τ) (key : Path) (build : Option Build)
  | told (t : τ) (key : Path) (stage : Stage)

structure Threads (τ : Type) where
  registry : Registry
  /-- the lock of each tree -/
  locks : Table Path Nat := ∅
  /-- the number of locks made so far -/
  lockCount : Nat := 0
  /-- the thread that has the master lock -/
  master : Option τ := none
  /-- the thread that has the lock of a tree -/
  holder : Nat → Option τ := fun _ => none
  phase : τ → Phase := fun _ => .idle
  history : List (Mark τ) := []

inductive Request
  | get (root : Path) (settings : Option Settings)
  | forget (root : Path)
  | stage (root : Path)

def Request.root : Request → Path
  | get root _ | forget root | stage root => root

/-- The phase in which a call starts, once the tree's absolute path is known. -/
def Request.start : Request → Path → Phase
  | get root settings, key => .calling (.get root settings) key
  | forget _, key => .calling .forget key
  | stage _, key => .asking key

def Answer.marks {τ : Type} (t : τ) (key : Path) : Answer → List (Mark τ)
  | build b => [.returned t key b]
  | _ => []

namespace Threads

variable {τ : Type} [DecidableEq τ]

def start (showProgress : Bool) : Threads τ := { registry := { showProgress } }

@[simp] def go (s : Threads τ) (t : τ) (p : Phase) : Threads τ :=
  { s with phase := Function.update s.phase t p }

@[simp] def note (s : Threads τ) (marks : List (Mark τ)) : Threads τ :=
  { s with history := s.history ++ marks }

@[simp] def setMaster (s : Threads τ) (t : Option τ) : Threads τ := { s with master := t }

@[simp] def setHolder (s : Threads τ) (lock : Nat) (t : Option τ) : Threads τ :=
  { s with holder := Function.update s.holder lock t }

@[simp] def setRegistry (s : Threads τ) (r : Registry) : Threads τ := { s with registry := r }

@[simp] def addLock (s : Threads τ) (key : Path) : Threads τ :=
  { s with locks := s.locks.insert key s.lockCount, lockCount := s.lockCount + 1 }

/-- One step of one thread.  A call starts from whatever the current directory is then; setting up
a build may come to anything, or raise. -/
inductive Step (t : τ) (s : Threads τ) : Threads τ → Prop
  | call (request : Request) (cwd : Path) : s.phase t = .idle →
      Step t s (s.go t (request.start (Path.absolute cwd request.root)))
  | enter (task key) : s.phase t = .calling task key → s.master = none →
      Step t s ((s.go t (.choosing task key)).setMaster (some t))
  | missing (task key) : s.phase t = .choosing task key → s.locks.get? key = none →
      Step t s (s.go t (.creating task key))
  | present (task key lock) : s.phase t = .choosing task key → s.locks.get? key = some lock →
      Step t s (s.go t (.fetching task key))
  | create (task key) : s.phase t = .creating task key →
      Step t s ((s.go t (.fetching task key)).addLock key)
  | fetch (task key lock) : s.phase t = .fetching task key → s.locks.get? key = some lock →
      Step t s (s.go t (.chosen task key lock))
  | exit (task key lock) : s.phase t = .chosen task key lock →
      Step t s ((s.go t (.waiting task key lock)).setMaster none)
  | acquire (task key lock) : s.phase t = .waiting task key lock → s.holder lock = none →
      Step t s ((s.go t (.holding task key lock)).setHolder lock (some t))
  | find (root settings key lock entry) : s.phase t = .holding (.get root settings) key lock →
      s.registry.entries.get? key = some entry →
      Step t s (s.go t (.leaving (.build entry.build) key lock))
  | probe (root settings key lock) : s.phase t = .holding (.get root settings) key lock →
      s.registry.entries.get? key = none →
      Step t s (s.go t (.probing root settings key lock))
  | finish (root settings key lock) (found : Stage × Option Build) :
      s.phase t = .probing root settings key lock →
      Step t s ((s.go t (.storing found key lock)).note [.probed t key found])
  | raise (root settings key lock) : s.phase t = .probing root settings key lock →
      Step t s (s.go t (.leaving .raised key lock))
  | store (found key lock) : s.phase t = .storing found key lock →
      Step t s (((s.go t (.leaving (.build found.2) key lock)).setRegistry
        (s.registry.store key found)).note [.stored t key found])
  | forget (key lock) : s.phase t = .holding .forget key lock →
      Step t s (((s.go t (.leaving .forgotten key lock)).setRegistry
        (s.registry.without key)).note [.forgot t key])
  | release (answer key lock) : s.phase t = .leaving answer key lock →
      Step t s (((s.go t .idle).setHolder lock none).note (answer.marks t key))
  | ask (key) : s.phase t = .asking key → s.master = none →
      Step t s ((s.go t (.reading key)).setMaster (some t))
  | read (key) : s.phase t = .reading key →
      Step t s ((s.go t .told).note [.told t key (s.registry.stageOf key)])
  | leave : s.phase t = .told → Step t s ((s.go t .idle).setMaster none)

/-- The states that threads can come to, in whatever order they take their steps. -/
inductive Reachable : Threads τ → Prop
  | start (showProgress : Bool) : Reachable (start showProgress)
  | step {s s' : Threads τ} {t : τ} : Reachable s → Step t s s' → Reachable s'

end Threads
end Registry
end MachTree
