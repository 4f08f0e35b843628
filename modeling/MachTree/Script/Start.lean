import MachTree.Script.Program
import MachTree.Script.Builtin.Basic

/-! The state in which scripts begin, and the parts of scripts that run as processes of their
own. -/
namespace MachTree
namespace Script

def startVariables : List (String × String) :=
  [("PATH", Program.defaultSearch), ("PS1", "# "), ("PS2", "> "), ("PS4", "+ ")]

def startState (st : State) (name : List Char) : State :=
  let vars : Table (List Char) Variable :=
    .ofList (st.exported.map fun e => (e.1, { value := some e.2, isExported := true }))
  let pwd := ((vars.get? "PWD".toList).bind Variable.value).getD []
  let isHere : Bool :=
    startsAtRoot pwd &&
      match st.files.locateText st.dir (Text.decoded pwd).toList with
      | .ok loc => loc = st.dir.parts
      | .error _ => false
  let shownDir := if isHere then pwd else Text.encoded st.dir.toString
  let inner : State :=
    { toWorld := st.toWorld, self := st.self, dir := st.dir, shownDir, name, vars, fds := st.fds
      mask := st.mask, ignored := st.innerTraps.keys ++ st.ignored }
  let parent := ((st.processes.get? st.self).map Process.parent).getD 1
  let inner := (inner.put "PWD".toList shownDir).setExported "PWD".toList
  let given := startVariables.foldl (fun st e =>
    if (vars.get? e.1.toList).isSome then st else st.put e.1.toList e.2.toList) inner
  [("OPTIND", "1"), ("IFS", " \t\n"), ("PPID", toString parent)].foldl
    (fun st e => st.put e.1.toList e.2.toList) given

/-- The state in which a part of a script begins that keeps what it changes to itself. -/
def innerState (st : State) : State := { st with traps := st.innerTraps }

def backgroundState (isFirst : Bool) (st : State) : State :=
  let st := { innerState st with ignored := 2 :: 3 :: st.ignored }
  if isFirst then st.openChannel 0 .nothing else st

def programState (st : State) : State := { innerState st with kept := [], command := [] }

/-- The time after which a part of a script begins to run, in units of a thousandth of a
microsecond. -/
def partTime : Nat := 950000

def launchTime : Nat := 650000

def loadTime : Nat := 700000

def hasTraps (st : State) : Bool := st.traps.values.any (· ≠ [])

end Script
end MachTree
