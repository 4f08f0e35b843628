import MachTree.Process.Launch
import MachTree.Script.Run
import MachTree.Script.Schedule

/-! The system that programs are started on when a command is tried out: the programs that are there
by themselves, and the scripts in a file tree. -/
namespace MachTree
namespace Script

open Launch (Request Error Captured)

def directoryOf (q : Request) (t : Files) (cwd : Path) : Except Error Path :=
  match q.cwd with
  | none => .ok cwd
  | some text =>
    match t.locateText cwd text.toList with
    | .error b => .error (.refused (.ofBlocked b) text)
    | .ok loc =>
      if t.node? loc = some .directory then .ok ⟨.root, loc⟩
      else .error (.refused .notDirectory text)

def outputs : List Nat := [1, 2]

/-- The state in which a program starts: without input, and with two channels to print to. -/
def launchState (q : Request) (t : Files) (dir : Path) : State :=
  let vars : Table (List Char) Variable := .ofList (q.environment.entries.map fun e =>
    (Text.encoded e.1, { value := some (Text.encoded e.2), isExported := true }))
  let st : State :=
    { files := t, dir, shownDir := Text.encoded dir.toString, name := [], vars }
  outputs.foldl (fun st fd => st.openChannel fd (.gathered [])) (st.openChannel 0 .nothing)

/-- The program that a request asks for, with its words and the directory that it starts in. -/
def target (q : Request) (t : Files) (cwd : Path) :
    Except Error (Program × List String × Path) := do
  let dir ← directoryOf q t cwd
  let search := (q.environment.get? "PATH").getD Program.defaultSearch
  let name := q.command.headD ""
  let paths := Program.candidates Program.slashOnce search name
  let (program, words) ←
    (Program.find t dir paths q.command).mapError fun e => .refused e name
  pure (program, words, dir)

def exitCode : Ending → Int
  | .exited n => n
  | .killed n => -n

def system : Launch.System := fun t cwd q => do
  let (program, words, dir) ← target q t cwd
  pure fun _ =>
    let w := runWorld outputs maxSteps (launchState q t dir)
      (runProgram maxSteps program (words.map Text.encoded))
    { exitCode := w.ending?.elim 0 exitCode, stdout := w.gatheredIn 1, stderr := w.gatheredIn 2 }

end Script
end MachTree
