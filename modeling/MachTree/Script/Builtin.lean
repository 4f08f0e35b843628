import MachTree.Script.Builtin.Directories
import MachTree.Script.Builtin.Names
import MachTree.Script.Builtin.Signals
import MachTree.Script.Builtin.Variables
import MachTree.Script.Condition
import MachTree.Script.Waiting

/-! The commands that are built in and run no others. -/
namespace MachTree
namespace Script

/-- What a command that is built in, runs no other and never waits does. -/
def runAtOnce (name : String) (args : Args) (st : State) : State :=
  match name with
  | ":" | "true" => st.succeed
  | "false" => st.withStatus 1
  | "echo" => st.tell (echo args)
  | "printf" => runPrintf st args
  | "cd" | "chdir" => runCd st args
  | "pwd" => runPwd st args
  | "test" | "[" =>
    match Condition.check st (name = "[") args with
    | .ok b => st.withStatus (if b then 0 else 1)
    | .error e => st.failWith 2 e.message
  | "export" => runMark "export " Variable.isExported State.setExported st args
  | "readonly" => runMark "readonly " Variable.isReadOnly State.setReadOnly st args
  | "local" => runLocal st args
  | "unset" => runUnset st args
  | "set" => runSet st args
  | "shift" => runShift st args
  | "getopts" => runGetopts st args
  | "trap" => runTrap st args
  | "kill" => runKill st args
  | "type" => runType st args
  | "times" => st.tell "0m0.000000s 0m0.000000s\n0m0.000000s 0m0.000000s\n".toList
  | "hash" => runHash st args
  | "alias" => runAlias st args
  | "unalias" => runUnalias st args
  | "jobs" => runJobs st args
  | "fg" | "bg" => runForeground st args
  | "umask" => runMask st args
  | "ulimit" => if args = [] then st.tell "unlimited\n".toList else st.succeed
  | _ => st.succeed

def runPlain (fuel : Nat) (name : String) (args : Args) : Act Unit := do
  match name with
  | "read" => runRead args
  | "wait" =>
    match takeFlags [] [] args with
    | .error what => modify fun st => st.failWith 2 what
    | .ok (_, []) => awaitAll fuel
    | .ok (_, words) =>
      modify fun st => st.withStatus 127
      awaitEach fuel words
  | name => modify (runAtOnce name args)

end Script
end MachTree
