import MachTree.Path.Basic
import MachTree.Table

/-! Runs of external commands: what is asked of a runner, and what comes of it.  A non-zero exit
code is a normal outcome; only a command that cannot be started is an error. -/
namespace MachTree

/-- A command to run, with its directory and the variables to add to the environment. -/
structure Call where
  command : List String
  cwd : Option Path := none
  env : Option (Table String String) := none
deriving DecidableEq

/-- The outcome of a run: its standard output, and that followed by its standard error. -/
structure Outcome where
  command : List String
  exitCode : Int
  stdout : List String
  output : List String
deriving DecidableEq, Repr

namespace Outcome

def success (o : Outcome) : Bool := o.exitCode == 0

def describe (o : Outcome) : String :=
  "\n".intercalate
    (["$ " ++ " ".intercalate o.command, "exit code: " ++ toString o.exitCode] ++ o.output)

end Outcome

structure LaunchError where
  command : List String
  reason : String
deriving DecidableEq, Repr

def LaunchError.message (e : LaunchError) : String :=
  "Failed to launch " ++ " ".intercalate e.command ++ ": " ++ e.reason

/-- An error from outside, as it is told: its kind and its text. -/
structure Trouble where
  kind : String
  text : String
deriving DecidableEq, Repr

/-- What a runner makes of a call. -/
inductive Reply
  | finished (exitCode : Int) (stdout output : List String)
  | refused (reason : String)
  | interrupted (text : String)
  /-- anything else that goes wrong in the runner, such as a null character in a command -/
  | raised (t : Trouble)
deriving DecidableEq, Repr

/-- A runner answers each call, knowing those before it. -/
abbrev Runner := (earlier : List Call) → Call → Reply

end MachTree
