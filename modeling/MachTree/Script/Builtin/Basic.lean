import MachTree.Script.Options
import MachTree.Script.Format
import MachTree.Script.Parser

/-! What the commands that are built in share: how they succeed, complain and take options. -/
namespace MachTree
namespace Script

def builtins : List String :=
  [".", ":", "[", "alias", "bg", "break", "cd", "chdir", "command", "continue", "echo", "eval",
    "exec", "exit", "export", "false", "fg", "getopts", "hash", "jobs", "kill", "local", "printf",
    "pwd", "read", "readonly", "return", "set", "shift", "test", "times", "trap", "true", "type",
    "ulimit", "umask", "unalias", "unset", "wait"]

namespace State

def refuse (st : State) (isSpecial : Bool) (what : List Char) : State :=
  if isSpecial then st.abort what else st.failWith 2 what

def succeed (st : State) : State := st.withStatus 0

def tell (st : State) (cs : List Char) : State := (st.print 1 cs).1.succeed

def noteLoss (st : State) : State :=
  if st.hasLost then
    { (st.complain (st.command ++ ": I/O error".toList)) with
      hasLost := false, status := st.status ||| 1 }
  else st

/-- Goes on with the options in front of words and with the other words. -/
def withFlags (st : State) (isSpecial : Bool) (spec : String) (args : Args)
    (go : List (Char × List Char) → Args → State) : State :=
  match takeFlags spec.toList [] args with
  | .ok (flags, rest) => go flags rest
  | .error what => st.refuse isSpecial what

end State

def variableName (word : List Char) : List Char := word.takeWhile (· ≠ '=')

/-- A text between quotes, as it can be read again. -/
def shownValue (cs : List Char) : List Char :=
  let parts := Text.splitOn '\x27' cs
  let quote (piece : List Char) : List Char := '\x27' :: piece ++ ['\x27']
  match parts with
  | [] => []
  | first :: rest =>
    quote first ++ rest.flatMap fun piece => "\x22\x27\x22".toList ++ quote piece

def runPrintf (st : State) (args : Args) : State :=
  let p := printf args
  let st := p.warnings.foldl State.complain st
  match p.error with
  | some what => ((st.print 1 p.text).1).refuse false what
  | none => if p.warnings = [] then st.tell p.text else (st.tell p.text).withStatus 1

end Script
end MachTree
