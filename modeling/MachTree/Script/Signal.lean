import MachTree.Script.Arithmetic

/-! Signals by their numbers and names. -/
namespace MachTree
namespace Script
namespace Signal

def names : List String :=
  ["EXIT", "HUP", "INT", "QUIT", "ILL", "TRAP", "ABRT", "BUS", "FPE", "KILL", "USR1", "SEGV",
    "USR2", "PIPE", "ALRM", "TERM", "16", "CHLD", "CONT", "STOP", "TSTP", "TTIN", "TTOU", "URG",
    "XCPU", "XFSZ", "VTALRM", "PROF", "WINCH", "IO", "PWR", "SYS", "32", "33", "RTMIN"] ++
    ((List.range 15).map fun k => "RTMIN+" ++ toString (k + 1)) ++
    ((List.range 14).map fun k => "RTMAX-" ++ toString (14 - k)) ++ ["RTMAX"]

def nameOf (n : Nat) : List Char := (names[n]?.getD "").toList

def ofNumber? (cs : List Char) : Option Nat :=
  if cs = [] || !cs.all Char.isDigit then none
  else
    let n := Arithmetic.valueOf 10 cs
    if n < names.length then some n else none

/-- The signal with a number or a name; the end of a script has its name only where it can be
meant. -/
def of? (meansEnd : Bool) (cs : List Char) : Option Nat :=
  match ofNumber? cs with
  | some n => some n
  | none =>
    (names.findIdx? fun name => name.toList.map Char.toUpper = cs.map Char.toUpper).filter
      fun n => meansEnd || n ≠ 0

def meaning (n : Nat) : String :=
  if 34 ≤ n then "Real-time signal " ++ toString (n - 34)
  else
    (["", "Hangup", "Interrupt", "Quit", "Illegal instruction", "Trace/breakpoint trap", "Aborted",
      "Bus error", "Floating point exception", "Killed", "User defined signal 1",
      "Segmentation fault", "User defined signal 2", "Broken pipe", "Alarm clock", "Terminated",
      "Stack fault", "Child exited", "Continued", "Stopped (signal)", "Stopped",
      "Stopped (tty input)", "Stopped (tty output)", "Urgent I/O condition",
      "CPU time limit exceeded", "File size limit exceeded", "Virtual timer expired",
      "Profiling timer expired", "Window changed", "I/O possible", "Power failure",
      "Bad system call"][n]?).getD ("Unknown signal " ++ toString n)

def kill : Nat := 9

def stop : Nat := 19

def resume : Nat := 18

def brokenPipe : Nat := 13

def isHarmless (n : Nat) : Bool := [0, 17, 18, 23, 28].contains n

def stops (n : Nat) : Bool := [20, 21, 22].contains n

def isSilent (n : Nat) : Bool := [2, 13].contains n

end Signal
end Script
end MachTree
