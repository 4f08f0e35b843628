import MachTree.Table
import MachTree.Text.Blank
import MachTree.Text.Lines
import MachTree.Text.Split

/-! Makefile fragments.  A line `KEY = VALUE` sets a variable, a line `KEY += VALUE` adds to it
after one space, and every other line means nothing here. -/
namespace MachTree
namespace Fragment

/-- What an assignment does to the value that is there. -/
inductive Mode
  | set
  | append
deriving DecidableEq, Repr

structure Assignment where
  key : String
  value : String
  mode : Mode
deriving DecidableEq, Repr

def setToken : List Char := [' ', '=', ' ']
def appendToken : List Char := [' ', '+', '=', ' ']

def assign (mode : Mode) (sides : List Char × List Char) : Assignment :=
  ⟨String.ofList (Text.trim sides.1), String.ofList (Text.trim sides.2), mode⟩

/-- The two sides of a token that does not start the line. -/
def sides? (token line : List Char) : Option (List Char × List Char) :=
  (Text.splitAt? token line).filter fun r => r.1 ≠ []

/-- The assignment on a line: appending if its token stands before that of setting. -/
def assignment? (line : List Char) : Option Assignment :=
  match sides? appendToken line, Text.splitAt? setToken line with
  | some added, none => some (assign .append added)
  | some added, some given =>
    if added.1.length < given.1.length then some (assign .append added)
    else if given.1 ≠ [] then some (assign .set given)
    else none
  | none, some given => if given.1 ≠ [] then some (assign .set given) else none
  | none, none => none

abbrev Variables := Table String String

/-- The value after an assignment; adding to nothing sets. -/
def Assignment.result (a : Assignment) (previous : Option String) : String :=
  match a.mode, previous with
  | .append, some p => if p = "" then a.value else p ++ " " ++ a.value
  | _, _ => a.value

def Assignment.apply (a : Assignment) (vars : Variables) : Variables :=
  vars.insert a.key (a.result (vars.get? a.key))

def applyLine (vars : Variables) (line : List Char) : Variables :=
  match assignment? line with
  | some a => a.apply vars
  | none => vars

def parse (text : List Char) (vars : Variables) : Variables :=
  (Text.lines text).foldl applyLine vars

end Fragment
end MachTree
