import MachTree.Files.Refusal
import MachTree.Text.Bytes
import MachTree.Text.Split

/-! Programs on a file tree.  A few small ones are there by themselves; every other is an executable
file whose first line names its interpreter. -/
namespace MachTree

inductive Program
  | shell
  | cat
  | echo
  | format
  | printDirectory
  | check
  | succeed
  | fail
  | sleep
  /-- runs another program with other variables -/
  | withVariables
deriving DecidableEq, Repr

namespace Program

open Files (Refusal)

def directory : Path := Path.ofString "/usr/bin"

def names : List (String × Program) :=
  [("sh", .shell), ("cat", .cat), ("echo", .echo), ("printf", .format), ("pwd", .printDirectory),
    ("test", .check), ("[", .check), ("true", .succeed), ("false", .fail), ("sleep", .sleep),
    ("env", .withVariables)]

def at? (loc : Location) : Option Program :=
  if loc.dropLast = directory.parts then
    loc.getLast?.bind fun name => (names.find? fun e => e.1 = name.val).map Prod.snd
  else none

def defaultSearch : String := "/usr/local/sbin:/usr/local/bin:/usr/sbin:/usr/bin:/sbin:/bin"

def maxInterpreters : Nat := 5

def isSpace (c : Char) : Bool := c == ' ' || c == '\t'

def maxInterpreterLine : Nat := 256

/-- The line that names an interpreter, in the text after its mark.  A line that is too long counts
up to the last but one of the bytes that are looked at, and only if the name of the interpreter
ends in them. -/
def interpreterText? (text : List Char) : Option (List Char) :=
  let line := text.takeWhile fun c => c ≠ '\n' ∧ c ≠ '\x00'
  if (text.drop line.length).head? = some '\n' then some line
  else if (text.dropWhile isSpace).any fun c => isSpace c || c == '\x00' then some text.dropLast
  else none

/-- The interpreter that the first line of a file names, with its argument if it has one.  No name
at all means the directory itself. -/
def interpreterLine (bytes : List UInt8) : List String :=
  match Text.charsOf (bytes.take maxInterpreterLine) with
  | '#' :: '!' :: rest =>
    let seen := rest ++ List.replicate (maxInterpreterLine - 2 - rest.length) '\x00'
    let trimmed := (((interpreterText? seen).getD []).reverse.dropWhile isSpace).reverse
    match trimmed.dropWhile isSpace with
    | [] => []
    | line =>
      let program := line.takeWhile fun c => !isSpace c && c ≠ '\x00'
      let argument := match line.drop program.length with
        | '\x00' :: _ => []
        | more => (more.dropWhile isSpace).takeWhile (· ≠ '\x00')
      ((if program = [] then ['.'] else program) :: [argument].filter (· ≠ [])).map Text.decoded
  | _ => []

def interpret (t : Files) (dir : Path) :
    (depth : Nat) → (file : String) → (words : List String) →
      Except Refusal (Program × List String)
  | depth, file, words =>
    match t.locateText dir file.toList with
    | .error b => .error (.ofBlocked b)
    | .ok loc =>
      match t.node? loc with
      | none => .error .missing
      | some (.file bytes executable) =>
        if !executable then .error .denied
        else
          match at? loc, interpreterLine bytes, depth with
          | some p, _, _ => .ok (p, words)
          | none, [], _ => .error .badFormat
          | none, _ :: _, 0 => .error .tooManyLinks
          | none, next :: argument, depth + 1 =>
            interpret t dir depth next (next :: argument ++ file :: words.drop 1)
      | some _ => .error .denied

def slash (_ : List Char) : String := "/"

/-- What stands between them if the directory may end in a slash already. -/
def slashOnce (dir : List Char) : String := if dir.getLast? = some '/' then "" else "/"

/-- The paths under which a program may be found: without a slash in its name, one in each
directory. -/
def candidates (between : List Char → String) (search file : String) : List String :=
  if file.toList.contains '/' then [file]
  else
    (Text.splitOn ':' search.toList).map fun dir =>
      if dir = [] then file else String.ofList dir ++ between dir ++ file

/-- The first success, or else the first refusal that is more than the lack of a file. -/
def firstOf {α : Type} (refusal : Refusal) : List (Except Refusal α) → Except Refusal α
  | [] => .error refusal
  | .ok a :: _ => .ok a
  | .error e :: rest =>
    firstOf (if refusal = .missing ∨ refusal = .notDirectory then e else refusal) rest

/-- The program that a command runs, looked for under some paths. -/
def find (t : Files) (dir : Path) (paths words : List String) :
    Except Refusal (Program × List String) :=
  firstOf .missing (paths.map fun file => interpret t dir maxInterpreters file words)

end Program
end MachTree
