import MachTree.Activity

/-! What the tool writes: titles in colour, and a line for each entry of the log. -/
namespace MachTree
namespace Console

def red : String := "\x1b[1;31m"
def yellow : String := "\x1b[1;33m"
def plain : String := "\x1b[0m"

def title (colour text : String) : String := colour ++ "✗ " ++ text ++ plain

def errorLines (text message : String) : List String :=
  title red text :: if message = "" then [] else [message]

def warningLines (message : String) : List String := [title yellow message]

def notFoundLines (message : String) : List String :=
  errorLines "Error: File not found" message ++
    ["Run mozcpp inside a source tree containing mach, or pass --root."]

/-- The lines of an error of a kind that nothing else is said about. -/
def unexpectedLines (kind message : String) (verbose : Bool) : List String :=
  errorLines "Unexpected error" (kind ++ ": " ++ message) ++
    if verbose then ["Traceback:"] else []

def interruptLines : List String := warningLines "Interrupted"

def missingKind : String := "FileNotFoundError"

def faultKind : Fault → String
  | .nameTooLong _ => "OSError"
  | .linkLoop _ => "RuntimeError"
  | .linksTooDeep => "RecursionError"
  | .nullCharacter => "ValueError"
  | .unencodable _ => "UnicodeEncodeError"
  | .undecodable _ => "UnicodeDecodeError"
  | .integerTooLong _ => "ValueError"
  | .nestedTooDeep _ => "RecursionError"
  | .noRootNamed => "TypeError"
  | .noCurrentDirectory => missingKind
  | .outside t => t.kind

/-- The lines of a fault; a place that is not there has lines of its own. -/
def faultLines (f : Fault) (verbose : Bool) : List String :=
  if faultKind f = missingKind then notFoundLines f.message
  else unexpectedLines (faultKind f) f.message verbose

def shown (time : String) (least : Level) : Event → String
  | .logged level text => if least.rank ≤ level.rank then logLine time level text else ""
  | .complained text => text
  | _ => ""

def errorText (time : String) (least : Level) (j : Journal) : String :=
  String.join (j.map (shown time least))

end Console
end MachTree
