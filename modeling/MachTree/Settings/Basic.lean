import MachTree.CompileConfig
import MachTree.Ini.Basic
import MachTree.Path.Within
import MachTree.Shell.Words
import MachTree.Text.Blank

/-! A user's overrides for one source tree: the command that runs mach, the compiler of each
language, and variables for mach's environment.  A section for a directory holds below it and goes
before the base section; of several such sections the one for the deepest directory goes first. -/
namespace MachTree

structure Settings where
  root : Path
  ini : Ini := {}
deriving DecidableEq

namespace Settings

def fileName : String := ".mozcpp.ini"
def baseSection : String := "mozcpp"
def directoryMarker : String := "mozcpp:"
def environmentSection : String := "mach-environment"

/-- The commands that can be overridden. -/
inductive Key
  | mach
  | compiler (language : Language)
deriving DecidableEq

def Key.option : Key → String
  | .mach => "mach"
  | .compiler language => "compiler." ++ language.tag

def keys : List Key := [.mach, .compiler .c, .compiler .cpp]

inductive Error
  | unreadable (path : Path) (reason : Ini.Error)
  | command (option sect : String) (reason : Shell.SplitError)
deriving DecidableEq

def Error.message : Error → String
  | .unreadable path reason => "Failed to parse " ++ path.toString ++ ": " ++ reason.message
  | .command option sect reason =>
    "Invalid " ++ option ++ " in [" ++ sect ++ "]: " ++ reason.message

/-- The command that a section gives for an option; a blank value gives none. -/
def sectionCommand (ini : Ini) (sect option : String) :
    Except Error (Option (List String)) :=
  let value := trimmed ((ini.get? sect option).getD "")
  if value = "" then .ok none
  else
    match Shell.words value with
    | .ok ws => .ok (some ws)
    | .error reason => .error (.command option sect reason)

def directoryText? (sect : String) : Option String :=
  if directoryMarker.toList.isPrefixOf sect.toList then
    some (String.ofList (sect.toList.drop directoryMarker.length))
  else none

def directory? (s : Settings) (sect : String) : Option Path :=
  (directoryText? sect).map fun text => s.root.child (trimmed text)

/-- The weight of a section that holds for a path: the length of its normalized directory. -/
def scope? (s : Settings) (path : Path) (sect : String) : Option (Nat × String) :=
  (s.directory? sect).bind fun dir =>
    if path.isWithin dir then some (dir.normal.text.length, sect) else none

/-- Whether one scope goes before another: deeper first, then the greater name. -/
def goesBefore (a b : Nat × String) : Bool :=
  decide (a.1 > b.1) || (a.1 == b.1 && !decide (a.2 < b.2))

/-- The sections that hold for a path, in the order in which they are asked. -/
def sectionsFor (s : Settings) (path : Option Path) : List String :=
  let inScope := match path with
    | none => []
    | some p => (s.ini.sectionNames.filterMap (s.scope? p)).mergeSort goesBefore
  inScope.map Prod.snd ++ if s.ini.hasSection baseSection then [baseSection] else []

def firstCommand (ini : Ini) (option : String) :
    List String → Except Error (Option (List String))
  | [] => .ok none
  | sect :: rest =>
    match sectionCommand ini sect option with
    | .error e => .error e
    | .ok (some (word :: more)) => .ok (some (word :: more))
    | .ok _ => firstCommand ini option rest

def command? (s : Settings) (option : String) (path : Option Path) :
    Except Error (Option (List String)) :=
  firstCommand s.ini option (s.sectionsFor path)

def mach? (s : Settings) (path : Option Path) : Except Error (Option (List String)) :=
  s.command? Key.mach.option path

/-- The override of the compiler of a language, which may be one that no build has. -/
def compilerNamed? (s : Settings) (path : Option Path) (language : String) :
    Except Error (Option (List String)) :=
  s.command? ("compiler." ++ language) path

def compiler? (s : Settings) (path : Path) (language : Language) :
    Except Error (Option (List String)) :=
  s.command? (Key.compiler language).option (some path)

def machEnvironment (s : Settings) : Ini.Options := s.ini.options environmentSection

def givesCommands (sect : String) : Bool :=
  sect == baseSection || (directoryText? sect).isSome

/-- Checks that every command can be cut into words. -/
def validate (s : Settings) : Except Error Unit :=
  (s.ini.sectionNames.filter givesCommands).forM fun sect =>
    keys.forM fun key => (sectionCommand s.ini sect key.option).map fun _ => ()

end Settings
end MachTree
