import MachTree.Table
import MachTree.Path.Basic
import MachTree.Text.Quoted

/-! Settings text in sections.  The section `DEFAULT` holds options that every other section has
unless it gives its own. -/
namespace MachTree

abbrev Ini.Options := Table String String

/-- Options by section, in the order of the text. -/
structure Ini where
  defaults : Ini.Options := ∅
  sections : Table String Ini.Options := ∅
deriving DecidableEq

namespace Ini

def defaultSection : String := "DEFAULT"

def sectionNames (ini : Ini) : List String := ini.sections.keys

def hasSection (ini : Ini) (sect : String) : Bool := ini.sections.contains sect

/-- An option of a section, its own or else the default. -/
def get? (ini : Ini) (sect option : String) : Option String :=
  (ini.sections.get? sect).bind fun own => (own.get? option).or (ini.defaults.get? option)

/-- All options of a section: the defaults with the section's own over them. -/
def options (ini : Ini) (sect : String) : Options :=
  match ini.sections.get? sect with
  | none => ∅
  | some own => ini.defaults.insertAll own.entries

/-- Where settings text comes from. -/
inductive Source
  | file (path : Path)
  | text
deriving DecidableEq

def Source.label : Source → String
  | .file path => "PosixPath(" ++ quoted path.toString ++ ")"
  | .text => quoted "<string>"

/-- A line number set right in two places. -/
def lineLabel (n : Nat) : String :=
  let digits := toString n
  if digits.length < 2 then " " ++ digits else digits

/-- Why settings text is refused. -/
inductive Error
  /-- the first option stands before any section -/
  | noSection (source : Source) (line : Nat) (text : String)
  | repeatedSection (source : Source) (line : Nat) (name : String)
  | repeatedOption (source : Source) (line : Nat) (sect option : String)
  /-- lines that are neither a section nor an option, of which there is at least one -/
  | unreadable (source : Source) (lines : List (Nat × String))
deriving DecidableEq

def Error.message : Error → String
  | .noSection source line text =>
    "File contains no section headers.\nfile: " ++ source.label ++ ", line: " ++ toString line ++
      "\n" ++ quoted text
  | .repeatedSection source line name =>
    "While reading from " ++ source.label ++ " [line " ++ lineLabel line ++ "]: section " ++
      quoted name ++ " already exists"
  | .repeatedOption source line sect option =>
    "While reading from " ++ source.label ++ " [line " ++ lineLabel line ++ "]: option " ++
      quoted option ++ " in section " ++ quoted sect ++ " already exists"
  | .unreadable source lines =>
    "Source contains parsing errors: " ++ source.label ++
      String.join (lines.map fun l => "\n\t[line " ++ lineLabel l.1 ++ "]: " ++ quoted l.2)

end Ini
end MachTree
