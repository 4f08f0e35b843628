import MachTree.Path.Basic
import MachTree.Text.Quoted

/-! The command line: what can be asked of the tool, and the pages that explain it. -/
namespace MachTree
namespace CommandLine

inductive Flag
  | help
  | version
  | root
  | settings
  | verbose
  | logFile
deriving DecidableEq, Repr

namespace Flag

def takesOperand : Flag → Bool
  | .root | .settings | .logFile => true
  | _ => false

def label : Flag → String
  | .help => "-h/--help"
  | .version => "--version"
  | .root => "--root"
  | .settings => "--settings"
  | .verbose => "-v/--verbose"
  | .logFile => "--log-file"

end Flag

abbrev Spellings := List (String × Flag)

def toolSpellings : Spellings :=
  [("-h", .help), ("--help", .help), ("--version", .version), ("--root", .root),
    ("--settings", .settings), ("-v", .verbose), ("--verbose", .verbose), ("--log-file", .logFile)]

def commandSpellings : Spellings := [("-h", .help), ("--help", .help)]

inductive CommandName
  | config
  | compile
  | includes
  | state
deriving DecidableEq, Repr

namespace CommandName

def all : List CommandName := [config, compile, includes, state]

def text : CommandName → String
  | .config => "config"
  | .compile => "compile"
  | .includes => "includes"
  | .state => "state"

def ofText? (s : String) : Option CommandName := all.find? fun c => c.text = s

theorem ofText?_text (c : CommandName) : ofText? c.text = some c := by cases c <;> rfl

def takesSource : CommandName → Bool
  | .config | .compile => true
  | _ => false

end CommandName

/-- The operand of a flag.  Two dashes alone name nothing. -/
inductive Operand
  | path (p : Path)
  | nothing
deriving DecidableEq

structure Options where
  root : Option Operand := none
  settings : Option Operand := none
  verbose : Bool := false
  logFile : Option Operand := none
deriving DecidableEq

inductive Command
  | config (source : Path)
  | compile (source : Path)
  | includes
  | state
deriving DecidableEq

/-- The pages of the manual: one for the tool and one for each command. -/
inductive Page
  | tool
  | command (name : CommandName)
deriving DecidableEq, Repr

/-- What a command line asks for. -/
inductive Request
  | help (page : Page)
  | version
  | run (options : Options) (command : Command)
deriving DecidableEq

/-- What is wrong with a command line. -/
inductive Misuse
  | ambiguous (arg : String) (candidates : List String)
  | unusedValue (flag : Flag) (value : String)
  | missingOperand (flag : Flag)
  | unknownCommand (name : String)
  | missingSource
  | unrecognized (args : List String)
deriving DecidableEq, Repr

def Misuse.message : Misuse → String
  | .ambiguous arg candidates =>
    "ambiguous option: " ++ arg ++ " could match " ++ ", ".intercalate candidates
  | .unusedValue flag value =>
    "argument " ++ flag.label ++ ": ignored explicit argument " ++ quoted value
  | .missingOperand flag => "argument " ++ flag.label ++ ": expected one argument"
  | .unknownCommand name =>
    "argument command: invalid choice: " ++ quoted name ++ " (choose from " ++
      ", ".intercalate (CommandName.all.map fun c => quoted c.text) ++ ")"
  | .missingSource => "the following arguments are required: source"
  | .unrecognized args => "unrecognized arguments: " ++ " ".intercalate args

/-- A misused command line, with the page that explains the right use. -/
structure Refusal where
  page : Page
  misuse : Misuse
deriving DecidableEq, Repr

namespace Page

def program : Page → String
  | .tool => "mozcpp"
  | .command name => "mozcpp " ++ name.text

/-- How the page's command is used, on lines of at most eighty columns. -/
def usage : Page → String
  | .tool =>
    "usage: mozcpp [-h] [--version] [--root ROOT] [--settings SETTINGS] [-v]\n" ++
    "              [--log-file LOG_FILE]\n" ++
    "              \x7bconfig,compile,includes,state\x7d ...\n"
  | .command name =>
    "usage: mozcpp " ++ name.text ++ " [-h]" ++ (if name.takesSource then " source" else "") ++ "\n"

def sourceHelp : CommandName → String
  | .config => "Source or header file"
  | _ => "Source file"

def body : Page → String
  | .tool =>
    "\nmozcpp - compiler configuration for mach source trees\n\n" ++
    "positional arguments:\n" ++
    "  \x7bconfig,compile,includes,state\x7d\n" ++
    "                        Command to run\n" ++
    "    config              Print the compiler configuration for a file as JSON\n" ++
    "    compile             Compile a file with its resolved configuration\n" ++
    "    includes            Print all include directories of the build\n" ++
    "    state               Print the build's diagnostic state as JSON\n\n" ++
    "options:\n" ++
    "  -h, --help            show this help message and exit\n" ++
    "  --version             show program's version number and exit\n" ++
    "  --root ROOT           Top of the source tree (default: nearest directory\n" ++
    "                        containing mach)\n" ++
    "  --settings SETTINGS   Settings file (default: <root>/.mozcpp.ini)\n" ++
    "  -v, --verbose         Show debug logging\n" ++
    "  --log-file LOG_FILE   Also write debug logging to this file\n"
  | .command name =>
    (if name.takesSource then "\npositional arguments:\n  source      " ++ sourceHelp name ++ "\n"
      else "") ++
    "\noptions:\n  -h, --help  show this help message and exit\n"

def help (p : Page) : String := p.usage ++ p.body

end Page

def versionLine : String := "mozcpp 0.1.0\n"

def Refusal.text (r : Refusal) : String :=
  r.page.usage ++ r.page.program ++ ": error: " ++ r.misuse.message ++ "\n"

end CommandLine
end MachTree
