import MachTree.CommandLine.Reader
import MachTree.Json.Printer
import MachTree.Root
import MachTree.Tool.Console
import MachTree.Tool.LogFile

/-! The tool: each command on the build around a place, and everything that a user sees of it. -/
namespace MachTree
namespace Tool

open CommandLine (Options Operand Command Request)

/-- Why a command gives no answer. -/
inductive Error
  | noRoot (e : Root.NotFound)
  | settings (e : Settings.Error)
  | unsupportedTree (root : Path) (stage : Stage)
  | flags (e : Shell.SplitError)
  | noConfiguration (source : Path)
  /-- an override cannot be cut into words after all -/
  | override (e : Settings.Error)
deriving DecidableEq

def stageMessage : Stage → String
  | .noMach => "No mach found in the source tree."
  | .environmentFailed => "Unable to get a usable environment from mach."
  | .compilersFailed => "Unable to use the build's compilers."
  | stage => stage.tag

def Error.lines (verbose : Bool) : Error → List String
  | .noRoot e => Console.notFoundLines e.message
  | .settings e => Console.errorLines "Invalid settings" e.message
  | .unsupportedTree root stage =>
    Console.errorLines ("Unsupported source tree: " ++ root.toString) (stageMessage stage)
  | .flags e => Console.errorLines "Invalid compiler flags" e.message
  | .noConfiguration source =>
    Console.warningLines ("No configuration available for " ++ source.toString)
  | .override e => Console.unexpectedLines "SettingsError" e.message verbose

def named? : Option Operand → Option Path
  | some (.path p) => some p
  | _ => none

/-- The root that the options give, if they do; an operand that names nothing is no root. -/
def givenRoot (o : Options) : Activity Error (Option Path) :=
  match o.root with
  | none => pure none
  | some (.path p) => pure (some p)
  | some .nothing => Activity.raise .noRootNamed

def loadBuild (o : Options) (start : Path) : Activity Error Build := do
  let root ← (Root.find start (← givenRoot o)).mapError .noRoot
  let settings ← (Settings.load root (named? o.settings)).mapError .settings
  match ← Build.probe root (some settings) true with
  | (_, some b) => pure b
  | (stage, none) => Activity.fail (.unsupportedTree root stage)

def configJson (config : CompileConfig) : Json :=
  .object ([Json.entry "includePath" (.strings config.searchPath.toStrings),
    Json.entry "macFrameworkPath" (.strings config.frameworks.toStrings),
    Json.entry "forcedInclude" (.strings config.forcedIncludes.toStrings),
    Json.entry "defines" (.strings (config.defineList.map Define.text)),
    Json.entry "standard" (.string config.standard),
    Json.entry "intelliSenseMode" (.string config.mode)] ++
    (config.compiler?.map fun c => Json.entry "compilerPath" (.string c)).toList ++
    (config.sdkPath.map fun p => Json.entry "sdkPath" (.string p.toString)).toList)

def showConfig (o : Options) (source : Path) : Activity Error Unit := do
  let b ← loadBuild o source
  match ← (b.resolve source).mapError .flags with
  | none => Activity.fail (.noConfiguration source)
  | some config => Activity.printLine (configJson config).pretty

def compile (o : Options) (source : Path) : Activity Error Unit := do
  let b ← loadBuild o source
  b.testCompile source

/-- Where the tree of a command without source is looked for. -/
def startOf (o : Options) : Activity Error Path :=
  match named? o.root with
  | some root => pure root
  | none => Activity.currentDirectory

def showIncludes (o : Options) : Activity Error Unit := do
  let b ← loadBuild o (← startOf o)
  (b.includePaths (← Activity.host).platform).toStrings.forM Activity.printLine

def showState (o : Options) : Activity Error Unit := do
  let b ← loadBuild o (← startOf o)
  let state ← Activity.ofExcept .override (b.state (← Activity.host).platform)
  Activity.printLine state.pretty

def perform (o : Options) : Command → Activity Error Unit
  | .config source => showConfig o source
  | .compile source => compile o source
  | .includes => showIncludes o
  | .state => showState o

/-- The end of a run of the tool. -/
structure Finish where
  exitCode : Nat
  journal : Journal
  /-- the files after the run, which differ from those before by the log file -/
  files : Files
  /-- the least level of the log that the console shows -/
  consoleLevel : Level

def complain (lines : List String) : Journal := lines.map fun line => .complained (line ++ "\n")

/-- The exit code of an ended command, and what is shown of the way it ended. -/
def verdict (verbose : Bool) : Except (Halt Error) Unit → Nat × List String
  | .ok () => (0, [])
  | .error (.failed e) => (1, e.lines verbose)
  | .error (.fault f) => (1, Console.faultLines f verbose)
  | .error (.interrupted _) => (130, Console.interruptLines)

def carryOut (host : Host) (o : Options) (c : Command) : Nat × Journal :=
  let (result, j) := (perform o c).perform host []
  let (code, lines) := verdict o.verbose result
  (code, j ++ complain lines)

def runCommand (time : String) (host : Host) (o : Options) (c : Command) :
    Except LogFile.Error Finish :=
  let consoleLevel := if o.verbose then .debug else .warning
  match o.logFile with
  | none =>
    let (exitCode, journal) := carryOut host o c
    .ok { exitCode, journal, files := host.files, consoleLevel }
  | some .nothing => .error .notNamed
  | some (.path p) =>
    match LogFile.create host.files host.cwd p with
    | .error e => .error e
    | .ok (files, place) =>
      let host := { host with files, log := some { place, time } }
      let (exitCode, journal) := carryOut host o c
      .ok { exitCode, journal, consoleLevel, files := host.filesAfter journal }

/-- Runs the tool on a command line.  The pages are ASCII, which every standard output takes. -/
def run (time : String) (host : Host) (args : List String) : Except LogFile.Error Finish :=
  let silent (exitCode : Nat) (e : Event) : Finish :=
    { exitCode, journal := [e], files := host.files, consoleLevel := .warning }
  match CommandLine.read args with
  | .error refusal => .ok (silent 2 (.complained refusal.text))
  | .ok (.help page) => .ok (silent 0 (.printed page.help))
  | .ok .version => .ok (silent 0 (.printed CommandLine.versionLine))
  | .ok (.run o c) => runCommand time host o c

end Tool
end MachTree
