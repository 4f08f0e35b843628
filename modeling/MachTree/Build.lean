import MachTree.Compiler.Discovery
import MachTree.Fragment.File
import MachTree.Mach
import MachTree.Settings.File

/-! Builds of a source tree: setting one up from what mach and its compilers report, and the
configuration of each file from the flags that the build wrote for the file's directory. -/
namespace MachTree

/-- How far setting up a build has come. -/
inductive Stage
  | unattempted
  | noMach
  | environmentFailed
  | compilersFailed
  | ready
deriving DecidableEq, Repr

def Stage.tag : Stage → String
  | .unattempted => "unattempted"
  | .noMach => "no_mach"
  | .environmentFailed => "environment_failed"
  | .compilersFailed => "compilers_failed"
  | .ready => "ready"

structure Build where
  mach : Mach
  srcdir : Path
  environment : Environment
  cCompiler : Compiler
  cppCompiler : Compiler
  /-- whether test compiles print their output -/
  showProgress : Bool
deriving DecidableEq

namespace Build

def machFile : String := "mach"
def baseFragment : String := "config/autoconf.mk"
def directoryFragment : String := "backend.mk"

def flagsVariable : Language → String
  | .c => "COMPUTED_CFLAGS"
  | .cpp => "COMPUTED_CXXFLAGS"

/-- The places in the object directory that hold exported and generated headers. -/
def headerDirectories : List String :=
  ["dist/include", "dist/include/nss", "dist/include/nspr", "ipc/ipdl/_ipdlheaders"]

def cSuffixes : List String := [".c"]

def cppSuffixes : List String :=
  [".cpp", ".cc", ".cxx", ".c++", ".mm", ".h", ".hh", ".hpp", ".hxx"]

def languageOfSuffix? (suffix : String) : Option Language :=
  if suffix ∈ cSuffixes then some .c else if suffix ∈ cppSuffixes then some .cpp else none

/-- The language of a file; a header beside a C file of its name is C. -/
def language? {ε : Type} (source : Path) : Activity ε (Option Language) := do
  if source.suffix = ".h" then
    if ← Activity.isFile (source.withSuffix ".c") then return some .c
  return languageOfSuffix? source.suffix

def objectDir (b : Build) (platform : Platform) : Path :=
  platform.path b.environment.topobjdir.name

def compilerOf (b : Build) : Language → Compiler
  | .c => b.cCompiler
  | .cpp => b.cppCompiler

def filled? (vars : Fragment.Variables) (name : String) : Option String :=
  (vars.get? name).filter fun s => s ≠ ""

/-- Why a build cannot be set up. -/
inductive ProbeError
  | noMach (srcdir : Path)
  | settings (srcdir : Path) (e : Settings.Error)
  | mach (srcdir : Path) (e : Mach.Error)
  | otherTree (srcdir : Path) (topsrcdir : Symbols)
  | fragment (e : Fragment.Error)
  | noCompiler (language : Language)
  | compilers (e : Compiler.DiscoveryError)
deriving DecidableEq

namespace ProbeError

def stage : ProbeError → Stage
  | .noMach _ => .noMach
  | .settings _ _ | .mach _ _ | .otherTree _ _ => .environmentFailed
  | .fragment _ | .noCompiler _ | .compilers _ => .compilersFailed

def message : ProbeError → String
  | .noMach srcdir => "No mach found in " ++ srcdir.toString
  | .settings srcdir e => "Unable to use " ++ srcdir.toString ++ ": " ++ e.message
  | .mach srcdir e => "Unable to use " ++ srcdir.toString ++ ": " ++ e.message
  | .otherTree srcdir topsrcdir =>
    "Mach environment contained unexpected topsrcdir " ++ topsrcdir.shown ++ " (expected " ++
      srcdir.toString ++ ")."
  | .fragment e => "Unable to read build configuration: " ++ e.message
  | .noCompiler .c => "No C compiler found."
  | .noCompiler .cpp => "No C++ compiler found."
  | .compilers e => "Failed to find compilers: " ++ e.message

/-- A tree without mach is nothing to worry about; every other end is an error. -/
def level : ProbeError → Level
  | .noMach _ => .debug
  | _ => .error

end ProbeError

/-- The settings of a tree: those that are given, or those in its own file. -/
def settingsOf (srcdir : Path) (settings : Option Settings) : Activity ProbeError Settings :=
  match settings with
  | some s => pure s
  | none => (Settings.load srcdir none).mapError (.settings srcdir)

/-- The environment that mach reports for a tree, which has to be for this tree. -/
def environmentOf (mach : Mach) : Activity ProbeError Environment := do
  let environment ← mach.queryEnvironment.mapError (.mach mach.srcdir)
  let reported ← Activity.resolveText environment.topsrcdir
  let expected ← Activity.resolve mach.srcdir
  if reported.normal = expected.normal then pure environment
  else Activity.fail (.otherTree mach.srcdir environment.topsrcdir)

def compilerIn (srcdir : Path) (name : String) (language : Language) (vars : Fragment.Variables)
    (settings : Settings) : Activity ProbeError Compiler := do
  let program := (← Activity.host).platform.path name
  (Compiler.create srcdir [program.toString] language vars (some settings)).mapError .compilers

def attempt (root : Path) (settings : Option Settings) (showProgress : Bool) :
    Activity ProbeError Build := do
  let srcdir ← Activity.absolute root
  let program := srcdir.child machFile
  if !(← Activity.isFile program) then Activity.fail (.noMach srcdir)
  let settings ← settingsOf srcdir settings
  let mach : Mach := { srcdir, command := [program.toString], settings := some settings }
  let environment ← environmentOf mach
  let objdir := (← Activity.host).platform.path environment.topobjdir.name
  let vars ← (Fragment.load (objdir.child baseFragment) ∅).mapError .fragment
  match filled? vars "_CC", filled? vars "_CXX" with
  | none, _ => Activity.fail (.noCompiler .c)
  | some _, none => Activity.fail (.noCompiler .cpp)
  | some cc, some cxx =>
    let cCompiler ← compilerIn srcdir cc .c vars settings
    let cppCompiler ← compilerIn srcdir cxx .cpp vars settings
    pure { mach, srcdir, environment, cCompiler, cppCompiler, showProgress }

/-- Tries to set up the build of a tree and tells how far that came. -/
def probe {ε : Type} (root : Path) (settings : Option Settings) (showProgress : Bool) :
    Activity ε (Stage × Option Build) :=
  (do
    let b ← attempt root settings showProgress
    pure (Stage.ready, some b)).handle fun e => do
      Activity.log e.level e.message
      pure (e.stage, none)

def create {ε : Type} (root : Path) (settings : Option Settings) (showProgress : Bool) :
    Activity ε (Option Build) := do
  pure (← probe root settings showProgress).2

def includePaths (b : Build) (platform : Platform) : PathSet :=
  ((PathSet.ofList [b.srcdir]).insertAll
    (headerDirectories.map fun dir => (b.objectDir platform).child dir)) ∪
    b.cCompiler.includePaths ∪ b.cppCompiler.includePaths

def fragmentOf (b : Build) (platform : Platform) (source : Path) : Except Path.NotBelow Path :=
  (source.parent.rebase b.srcdir (b.objectDir platform)).map fun dir =>
    dir.child directoryFragment

/-- The fragment of a source, with a note if the source is outside the tree. -/
def locateFragment {ε : Type} (b : Build) (source : Path) : Activity ε (Option Path) := do
  match b.fragmentOf (← Activity.host).platform source with
  | .ok fragment => pure (some fragment)
  | .error _ =>
    Activity.debug (source.toString ++ " is outside of " ++ b.srcdir.toString)
    pure none

/-- How the build compiles the files of a language in a directory. -/
structure Recipe where
  language : Language
  args : List String
  /-- the directory that the arguments are relative to -/
  objdir : Path
deriving DecidableEq

/-- The variables of a fragment, with a note if it cannot be read. -/
def directoryVariables {ε : Type} (source fragment : Path) :
    Activity ε (Option Fragment.Variables) :=
  (do pure (some (← Fragment.load fragment ∅))).handle fun e => do
    Activity.debug ("No configuration for " ++ source.toString ++ ": " ++ e.message)
    pure none

def recipe? (b : Build) (source : Path) : Activity Shell.SplitError (Option Recipe) := do
  match ← language? source with
  | none =>
    Activity.debug ("No compiler handles " ++ source.toString)
    pure none
  | some language =>
    match ← b.locateFragment source with
    | none => pure none
    | some fragment =>
      match ← directoryVariables source fragment with
      | none => pure none
      | some vars =>
        match filled? vars (flagsVariable language) with
        | none => pure none
        | some flags =>
          -- flags that cannot be cut are no missing flags: this is not caught here
          let args ← Activity.ofExcept id (Shell.words flags)
          pure (some { language, args, objdir := fragment.parent })

def configure (b : Build) (platform : Platform) (r : Recipe) : CompileConfig :=
  (b.compilerOf r.language).resolve platform r.args (some r.objdir)

def resolve (b : Build) (source : Path) : Activity Shell.SplitError (Option CompileConfig) := do
  let source ← Activity.absolute source
  let platform := (← Activity.host).platform
  pure ((← b.recipe? source).map (b.configure platform))

/-- Why a test compile ends without an outcome. -/
inductive TestError
  | words (e : Shell.SplitError)
  | compile (e : Compiler.CompileError)
deriving DecidableEq

def TestError.message : TestError → String
  | .words e => e.message
  | .compile e => e.message

def compile (b : Build) (source : Path) : Activity TestError (Option Outcome) := do
  match ← (b.recipe? source).mapError .words with
  | none => pure none
  | some r =>
    let platform := (← Activity.host).platform
    let outcome ←
      ((b.compilerOf r.language).compile (b.configure platform r) source).mapError .compile
    pure (some outcome)

def verdict (source : Path) (outcome : Outcome) : String :=
  let subject := "Compiling " ++ source.toString
  if outcome.success then subject ++ " succeeded"
  else subject ++ " failed with exit code " ++ toString outcome.exitCode

def report (source : Path) (outcome : Outcome) : String :=
  verdict source outcome ++ ":\n" ++ "\n".intercalate outcome.output

def reportOutcome {ε : Type} (b : Build) (source : Path) (outcome : Outcome) :
    Activity ε Unit := do
  Activity.log (if outcome.success then .info else .warning) (verdict source outcome)
  Activity.debug outcome.describe
  if b.showProgress then Activity.printLine (report source outcome)

/-- Compiles a source with the configuration that it resolves to, and reports the outcome.  All
that goes wrong before the report is logged. -/
def testCompile {ε : Type} (b : Build) (source : Path) : Activity ε Unit := do
  -- only what is settled below is caught; this is not, and neither is the report
  let source ← Activity.absolute source
  match ← (b.compile source).settle with
  | .ok none => Activity.info ("No compiler flags found for " ++ source.toString)
  | .ok (some outcome) => b.reportOutcome source outcome
  | .error e =>
    let message := e.elim Fault.message TestError.message
    Activity.error ("Test compile of " ++ source.toString ++ " failed: " ++ message)

def state (b : Build) (platform : Platform) : Except Settings.Error Json := do
  let mach ← b.mach.state
  let c ← b.cCompiler.state
  let cpp ← b.cppCompiler.state
  pure (.object [("mach", mach), ("srcdir", .string b.srcdir.toString),
    ("objdir", .string (b.objectDir platform).toString), ("cCompiler", c), ("cppCompiler", cpp)])

end Build
end MachTree
