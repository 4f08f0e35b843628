import MachTree.Activity
import MachTree.Compiler.Basic
import MachTree.CompilerReport
import MachTree.Fragment

/-! Compilers found by asking them for their defaults, and test compiles with them. -/
namespace MachTree
namespace Compiler

inductive DiscoveryError
  | settings (e : Settings.Error)
  | compiler (e : Error)
deriving DecidableEq

def DiscoveryError.message : DiscoveryError → String
  | .settings e => e.message
  | .compiler e => e.message

/-- The SDK that a build names, which counts on one platform only. -/
def sdk? (platform : Platform) (vars : Fragment.Variables) : Option Path :=
  if platform = .macOS then
    ((vars.get? "MACOS_SDK_DIR").filter fun s => s ≠ "").map Path.ofString
  else none

def initialConfig (language : Language) (family : Family) (override : Option (List String))
    (sdk : Option Path) : CompileConfig :=
  { standard := language.standard
    mode := family.mode
    compilerPath := override.bind List.head?
    sdkPath := sdk }

/-- A compiler without a single predefined macro is not taken for one, unless the user named it. -/
def usable (config : CompileConfig) : Bool :=
  !config.defines.isEmpty || config.compiler?.isSome

def discover (srcdir : Path) (command : List String) (language : Language) (family : Family)
    (vars : Fragment.Variables) (settings : Option Settings) :
    Activity DiscoveryError Compiler := do
  if family = .msvc then Activity.fail (.compiler .noReport)
  else
    let override ← Activity.ofExcept .settings (overrideFor settings srcdir language)
    let sdk := sdk? (← Activity.host).platform vars
    let probe := override.getD command ++ probeArguments family language sdk
    let outcome ← (Activity.run { command := probe, cwd := some srcdir }).handle fun e => do
      Activity.error ("Failed to get compiler defaults: " ++ e.message)
      Activity.fail (.compiler (.notRun (probe.headD "") e.reason))
    if !outcome.success then
      Activity.warn (" ".intercalate probe ++ " exited with code " ++ toString outcome.exitCode)
    let baseline :=
      CompilerReport.read outcome.output (initialConfig language family override sdk)
    if !usable baseline then
      Activity.error ("Failed to get compiler defaults:\n" ++ outcome.describe)
      Activity.fail (.compiler .noDefaults)
    else
      Activity.info ("Discovered " ++ language.tag ++ " compiler defaults: " ++
        toString baseline.defines.size ++ " defines, " ++ toString baseline.sysIncludes.size ++
        " system include directories")
      pure { srcdir, command, language, family, baseline, settings }

def create (srcdir : Path) (command : List String) (language : Language)
    (vars : Fragment.Variables) (settings : Option Settings) :
    Activity DiscoveryError Compiler := do
  let family ← Activity.ofExcept .compiler (Family.ofBuild (vars.get? "CC_TYPE"))
  discover srcdir command language family vars settings

/-- Why a file cannot be compiled. -/
inductive CompileError
  | settings (e : Settings.Error)
  | compiler (e : Error)
  | launch (e : LaunchError)
deriving DecidableEq

def CompileError.message : CompileError → String
  | .settings e => e.message
  | .compiler e => e.message
  | .launch e => e.message

/-- Compiles a file in its directory with a configuration and with nothing else. -/
def compile (c : Compiler) (config : CompileConfig) (source : Path) :
    Activity CompileError Outcome := do
  if c.family = .clang then
    let command ← Activity.ofExcept .settings (c.compileCommand config source)
    Activity.debug ("Test compiling " ++ source.toString)
    (Activity.run { command, cwd := some source.parent }).mapError .launch
  else Activity.fail (.compiler .noTestCompile)

end Compiler
end MachTree
