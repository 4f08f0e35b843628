import MachTree.Compiler.Family
import MachTree.Flags
import MachTree.Json.Basic
import MachTree.Process.Basic
import MachTree.Settings.Basic

/-! A compiler of a build for one language: its command, its defaults, and what it makes of a
directory's arguments. -/
namespace MachTree

structure Compiler where
  srcdir : Path
  /-- the command without overrides -/
  command : List String
  language : Language
  family : Compiler.Family
  /-- the configuration that the compiler has without arguments -/
  baseline : CompileConfig
  settings : Option Settings := none
deriving DecidableEq

namespace Compiler

def overrideFor (settings : Option Settings) (path : Path) (language : Language) :
    Except Settings.Error (Option (List String)) :=
  match settings with
  | none => .ok none
  | some s => s.compiler? path language

/-- The command for a path, by default the source tree. -/
def commandFor (c : Compiler) (path : Option Path) : Except Settings.Error (List String) :=
  (overrideFor c.settings (path.getD c.srcdir) c.language).map fun override =>
    override.getD c.command

/-- The include directories of the baseline: the system's, frameworks, the user's. -/
def includePaths (c : Compiler) : PathSet :=
  c.baseline.sysIncludes ∪ c.baseline.frameworks ∪ c.baseline.includes

def dialect (c : Compiler) (platform : Platform) (baseDir : Option Path) : Flags.Dialect :=
  { platform, forcedFlag := c.family.forcedFlag, baseDir }

def resolve (c : Compiler) (platform : Platform) (args : List String) (baseDir : Option Path) :
    CompileConfig :=
  Flags.apply (c.dialect platform baseDir) args c.baseline

def sdkArguments (sdk : Option Path) : List String :=
  sdk.elim [] fun p => ["-isysroot", p.toString]

def fixedArguments : List String :=
  ["-nobuiltininc", "-undef", "-c", "-Wno-everything", "-o", nullInput]

def configArguments (config : CompileConfig) : List String :=
  config.sysIncludes.paths.map (fun p => "-isystem" ++ p.toString) ++
  config.frameworks.paths.map (fun p => "-iframework" ++ p.toString) ++
  config.defineList.map Define.flag ++
  config.includes.paths.map (fun p => "-I" ++ p.toString) ++
  config.forcedIncludes.paths.flatMap (fun p => [Family.clang.forcedFlag, p.toString])

def compileCommand (c : Compiler) (config : CompileConfig) (source : Path) :
    Except Settings.Error (List String) :=
  (c.commandFor (some source)).map fun command =>
    command ++ sdkArguments (config.sdkPath.or c.baseline.sdkPath) ++ fixedArguments ++
      configArguments config ++ [source.toString]

def state (c : Compiler) : Except Settings.Error Json :=
  (overrideFor c.settings c.srcdir c.language).map fun override =>
    .object [("family", .string c.family.tag), ("type", .string c.language.tag),
      ("command", .strings c.command), ("override", Json.ofOption .strings override),
      ("includes", .strings c.baseline.includes.toStrings),
      ("sysIncludes", .strings c.baseline.sysIncludes.toStrings),
      ("osxFrameworkIncludes", .strings c.baseline.frameworks.toStrings),
      ("defines", .integer c.baseline.defines.size)]

end Compiler
end MachTree
