import MachTree.PathSet
import MachTree.Table
import MachTree.Text.Split

/-! The configuration that one source file is compiled with. -/
namespace MachTree

structure Define where
  key : String
  value : String
deriving DecidableEq, Repr

namespace Define

def text (d : Define) : String := d.key ++ "=" ++ d.value

def flag (d : Define) : String := "-D" ++ d.text

/-- A text cut at the first separator, which is a non-empty text; without it the value is one. -/
def parse (separator : List Char) (s : List Char) : Define :=
  match Text.splitAt? separator s with
  | some (key, value) => ⟨String.ofList key, String.ofList value⟩
  | none => ⟨String.ofList s, "1"⟩

/-- A definition read with any separator; an empty one cuts nothing. -/
def parse? (separator s : String) : Option Define :=
  if separator = "" then none else some (parse separator.toList s.toList)

end Define

inductive Language
  | c
  | cpp
deriving DecidableEq, Repr

namespace Language

def tag : Language → String
  | .c => "c"
  | .cpp => "cpp"

def standard : Language → String
  | .c => "c99"
  | .cpp => "c++14"

/-- The standard as given to a compiler: C is built as GNU C. -/
def version : Language → String
  | .c => "gnu99"
  | .cpp => "c++14"

end Language

structure CompileConfig where
  standard : String
  mode : String
  includes : PathSet := ∅
  sysIncludes : PathSet := ∅
  frameworks : PathSet := ∅
  forcedIncludes : PathSet := ∅
  defines : Table String String := ∅
  compilerPath : Option String := none
  sdkPath : Option Path := none
deriving DecidableEq

namespace CompileConfig

def addDefine (config : CompileConfig) (d : Define) : CompileConfig :=
  { config with defines := config.defines.insert d.key d.value }

def addInclude (config : CompileConfig) (p : Path) : CompileConfig :=
  { config with includes := config.includes.insert p }

def addSysInclude (config : CompileConfig) (p : Path) : CompileConfig :=
  { config with sysIncludes := config.sysIncludes.insert p }

def addFramework (config : CompileConfig) (p : Path) : CompileConfig :=
  { config with frameworks := config.frameworks.insert p }

def addForcedInclude (config : CompileConfig) (p : Path) : CompileConfig :=
  { config with forcedIncludes := config.forcedIncludes.insert p }

def defineList (config : CompileConfig) : List Define :=
  config.defines.entries.map fun e => ⟨e.1, e.2⟩

/-- The directories that an editor searches: the user's first, then the system's. -/
def searchPath (config : CompileConfig) : PathSet := config.includes ∪ config.sysIncludes

/-- The compiler that overrides the build's, unless its name is empty. -/
def compiler? (config : CompileConfig) : Option String :=
  config.compilerPath.filter fun c => c ≠ ""

end CompileConfig
end MachTree
