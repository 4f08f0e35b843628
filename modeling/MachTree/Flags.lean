import MachTree.CompileConfig
import MachTree.Platform

/-! Compiler arguments read into a configuration.  Definitions and include directories are taken
from the flags that have them attached, forced includes from the argument after their flag; all
other arguments are passed over. -/
namespace MachTree
namespace Flags

/-- How a directory's arguments are read. -/
structure Dialect where
  platform : Platform
  /-- the flag before a header that every file starts with -/
  forcedFlag : String
  /-- the directory in which relative paths start, if they are to be moved -/
  baseDir : Option Path
deriving DecidableEq

/-- What one argument says on its own. -/
inductive Meaning
  | define (d : Define)
  | include (p : Path)
  /-- the next argument is a forced include -/
  | forced
  | nothing

def Dialect.resolve (dialect : Dialect) (p : Path) : Path :=
  match dialect.baseDir with
  | none => p
  | some dir => dir ++ p

/-- A flag starts with a dash or a slash; the letter after it decides. -/
def Dialect.meaning (dialect : Dialect) (arg : String) : Meaning :=
  match arg.toList with
  | lead :: letter :: rest =>
    if lead ≠ '-' ∧ lead ≠ '/' then .nothing
    else if letter = 'D' then
      if rest = [] then .nothing else .define (Define.parse ['='] rest)
    else if letter = 'I' then
      if rest = [] then .nothing
      else .include (dialect.resolve (dialect.platform.path (String.ofList rest)))
    else if arg = dialect.forcedFlag then .forced
    else .nothing
  | _ => .nothing

/-- The configuration after the arguments, in order. -/
def apply (dialect : Dialect) : List String → CompileConfig → CompileConfig
  | [], config => config
  | arg :: rest, config =>
    match dialect.meaning arg with
    | .define d => apply dialect rest (config.addDefine d)
    | .include p => apply dialect rest (config.addInclude p)
    | .nothing => apply dialect rest config
    | .forced =>
      match rest with
      | [] => config
      | operand :: rest =>
        apply dialect rest (config.addForcedInclude (dialect.resolve (Path.ofString operand)))

end Flags
end MachTree
