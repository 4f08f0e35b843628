import MachTree.CompileConfig

/-! Families of compilers, by the dialect of their arguments. -/
namespace MachTree
namespace Compiler

inductive Family
  | clang
  | clangCl
  | msvc
deriving DecidableEq, Repr

namespace Family

def tag : Family → String
  | .clang => "clang"
  | .clangCl => "clang-cl"
  | .msvc => "msvc"

def ofTag? (s : String) : Option Family := [clang, clangCl, msvc].find? fun f => f.tag = s

theorem ofTag?_tag (f : Family) : ofTag? f.tag = some f := by cases f <;> rfl

def mode : Family → String
  | .msvc => "msvc-x64"
  | _ => "clang-x64"

/-- The flag before a header that every file starts with. -/
def forcedFlag : Family → String
  | .clang => "-include"
  | _ => "-FI"

end Family

def nullInput : String := "/dev/null"

def probeArguments (family : Family) (language : Language) (sdk : Option Path) : List String :=
  match family with
  | .clang =>
    ["-std=" ++ language.version, if language = .c then "-xc" else "-xc++"] ++
      sdk.elim [] (fun p => ["-isysroot", p.toString]) ++ ["-Wp,-v", "-E", "-dD", nullInput]
  | _ =>
    ["-std:" ++ language.version, if language = .c then "-TC" else "-TP",
      "-v", "-E", "-Xclang", "-dM", nullInput]

/-- Why a compiler cannot be used. -/
inductive Error
  | noFamily
  | unknownFamily (name : String)
  /-- the family does not report its defaults -/
  | noReport
  | noTestCompile
  | notRun (program reason : String)
  | noDefaults
deriving DecidableEq, Repr

def Error.message : Error → String
  | .noFamily => "Unable to determine compiler types."
  | .unknownFamily name => "Unknown compiler type " ++ name ++ "."
  | .noReport => "The msvc compiler is currently not supported."
  | .noTestCompile => "Test compiling is not yet supported on Windows."
  | .notRun program reason => "Failed to run " ++ program ++ ": " ++ reason
  | .noDefaults => "Failed to discover compiler defaults."

def Family.ofBuild (name : Option String) : Except Error Family :=
  match name with
  | none => .error .noFamily
  | some name =>
    if name = "" then .error .noFamily
    else
      match Family.ofTag? name with
      | some f => .ok f
      | none => .error (.unknownFamily name)

end Compiler
end MachTree
