import MachTree.CompileConfig
import MachTree.Text.Blank

/-! What a compiler reports of its defaults: include directories under a header for each kind of
include, and a line for each macro. -/
namespace MachTree
namespace CompilerReport

inductive Block
  | outside
  | user
  | system
deriving DecidableEq, Repr

def Block.tag : Block → String
  | .outside => "outside_block"
  | .user => "inside_user_block"
  | .system => "inside_system_block"

def includeMarker : List Char := "#include ".toList
def defineMarker : List Char := "#define ".toList
def frameworkMarker : List Char := " (framework directory)".toList

def after? (marker line : List Char) : Option (List Char) :=
  if marker.isPrefixOf line then some (line.drop marker.length) else none

def before? (marker line : List Char) : Option (List Char) :=
  (after? marker.reverse line.reverse).map List.reverse

structure Reader where
  config : CompileConfig
  block : Block := .outside

def addDirectory (config : CompileConfig) (block : Block) (entry : List Char) : CompileConfig :=
  match before? frameworkMarker entry with
  | some dir => config.addFramework (Path.ofString (String.ofList dir))
  | none =>
    let dir := Path.ofString (String.ofList entry)
    if block = .system then config.addSysInclude dir else config.addInclude dir

/-- A line that belongs to no list: it may start one, or define a macro. -/
def readHeader (config : CompileConfig) (line : List Char) : Reader :=
  match after? includeMarker line with
  | some rest => ⟨config, if rest.head? = some '<' then .system else .user⟩
  | none =>
    match after? defineMarker line with
    | some rest => ⟨config.addDefine (Define.parse [' '] (Text.trim rest)), .outside⟩
    | none => ⟨config, .outside⟩

/-- Inside a list a line that starts with a space is a directory; any other line ends the list. -/
def Reader.feed (r : Reader) (line : String) : Reader :=
  if r.block ≠ .outside ∧ line.toList.head? = some ' ' then
    { r with config := addDirectory r.config r.block (Text.trim line.toList) }
  else readHeader r.config line.toList

def Reader.feedAll (r : Reader) (lines : List String) : Reader := lines.foldl Reader.feed r

def read (lines : List String) (config : CompileConfig) : CompileConfig :=
  (Reader.feedAll ⟨config, .outside⟩ lines).config

end CompilerReport
end MachTree
