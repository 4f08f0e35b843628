import MachTree.Files.Resolve
import MachTree.Process.Basic
import MachTree.Text.Utf8
import MachTree.Text.Quoted

/-! Faults: what can go wrong anywhere and is handled nowhere in particular. -/
namespace MachTree

inductive Fault
  | nameTooLong (path : Path)
  | linkLoop (path : Path)
  /-- a path with too many links within links -/
  | linksTooDeep
  | nullCharacter
  | unencodable (e : Unencodable)
  | undecodable (reason : Utf8.Error)
  | integerTooLong (digits : Nat)
  /-- a value of JSON with too many brackets around it, the last of this kind -/
  | nestedTooDeep (kind : String)
  /-- a root was asked for and the operand names none -/
  | noRootNamed
  /-- a relative path was used after the current directory had been removed -/
  | noCurrentDirectory
  /-- what a runner raises, or standard output when a text is printed -/
  | outside (t : Trouble)
deriving DecidableEq

namespace Fault

def ofUnresolved : Files.Unresolved → Fault
  | .linkLoop path => .linkLoop path
  | .linksTooDeep => .linksTooDeep
  | .nullCharacter => .nullCharacter
  | .unencodable e => .unencodable e
  | .noCurrentDirectory => .noCurrentDirectory

def message : Fault → String
  | .nameTooLong path => "[Errno 36] File name too long: " ++ quoted path.toString
  | .linkLoop path => "Symlink loop from " ++ quoted path.toString
  | .linksTooDeep => "maximum recursion depth exceeded"
  | .nullCharacter => "embedded null byte"
  | .unencodable e => e.message
  | .undecodable reason => reason.message
  | .integerTooLong digits =>
    "Exceeds the limit (4300 digits) for integer string conversion: value has " ++
      toString digits ++ " digits; use sys.set_int_max_str_digits() to increase the limit"
  | .nestedTooDeep kind =>
    "maximum recursion depth exceeded while decoding a JSON " ++ kind ++ " from a unicode string"
  | .noRootNamed => "expected str, bytes or os.PathLike object, not list"
  | .noCurrentDirectory => "[Errno 2] No such file or directory"
  | .outside t => t.text

end Fault
end MachTree
