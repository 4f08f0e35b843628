import MachTree.Files.Basic

/-! What a system says when it refuses to do something with a file. -/
namespace MachTree
namespace Files

inductive Refusal
  | missing
  | badFormat
  | denied
  | exists
  | notDirectory
  | isDirectory
  | nameTooLong
  | tooManyLinks
deriving DecidableEq, Repr

namespace Refusal

def message : Refusal → String
  | .missing => "[Errno 2] No such file or directory"
  | .badFormat => "[Errno 8] Exec format error"
  | .denied => "[Errno 13] Permission denied"
  | .exists => "[Errno 17] File exists"
  | .notDirectory => "[Errno 20] Not a directory"
  | .isDirectory => "[Errno 21] Is a directory"
  | .nameTooLong => "[Errno 36] File name too long"
  | .tooManyLinks => "[Errno 40] Too many levels of symbolic links"

def ofBlocked : Blocked → Refusal
  | .missing => .missing
  | .notDirectory => .notDirectory
  | .tooManyLinks => .tooManyLinks
  | .nameTooLong => .nameTooLong

end Refusal
end Files
end MachTree
