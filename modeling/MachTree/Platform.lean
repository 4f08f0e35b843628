import MachTree.Path.Basic

/-! The platforms that a build runs on, and the paths that its tools print there. -/
namespace MachTree

/-- Two platforms differ from the rest: one prints drives as directories, the other has an SDK. -/
inductive Platform
  | generic
  | windows
  | macOS
deriving DecidableEq, Repr

namespace Platform

/-- A drive letter between slashes becomes the drive; a newline may stand for the second slash at
the end of the text. -/
def withDrive : List Char → List Char
  | '/' :: d :: rest =>
    if d.isAlpha then
      match rest with
      | [] => [d, ':', '/']
      | '/' :: tail => d :: ':' :: '/' :: tail
      | ['\n'] => [d, ':', '/', '\n']
      | _ => '/' :: d :: rest
    else '/' :: d :: rest
  | cs => cs

/-- The path that a build tool means by a text. -/
def path (platform : Platform) (s : String) : Path :=
  match platform with
  | .windows => Path.ofString (String.ofList (withDrive s.toList))
  | _ => Path.ofString s

end Platform
end MachTree
