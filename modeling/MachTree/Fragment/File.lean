import MachTree.Activity
import MachTree.Fragment

/-! Fragments in files. -/
namespace MachTree
namespace Fragment

/-- Why a fragment file cannot be read. -/
inductive Error
  | notFound (path : Path)
  | undecodable (path : Path) (reason : Utf8.Error)
deriving DecidableEq

def Error.message : Error → String
  | .notFound path => "Fragment not found: " ++ path.toString
  | .undecodable path reason => "Failed to read " ++ path.toString ++ ": " ++ reason.message

def textOf (path : Path) (bytes : List UInt8) : Except Error (List Char) :=
  match Utf8.decode bytes with
  | .ok cs => .ok (Text.unifyNewlines cs)
  | .error reason => .error (.undecodable path reason)

def load (path : Path) (vars : Variables) : Activity Error Variables := do
  Activity.debug ("Parsing config from " ++ path.toString)
  if ← Activity.isFile path then
    let bytes ← Activity.readBytes path
    let text ← Activity.ofExcept id (textOf path bytes)
    pure (parse text vars)
  else Activity.fail (.notFound path)

end Fragment
end MachTree
