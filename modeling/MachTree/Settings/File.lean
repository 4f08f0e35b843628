import MachTree.Activity
import MachTree.Ini.Reader
import MachTree.Settings.Basic
import MachTree.Text.Lines

/-! Settings in files.  A file is read in blocks, so the lines before a block that is not UTF-8 are
read and may be refused first. -/
namespace MachTree
namespace Settings

def blockSize : Nat := 8192

/-- The lines that are ended, when the text after them cannot be had; a carriage return at the end
may be the first half of a line end. -/
def endedLines (cs : List Char) : List (List Char) :=
  let sure := if cs.getLast? = some '\r' then cs.dropLast else cs
  (Text.newlineLines (Text.unifyNewlines sure)).filter fun line => line.getLast? = some '\n'

/-- Why the bytes of a file are no settings. -/
inductive Unreadable
  | ini (reason : Ini.Error)
  | undecodable (reason : Utf8.Error)
deriving DecidableEq

def ofBytes (source : Ini.Source) (bytes : List UInt8) : Except Unreadable Ini :=
  match Utf8.decodeBlocks [] (Utf8.blocks blockSize bytes) with
  | (cs, none) =>
    match Ini.ofLines source (Text.newlineLines (Text.unifyNewlines cs)) with
    | .ok ini => .ok ini
    | .error reason => .error (.ini reason)
  | (cs, some reason) =>
    match Ini.Reader.feedAll { source } (endedLines cs) with
    | .ok _ => .error (.undecodable reason)
    | .error reason => .error (.ini reason)

theorem ofBytes_ascii {source : Ini.Source} {cs : List Char} {ini : Ini}
    (h : cs.all fun c => c.toNat < 0x80)
    (hini : Ini.ofLines source (Text.newlineLines (Text.unifyNewlines cs)) = .ok ini) :
    ofBytes source (cs.map fun c => c.toNat.toUInt8) = .ok ini := by
  rw [ofBytes, Utf8.decodeBlocks_ascii (by decide) (by simpa using h)]
  simp only [hini]

def ofText (root : Path) (text : String) : Except Ini.Error Settings :=
  (Ini.ofLines .text (Text.newlineLines text.toList)).map fun ini => { root, ini }

def filePath (root : Path) (file : Option Path) : Path := file.getD (root.child fileName)

/-- The settings of a tree from a file, by default one at its root.  Without the file there are no
overrides; a file in which a command cannot be cut into words is refused. -/
def load (root : Path) (file : Option Path) : Activity Error Settings := do
  let path := filePath root file
  let ini ←
    if ← Activity.isFile path then
      match ofBytes (.file path) (← Activity.readBytes path) with
      | .ok ini => pure ini
      | .error (.ini reason) => Activity.fail (.unreadable path reason)
      | .error (.undecodable reason) => Activity.raise (.undecodable reason)
    else pure {}
  let settings : Settings := { root, ini }
  Activity.ofExcept id settings.validate
  pure settings

end Settings
end MachTree
