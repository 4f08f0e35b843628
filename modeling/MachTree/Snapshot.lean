import MachTree.Activity
import MachTree.Files.Edit
import MachTree.Json.Basic

/-! Hosts described in JSON: the files, the current directory, the platform, and what comes of the
commands that are run.  A description holds everything that an activity can ask for. -/
namespace MachTree

/-- The reply to calls that have some words among their arguments. -/
structure Rule where
  words : List String
  reply : Reply
deriving DecidableEq

def Rule.fits (rule : Rule) (call : Call) : Bool := rule.words.all fun w => w ∈ call.command

/-- The runner of rules: the first that fits replies, and without one a command prints nothing. -/
def Rule.runner (rules : List Rule) : Runner := fun _ call =>
  ((rules.find? fun rule => rule.fits call).map Rule.reply).getD (.finished 0 [] [])

namespace Snapshot

/-- The reply of a rule; what is printed is standard output unless it is given apart. -/
def replyOf (v : Json) : Reply :=
  if (v.get "interrupt").bool?.getD false then .interrupted ""
  else
    match (v.get "launch_error").string? with
    | some reason => .refused reason
    | none =>
      let stdout := (v.get "stdout").stringItems
      .finished ((v.get "exit").integer?.getD 0) stdout
        ((v.field? "output").elim stdout Json.stringItems)

def ruleOf (v : Json) : Rule := ⟨(v.get "match").stringItems, replyOf v⟩

def rulesOf (v : Json) : List Rule := v.items.map ruleOf

def hexValue (c : Char) : Nat :=
  if c.isDigit then c.toNat - '0'.toNat else c.toLower.toNat - 'a'.toNat + 10

def hexBytes : List Char → List UInt8
  | a :: b :: rest => (hexValue a * 16 + hexValue b).toUInt8 :: hexBytes rest
  | _ => []

/-- The bytes of a file and whether it can be executed: a text, or an object with a text or with
the bytes in base 16. -/
def contentOf (v : Json) : List UInt8 × Bool :=
  match v.string?, (v.get "hex").string? with
  | some s, _ => (s.toUTF8.toList, false)
  | none, some digits => (hexBytes digits.toList, false)
  | none, none =>
    (((v.get "text").string?.getD "").toUTF8.toList, (v.get "exec").bool?.getD false)

def platformOf (v : Json) : Platform :=
  match v.string? with
  | some "win32" => .windows
  | some "darwin" => .macOS
  | _ => .generic

/-- A tree with the directories, files and links of a description, made in this order. -/
def filesOf (t : Files) (cwd : Path) (v : Json) : Files :=
  let t := (v.get "dirs").stringItems.foldl (fun t p => t.addDirectory cwd (Path.ofString p)) t
  let t := (v.get "files").fields.foldl (fun t e =>
    let (bytes, executable) := contentOf e.2
    t.write cwd (Path.ofString e.1.shown) bytes executable) t
  (v.get "links").stringFields.entries.foldl (fun t e =>
    t.addLink cwd (Path.ofString e.1) e.2) t

/-- The host of a description over a tree that is there already; `home` is the current directory
unless the description gives another. -/
def hostOf (t : Files) (home : Path) (v : Json) : Host :=
  let files := filesOf t home v
  let given? := (v.get "cwd").string?.bind fun p => (files.resolve home (Path.ofString p)).toOption
  { files, cwd := given?.getD home, platform := platformOf (v.get "platform")
    runner := Rule.runner (rulesOf (v.get "runner")) }

end Snapshot
end MachTree
