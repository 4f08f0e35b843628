import MachTree.Ini.Basic
import MachTree.Text.Blank

/-! Settings text read line by line.  A line that is indented deeper than the option above it goes
on with the value of that option; comment lines start with a hash or a semicolon and count nowhere.
A repeated section or option ends the reading at once, an unreadable line is told at the end. -/
namespace MachTree
namespace Ini

/-- What a line that goes on with no value says. -/
inductive Line
  | header (name : List Char)
  | option (name value : List Char)
  | other
deriving DecidableEq

def beforeLast? (c : Char) (cs : List Char) : Option (List Char) :=
  match cs.reverse.dropWhile (· ≠ c) with
  | [] => none
  | _ :: before => some before.reverse

def isDelimiter (c : Char) : Bool := c == '=' || c == ':'

/-- A header is bracketed up to the last closing bracket and not empty; an option reaches up to the
first delimiter. -/
def Line.ofText (cs : List Char) : Line :=
  let header? := match cs with
    | '[' :: rest => (beforeLast? ']' rest).filter fun name => name ≠ []
    | _ => none
  match header? with
  | some name => .header name
  | none =>
    match cs.dropWhile fun c => !isDelimiter c with
    | [] => .other
    | _ :: value =>
      .option (Text.trimRight (cs.takeWhile fun c => !isDelimiter c)) (Text.trim value)

/-- A section while it is read: each option with the lines of its value, last line first. -/
abbrev Draft := Table String (List String)

structure Reader where
  source : Source
  lineNumber : Nat := 0
  defaults : Draft := ∅
  sections : Table String Draft := ∅
  /-- the section that options go to -/
  current : Option String := none
  /-- the option that a deeper line goes on with -/
  option : Option String := none
  indent : Nat := 0
  /-- sections and options that a source may give only once -/
  seen : List (String × String) := []
  /-- the unreadable lines, last first -/
  unreadable : List (Nat × String) := []

namespace Reader

def draft (r : Reader) (sect : String) : Draft :=
  if sect = defaultSection then r.defaults else (r.sections.get? sect).getD ∅

def setDraft (r : Reader) (sect : String) (d : Draft) : Reader :=
  if sect = defaultSection then { r with defaults := d }
  else { r with sections := r.sections.insert sect d }

def continueValue (r : Reader) (text : String) : Reader :=
  match r.current, r.option with
  | some sect, some option =>
    let d := r.draft sect
    r.setDraft sect (d.insert option (text :: (d.get? option).getD []))
  | _, _ => r

def refuseLine (r : Reader) (raw : String) : Reader :=
  { r with unreadable := (r.lineNumber, raw) :: r.unreadable }

def startSection (r : Reader) (name : String) : Except Error Reader :=
  if name = defaultSection then .ok { r with current := some name, option := none }
  else if r.sections.contains name then .error (.repeatedSection r.source r.lineNumber name)
  else .ok { r with
    sections := r.sections.insert name ∅, current := some name, option := none }

/-- An option without a name is unreadable, though it takes its place in the section; no line goes
on with it. -/
def startOption (r : Reader) (sect name value raw : String) : Except Error Reader :=
  let r := if name = "" then r.refuseLine raw else r
  if (sect, name) ∈ r.seen then
    .error (.repeatedOption r.source r.lineNumber sect name)
  else
    let r := { r with
      seen := (sect, name) :: r.seen
      option := if name = "" then none else some name }
    .ok (r.setDraft sect ((r.draft sect).insert name [value]))

def startLine (r : Reader) (text : List Char) (raw : String) : Except Error Reader :=
  match Line.ofText text, r.current with
  | .header name, _ => r.startSection (String.ofList name)
  | _, none => .error (.noSection r.source r.lineNumber raw)
  | .option name value, some sect =>
    r.startOption sect (String.ofList name) (String.ofList value) raw
  | .other, some _ => .ok (r.refuseLine raw)

def isComment (text : List Char) : Bool :=
  text.head? == some '#' || text.head? == some ';'

def feed (r : Reader) (raw : List Char) : Except Error Reader :=
  let r := { r with lineNumber := r.lineNumber + 1 }
  let text := Text.trim raw
  if isComment text then .ok r
  else if text = [] then .ok (r.continueValue "")
  else
    -- a line that is further in than the option's own goes on with its value
    let indent := (raw.takeWhile Text.isBlank).length
    if r.option.isSome ∧ indent > r.indent then .ok (r.continueValue (String.ofList text))
    else { r with indent := indent }.startLine text (String.ofList raw)

def feedAll (r : Reader) : List (List Char) → Except Error Reader
  | [] => .ok r
  | raw :: rest =>
    match r.feed raw with
    | .ok r => r.feedAll rest
    | .error e => .error e

/-- The value of an option: its lines, without white space at the end of the last. -/
def value (reversed : List String) : String :=
  String.ofList (Text.trimRight ("\n".intercalate reversed.reverse).toList)

def options (d : Draft) : Options := Table.ofList (d.entries.map fun e => (e.1, value e.2))

def finish (r : Reader) : Except Error Ini :=
  if r.unreadable = [] then
    .ok ⟨options r.defaults, Table.ofList (r.sections.entries.map fun e => (e.1, options e.2))⟩
  else .error (.unreadable r.source r.unreadable.reverse)

end Reader

def ofLines (source : Source) (lines : List (List Char)) : Except Error Ini := do
  let r ← Reader.feedAll { source } lines
  r.finish

end Ini
end MachTree
