import MachTree.Text.Quoted

/-! A command string cut into words under shell quoting.  Words are separated by spaces, tabs and
newlines; quotes and backslashes take the meaning from what they protect and leave no trace. -/
namespace MachTree
namespace Shell

/-- Why a text has no reading as words. -/
inductive Unfinished
  | quotation
  | escape
deriving DecidableEq, Repr

def Unfinished.message : Unfinished → String
  | .quotation => "No closing quotation"
  | .escape => "No escaped character"

def isSeparator (c : Char) : Bool := c == ' ' || c == '\t' || c == '\r' || c == '\n'

inductive Place
  /-- before a word -/
  | between
  /-- in a word, outside quotation -/
  | bare
  /-- between single quotes, where every character stands for itself -/
  | single
  /-- between double quotes -/
  | double
  /-- after a backslash outside quotation -/
  | escaped
  /-- after a backslash between double quotes -/
  | doubleEscaped
deriving DecidableEq, Repr

/-- The place after a character that is read outside quotation and that ends no word, and what it
adds to the word. -/
def Place.enter (c : Char) : Place × List Char :=
  if c = '\\' then (.escaped, [])
  else if c = '\x27' then (.single, [])
  else if c = '\x22' then (.double, [])
  else (.bare, [c])

/-- Reads the rest of a text; `word` is the word that is being read, last character first. -/
def wordsFrom : Place → (word : List Char) → List Char → Except Unfinished (List (List Char))
  | .between, _, [] => .ok []
  | .bare, word, [] => .ok [word.reverse]
  | .single, _, [] => .error .quotation
  | .double, _, [] => .error .quotation
  | .escaped, _, [] => .error .escape
  | .doubleEscaped, _, [] => .error .escape
  | .between, word, c :: rest =>
    if isSeparator c then wordsFrom .between word rest
    else wordsFrom (Place.enter c).1 (Place.enter c).2 rest
  | .bare, word, c :: rest =>
    if isSeparator c then (wordsFrom .between [] rest).map (word.reverse :: ·)
    else wordsFrom (Place.enter c).1 ((Place.enter c).2 ++ word) rest
  | .single, word, c :: rest =>
    if c = '\x27' then wordsFrom .bare word rest else wordsFrom .single (c :: word) rest
  | .double, word, c :: rest =>
    if c = '\x22' then wordsFrom .bare word rest
    else if c = '\\' then wordsFrom .doubleEscaped word rest
    else wordsFrom .double (c :: word) rest
  | .escaped, word, c :: rest => wordsFrom .bare (c :: word) rest
  | .doubleEscaped, word, c :: rest =>
    if c = '\\' ∨ c = '\x22' then wordsFrom .double (c :: word) rest
    else wordsFrom .double (c :: '\\' :: word) rest

theorem wordsFrom_between (word cs : List Char) :
    wordsFrom .between word cs = wordsFrom .between [] cs := by
  induction cs with
  | nil => rfl
  | cons c cs ih =>
    rw [wordsFrom, wordsFrom]
    by_cases hc : isSeparator c
    · rw [if_pos hc, if_pos hc, ih]
    · rw [if_neg hc, if_neg hc]

/-- A text that could not be cut, with the reason. -/
structure SplitError where
  text : String
  reason : Unfinished
deriving DecidableEq, Repr

def SplitError.message (e : SplitError) : String :=
  "Unable to split arguments " ++ quoted e.text ++ ": " ++ e.reason.message

def words (s : String) : Except SplitError (List String) :=
  match wordsFrom .between [] s.toList with
  | .ok ws => .ok (ws.map String.ofList)
  | .error reason => .error ⟨s, reason⟩

end Shell
end MachTree
