import MachTree.Script.Syntax
import MachTree.Table

/-! The text of a script while it is read.  A backslash before the end of a line joins the line to
the next one nearly everywhere. -/
namespace MachTree
namespace Script

/-- A text that is to be read at the next end of a line. -/
structure Pending where
  index : Nat
  mark : List Char
  dropsTabs : Bool
  /-- whether the text stands for itself -/
  isLiteral : Bool

structure OpenAlias where
  name : List Char
  /-- how much of the script is left after the text -/
  left : Nat
  /-- whether the text ends in a blank, so that the word after it may be an alias as well -/
  endsInBlank : Bool

structure Reader where
  rest : List Char
  /-- whether lines may be shown as they are read -/
  isShown : Bool := false
  aliases : Table (List Char) (List Char) := ∅
  openAliases : List OpenAlias := []
  line : Nat := 1
  /-- a token that has been read already -/
  pushed : Option Token := none
  pending : List Pending := []
  documents : Documents := []
  /-- the number of the next text that stands in the script -/
  next : Nat := 0

/-- What is wrong with a text, and the line on which that shows. -/
structure Failure where
  reason : SyntaxError
  line : Nat

abbrev Parse := StateT Reader (Except Failure)

namespace Parse

def refuse {α : Type} (reason : SyntaxError) : Parse α := fun r => .error ⟨reason, r.line⟩

def rest : Parse (List Char) := do pure (← get).rest

def lineEnds (cs : List Char) : Nat := cs.count '\n'

def take (n : Nat) : Parse (List Char) := fun r =>
  let front := r.rest.take n
  .ok (front, { r with rest := r.rest.drop n, line := r.line + lineEnds front })

def skip (n : Nat) : Parse Unit := do
  let _ ← take n

def takeWhile (p : Char → Bool) : Parse (List Char) := do
  let front := (← rest).takeWhile p
  take front.length

def joins : List Char → Nat
  | '\\' :: '\n' :: rest => joins rest + 1
  | _ => 0

/-- The text without line ends in front that join lines. -/
def joined : Parse (List Char) := do
  skip (2 * joins (← rest))
  rest

def char? : Parse (Option Char) := do
  match ← joined with
  | [] => pure none
  | c :: _ =>
    skip 1
    pure (some c)

def skipChar (c : Char) : Parse Bool := do
  if (← joined).head? = some c then
    skip 1
    pure true
  else pure false

def push (t : Token) : Parse Unit := modify fun r => { r with pushed := some t }

def unexpected {α : Type} (t : Token) (expected : Option Mark := none) : Parse α :=
  refuse (.unexpected t (expected.map .mark))

def notWord {α : Type} (t : Token) : Parse α := refuse (.unexpected t (some (.word [])))

/-- Puts the text of an alias in the place of a word that has just been read, if it is one.  The
first word of a command may be one, and the word after an alias that ends in a blank; an alias has
no meaning in its own text. -/
def substituteAlias (word : List Char) (isFirst : Bool) (before : Nat) : Parse Bool := fun r =>
  let left := r.rest.length
  let follows := r.openAliases.any fun a => a.endsInBlank && a.left < before && left ≤ a.left
  let openAliases := r.openAliases.filter fun a => a.left ≤ left
  match if isFirst || follows then r.aliases.get? word else none with
  | none => .ok (false, r)
  | some text =>
    if openAliases.any fun a => a.name = word then .ok (false, r)
    else
      let endsInBlank : Bool := text.getLast?.any fun c => c = ' ' || c = '\t'
      .ok (true, { r with
        rest := text ++ r.rest
        openAliases := ⟨word, left, endsInBlank⟩ :: openAliases })

def toQuote : Parse (List Char) := do
  let cs ← rest
  let body := cs.takeWhile (· ≠ '\x27')
  if body.length = cs.length then
    skip body.length
    refuse .unterminatedQuote
  else
    skip (body.length + 1)
    pure body

def announce (mark : List Char) (dropsTabs isLiteral : Bool) : Parse Nat := fun r =>
  .ok (r.next,
    { r with next := r.next + 1, pending := r.pending ++ [⟨r.next, mark, dropsTabs, isLiteral⟩] })

/-- Reads another text, with its own lines and tokens, and goes on after that. -/
def within {α : Type} (text : List Char) (x : Parse α) : Parse α := fun r =>
  let openAliases := (r.openAliases.filter fun a => a.left ≤ r.rest.length).map fun a =>
    { a with left := 0, endsInBlank := false }
  match x { r with rest := text, pushed := none, pending := [], openAliases } with
  | .ok (a, inner) =>
    .ok (a, { r with documents := inner.documents, next := inner.next })
  | .error e => .error e

def nested {α : Type} (x : Parse α) : Parse α := fun r =>
  match x { r with pushed := none, pending := [] } with
  | .ok (a, inner) => .ok (a, { inner with pushed := r.pushed, pending := r.pending })
  | .error e => .error e

end Parse

def endsWord (c : Char) : Bool :=
  c ∈ [' ', '\t', '\n', ';', '&', '|', '<', '>', '(', ')']

def isPlain (c : Char) : Bool :=
  !endsWord c && !(c ∈ ['\\', '\x27', '\x22', '$', '\x60', '\x7d'])

/-- The text between backquotes, and what follows them; a backslash takes the meaning from some
characters. -/
def backquoted (isQuoted : Bool) : List Char → Option (List Char × List Char)
  | [] => none
  | '\x60' :: rest => some ([], rest)
  | '\\' :: '\n' :: rest => backquoted isQuoted rest
  | '\\' :: c :: rest =>
    let kept := if c ∈ ['\\', '\x60', '$'] ∨ (isQuoted ∧ c = '\x22') then [c] else ['\\', c]
    (backquoted isQuoted rest).map fun r => (kept ++ r.1, r.2)
  | c :: rest => (backquoted isQuoted rest).map fun r => (c :: r.1, r.2)

/-- The word that marks the end of a text in the script, whether it has quotes, and what follows;
dollar signs have no meaning in it. -/
def takeMark (isQuoted : Bool) : List Char → List Char × Bool × List Char
  | [] => ([], false, [])
  | '\\' :: c :: rest =>
    let (mark, _, rest) := takeMark isQuoted rest
    (c :: mark, true, rest)
  | c :: rest =>
    if c = '\x22' then
      let (mark, _, rest) := takeMark (!isQuoted) rest
      (mark, true, rest)
    else if c = '\x27' ∧ !isQuoted then
      let (mark, _, rest) := takeSingle rest
      (mark, true, rest)
    else if !isQuoted && endsWord c then ([], false, c :: rest)
    else
      let (mark, hasQuotes, rest) := takeMark isQuoted rest
      (c :: mark, hasQuotes, rest)
where
  takeSingle : List Char → List Char × Bool × List Char
    | [] => ([], true, [])
    | '\x27' :: rest => takeMark false rest
    | c :: rest =>
      let (mark, _, rest) := takeSingle rest
      (c :: mark, true, rest)

def isJoined (line : List Char) : Bool := (line.reverse.takeWhile (· = '\\')).length % 2 = 1

/-- The lines of a text in the script up to the one that marks its end, and what follows it; a
line that is joined to the one before cannot mark the end. -/
def takeDocument (d : Pending) (fuel : Nat) (continues : Bool) (cs : List Char) :
    List Char × List Char :=
  match fuel, cs with
  | 0, _ | _, [] => ([], cs)
  | fuel + 1, cs =>
    let cs := if d.dropsTabs then cs.dropWhile (· = '\t') else cs
    let line := cs.takeWhile (· ≠ '\n')
    let rest := cs.drop line.length
    if !continues && line = d.mark then ([], rest.drop 1)
    else
      let (more, after) :=
        takeDocument d fuel (!d.isLiteral && isJoined line) (rest.drop 1)
      (line ++ rest.take 1 ++ more, after)

end Script
end MachTree
