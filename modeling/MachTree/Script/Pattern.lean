/-! Patterns for text: an asterisk fits any text, a question mark any character, and brackets one
character of a set.  What is quoted in a pattern stands for itself. -/
namespace MachTree
namespace Script

structure Glyph where
  char : Char
  isQuoted : Bool
deriving DecidableEq, Repr

namespace Glyph

def plain (cs : List Char) : List Glyph := cs.map fun c => ⟨c, false⟩
def quote (cs : List Char) : List Glyph := cs.map fun c => ⟨c, true⟩
def text (gs : List Glyph) : List Char := gs.map Glyph.char

def isMagic (g : Glyph) : Bool := !g.isQuoted && g.char ∈ ['*', '?', '[']

end Glyph

/-- A set of characters between brackets. -/
inductive Member
  | range (low high : Char)
  | kind (name : String)
deriving DecidableEq, Repr

def isPunctuation (c : Char) : Bool := '!' ≤ c && c ≤ '~' && !c.isAlphanum

def isOfKind (name : String) (c : Char) : Bool :=
  match name with
  | "alnum" => c.isAlphanum
  | "alpha" => c.isAlpha
  | "blank" => c = ' ' || c = '\t'
  | "cntrl" => c < ' ' || c = '\x7f'
  | "digit" => c.isDigit
  | "graph" => '!' ≤ c && c ≤ '~'
  | "lower" => c.isLower
  | "print" => ' ' ≤ c && c ≤ '~'
  | "punct" => isPunctuation c
  | "space" => c = ' ' || ('\t' ≤ c && c ≤ '\r')
  | "upper" => c.isUpper
  | "xdigit" => c.isDigit || ('a' ≤ c && c ≤ 'f') || ('A' ≤ c && c ≤ 'F')
  | _ => false

def Member.has (c : Char) : Member → Bool
  | .range low high => low ≤ c && c ≤ high
  | .kind name => isOfKind name c

inductive Part
  | any
  | one
  | char (c : Char)
  | set (isNegated : Bool) (members : List Member)
deriving DecidableEq, Repr

abbrev Pattern := List Part

def takeMembers (fuel : Nat) (isFirst : Bool) (gs : List Glyph) :
    Option (List Member × List Glyph) :=
  match fuel, gs with
  | fuel + 1, g :: rest =>
    if g = ⟨']', false⟩ ∧ !isFirst then some ([], rest)
    else
      let name := Glyph.text ((rest.drop 1).takeWhile fun h => h.char.isAlpha)
      let after := rest.drop (name.length + 1)
      if g.char = '[' ∧ rest.head? = some ⟨':', false⟩ ∧ name ≠ [] ∧
          Glyph.text (after.take 2) = [':', ']'] then
        (takeMembers fuel false (after.drop 2)).map fun r =>
          (.kind (String.ofList name) :: r.1, r.2)
      else
        match rest with
        | ⟨'-', false⟩ :: high :: more =>
          if high = ⟨']', false⟩ then
            (takeMembers fuel false rest).map fun r => (.range g.char g.char :: r.1, r.2)
          else
            (takeMembers fuel false more).map fun r => (.range g.char high.char :: r.1, r.2)
        | rest => (takeMembers fuel false rest).map fun r => (.range g.char g.char :: r.1, r.2)
  | _, _ => none

def takeSet (gs : List Glyph) : Option (Part × List Glyph) :=
  let isNegated : Bool := gs.head? = some ⟨'!', false⟩
  (takeMembers (gs.length + 1) true (if isNegated then gs.drop 1 else gs)).map fun r =>
    (.set isNegated r.1, r.2)

def patternOf (fuel : Nat) (gs : List Glyph) : Pattern :=
  match fuel, gs with
  | fuel + 1, g :: rest =>
    if g.isQuoted then .char g.char :: patternOf fuel rest
    else if g.char = '*' then .any :: patternOf fuel rest
    else if g.char = '?' then .one :: patternOf fuel rest
    else
      match if g.char = '[' then takeSet rest else none with
      | some (part, rest) => part :: patternOf fuel rest
      | none => .char g.char :: patternOf fuel rest
  | _, _ => []

namespace Pattern

def ofGlyphs (gs : List Glyph) : Pattern := patternOf (gs.length + 1) gs

/-- Whether something holds of one of the ends of the first `n` characters of a text. -/
def anyEnd (holds : Nat → List Char → Bool) : Nat → List Char → Bool
  | n + 1, c :: rest => holds (n + 1) (c :: rest) || anyEnd holds n rest
  | n, cs => holds n cs

def fitsFirst : Pattern → Nat → List Char → Bool
  | [], n, _ => n = 0
  | [.any], _, _ => true
  | .any :: p, n, cs => anyEnd (fitsFirst p) n cs
  | _, 0, _ | _, _, [] => false
  | .one :: p, n + 1, _ :: cs => fitsFirst p n cs
  | .char d :: p, n + 1, c :: cs => c = d && fitsFirst p n cs
  | .set isNegated members :: p, n + 1, c :: cs =>
    members.any (Member.has c) != isNegated && fitsFirst p n cs

def fits (p : Pattern) (cs : List Char) : Bool := fitsFirst p cs.length cs

/-- The ends of a text, from the whole of it to none, each with the number of characters before the
next zero character in it. -/
def ends (cs : List Char) : List (Nat × List Char) :=
  cs.foldr (fun c shorter =>
    let (n, rest) := shorter.headD (0, [])
    (if c = '\x00' then 0 else n + 1, c :: rest) :: shorter) [(0, [])]

/-- A text without the part at one end that a pattern fits, the shortest or the longest.  Of several
texts with a zero character after each but the last, a part is compared up to its first end; the
search that begins at the front does not go beyond the first text. -/
def trim (p : Pattern) (atEnd longest : Bool) (cs : List Char) : List Char :=
  let size := cs.length
  let first := (cs.takeWhile (· ≠ '\x00')).length
  if atEnd then
    let ends := if longest then (ends cs).take (first + 1) else (ends cs).reverse
    match ends.find? fun e => fitsFirst p e.1 e.2 with
    | some (_, rest) => cs.take (size - rest.length)
    | none => cs
  else
    let places := if longest then (List.range (size + 1)).reverse else List.range (first + 1)
    match places.find? fun n => fitsFirst p (min n first) cs with
    | some n => cs.drop n
    | none => cs

def names (gs : List Glyph) (entries : List (List Char)) : List (List Char) :=
  let dotted : Bool := gs.head?.any fun g => g.char = '.'
  let all := if dotted then ['.'] :: ['.', '.'] :: entries else entries
  all.filter fun e => (dotted || e.head? ≠ some '.') && fits (ofGlyphs gs) e

end Pattern
end Script
end MachTree
