import MachTree.Script.Arithmetic
import MachTree.Script.Numeral.Basic

/-! Numbers at the front of texts, with decimal or hexadecimal digits. -/
namespace MachTree
namespace Script
namespace Numeral

structure Reading where
  numeral : Numeral
  /-- whether there is a number that is as large as what is written -/
  isInRange : Bool := true
  rest : List Char

/-- The digits at the front with at most one point among them: the whole number that they make
without it, how many stand after it, and the rest. -/
def takePlaces? (base : Nat) (cs : List Char) : Option (Nat × Nat × List Char) :=
  let digits (cs : List Char) := cs.takeWhile fun c => (Arithmetic.digitValue? base c).isSome
  let whole := digits cs
  let after := cs.drop whole.length
  let places := if after.head? = some '.' then digits (after.drop 1) else []
  if whole = [] ∧ places = [] then none
  else
    some (Arithmetic.valueOf base (whole ++ places), places.length,
      if after.head? = some '.' then after.drop (places.length + 1) else after)

def takePower (letter : Char) (cs : List Char) : Int × List Char :=
  let sign := (cs.drop 1).head?
  let after := if sign = some '-' ∨ sign = some '+' then cs.drop 2 else cs.drop 1
  let ds := after.takeWhile Char.isDigit
  let n := Arithmetic.valueOf 10 ds
  if cs.head?.map Char.toLower ≠ some letter ∨ ds = [] then (0, cs)
  else (if sign = some '-' then -n else n, after.drop ds.length)

/-- How numbers are written: the base of their digits, and the letter in front of a power of
another base, with the power that one digit counts for. -/
structure Radix where
  base : Nat
  letter : Char
  powerBase : Nat
  powerOfDigit : Nat

namespace Radix

def decimal : Radix := ⟨10, 'e', 10, 1⟩
def hexadecimal : Radix := ⟨16, 'p', 2, 4⟩

/-- The size at the front of a text, whether it is in range, and the rest.  Powers far beyond all
finite sizes are as good as nearer ones. -/
def takeSize? (r : Radix) (cs : List Char) : Option (Size × Bool × List Char) :=
  (takePlaces? r.base cs).map fun (n, places, after) =>
    let (power, rest) := takePower r.letter after
    let power := power - places * r.powerOfDigit
    let far : Int := 1200 + 4 * cs.length
    let power := if far < power then far else if power < -far then -far else power
    let (size, isInRange) := Size.ofFraction (Fraction.scale r.powerBase ⟨n, 1⟩ power)
    (size, isInRange, rest)

end Radix

/-- A text without the note in brackets that may follow what is no number. -/
def dropNote (cs : List Char) : List Char :=
  match cs with
  | '(' :: more =>
    match more.dropWhile fun c => c.isAlphanum || c == '_' with
    | ')' :: rest => rest
    | _ => cs
  | _ => cs

def take? (cs : List Char) : Option Reading :=
  let body := cs.dropWhile Arithmetic.isSpace
  let isNegative : Bool := body.head? = some '-'
  let body := if isNegative ∨ body.head? = some '+' then body.drop 1 else body
  let lower := body.map Char.toLower
  let ofSize (r : Size × Bool × List Char) : Reading := ⟨⟨isNegative, r.1⟩, r.2.1, r.2.2⟩
  let hexadecimal :=
    if "0x".toList.isPrefixOf lower then Radix.hexadecimal.takeSize? (body.drop 2) else none
  if "infinity".toList.isPrefixOf lower then some (ofSize (.infinite, true, body.drop 8))
  else if "inf".toList.isPrefixOf lower then some (ofSize (.infinite, true, body.drop 3))
  else if "nan".toList.isPrefixOf lower then
    some (ofSize (.undefined, true, dropNote (body.drop 3)))
  else (hexadecimal <|> Radix.decimal.takeSize? body).map ofSize

end Numeral
end Script
end MachTree
