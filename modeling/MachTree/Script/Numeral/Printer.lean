import MachTree.Script.Numeral.Basic

/-! Forms of numbers: with a number of places, with an exponent, or with hexadecimal digits.  The
value is taken exactly, and a half goes to the even neighbour. -/
namespace MachTree
namespace Script
namespace Numeral

def digits (n : Nat) : List Char := Nat.toDigits 10 n

def withPoint (n places : Nat) (keepsPoint : Bool) : List Char :=
  let ds := digits n
  let ds := List.replicate (places + 1 - ds.length) '0' ++ ds
  let whole := ds.take (ds.length - places)
  if places = 0 then if keepsPoint then whole ++ ['.'] else whole
  else whole ++ '.' :: ds.drop (ds.length - places)

def fixed (q : Fraction) (places : Nat) (keepsPoint : Bool) : List Char :=
  withPoint (q.scale 10 places).round places keepsPoint

/-- The number with one digit more than there are places, and the exponent that it is taken
with. -/
def significant (q : Fraction) (places : Nat) : Nat × Int :=
  if q.num = 0 then (0, 0)
  else
    let guess : Int := (digits q.num).length - (digits q.den).length
    let unit := q.scale 10 (-guess)
    let exponent := if unit.num < unit.den then guess - 1 else guess
    let n := (q.scale 10 (places - exponent)).round
    if Nat.pow 10 (places + 1) ≤ n then (n / 10, exponent + 1) else (n, exponent)

def exponentText (letter : Char) (k : Int) : List Char :=
  let ds := digits k.natAbs
  letter :: (if k < 0 then '-' else '+') :: (List.replicate (2 - ds.length) '0' ++ ds)

def scientific (letter : Char) (q : Fraction) (places : Nat) (keepsPoint : Bool) : List Char :=
  let (n, exponent) := significant q places
  withPoint n places keepsPoint ++ exponentText letter exponent

def withoutZeros (cs : List Char) : List Char :=
  if '.' ∈ cs then
    let kept := (cs.reverse.dropWhile (· = '0')).reverse
    if kept.getLast? = some '.' then kept.dropLast else kept
  else cs

def general (letter : Char) (q : Fraction) (precision : Nat) (keepsZeros : Bool) : List Char :=
  let p := if precision = 0 then 1 else precision
  let (n, exponent) := significant q (p - 1)
  let trimmed (cs : List Char) : List Char := if keepsZeros then cs else withoutZeros cs
  if -4 ≤ exponent ∧ exponent < p then
    let places := ((p : Int) - 1 - exponent).toNat
    trimmed (fixed q places keepsZeros)
  else
    trimmed (withPoint n (p - 1) keepsZeros) ++ exponentText letter exponent

/-- The form with hexadecimal digits and a power of two, after its `0x`. -/
def hexadecimal (mantissa : Nat) (exponent : Int) (precision : Option Nat) (keepsPoint : Bool) :
    List Char :=
  let power := if mantissa = 0 then 0 else exponent + 52
  let places := precision.getD 13
  let n := (Fraction.scale 16 ⟨mantissa, 1⟩ ((places : Int) - 13)).round
  let ds := Nat.toDigits 16 (n % Nat.pow 16 places)
  let ds := if places = 0 then [] else List.replicate (places - ds.length) '0' ++ ds
  let ds := if precision.isNone then (ds.reverse.dropWhile (· = '0')).reverse else ds
  let point := if ds = [] && !keepsPoint then [] else ['.']
  Nat.toDigits 16 (n / Nat.pow 16 places) ++ point ++ ds ++
    'p' :: (if power < 0 then '-' else '+') :: digits power.natAbs

/-- The text of a number's size in the form that a letter asks for. -/
def form (letter : Char) (size : Size) (precision : Option Nat) (isFull : Bool) : List Char :=
  let lower := letter.toLower
  let shown (cs : List Char) : List Char := if letter.isUpper then cs.map Char.toUpper else cs
  match size with
  | .undefined => shown "nan".toList
  | .infinite => shown "inf".toList
  | .finite mantissa exponent =>
    let q := Fraction.scale 2 ⟨mantissa, 1⟩ exponent
    let p := precision.getD 6
    shown (if lower = 'f' then fixed q p isFull
      else if lower = 'e' then scientific 'e' q p isFull
      else if lower = 'a' then hexadecimal mantissa exponent precision isFull
      else general 'e' q p isFull)

end Numeral
end Script
end MachTree
