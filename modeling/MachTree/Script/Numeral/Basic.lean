/-! Numbers of 53 binary digits.  A fraction that is none of them goes to the nearest, and half the
way to the even neighbour. -/
namespace MachTree
namespace Script

structure Fraction where
  num : Nat
  den : Nat
deriving DecidableEq, Repr

namespace Fraction

def round (q : Fraction) : Nat :=
  let n := q.num / q.den
  let rest := 2 * (q.num % q.den)
  if rest > q.den ∨ (rest = q.den ∧ n % 2 = 1) then n + 1 else n

def isWhole (q : Fraction) : Bool := q.num % q.den = 0

def scale (base : Nat) (q : Fraction) (k : Int) : Fraction :=
  match k with
  | .ofNat k => ⟨q.num * Nat.pow base k, q.den⟩
  | .negSucc k => ⟨q.num, q.den * Nat.pow base (k + 1)⟩

end Fraction

namespace Numeral

inductive Size
  /-- a whole number below `2 ^ 53`, times a power of two -/
  | finite (mantissa : Nat) (exponent : Int)
  | infinite
  | undefined
deriving DecidableEq, Repr

def lowest : Int := -1074

def highest : Int := 971

def Size.zero : Size := .finite 0 lowest

/-- The size next to a fraction, and whether it is in range: not beyond all finite sizes, nor
rounded to less than 53 digits. -/
def Size.ofFraction (q : Fraction) : Size × Bool :=
  let guess : Int := (Nat.log2 q.num : Int) - Nat.log2 q.den
  let unit := q.scale 2 (-guess)
  let exponent := (if unit.num < unit.den then guess - 1 else guess) - 52
  let exponent := if exponent < lowest then lowest else exponent
  let scaled := q.scale 2 (-exponent)
  let n := scaled.round
  let (mantissa, exponent) := if n = 1 <<< 53 then (1 <<< 52, exponent + 1) else (n, exponent)
  if q.num = 0 then (.zero, true)
  else if highest < exponent then (.infinite, false)
  else (.finite mantissa exponent, 1 <<< 52 ≤ mantissa || scaled.isWhole)

end Numeral

/-- A number as it is printed: there is a zero with either sign. -/
structure Numeral where
  isNegative : Bool := false
  size : Numeral.Size
deriving DecidableEq, Repr

def Numeral.ofNat (n : Nat) : Numeral := { size := (Size.ofFraction ⟨n, 1⟩).1 }

end Script
end MachTree
