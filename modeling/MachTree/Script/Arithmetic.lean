import MachTree.Script.Syntax
import MachTree.Table

/-! Arithmetic of scripts: expressions over whole numbers of 64 bits, with variables and
assignments. -/
namespace MachTree
namespace Script
namespace Arithmetic

inductive Token
  | number (n : Int)
  | variable (name : List Char)
  | operator (cs : List Char)
  | bad
  | ended
deriving DecidableEq, Repr

inductive Error
  /-- what is wrong with the text of an expression -/
  | malformed (what : String) (expression : List Char)
  | notNumber (value : List Char)
deriving DecidableEq, Repr

def largest : Int := 9223372036854775807
def smallest : Int := -9223372036854775808

def wrap (n : Int) : Int := Int.bmod n 18446744073709551616

def digitValue? (base : Nat) (c : Char) : Option Nat :=
  let v :=
    if c.isDigit then c.toNat - 48
    else if 'a' ≤ c && c ≤ 'z' then c.toNat - 87
    else if 'A' ≤ c && c ≤ 'Z' then c.toNat - 55
    else 99
  if v < base then some v else none

def valueOf (base : Nat) (cs : List Char) : Nat :=
  cs.foldl (fun n c => n * base + (digitValue? base c).getD 0) 0

/-- The digits of a number at the front with its base: a zero in front means base 8, and an `x`
after it base 16. -/
def takeDigits (cs : List Char) : Nat × List Char × List Char :=
  let digits (base : Nat) (cs : List Char) := cs.takeWhile fun c => (digitValue? base c).isSome
  match cs with
  | '0' :: x :: rest =>
    if (x = 'x' ∨ x = 'X') ∧ digits 16 rest ≠ [] then
      (16, digits 16 rest, rest.drop (digits 16 rest).length)
    else
      let ds := digits 8 cs
      (8, ds, cs.drop ds.length)
  | cs =>
    let ds := digits 10 cs
    (10, ds, cs.drop ds.length)

def isSpace (c : Char) : Bool := c = ' ' || ('\t' ≤ c && c ≤ '\r')

/-- The number at the front of a text, whether it fits into 64 bits, and the rest.  A text without
a number has the value zero. -/
def takeNumber (base? : Option Nat) (cs : List Char) : Int × Bool × List Char :=
  let body := cs.dropWhile isSpace
  let isNegative : Bool := body.head? = some '-'
  let digitsAt := if body.head? = some '-' ∨ body.head? = some '+' then body.drop 1 else body
  let (base, ds, rest) :=
    match base? with
    | some base =>
      let ds := digitsAt.takeWhile fun c => (digitValue? base c).isSome
      (base, ds, digitsAt.drop ds.length)
    | none => takeDigits digitsAt
  if ds = [] then (0, true, cs)
  else
    let n : Int := if isNegative then -(valueOf base ds : Int) else valueOf base ds
    if n > largest then (largest, false, rest)
    else if n < smallest then (smallest, false, rest)
    else (n, true, rest)

/-- The value of a whole text; without a base, it may be empty. -/
def numberOf? (base? : Option Nat) (cs : List Char) : Option Int :=
  let (n, fitsIn, rest) := takeNumber base? cs
  if !fitsIn || (base?.isSome && rest.length = cs.length) || !rest.all isSpace then none
  else some n

/-- The value of a whole text that stands for a number from zero up to the largest of 32 bits. -/
def naturalOf? (cs : List Char) : Option Nat :=
  (numberOf? (some 10) cs).bind fun n => if 0 ≤ n ∧ n ≤ 2147483647 then some n.toNat else none

def operators : List (List Char) :=
  ["<<=", ">>=", "==", "!=", "<=", ">=", "<<", ">>", "&&", "||", "+=", "-=", "*=", "/=", "%=", "&=",
    "|=", "^=", "=", "<", ">", "&", "|", "!", "(", ")", "*", "/", "%", "+", "-", "~", "^", "?",
    ":"].map String.toList

def tokens (fuel : Nat) (cs : List Char) : List Token :=
  match fuel, cs with
  | fuel + 1, c :: rest =>
    if c = ' ' ∨ c = '\t' ∨ c = '\n' then tokens fuel rest
    else if c.isDigit then
      let (n, _, rest) := takeNumber none (c :: rest)
      .number n :: tokens fuel rest
    else if isNameStart c then
      .variable (c :: rest.takeWhile isNameChar) :: tokens fuel (rest.dropWhile isNameChar)
    else
      match operators.find? fun op => op.isPrefixOf (c :: rest) with
      | some op => .operator op :: tokens fuel ((c :: rest).drop op.length)
      | none => [.bad]
  | _, _ => []

/-- How tightly an operator between two operands binds, the least number most tightly. -/
def precedence? : List Char → Option Nat
  | ['*'] | ['/'] | ['%'] => some 0
  | ['+'] | ['-'] => some 1
  | ['<', '<'] | ['>', '>'] => some 2
  | ['<'] | ['>'] | ['<', '='] | ['>', '='] => some 3
  | ['=', '='] | ['!', '='] => some 4
  | ['&'] => some 5
  | ['^'] => some 6
  | ['|'] => some 7
  | _ => none

def loosest : Nat := 8

def truth (b : Bool) : Int := if b then 1 else 0

def bits (n : Int) : UInt64 := (Int64.ofInt n).toUInt64
def ofBits (n : UInt64) : Int := n.toInt64.toInt

/-- The value of an operator with two operands, unless it divides by zero. -/
def value? (op : List Char) (a b : Int) : Option Int :=
  match String.ofList op with
  | "*" => some (wrap (a * b))
  | "/" => if b = 0 then none else some (wrap (a.tdiv b))
  | "%" => if b = 0 then none else some (a.tmod b)
  | "+" => some (wrap (a + b))
  | "-" => some (wrap (a - b))
  | "<<" => some (ofBits (bits a <<< (bits b % 64)))
  | ">>" => some ((Int64.ofInt a >>> Int64.ofInt (b % 64)).toInt)
  | "<" => some (truth (a < b))
  | ">" => some (truth (a > b))
  | "<=" => some (truth (a ≤ b))
  | ">=" => some (truth (a ≥ b))
  | "==" => some (truth (a = b))
  | "!=" => some (truth (a ≠ b))
  | "&" => some (ofBits (bits a &&& bits b))
  | "^" => some (ofBits (bits a ^^^ bits b))
  | "|" => some (ofBits (bits a ||| bits b))
  | _ => some b

/-- An expression while it is read, and the values that it has given to variables. -/
structure Reading where
  expression : List Char
  left : List Token
  assigned : Table (List Char) (List Char) := ∅

abbrev Compute := StateT Reading (Except Error)

def fail {α : Type} (what : String) : Compute α := fun r => .error (.malformed what r.expression)

def peek : Compute Token := do pure ((← get).left.headD .ended)

def skip : Compute Unit := modify fun r => { r with left := r.left.drop 1 }

def skipIf (op : String) : Compute Bool := do
  if (← peek) = .operator op.toList then
    skip
    pure true
  else pure false

def shownNumber (n : Int) : List Char := (toString n).toList

variable (lookup : List Char → List Char)

def variableValue (name : List Char) : Compute Int := fun r =>
  let text := (r.assigned.get? name).getD (lookup name)
  match numberOf? none text with
  | some n => .ok (n, r)
  | none => .error (.notNumber text)

def assign (name : List Char) (n : Int) : Compute Unit :=
  modify fun r => { r with assigned := r.assigned.insert name (shownNumber n) }

def applyTo (op : List Char) (a b : Int) : Compute Int :=
  match value? op a b with
  | some n => pure n
  | none => fail "division by zero"

def assigner? : Token → Option (List Char)
  | .operator op =>
    if op.getLast? = some '=' ∧ precedence? op = none then some op.dropLast else none
  | _ => none

mutual

def operand (fuel : Nat) (live : Bool) : Compute Int := do
  match fuel with
  | 0 => fail "expecting primary"
  | fuel + 1 =>
    match ← peek with
    | .number n =>
      skip
      pure n
    | .variable name =>
      skip
      if live then variableValue lookup name else pure 0
    | .operator ['('] =>
      skip
      let n ← assignment fuel live
      if ← skipIf ")" then pure n else fail "expecting ')'"
    | .operator ['+'] =>
      skip
      operand fuel live
    | .operator ['-'] =>
      skip
      pure (wrap (-(← operand fuel live)))
    | .operator ['!'] =>
      skip
      pure (truth ((← operand fuel live) = 0))
    | .operator ['~'] =>
      skip
      pure (-(← operand fuel live) - 1)
    | _ => fail "expecting primary"

/-- Operands with operators that bind more tightly than a bound. -/
def binary (fuel : Nat) (live : Bool) (bound : Nat) : Compute Int := do
  match fuel with
  | 0 => fail "expecting primary"
  | fuel + 1 =>
    let a ← operand fuel live
    binaryRest fuel live bound a

def binaryRest (fuel : Nat) (live : Bool) (bound : Nat) (a : Int) : Compute Int := do
  match fuel with
  | 0 => pure a
  | fuel + 1 =>
    match ← peek with
    | .operator op =>
      match precedence? op with
      | some p =>
        if p < bound then
          skip
          let b ← binary fuel live p
          let n ← if live then applyTo op a b else pure b
          binaryRest fuel live bound n
        else pure a
      | none => pure a
    | _ => pure a

def conjunction (fuel : Nat) (live : Bool) : Compute Int := do
  match fuel with
  | 0 => fail "expecting primary"
  | fuel + 1 =>
    let a ← binary fuel live loosest
    if ← skipIf "&&" then
      let b ← conjunction fuel (live && a ≠ 0)
      pure (truth (a ≠ 0 ∧ b ≠ 0))
    else pure a

def disjunction (fuel : Nat) (live : Bool) : Compute Int := do
  match fuel with
  | 0 => fail "expecting primary"
  | fuel + 1 =>
    let a ← conjunction fuel live
    if ← skipIf "||" then
      let b ← disjunction fuel (live && a = 0)
      pure (truth (a ≠ 0 ∨ b ≠ 0))
    else pure a

def conditional (fuel : Nat) (live : Bool) : Compute Int := do
  match fuel with
  | 0 => fail "expecting primary"
  | fuel + 1 =>
    let a ← disjunction fuel live
    if ← skipIf "?" then
      let b ← assignment fuel (live && a ≠ 0)
      if ← skipIf ":" then
        let c ← conditional fuel (live && a = 0)
        pure (if a ≠ 0 then b else c)
      else fail "expecting ':'"
    else pure a

def assignment (fuel : Nat) (live : Bool) : Compute Int := do
  match fuel with
  | 0 => fail "expecting primary"
  | fuel + 1 =>
    match (← get).left with
    | .variable name :: t :: _ =>
      match assigner? t with
      | some op =>
        skip
        skip
        let b ← assignment fuel live
        if live then
          let n ← if op = [] then pure b else do applyTo op (← variableValue lookup name) b
          assign name n
          pure n
        else pure b
      | none => conditional fuel live
    | _ => conditional fuel live

end

def evaluate (expression : List Char) : Except Error (Int × Table (List Char) (List Char)) :=
  let left := tokens (expression.length + 1) expression
  match assignment lookup (16 * (left.length + 2)) true { expression, left } with
  | .ok (n, r) =>
    if r.left = [] then .ok (n, r.assigned) else .error (.malformed "expecting EOF" expression)
  | .error e => .error e

end Arithmetic
end Script
end MachTree
