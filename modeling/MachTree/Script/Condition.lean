import MachTree.Script.Arithmetic
import MachTree.Script.State

/-! Conditions: what `test` says of its arguments. -/
namespace MachTree
namespace Script
namespace Condition

abbrev Words := List (List Char)

inductive Token
  | ended
  | operand
  | bang
  | and
  | or
  | openParen
  | closeParen
  | unary (c : Char)
  | binary (op : String)
deriving DecidableEq, Repr

inductive Error
  | unexpectedOperator (word : List Char)
  | missingArgument (operator : List Char)
  | missingParenthesis
  | missingBracket
  | notNumber (word : List Char)
deriving DecidableEq

def Error.message : Error → List Char
  | .unexpectedOperator [] => "unexpected operator".toList
  | .unexpectedOperator word => word ++ ": unexpected operator".toList
  | .missingArgument op => op ++ ": argument expected".toList
  | .missingParenthesis => "closing paren expected".toList
  | .missingBracket => "missing ]".toList
  | .notNumber word => "Illegal number: ".toList ++ word

def unaryOperators : List Char :=
  ['r', 'w', 'x', 'e', 'f', 'd', 'c', 'b', 'p', 'u', 'g', 'k', 's', 't', 'z', 'n', 'h', 'O', 'G',
    'L', 'S']

def binaryOperators : List String :=
  ["=", "!=", "<", ">", "-eq", "-ne", "-ge", "-gt", "-le", "-lt", "-nt", "-ot", "-ef"]

def operator? (word : List Char) : Option Token :=
  match word with
  | ['!'] => some .bang
  | ['-', 'a'] => some .and
  | ['-', 'o'] => some .or
  | ['('] => some .openParen
  | [')'] => some .closeParen
  | ['-', c] => if c ∈ unaryOperators then some (.unary c) else none
  | word =>
    if String.ofList word ∈ binaryOperators then some (.binary (String.ofList word)) else none

def isBinary (word : List Char) : Bool :=
  match operator? word with
  | some (.binary _) => true
  | _ => false

/-- What the first of some words is, as the words after it tell. -/
def token (ws : Words) : Token :=
  match ws with
  | [] => .ended
  | w :: rest =>
    match operator? w with
    | some (.unary c) =>
      let isOperand : Bool :=
        match rest with
        | [] => true
        | [_] => false
        | next :: _ => isBinary next
      if isOperand then .operand else .unary c
    | some .openParen => if rest = [] then .operand else .openParen
    | some t => t
    | none => .operand

def number (word : List Char) : Except Error Int :=
  match Arithmetic.numberOf? (some 10) word with
  | some n => .ok n
  | none => .error (.notNumber word)

/-- What is at the end of a path, links on the way followed, but none at its end. -/
def nodeItself (st : State) (p : Path) : Option Node :=
  match st.files.locate st.dir p.parent, p.parts.getLast? with
  | .ok dir, some last => st.files.node? (dir ++ [last])
  | _, _ => none

def fileIs (st : State) (c : Char) (word : List Char) : Bool :=
  let text := (Text.decoded word).toList
  let found : Option Node :=
    match st.files.locateText st.dir text with
    | .ok loc => st.files.node? loc
    | .error _ => none
  match c with
  | 'h' | 'L' =>
    match nodeItself st (pathOf word) with
    | some (.link _) => true
    | _ => false
  | 'e' | 'r' | 'w' | 'O' | 'G' => found.isSome
  | 'f' => found.any Files.Node.isFile
  | 'd' => found.any Files.Node.isDirectory
  | 'c' => found = some .device
  | 'x' =>
    match found with
    | some (.file _ executable) => executable
    | some .directory => true
    | _ => false
  | 's' =>
    match found with
    | some (.file bytes _) => bytes ≠ []
    | some .directory => true
    | _ => false
  | _ => false

def isSameFile (st : State) (a b : List Char) : Bool :=
  match st.files.locate st.dir (pathOf a), st.files.locate st.dir (pathOf b) with
  | .ok x, .ok y => x = y && (st.files.node? x).isSome
  | _, _ => false

def compare (op : String) (a b : Int) : Bool :=
  match op with
  | "-eq" => a = b
  | "-ne" => a ≠ b
  | "-ge" => a ≥ b
  | "-gt" => a > b
  | "-le" => a ≤ b
  | _ => a < b

def applyBinary (st : State) (op : String) (a b : List Char) : Except Error Bool :=
  match op with
  | "=" => .ok (a = b)
  | "!=" => .ok (a ≠ b)
  | "<" => .ok (a < b)
  | ">" => .ok (b < a)
  | "-ef" => .ok (isSameFile st a b)
  | "-nt" | "-ot" => .ok false
  | op => do pure (compare op (← number a) (← number b))

def applyUnary (st : State) (c : Char) (a : List Char) : Except Error Bool :=
  match c with
  | 'z' => .ok (a = [])
  | 'n' => .ok (a ≠ [])
  | 't' => (number a).map fun _ => false
  | c => .ok (fileIs st c a)

mutual

def primary (st : State) (fuel : Nat) (t : Token) (ws : Words) : Except Error (Bool × Words) :=
  match fuel with
  | 0 => .ok (false, ws)
  | fuel + 1 =>
    match t with
    | .ended => .ok (false, ws)
    | .openParen =>
      let ws := ws.drop 1
      if token ws = .closeParen then .ok (false, ws)
      else do
        let (b, ws) ← either st fuel (token ws) ws
        let ws := ws.drop 1
        if token ws = .closeParen then .ok (b, ws) else .error .missingParenthesis
    | .unary c =>
      match ws with
      | _ :: a :: rest => do pure (← applyUnary st c a, a :: rest)
      | ws => .error (.missingArgument (ws.headD []))
    | _ =>
      match token (ws.drop 1), ws with
      | .binary op, a :: _ :: b :: rest => do pure (← applyBinary st op a b, b :: rest)
      | .binary _, _ :: op :: _ => .error (.missingArgument op)
      | _, ws => .ok (ws.headD [] ≠ [], ws)

def negation (st : State) (fuel : Nat) (t : Token) (ws : Words) : Except Error (Bool × Words) :=
  match fuel with
  | 0 => .ok (false, ws)
  | fuel + 1 =>
    if t = .bang then do
      let next := token (ws.drop 1)
      let (b, ws) ← negation st fuel next (if next = .ended then ws else ws.drop 1)
      pure (!b, ws)
    else primary st fuel t ws

def all (st : State) (fuel : Nat) (t : Token) (ws : Words) : Except Error (Bool × Words) :=
  match fuel with
  | 0 => .ok (false, ws)
  | fuel + 1 => do
    let (b, ws) ← negation st fuel t ws
    if token (ws.drop 1) = .and then
      let ws := ws.drop 2
      let (c, ws) ← all st fuel (token ws) ws
      pure (b && c, ws)
    else pure (b, ws)

def either (st : State) (fuel : Nat) (t : Token) (ws : Words) : Except Error (Bool × Words) :=
  match fuel with
  | 0 => .ok (false, ws)
  | fuel + 1 => do
    let (b, ws) ← all st fuel t ws
    if token (ws.drop 1) = .or then
      let ws := ws.drop 2
      let (c, ws) ← either st fuel (token ws) ws
      pure (b || c, ws)
    else pure (b, ws)

end

def evaluate (st : State) (t : Token) (ws : Words) : Except Error Bool := do
  let (b, ws) ← either st (4 * ws.length + 8) t ws
  if 2 ≤ ws.length then .error (.unexpectedOperator (ws.headD [])) else .ok b

/-- What words say.  Three words with an operator in the middle are a comparison whatever the first
one is; of a few words, brackets around them and an exclamation mark come first. -/
def holds (st : State) (fuel : Nat) (ws : Words) : Except Error Bool :=
  match fuel, ws with
  | 0, _ | _, [] => .ok false
  | fuel + 1, w :: rest =>
    if ws.length = 3 ∧ (rest.head?.any isBinary) then evaluate st .operand ws
    else if ws.length = 3 ∨ ws.length = 4 then
      if w = ['('] ∧ ws.getLast? = some [')'] then
        let ws := rest.dropLast
        evaluate st (token ws) ws
      else if w = ['!'] then (holds st fuel rest).map fun b => !b
      else evaluate st (token ws) ws
    else evaluate st (token ws) ws

/-- Checks words as `test` does, or as an opening bracket does, which asks for a closing one. -/
def check (st : State) (hasBracket : Bool) (ws : Words) : Except Error Bool :=
  if !hasBracket then holds st (ws.length + 1) ws
  else if ws.getLast?.any fun w => w.head? = some ']' then holds st (ws.length + 1) ws.dropLast
  else .error .missingBracket

end Condition
end Script
end MachTree
