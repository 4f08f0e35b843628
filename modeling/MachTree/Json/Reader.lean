import MachTree.Json.Basic

/-! JSON text read into values.  A reading function takes what it reads from the front of the text
and returns the rest; a mistake is placed by the rest of the text from where it stands. -/
namespace MachTree
namespace Json

inductive Mistake
  | value
  | propertyName
  | colon
  | comma
  | unterminatedString
  | controlCharacter
  | escape
  | unicodeEscape
  | extraData
  | byteOrderMark
deriving DecidableEq, Repr

def Mistake.message : Mistake → String
  | .value => "Expecting value"
  | .propertyName => "Expecting property name enclosed in double quotes"
  | .colon => "Expecting ':' delimiter"
  | .comma => "Expecting ',' delimiter"
  | .unterminatedString => "Unterminated string starting at"
  | .controlCharacter => "Invalid control character at"
  | .escape => "Invalid \\escape"
  | .unicodeEscape => "Invalid \\uXXXX escape"
  | .extraData => "Extra data"
  | .byteOrderMark => "Unexpected UTF-8 BOM (decode using utf-8-sig)"

inductive Stop
  /-- a mistake at the start of the given rest of the text -/
  | mistake (what : Mistake) (rest : List Char)
  | integerTooLong (digits : Nat)
  | nestedTooDeep (kind : String)
deriving DecidableEq

abbrev Result (α : Type) := Except Stop (α × List Char)

def isSpace (c : Char) : Bool := c == ' ' || c == '\t' || c == '\n' || c == '\r'

def skipSpace (cs : List Char) : List Char := cs.dropWhile isSpace

def hexValue? (c : Char) : Option Nat :=
  if '0' ≤ c ∧ c ≤ '9' then some (c.toNat - 48)
  else if 'a' ≤ c ∧ c ≤ 'f' then some (c.toNat - 87)
  else if 'A' ≤ c ∧ c ≤ 'F' then some (c.toNat - 55)
  else none

def hex4? : List Char → Option Nat
  | a :: b :: c :: d :: _ => do
    let a ← hexValue? a
    let b ← hexValue? b
    let c ← hexValue? c
    let d ← hexValue? d
    pure (((a * 16 + b) * 16 + c) * 16 + d)
  | _ => none

def isHighSurrogate (n : Nat) : Bool := 0xd800 ≤ n && n < 0xdc00
def isLowSurrogate (n : Nat) : Bool := 0xdc00 ≤ n && n < 0xe000

/-- A character that is written with one letter after the backslash. -/
def simpleEscape? : Char → Option Char
  | '\x22' => some '\x22'
  | '\\' => some '\\'
  | '/' => some '/'
  | 'b' => some '\x08'
  | 'f' => some '\x0c'
  | 'n' => some '\n'
  | 'r' => some '\r'
  | 't' => some '\t'
  | _ => none

/-- What one UTF-16 unit or two stand for; a surrogate without its partner stands alone. -/
def ofUnits (high : Nat) (low : Option Nat) : Symbol :=
  match low with
  | some low => .char (Char.ofNat (0x10000 + (high - 0xd800) * 1024 + (low - 0xdc00)))
  | none =>
    if isHighSurrogate high || isLowSurrogate high then .lone high else .char (Char.ofNat high)

/-- The second half of a surrogate pair: present if the text goes on with another escape. -/
def lowUnit? (rest : List Char) : Except Stop (Option Nat) :=
  match rest with
  | '\\' :: 'u' :: more =>
    if more.length ≤ 4 then .ok none
    else
      match hex4? more with
      | none => .error (.mistake .unicodeEscape ('u' :: more))
      | some n => .ok (if isLowSurrogate n then some n else none)
  | _ => .ok none

/-- What an escape stands for, from after the backslash on, and the length of the escape. -/
def escape (opening : List Char) (cs : List Char) : Except Stop (Symbol × Nat) :=
  match cs with
  | [] => .error (.mistake .unterminatedString opening)
  | 'u' :: rest =>
    if rest.length ≤ 4 then .error (.mistake .unicodeEscape ('u' :: rest))
    else
      match hex4? rest with
      | none => .error (.mistake .unicodeEscape ('u' :: rest))
      | some n =>
        if isHighSurrogate n then
          match lowUnit? (rest.drop 4) with
          | .error e => .error e
          | .ok (some low) => .ok (ofUnits n (some low), 11)
          | .ok none => .ok (ofUnits n none, 5)
        else .ok (ofUnits n none, 5)
  | c :: rest =>
    match simpleEscape? c with
    | some c => .ok (.char c, 1)
    | none => .error (.mistake .escape ('\\' :: c :: rest))

/-- A string up to its closing quote; `opening` is the text from the opening quote on. -/
def stringRest (opening : List Char) : List Char → Result Symbols
  | [] => .error (.mistake .unterminatedString opening)
  | c :: rest =>
    if c = '\x22' then .ok ([], rest)
    else if c = '\\' then
      match escape opening rest with
      | .error e => .error e
      | .ok (x, size) =>
        match stringRest opening (rest.drop size) with
        | .error e => .error e
        | .ok (s, after) => .ok (x :: s, after)
    else if c.toNat ≤ 0x1f then .error (.mistake .controlCharacter (c :: rest))
    else
      match stringRest opening rest with
      | .error e => .error e
      | .ok (s, after) => .ok (.char c :: s, after)
termination_by cs => cs.length
decreasing_by all_goals (simp only [List.length_drop, List.length_cons]; omega)

/-- The integer digits at the front: a zero, or digits that start with another one. -/
def integerDigits : List Char → List Char
  | '0' :: _ => ['0']
  | cs => cs.takeWhile Char.isDigit

def fraction : List Char → List Char
  | '.' :: rest =>
    match rest.takeWhile Char.isDigit with
    | [] => []
    | digits => '.' :: digits
  | _ => []

def exponent : List Char → List Char
  | e :: rest =>
    if e = 'e' ∨ e = 'E' then
      let sign := match rest with
        | s :: _ => if s = '+' ∨ s = '-' then [s] else []
        | [] => []
      match (rest.drop sign.length).takeWhile Char.isDigit with
      | [] => []
      | digits => e :: sign ++ digits
    else []
  | [] => []

def maxDigits : Nat := 4300

def digitsValue (digits : List Char) : Nat :=
  digits.foldl (fun n d => n * 10 + (d.toNat - 48)) 0

def number (cs : List Char) : Result Json :=
  let sign := if cs.head? = some '-' then ['-'] else []
  let body := cs.drop sign.length
  let digits := integerDigits body
  let after := body.drop digits.length
  let frac := fraction after
  let exp := exponent (after.drop frac.length)
  if digits = [] then .error (.mistake .value cs)
  else if frac = [] ∧ exp = [] then
    if digits.length > maxDigits then .error (.integerTooLong digits.length)
    else
      let n := digitsValue digits
      .ok (.integer (if sign = [] then n else -n), after)
  else
    .ok (.real (String.ofList (sign ++ digits ++ frac ++ exp)),
      after.drop (frac.length + exp.length))

def wordValues : List (List Char × Json) :=
  [("null".toList, .null), ("true".toList, .bool true), ("false".toList, .bool false),
    ("NaN".toList, .real "NaN"), ("Infinity".toList, .real "Infinity"),
    ("-Infinity".toList, .real "-Infinity")]

def scalar (cs : List Char) : Result Json :=
  match wordValues.find? fun w => w.1.isPrefixOf cs with
  | some w => .ok (w.2, cs.drop w.1.length)
  | none => number cs

mutual

def valueFrom (fuel depth : Nat) (cs : List Char) : Result Json :=
  match fuel with
  | 0 => .error (.mistake .value cs)
  | fuel + 1 =>
    match cs with
    | [] => .error (.mistake .value [])
    | c :: rest =>
      if c = '\x22' then
        match stringRest cs rest with
        | .ok (s, after) => .ok (.string s, after)
        | .error e => .error e
      else if c = '[' then
        match depth with
        | 0 => .error (.nestedTooDeep "array")
        | depth + 1 =>
          match skipSpace rest with
          | ']' :: after => .ok (.array [], after)
          | rest =>
            match itemsFrom fuel depth rest with
            | .ok (vs, after) => .ok (.array vs, after)
            | .error e => .error e
      else if c = '\x7b' then
        match depth with
        | 0 => .error (.nestedTooDeep "object")
        | depth + 1 =>
          match skipSpace rest with
          | '\x7d' :: after => .ok (.object [], after)
          | rest =>
            match membersFrom fuel depth rest with
            | .ok (fs, after) => .ok (ofFields fs, after)
            | .error e => .error e
      else scalar cs

def itemsFrom (fuel depth : Nat) (cs : List Char) : Result (List Json) :=
  match fuel with
  | 0 => .error (.mistake .value cs)
  | fuel + 1 =>
    match valueFrom fuel depth cs with
    | .error e => .error e
    | .ok (v, after) =>
      match skipSpace after with
      | ']' :: rest => .ok ([v], rest)
      | ',' :: rest =>
        match itemsFrom fuel depth (skipSpace rest) with
        | .ok (vs, rest) => .ok (v :: vs, rest)
        | .error e => .error e
      | rest => .error (.mistake .comma rest)

def membersFrom (fuel depth : Nat) (cs : List Char) : Result (List (Symbols × Json)) :=
  match fuel with
  | 0 => .error (.mistake .value cs)
  | fuel + 1 =>
    match cs with
    | '\x22' :: rest =>
      match stringRest cs rest with
      | .error e => .error e
      | .ok (name, after) =>
        match skipSpace after with
        | ':' :: rest =>
          match valueFrom fuel depth (skipSpace rest) with
          | .error e => .error e
          | .ok (v, after) =>
            match skipSpace after with
            | '\x7d' :: rest => .ok ([(name, v)], rest)
            | ',' :: rest =>
              match membersFrom fuel depth (skipSpace rest) with
              | .ok (fs, rest) => .ok ((name, v) :: fs, rest)
              | .error e => .error e
            | rest => .error (.mistake .comma rest)
        | rest => .error (.mistake .colon rest)
    | _ => .error (.mistake .propertyName cs)

end

/-- The brackets that may stand around a value. -/
def maxDepth : Nat := 989

/-- The value that a text holds, with nothing but space around it. -/
def document (cs : List Char) : Except Stop Json :=
  if cs.head? = some '\ufeff' then .error (.mistake .byteOrderMark cs)
  else
    match valueFrom (2 * cs.length + 2) maxDepth (skipSpace cs) with
    | .error e => .error e
    | .ok (v, after) =>
      match skipSpace after with
      | [] => .ok v
      | rest => .error (.mistake .extraData rest)

/-- A mistake with its place in the text, counted from zero, and its line and column, counted from
one. -/
structure Misplaced where
  what : Mistake
  position : Nat
  line : Nat
  column : Nat
deriving DecidableEq, Repr

def Misplaced.message (e : Misplaced) : String :=
  e.what.message ++ ": line " ++ toString e.line ++ " column " ++ toString e.column ++
    " (char " ++ toString e.position ++ ")"

def misplaced (text : List Char) (what : Mistake) (rest : List Char) : Misplaced :=
  let before := text.take (text.length - rest.length)
  ⟨what, before.length, before.count '\n' + 1,
    (before.reverse.takeWhile (· ≠ '\n')).length + 1⟩

/-- Why a text holds no value. -/
inductive Error
  | malformed (e : Misplaced)
  | integerTooLong (digits : Nat)
  | nestedTooDeep (kind : String)
deriving DecidableEq

def parse (s : String) : Except Error Json :=
  match document s.toList with
  | .ok v => .ok v
  | .error (.mistake what rest) => .error (.malformed (misplaced s.toList what rest))
  | .error (.integerTooLong digits) => .error (.integerTooLong digits)
  | .error (.nestedTooDeep kind) => .error (.nestedTooDeep kind)

end Json
end MachTree
