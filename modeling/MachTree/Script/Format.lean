import MachTree.Script.Arithmetic
import MachTree.Script.Numeral.Printer
import MachTree.Script.Numeral.Reader

/-! Text that a script prints: escapes, and formats that are used again while arguments are left. -/
namespace MachTree
namespace Script

def isOctal (c : Char) : Bool := '0' ≤ c && c ≤ '7'

def takeOctal (most : Nat) (cs : List Char) : List Char := (cs.take most).takeWhile isOctal

def byteOf (n : Nat) : Char := Char.ofNat (n % 256)

def letterEscape? : Char → Option Char
  | '\\' => some '\\'
  | 'a' => some '\x07'
  | 'b' => some '\x08'
  | 'e' => some '\x1b'
  | 'f' => some '\x0c'
  | 'n' => some '\n'
  | 'r' => some '\r'
  | 't' => some '\t'
  | 'v' => some '\x0b'
  | _ => none

/-- The character after a backslash, and how many characters write it; a backslash that escapes
nothing stands for itself. -/
def escape (cs : List Char) : Char × Nat :=
  match cs with
  | c :: _ =>
    if isOctal c then
      let digits := takeOctal 3 cs
      (byteOf (Arithmetic.valueOf 8 digits), digits.length)
    else
      match letterEscape? c with
      | some e => (e, 1)
      | none => ('\\', 0)
  | [] => ('\\', 0)

def unescape (fuel : Nat) (cs : List Char) : List Char × Bool :=
  match fuel, cs with
  | fuel + 1, c :: rest =>
    if c = '\\' then
      match rest with
      | 'c' :: _ => ([], true)
      | '0' :: rest =>
        let digits := takeOctal 3 rest
        let (text, ends) := unescape fuel (rest.drop digits.length)
        (byteOf (Arithmetic.valueOf 8 digits) :: text, ends)
      | _ =>
        let (e, n) := escape rest
        let (text, ends) := unescape fuel (rest.drop n)
        (e :: text, ends)
    else
      let (text, ends) := unescape fuel rest
      (c :: text, ends)
  | _, _ => ([], false)

def unescaped (cs : List Char) : List Char × Bool := unescape (cs.length + 1) cs

def echoText (newline : Bool) : List (List Char) → List Char
  | [] => if newline then ['\n'] else []
  | [a] =>
    let (text, ends) := unescaped a
    text ++ if newline && !ends then ['\n'] else []
  | a :: rest =>
    let (text, ends) := unescaped a
    if ends then text else text ++ ' ' :: echoText newline rest

def echo : List (List Char) → List Char
  | ['-', 'n'] :: rest => echoText false rest
  | args => echoText true args

/-- What comes of a format: its text, what is wrong with arguments, and whether the format itself
is wrong. -/
structure Printed where
  text : List Char := []
  warnings : List (List Char) := []
  error : Option (List Char) := none

structure Conversion where
  flags : List Char := []
  width : Nat := 0
  /-- the digits of a number at least, or the characters of a text at most -/
  precision : Option Nat := none
  kind : Char

namespace Conversion

def has (v : Conversion) (flag : Char) : Bool := flag ∈ v.flags

def pad (v : Conversion) (cs : List Char) : List Char :=
  let blanks := List.replicate (v.width - cs.length) ' '
  if v.has '-' then cs ++ blanks else blanks ++ cs

/-- A sign or base in front of digits, filled up with blanks or with zeros between them. -/
def padNumber (v : Conversion) (front digits : List Char) (mayZero : Bool) : List Char :=
  if v.has '0' && !v.has '-' && mayZero then
    front ++ List.replicate (v.width - front.length - digits.length) '0' ++ digits
  else v.pad (front ++ digits)

/-- What stands in front of the digits of a number that may be negative. -/
def sign (v : Conversion) (isNegative : Bool) : List Char :=
  if isNegative then ['-'] else if v.has '+' then ['+'] else if v.has ' ' then [' '] else []

def fill (v : Conversion) (isZero : Bool) (digits : List Char) : List Char :=
  match v.precision with
  | none => digits
  | some p => if p = 0 ∧ isZero then [] else List.replicate (p - digits.length) '0' ++ digits

def signed (v : Conversion) (n : Int) : List Char :=
  v.padNumber (v.sign (n < 0)) (v.fill (n = 0) (Nat.toDigits 10 n.natAbs)) v.precision.isNone

def unsigned (v : Conversion) (n : Int) : List Char :=
  let n := (n % 18446744073709551616).toNat
  let base := if v.kind = 'o' then 8 else if v.kind = 'u' then 10 else 16
  let digits := v.fill (n = 0) (Nat.toDigits base n)
  let digits :=
    if v.kind = 'o' && v.has '#' && digits.head? ≠ some '0' then '0' :: digits else digits
  let front := if base = 16 && v.has '#' && n ≠ 0 then ['0', 'x'] else []
  let shown := v.padNumber front digits v.precision.isNone
  if v.kind = 'X' then shown.map Char.toUpper else shown

def ofText (v : Conversion) (cs : List Char) : List Char := v.pad (v.precision.elim cs cs.take)

def ofNumeral (v : Conversion) (x : Numeral) : List Char :=
  let isFinite : Bool := x.size ∉ [.infinite, .undefined]
  let base :=
    if !isFinite then [] else if v.kind = 'a' then "0x".toList
    else if v.kind = 'A' then "0X".toList else []
  v.padNumber (v.sign x.isNegative ++ base)
    (Numeral.form v.kind x.size v.precision (v.has '#')) isFinite

end Conversion

def numberWarning (arg rest : List Char) (fitsIn : Bool) : List (List Char) :=
  if rest ≠ [] then
    if rest = arg then [arg ++ ": expected numeric value".toList]
    else [arg ++ ": not completely converted".toList]
  else if !fitsIn then [arg ++ ": Numerical result out of range".toList]
  else []

/-- The number that an argument writes, with what is wrong with it; a quote asks for the code of
the character after it. -/
def numberArgument (isSigned : Bool) (arg : List Char) : Int × List (List Char) :=
  match arg with
  | '\x22' :: rest | '\x27' :: rest => ((rest.head?.map fun c => (c.toNat : Int)).getD 0, [])
  | arg =>
    let (n, fitsIn, rest) := Arithmetic.takeNumber none arg
    if !isSigned && !fitsIn && n = Arithmetic.largest then
      let body := (arg.dropWhile Arithmetic.isSpace).dropWhile (· = '+')
      let (base, ds, _) := Arithmetic.takeDigits body
      let n := Arithmetic.valueOf base ds
      if n < 18446744073709551616 then (n, numberWarning arg rest true)
      else (18446744073709551615, numberWarning arg rest false)
    else (n, numberWarning arg rest fitsIn)

def numeralArgument (arg : List Char) : Numeral × List (List Char) :=
  match arg with
  | '\x22' :: rest | '\x27' :: rest => (.ofNat ((rest.head?.map Char.toNat).getD 0), [])
  | arg =>
    match Numeral.take? arg with
    | some r => (r.numeral, numberWarning arg r.rest r.isInRange)
    | none => (.ofNat 0, numberWarning arg arg true)

/-- A conversion as it is read: with the arguments that its width and precision have used. -/
structure Spec where
  conversion : Conversion
  written : List Char
  rest : List Char
  args : List (List Char)
  warnings : List (List Char)
  /-- whether what is asked for is more than can be printed -/
  isTooLong : Bool

def maxMeasure : Nat := 2147483647

def takeMeasure (cs : List Char) (args : List (List Char)) :
    Option Int × List Char × List (List Char) × List (List Char) :=
  match cs with
  | '*' :: rest =>
    let (n, warnings) := numberArgument true (args.headD [])
    (some (Int.bmod n 4294967296), rest, args.drop 1, warnings)
  | cs =>
    let ds := cs.takeWhile Char.isDigit
    (if ds = [] then none else some (Arithmetic.valueOf 10 ds), cs.drop ds.length, args, [])

def takeConversion? (cs : List Char) (args : List (List Char)) : Option Spec :=
  let flags := cs.takeWhile fun c => c ∈ ['#', '-', '+', ' ', '0']
  let rest := cs.drop flags.length
  let (width, rest, args, warnings) := takeMeasure rest args
  let width := width.getD 0
  let flags := if width < 0 then '-' :: flags else flags
  let (precision, rest, args, warnings) :=
    match rest with
    | '.' :: rest =>
      let (precision, rest, args, more) := takeMeasure rest args
      ((if precision.getD 0 < 0 then none else some (precision.getD 0).toNat), rest, args,
        warnings ++ more)
    | rest => (none, rest, args, warnings)
  match rest with
  | [] => none
  | kind :: rest =>
    let isTooLong : Bool := width.natAbs > maxMeasure || precision.any fun p => p > maxMeasure
    let conversion : Conversion :=
      if isTooLong then { kind } else { flags, width := width.natAbs, precision, kind }
    let written := cs.take (cs.length - rest.length)
    some { conversion, written, rest, args, warnings, isTooLong }

/-- An argument converted, what is wrong with it, and whether all output ends with it; nothing for
a kind that there is not. -/
def Conversion.convert? (v : Conversion) (arg : List Char) :
    Option (List Char × List (List Char) × Bool) :=
  if v.kind = 's' then some (v.ofText arg, [], false)
  else if v.kind = 'b' then
    let (text, ends) := unescaped arg
    some (v.ofText text, [], ends)
  else if v.kind = 'c' then
    some ({ v with precision := none }.ofText [arg.headD '\x00'], [], false)
  else if v.kind ∈ ['d', 'i'] then
    let (n, warnings) := numberArgument true arg
    some (v.signed n, warnings, false)
  else if v.kind ∈ ['o', 'u', 'x', 'X'] then
    let (n, warnings) := numberArgument false arg
    some (v.unsigned n, warnings, false)
  else if v.kind ∈ ['a', 'A', 'e', 'E', 'f', 'F', 'g', 'G'] then
    let (x, warnings) := numeralArgument arg
    some (v.ofNumeral x, warnings, false)
  else none

/-- One use of a format: what comes of it, the arguments that are left, and whether all output
ends. -/
def formatOnce (fuel : Nat) (format : List Char) (args : List (List Char)) :
    Printed × List (List Char) × Bool :=
  match fuel, format with
  | fuel + 1, c :: rest =>
    let more (front : List Char) (warnings : List (List Char)) (rest : List Char)
        (args : List (List Char)) : Printed × List (List Char) × Bool :=
      let (p, r) := formatOnce fuel rest args
      ({ p with text := front ++ p.text, warnings := warnings ++ p.warnings }, r)
    if c = '\\' then
      let (e, n) := escape rest
      more [e] [] (rest.drop n) args
    else if c ≠ '%' then more [c] [] rest args
    else if rest.head? = some '%' then more ['%'] [] (rest.drop 1) args
    else
      match takeConversion? rest args with
      | none => ({ error := some "missing format character".toList }, [], true)
      | some spec =>
        match spec.conversion.convert? (spec.args.headD []) with
        | none =>
          ({ warnings := spec.warnings
             error := some ('%' :: spec.written ++ ": invalid directive".toList) }, [], true)
        | some (shown, warnings, ends) =>
          if spec.isTooLong then
            ({ warnings := spec.warnings ++ warnings
               error := some "xvsnprintf failed".toList }, [], true)
          else if ends then ({ text := shown, warnings := spec.warnings ++ warnings }, [], true)
          else more shown (spec.warnings ++ warnings) spec.rest (spec.args.drop 1)
  | _, _ => ({}, args, false)

def formatAll (fuel : Nat) (format : List Char) (args : List (List Char)) : Printed :=
  match fuel with
  | 0 => {}
  | fuel + 1 =>
    let (p, left, ends) := formatOnce (format.length + 1) format args
    if ends ∨ left = [] ∨ left.length = args.length then p
    else
      let q := formatAll fuel format left
      { text := p.text ++ q.text, warnings := p.warnings ++ q.warnings, error := q.error }

def printf : List (List Char) → Printed
  | [] | [['-', '-']] => { error := some "usage: printf format [arg ...]".toList }
  | ['-', '-'] :: format :: args => formatAll (args.length + 1) format args
  | ('-' :: option :: _) :: _ =>
    { error := some ("Illegal option -".toList ++ [option]) }
  | format :: args => formatAll (args.length + 1) format args

end Script
end MachTree
