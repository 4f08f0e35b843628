/-! The command language of scripts: words with quoting and substitutions, and commands in lists,
pipes, branches and loops.  Text is a list of bytes, each as the character of its value. -/
namespace MachTree
namespace Script

/-- What becomes of a parameter; `empty` says whether one that is set but empty counts as not
set. -/
inductive ParamRule
  | value
  | length
  | orElse (empty : Bool)
  | orAssign (empty : Bool)
  | orComplain (empty : Bool)
  | ifSet (empty : Bool)
  /-- without the part at one end that fits a pattern -/
  | trim (atEnd longest : Bool)
  | none
deriving DecidableEq, Repr

inductive Direction
  | input
  | output
  /-- output that goes over a file that is there, whatever the options say -/
  | overwrite
  | append
  | both
  | duplicate
  /-- input from the text with a number among those that stand in the script -/
  | document (index : Nat)
deriving DecidableEq, Repr

mutual

/-- A part of a word.  What a quoted part stands for is not cut into fields. -/
inductive Piece
  | text (cs : List Char) (isQuoted : Bool)
  /-- a place with quotes, which make a field even if there is nothing in them -/
  | quotes
  | param (name : List Char) (rule : ParamRule) (operand : List Piece) (isQuoted : Bool)
  /-- what a command prints -/
  | output (body : Command) (isQuoted : Bool)
  | arithmetic (expression : List Piece) (isQuoted : Bool)

inductive Redirect
  | mk (fd : Nat) (direction : Direction) (target : List Piece)

inductive Command
  | nothing
  | simple (line : Nat) (assignments words : List (List Piece)) (redirects : List Redirect)
  | both (a b : Command)
  | andThen (a b : Command)
  | orElse (a b : Command)
  | negate (a : Command)
  | background (a : Command)
  | pipe (stages : List Command)
  | branch (condition yes no : Command)
  /-- a loop that goes on while its condition holds, or until it does -/
  | loop (whileTrue : Bool) (condition body : Command)
  | each (line : Nat) (name : List Char) (words : List (List Piece)) (body : Command)
  | choose (line : Nat) (word : List Piece) (choices : List (List (List Piece) × Command))
  /-- a subshell keeps what it changes to itself -/
  | subshell (line : Nat) (body : Command) (redirects : List Redirect)
  | redirected (line : Nat) (body : Command) (redirects : List Redirect)
  | define (name : List Char) (body : Command)

end

abbrev Word := List Piece

instance : Inhabited Command := ⟨.nothing⟩

/-- The texts that stand in a script as input of its commands, by their numbers. -/
abbrev Documents := List (Nat × Word)

/-- A command with the texts that stand in its script. -/
structure Portion where
  command : Command
  documents : Documents
deriving Inhabited

def isNameStart (c : Char) : Bool := c.isAlpha || c == '_'
def isNameChar (c : Char) : Bool := c.isAlphanum || c == '_'

def isName (cs : List Char) : Bool := cs.head?.any isNameStart && cs.all isNameChar

def isSpecial (c : Char) : Bool := c.isDigit || c ∈ ['#', '?', '@', '*', '$', '!', '-']

inductive Mark
  | ended | newline | semi | amp | andAnd | orOr | bar | openParen | closeParen | semiSemi | bang
  | caseWord | doWord | doneWord | elifWord | elseWord | esacWord | fiWord | forWord | ifWord
  | inWord | thenWord | untilWord | whileWord | openBrace | closeBrace
deriving DecidableEq, Repr

namespace Mark

def text : Mark → String
  | .ended => ""
  | .newline => "\n"
  | .semi => ";"
  | .amp => "&"
  | .andAnd => "&&"
  | .orOr => "||"
  | .bar => "|"
  | .openParen => "("
  | .closeParen => ")"
  | .semiSemi => ";;"
  | .bang => "!"
  | .caseWord => "case"
  | .doWord => "do"
  | .doneWord => "done"
  | .elifWord => "elif"
  | .elseWord => "else"
  | .esacWord => "esac"
  | .fiWord => "fi"
  | .forWord => "for"
  | .ifWord => "if"
  | .inWord => "in"
  | .thenWord => "then"
  | .untilWord => "until"
  | .whileWord => "while"
  | .openBrace => "\x7b"
  | .closeBrace => "\x7d"

def shown : Mark → String
  | .ended => "end of file"
  | .newline => "newline"
  | m => "\"" ++ m.text ++ "\""

def reserved : List Mark :=
  [.bang, .caseWord, .doWord, .doneWord, .elifWord, .elseWord, .esacWord, .fiWord, .forWord,
    .ifWord, .inWord, .thenWord, .untilWord, .whileWord, .openBrace, .closeBrace]

def ofWord? (cs : List Char) : Option Mark := reserved.find? fun m => m.text.toList = cs

def listEnds : List Mark :=
  [.ended, .closeParen, .semiSemi, .doWord, .doneWord, .elifWord, .elseWord, .esacWord, .fiWord,
    .thenWord, .closeBrace]

end Mark

inductive Token
  | mark (m : Mark)
  | word (w : Word)
  | redirect (fd : Nat) (direction : Direction)
  /-- input from a text that follows; leading tabs may be taken away -/
  | document (fd : Nat) (dropsTabs : Bool)

def Token.shown : Token → String
  | .mark m => m.shown
  | .word _ => "word"
  | .redirect _ _ | .document _ _ => "redirection"

def Token.is (m : Mark) : Token → Bool
  | .mark n => m = n
  | _ => false

def Piece.plain? : Piece → Option (List Char)
  | .text cs false => some cs
  | _ => none

def plain? (w : Word) : Option (List Char) := (w.mapM Piece.plain?).map List.flatten

/-- The text of a word whose substitutions have no meaning, and whether it has quotes. -/
def literal (w : Word) : List Char × Bool :=
  (w.flatMap fun
    | .text cs _ => cs
    | _ => [],
  w.any fun
    | .text _ isQuoted => isQuoted
    | .quotes => true
    | _ => false)

def leadingText : Word → List Char × Word
  | .text cs false :: rest => let (more, rest) := leadingText rest; (cs ++ more, rest)
  | rest => ([], rest)

def assignment? (w : Word) : Option (List Char × Word) :=
  let (front, rest) := leadingText w
  let name := front.takeWhile isNameChar
  match front.drop name.length with
  | '=' :: value => if isName name then some (name, .text value false :: rest) else none
  | _ => none

inductive SyntaxError
  | unexpected (found : Token) (expected : Option Token)
  | unterminatedQuote
  | unterminatedBackquote
  | missingBrace
  | missingParentheses
  | badLoopVariable
  | badFunctionName
  | badFileNumber

def SyntaxError.message : SyntaxError → String
  | .unexpected found expected =>
    found.shown ++ " unexpected" ++
      (expected.elim "" fun t => " (expecting " ++ t.shown ++ ")")
  | .unterminatedQuote => "Unterminated quoted string"
  | .unterminatedBackquote => "EOF in backquote substitution"
  | .missingBrace => "Missing '\x7d'"
  | .missingParentheses => "Missing '))'"
  | .badLoopVariable => "Bad for loop variable"
  | .badFunctionName => "Bad function name"
  | .badFileNumber => "Bad fd number"

def SyntaxError.complaint (e : SyntaxError) : List Char := ("Syntax error: " ++ e.message).toList

end Script
end MachTree
