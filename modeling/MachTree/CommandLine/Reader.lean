import MachTree.CommandLine.Basic
import MachTree.Text.Digit
import MachTree.Text.Split

/-! The command line read into a request.  All arguments are told apart first, flags from operands;
then flags are obeyed from left to right up to the command, and the rest belongs to the command. -/
namespace MachTree
namespace CommandLine

inductive Token
  | operand
  /-- two dashes, after which everything is an operand -/
  | separator
  /-- a flag under one of its spellings, with the value attached to it -/
  | flag (f : Flag) (spelling : String) (value : Option String)
  /-- what looks like a flag and is none -/
  | unknown
deriving DecidableEq, Repr

/-- A dash and digits, with at most one point among or before them. -/
def isNegativeNumber (arg : List Char) : Bool :=
  match arg with
  | '-' :: body =>
    let body := if body.getLast? = some '\n' then body.dropLast else body
    match Text.splitOn '.' body with
    | [whole] => whole ≠ [] && whole.all Text.isDecimalDigit
    | [whole, part] =>
      whole.all Text.isDecimalDigit && part ≠ [] && part.all Text.isDecimalDigit
    | _ => false
  | _ => false

/-- An argument cut at its first equals sign. -/
def splitValue (arg : List Char) : String × Option String :=
  match Text.splitAt? ['='] arg with
  | some (name, value) => (String.ofList name, some (String.ofList value))
  | none => (String.ofList arg, none)

/-- The flags that an argument may stand for without being a spelling: long flags by the start of
their name, short flags with their value attached. -/
def candidates (spellings : Spellings) (arg : List Char) : List (String × Flag × Option String) :=
  match arg with
  | '-' :: '-' :: _ =>
    let (name, value) := splitValue arg
    (spellings.filter fun s => name.toList.isPrefixOf s.1.toList).map fun s => (s.1, s.2, value)
  | '-' :: letter :: rest =>
    (spellings.filter fun s => s.1.toList = ['-', letter]).map fun s =>
      (s.1, s.2, some (String.ofList rest))
  | _ => []

/-- An argument that is no spelling of a flag, by the flags that it may stand for. -/
def tokenOfCandidates (arg : String) :
    List (String × Flag × Option String) → Except Misuse Token
  | [] =>
    .ok (if isNegativeNumber arg.toList || arg.toList.contains ' ' then .operand else .unknown)
  | [(spelling, f, value)] => .ok (.flag f spelling value)
  | several => .error (.ambiguous arg (several.map Prod.fst))

def token (spellings : Spellings) (arg : String) : Except Misuse Token :=
  if arg = "--" then .ok .separator
  else if arg = "-" ∨ arg.toList.head? ≠ some '-' then .ok .operand
  else
    match spellings.find? fun s => s.1 = arg with
    | some s => .ok (.flag s.2 s.1 none)
    | none =>
      let (name, value) := splitValue arg.toList
      match spellings.find? fun s => value.isSome ∧ s.1 = name with
      | some s => .ok (.flag s.2 s.1 value)
      | none => tokenOfCandidates arg (candidates spellings arg.toList)

def tokens (spellings : Spellings) : List String → Except Misuse (List (String × Token))
  | [] => .ok []
  | arg :: rest =>
    match token spellings arg with
    | .error e => .error e
    | .ok .separator => .ok ((arg, .separator) :: rest.map fun a => (a, .operand))
    | .ok t => (tokens spellings rest).map ((arg, t) :: ·)

/-- The flags that are written together behind one dash, up to the last.  A flag without operand may
be followed by further letters; each has to be a flag. -/
def cluster (spellings : Spellings) (f : Flag) (single : Bool) :
    List Char → Except Misuse (List Flag)
  | [] => .error (.unusedValue f "")
  | letter :: rest =>
    if !single then .error (.unusedValue f (String.ofList (letter :: rest)))
    else
      match spellings.find? fun s => s.1.toList = ['-', letter] with
      | none => .error (.unusedValue f (String.ofList (letter :: rest)))
      | some s =>
        if rest = [] then .ok [f, s.2]
        else (cluster spellings s.2 single rest).map (f :: ·)

def isSingleDash (spelling : String) : Bool := spelling.toList[1]? ≠ some '-'

def Operand.ofText (s : String) : Operand :=
  if s = "--" then .nothing else .path (Path.ofString s)

def Options.setOperand (o : Options) (f : Flag) (operand : Operand) : Options :=
  match f with
  | .root => { o with root := some operand }
  | .settings => { o with settings := some operand }
  | .logFile => { o with logFile := some operand }
  | _ => o

/-- Obeys flags without operand, until one asks for a page or the version. -/
def obey (page : Page) : Options → List Flag → Options ⊕ Request
  | o, [] => .inl o
  | _, .help :: _ => .inr (.help page)
  | _, .version :: _ => .inr .version
  | o, .verbose :: rest => obey page { o with verbose := true } rest
  | o, _ :: rest => obey page o rest

def flagsOf (spellings : Spellings) (f : Flag) (spelling : String) :
    Option String → Except Misuse (List Flag)
  | none => .ok [f]
  | some value => cluster spellings f (isSingleDash spelling) value.toList

/-- The arguments of a command: its source, if it takes one, and those that mean nothing. -/
structure CommandArgs where
  source : Option String := none
  extras : List String := []

def skipSeparator : List (String × Token) → List (String × Token)
  | (_, .separator) :: rest => rest
  | ts => ts

theorem length_skipSeparator_le (ts : List (String × Token)) :
    (skipSeparator ts).length ≤ ts.length := by
  unfold skipSeparator
  split <;> simp

/-- Reads the arguments of a command.  A separator before or after the source goes with it. -/
def commandArgs (page : Page) (takesSource : Bool) (a : CommandArgs) :
    List (String × Token) → Except Misuse (CommandArgs ⊕ Request)
  | [] => .ok (.inl a)
  | (arg, .unknown) :: rest =>
    commandArgs page takesSource { a with extras := a.extras ++ [arg] } rest
  | (_, .flag f spelling value) :: rest =>
    match flagsOf commandSpellings f spelling value with
    | .error e => .error e
    | .ok flags =>
      match obey page {} flags with
      | .inr request => .ok (.inr request)
      | .inl _ => commandArgs page takesSource a rest
  | (arg, .separator) :: rest =>
    if takesSource ∧ a.source = none ∧ rest ≠ [] then commandArgs page takesSource a rest
    else commandArgs page takesSource { a with extras := a.extras ++ [arg] } rest
  | (arg, .operand) :: rest =>
    if takesSource ∧ a.source = none then
      commandArgs page takesSource { a with source := some arg } (skipSeparator rest)
    else commandArgs page takesSource { a with extras := a.extras ++ [arg] } rest
termination_by ts => ts.length
decreasing_by
  all_goals simp
  have := length_skipSeparator_le rest
  omega

def Command.ofArgs? (name : CommandName) (source : Option String) : Option Command :=
  match name, source with
  | .config, some s => some (.config (Path.ofString s))
  | .compile, some s => some (.compile (Path.ofString s))
  | .includes, _ => some .includes
  | .state, _ => some .state
  | _, none => none

/-- Reads a command with its arguments; `extras` are the unknown flags before it. -/
def command (o : Options) (extras : List String) (name : String) (args : List String) :
    Except Refusal Request :=
  match CommandName.ofText? name with
  | none => .error ⟨.tool, .unknownCommand name⟩
  | some name =>
    let page := Page.command name
    match (tokens commandSpellings args).bind (commandArgs page name.takesSource {}) with
    | .error e => .error ⟨page, e⟩
    | .ok (.inr request) => .ok request
    | .ok (.inl a) =>
      match Command.ofArgs? name a.source, extras ++ a.extras with
      | none, _ => .error ⟨page, .missingSource⟩
      | some c, [] => .ok (.run o c)
      | some _, extras => .error ⟨.tool, .unrecognized extras⟩

/-- The request when no command is named: the tool's page. -/
def withoutCommand (extras : List String) : Except Refusal Request :=
  if extras = [] then .ok (.help .tool) else .error ⟨.tool, .unrecognized extras⟩

def toolArgs (o : Options) (extras : List String) :
    List (String × Token) → Except Refusal Request
  | [] => withoutCommand extras
  | (arg, .unknown) :: rest => toolArgs o (extras ++ [arg]) rest
  | (arg, .separator) :: rest =>
    if rest = [] then withoutCommand (extras ++ [arg]) else command o extras arg (rest.map Prod.fst)
  | (arg, .operand) :: rest => command o extras arg (rest.map Prod.fst)
  | (_, .flag f spelling value) :: rest =>
    if f.takesOperand then
      match value, rest with
      | some value, rest => toolArgs (o.setOperand f (.ofText value)) extras rest
      | none, (operand, .operand) :: rest =>
        toolArgs (o.setOperand f (.ofText operand)) extras rest
      | none, _ => .error ⟨.tool, .missingOperand f⟩
    else
      match flagsOf toolSpellings f spelling value with
      | .error e => .error ⟨.tool, e⟩
      | .ok flags =>
        match obey .tool o flags with
        | .inr request => .ok request
        | .inl o => toolArgs o extras rest

def read (args : List String) : Except Refusal Request :=
  match tokens toolSpellings args with
  | .error e => .error ⟨.tool, e⟩
  | .ok ts => toolArgs {} [] ts

end CommandLine
end MachTree
