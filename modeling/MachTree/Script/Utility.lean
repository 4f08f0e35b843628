import MachTree.Script.Program
import MachTree.Script.Builtin
import MachTree.Script.Redirection

/-! The programs that are there by themselves and run no others. -/
namespace MachTree
namespace Script

/-- The program that words start, with the words that it gets; or the status and the complaint
without it.  A file that names no interpreter holds commands. -/
def findProgram (st : State) (words : Args) : Except (Nat × List Char) (Program × Args) :=
  let name := words.headD []
  let path := programPath? st name
  let paths := Program.candidates Program.slash st.searchPath (Text.decoded name)
  match Program.find st.files st.dir paths (words.map Text.decoded) with
  | .ok (p, texts) => .ok (p, texts.map Text.encoded)
  | .error .badFormat => .ok (.shell, "/bin/sh".toList :: path.getD name :: words.drop 1)
  | .error r =>
    let isThere : Bool := '/' ∈ name || path.isSome
    let status := if r = .missing ∨ r = .notDirectory ∨ !isThere then 127 else 126
    .error (status, name ++ ": ".toList ++ refusalText "not found" r)

def complainAs (st : State) (name : String) (what : List Char) : State :=
  (st.printErr (name.toList ++ ": ".toList ++ what ++ ['\n'])).withStatus 1

def printAs (name : String) (cs : List Char) : Act Unit := do
  let isPrinted ← modifyGet fun st => let (st, isPrinted) := st.print 1 cs; (isPrinted, st)
  let isSettled ← Act.settle
  let failed (why : String) : Act Unit :=
    modify fun st => complainAs st name ("write error: " ++ why).toList
  if !isSettled then failed "Broken pipe"
  else if !isPrinted then failed "Bad file descriptor"

def catPipe (name : String) (pipe : Nat) (fuel : Nat) : Act Unit := do
  match fuel with
  | 0 => pure ()
  | fuel + 1 =>
    Act.await fun w => 0 < (w.pipeOf pipe).size || !w.hasEnd none (.sink pipe)
    let text := ((← get).pipeOf pipe).text
    if text ≠ [] then
      modify fun st => st.advance 0 text.length
      printAs name text
      if (← get).status = 0 then catPipe name pipe fuel

def catInput (fuel : Nat) (name : String) : Act Unit := do
  let st ← get
  match st.input 0, st.channel? 0 with
  | some _, some (.source pipe) => catPipe name pipe fuel
  | some text, _ =>
    set (st.advance 0 text.length)
    printAs name text
  | none, some .directory => set (complainAs st name "-: Is a directory".toList)
  | none, channel =>
    let st := complainAs st name "-: Bad file descriptor".toList
    set (if channel.isSome then st
      else complainAs st name "closing standard input: Bad file descriptor".toList)

def catFile (fuel : Nat) (name : String) (a : List Char) : Act Unit := do
  let st ← get
  let failed (why : List Char) : Act Unit := set (complainAs st name (a ++ ": ".toList ++ why))
  if a = ['-'] then catInput fuel name
  else
    match st.files.locateText st.dir (Text.decoded a).toList with
    | .error b => failed (refusalText "" (.ofBlocked b))
    | .ok loc =>
      match st.files.node? loc with
      | some (.file bytes _) => printAs name (Text.charsOf bytes)
      | some .directory => failed "Is a directory".toList
      | _ => pure ()

/-- Prints the files that arguments name, one after the other, or the input. -/
def runCat (fuel : Nat) (name : String) (args : Args) : Act Unit := do
  modify State.succeed
  if ((← get).channel? 1).isNone then
    modify fun st => complainAs st name "standard output: Bad file descriptor".toList
  else (if args = [] then [['-']] else args).forM (catFile fuel name)

/-- The length of a time to sleep, in units of a thousandth of a microsecond: a number with a unit
at most. -/
def intervalOf? (cs : List Char) : Option Nat := do
  let ⟨⟨isNegative, size⟩, _, rest⟩ ← Numeral.take? cs
  let seconds ←
    if rest = [] ∨ rest = ['s'] then some 1 else if rest = ['m'] then some 60
    else if rest = ['h'] then some 3600 else if rest = ['d'] then some 86400 else none
  match size with
  | .undefined => none
  | .infinite => if isNegative then none else some (Nat.pow 10 30)
  | .finite mantissa exponent =>
    if isNegative ∧ mantissa ≠ 0 then none
    else
      let q := Fraction.scale 2 ⟨mantissa * seconds * 1000000000, 1⟩ exponent
      some (q.num / q.den)

def runSleep (name : String) (args : Args) : Act Unit := do
  let advise (st : State) : State :=
    (st.printErr ("Try '" ++ name ++ " --help' for more information.\n").toList).withStatus 1
  modify State.succeed
  if args = [] then modify fun st => advise (complainAs st name "missing operand".toList)
  else
    match args.find? fun a => a.head? = some '-' ∧ a ≠ ['-'] with
    | some ('-' :: '-' :: rest) =>
      modify fun st =>
        advise (complainAs st name ("unrecognized option '--".toList ++ rest ++ ['\x27']))
    | some (_ :: c :: _) =>
      modify fun st => advise (complainAs st name ("invalid option -- '".toList ++ [c, '\x27']))
    | _ =>
      match args.filter fun a => (intervalOf? a).isNone with
      | [] => Act.pause ((args.filterMap intervalOf?).foldl (· + ·) 0) fun _ => true
      | bad =>
        modify fun st => advise (bad.foldl (fun st a =>
          complainAs st name ("invalid time interval '".toList ++ a ++ ['\x27'])) st)

/-- The options in front of what a program echoes: whether the line is ended, and whether escapes
are understood. -/
def echoOptions (ends escapes : Bool) : Args → Bool × Bool × Args
  | ('-' :: c :: more) :: rest =>
    if (c :: more).all fun c => c ∈ ['n', 'e', 'E'] then
      let flags := c :: more
      let escapes :=
        flags.foldl (fun b c => if c = 'e' then true else if c = 'E' then false else b) escapes
      echoOptions (ends && !('n' ∈ flags)) escapes rest
    else (ends, escapes, ('-' :: c :: more) :: rest)
  | args => (ends, escapes, args)

def echoed (args : Args) : List Char :=
  let (ends, escapes, args) := echoOptions true false args
  if escapes then echoText ends args
  else [' '].intercalate args ++ if ends then ['\n'] else []

def runSmall (fuel : Nat) (p : Program) (words : Args) : Act Unit := do
  let args := words.drop 1
  let name := String.ofList (words.headD [])
  match p with
  | .cat => runCat fuel name args
  | .echo =>
    modify State.succeed
    printAs name (echoed args)
  | .format =>
    modify fun st => runPrintf { st with hasLost := false } args
    let _ ← Act.settle
    if (← get).hasLost then
      modify fun st => complainAs st name "write error: Bad file descriptor".toList
  | .printDirectory =>
    modify State.succeed
    printAs name (Text.encoded (← get).dir.toString ++ ['\n'])
  | .check =>
    modify (runAtOnce (if words.head?.any (·.getLast? = some '[') then "[" else "test") args)
  | .fail => modify fun st => st.withStatus 1
  | .sleep => runSleep name args
  | .succeed | .shell | .withVariables => modify State.succeed

end Script
end MachTree
