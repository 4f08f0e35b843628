import MachTree.Script.Builtin.Basic
import MachTree.Script.Expansion

/-! The input, the variables, the options and the arguments of a script. -/
namespace MachTree
namespace Script

/-- A line that is read: its characters, each with whether a backslash stood before it; how many
characters were read; and whether the line has ended. -/
structure Line where
  chars : List Glyph := []
  length : Nat := 0
  isEnded : Bool := false

/-- The line at the front of an input.  A backslash takes the meaning from the next character, and
joins lines. -/
def takeLine (isRaw : Bool) : List Char → Line
  | [] => {}
  | '\n' :: _ => { length := 1, isEnded := true }
  | '\\' :: rest =>
    if isRaw then
      let l := takeLine isRaw rest
      { l with chars := ⟨'\\', false⟩ :: l.chars, length := l.length + 1 }
    else
      match rest with
      | [] => { length := 1 }
      | '\n' :: rest =>
        let l := takeLine isRaw rest
        { l with length := l.length + 2 }
      | c :: rest =>
        let l := takeLine isRaw rest
        { l with chars := ⟨c, true⟩ :: l.chars, length := l.length + 2 }
  | c :: rest =>
    let l := takeLine isRaw rest
    if c = '\x00' then { l with length := l.length + 1 }
    else { l with chars := ⟨c, false⟩ :: l.chars, length := l.length + 1 }

/-- A line while it is cut into as many fields as there are variables. -/
structure Deal where
  done : List (List Char) := []
  current : List Char := []
  /-- the fields that are still to begin after this one; the last takes the rest of the line -/
  more : Nat
  isLast : Bool := false
  /-- the length of the last field without the separators at its end -/
  kept : Option Nat := none
  afterBlank : Bool := false

def Deal.step (separators : List Char) (f : Deal) (g : Glyph) : Deal :=
  let c := g.char
  let isSeparator : Bool := c ∈ separators
  let isBlank := isSeparator && isBlankSeparator c
  let add (f : Deal) : Deal := { f with current := c :: f.current }
  if g.isQuoted then { add f with afterBlank := false }
  else if f.isLast then
    if isBlank then add { f with kept := some (f.kept.getD f.current.length) }
    else add { f with
      kept := if isSeparator && f.afterBlank then f.kept else none
      afterBlank := false }
  else if f.afterBlank && isSeparator then
    if isBlank then f else { f with afterBlank := false }
  else if isSeparator then
    if isBlank ∧ f.current = [] then f
    else if f.more = 0 then
      add { f with isLast := true, kept := some f.current.length, afterBlank := isBlank }
    else
      { f with
        done := f.current.reverse :: f.done, current := [], more := f.more - 1
        afterBlank := isBlank }
  else { add f with afterBlank := false }

def dealLine (separators : List Char) (n : Nat) (line : List Glyph) : List (List Char) :=
  let f := line.foldl (Deal.step separators) { more := n - 1 }
  let last := f.current.reverse
  (f.done.reverse ++ [f.kept.elim last last.take])

def readNames (isRaw : Bool) (names : Args) (st : State) : State :=
  match st.input 0 with
  | none => (names.foldl (fun st name => st.assign name []) st).withStatus 1
  | some text =>
    let line := takeLine isRaw text
    let fields := dealLine st.separators names.length line.chars
    let st := (st.advance 0 line.length).withStatus (if line.isEnded then 0 else 1)
    names.zipIdx.foldl (fun st e =>
      if !st.isGoing ∨ st.status = 2 then st
      else if isName (variableName e.1) then
        let after := st.assign (variableName e.1) (fields[e.2]?.getD [])
        if after.isGoing then after.withStatus st.status else after
      else st.failWith 2 (e.1 ++ ": bad variable name".toList)) st

/-- Whether a line can be read from a pipe, or nothing more will come. -/
def hasLine (isRaw : Bool) (pipe : Nat) (w : World) : Bool :=
  let p := w.pipeOf pipe
  (takeLine isRaw p.front).isEnded || (p.back ≠ [] && (takeLine isRaw p.text).isEnded) ||
    !w.hasEnd none (.sink pipe)

/-- Reads a line of the input, and waits for it if it is to come through a pipe. -/
def runRead (args : Args) : Act Unit := do
  match takeFlags "p:r".toList [] args with
  | .error what => modify fun st => st.failWith 2 what
  | .ok (_, []) => modify fun st => st.failWith 2 "arg count".toList
  | .ok (flags, names) =>
    let isRaw : Bool := flags.any fun f => f.1 = 'r'
    let st ← get
    match st.channel? 0 with
    | some (.source pipe) => Act.await fun w => w.hasPending st.self || hasLine isRaw pipe w
    | _ => pure ()
    modify (readNames isRaw names)

def listVariables (st : State) (front : List Char) (shows : Variable → Bool) : State :=
  let shown := (st.vars.entries.filter fun e => shows e.2).mergeSort fun a b => !decide (b.1 < a.1)
  st.tell (shown.flatMap fun e =>
    front ++ e.1 ++ (e.2.value.elim [] fun v => '=' :: shownValue v) ++ ['\n'])

def markVariables (mark : State → List Char → State) (st : State) (args : Args) : State :=
  args.foldl (fun st a =>
    if !st.isGoing then st
    else
      let name := variableName a
      if !isName name then st.abort (name ++ ": bad variable name".toList)
      else
        let st := if name.length < a.length then st.assign name (a.drop (name.length + 1)) else st
        if st.isGoing then mark st name else st) st.succeed

def runMark (front : String) (shows : Variable → Bool) (mark : State → List Char → State)
    (st : State) (args : Args) : State :=
  st.withFlags true "p" args fun flags args =>
    if flags = [] ∧ args ≠ [] then markVariables mark st args
    else listVariables st front.toList shows

def runLocal (st : State) (args : Args) : State :=
  if st.locals = [] then st.abort "not in a function".toList
  else
    markVariables (fun st _ => st)
      (args.foldl (fun st a => st.makeLocal (variableName a)) st) args

def runUnset (st : State) (args : Args) : State :=
  st.withFlags true "vf" args fun flags args =>
    let isFunction : Bool := flags.getLast?.any fun f => f.1 = 'f'
    args.foldl (fun st name =>
      if !st.isGoing then st
      else if isFunction then { st with functions := st.functions.erase name }
      else
        let name := variableName name
        if !isName name then st.abort (name ++ ": bad variable name".toList)
        else if st.isReadOnly name then st.abort (name ++ ": is read only".toList)
        else if name = "OPTIND".toList then st.abort (State.illegalNumber [])
        else { st with vars := st.vars.erase name }) st.succeed

def optionNames : List (Char × String) :=
  [('e', "errexit"), ('f', "noglob"), ('I', "ignoreeof"), ('i', "interactive"), ('m', "monitor"),
    ('n', "noexec"), ('s', "stdin"), ('x', "xtrace"), ('v', "verbose"), ('V', "vi"),
    ('E', "emacs"), ('C', "noclobber"), ('a', "allexport"), ('b', "notify"), ('u', "nounset"),
    ('p', "privileged"), ('\x00', "nolog"), ('\x01', "debug")]

def setOption (on : Bool) (options : List Char) (c : Char) : List Char :=
  let others := options.filter (· ≠ c)
  if on then c :: others else others

def listOptions (st : State) (asCommands : Bool) : State :=
  let line (e : Char × String) : List Char :=
    let isOn : Bool := e.1 ∈ st.options
    if asCommands then
      ("set " ++ (if isOn then "-o " else "+o ") ++ e.2 ++ "\n").toList
    else
      let name := e.2.toList
      name ++ List.replicate (16 - name.length) ' ' ++ (if isOn then "on\n" else "off\n").toList
  let head := if asCommands then [] else "Current option settings\n".toList
  st.tell (head ++ optionNames.flatMap line)

/-- Sets options from the front of some words, and gives the other words; the words may also be a
command line, on which `c` asks for a command. -/
def takeOptions (onCommandLine : Bool) (st : State) (hasCommand : Bool) :
    Args → State × Bool × Option Args
  | [] => (st, hasCommand, none)
  | w :: rest =>
    match w with
    | ['-'] =>
      if onCommandLine then (st, hasCommand, some rest)
      else
        ({ st with options := setOption false (setOption false st.options 'x') 'v' }, hasCommand,
          if rest = [] then none else some rest)
    | ['-', '-'] => (st, hasCommand, some rest)
    | sign :: letters =>
      if sign ≠ '-' ∧ sign ≠ '+' then (st, hasCommand, some (w :: rest))
      else
        let on : Bool := sign = '-'
        let asksName : Bool := 'o' ∈ letters
        let flags := letters.filter fun c => c ≠ 'o' && !(onCommandLine && c ∈ ['c', 'l'])
        let hasCommand := hasCommand || (onCommandLine && 'c' ∈ letters)
        match flags.find? fun c => !(optionNames.any fun e => e.1 = c) with
        | some c => (st.abort ("Illegal option ".toList ++ [sign, c]), hasCommand, none)
        | none =>
          let st := { st with options := flags.foldl (setOption on) st.options }
          if asksName then
            match rest with
            | [] => (listOptions st (!on), hasCommand, none)
            | name :: rest =>
              match optionNames.find? fun e => e.2.toList = name with
              | some e =>
                takeOptions onCommandLine { st with options := setOption on st.options e.1 }
                  hasCommand rest
              | none =>
                (st.abort ("Illegal option ".toList ++ sign :: "o ".toList ++ name), hasCommand,
                  none)
          else takeOptions onCommandLine st hasCommand rest
    | [] => (st, hasCommand, some (w :: rest))

def runSet (st : State) (args : Args) : State :=
  if args = [] then listVariables st [] fun v => v.value.isSome
  else
    let (st, _, rest) := takeOptions false st.succeed false args
    match rest with
    | some args => { st with args, nextOption := {} }
    | none => st

def runShift (st : State) (args : Args) : State :=
  match args.head?.elim (some 1) Arithmetic.naturalOf? with
  | none => st.abort (State.illegalNumber (args.headD []))
  | some n =>
    if n ≤ st.args.length then { st with args := st.args.drop n }.succeed
    else st.abort "can't shift that many".toList

/-- Finds the next option among words, and tells it by variables. -/
def runGetopts (st : State) (args : Args) : State :=
  match args with
  | spec :: name :: given =>
    let words := if given = [] then st.args else given
    let place := if st.nextOption.index > words.length + 1 then {} else st.nextOption
    let found := nextOption spec words place
    let st := st.printErr found.warning
    let st :=
      match found.argument with
      | none => st
      | some none => { st with vars := st.vars.erase "OPTARG".toList }
      | some (some cs) => st.assign "OPTARG".toList cs
    if !st.isGoing then st
    else
      let st := st.assign "OPTIND".toList (shownNat found.place.index)
      if !st.isGoing then st
      else if !isName (variableName name) then st.abort (name ++ ": bad variable name".toList)
      else
        { st.assign (variableName name) [found.letter] with nextOption := found.place }
          |> fun st => if st.isGoing then st.withStatus (if found.isEnd then 1 else 0) else st
  | _ => st.failWith 2 "Usage: getopts optstring var [arg...]".toList

end Script
end MachTree
