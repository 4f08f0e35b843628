import MachTree.Script.Builtin.Basic

/-! Signals and what is done on them, commands in the background, and the permissions of new
files. -/
namespace MachTree
namespace Script

def listTraps (st : State) : State :=
  st.tell ((List.range Signal.names.length).flatMap fun n =>
    match st.traps.get? n with
    | some action => "trap -- ".toList ++ shownValue action ++ ' ' :: Signal.nameOf n ++ ['\n']
    | none => [])

def runTrap (st : State) (args : Args) : State :=
  st.withFlags true "" args fun _ args =>
    match args with
    | [] => listTraps st
    | action :: names =>
      let isSignal : Bool := names = [] || (Signal.ofNumber? action).isSome
      let clears : Bool := isSignal || action = ['-']
      (if isSignal then args else names).foldl (fun st name =>
        if st.status ≠ 0 then st
        else
          match Signal.of? true name with
          | some n =>
            { st with
              traps := if clears then st.traps.erase n else st.traps.insert n action }
          | none =>
            st.printErr ("trap: ".toList ++ name ++ ": bad trap\n".toList) |>.withStatus 1)
        st.succeed

def killUsage : List Char :=
  ("Usage: kill [-s sigspec | -signum | -sigspec] [pid | job]... or\n" ++
    "kill -l [exitstatus]").toList

def listSignals (st : State) (args : Args) : State :=
  match args with
  | [] => st.tell ("0\n".toList ++ (Signal.names.drop 1).flatMap fun name => (name ++ "\n").toList)
  | status :: _ =>
    match Arithmetic.naturalOf? status with
    | none => st.failWith 2 (State.illegalNumber status)
    | some n =>
      let n := if 128 < n then n - 128 else n
      if 0 < n ∧ n < Signal.names.length then st.tell (Signal.nameOf n ++ ['\n'])
      else st.failWith 2 ("invalid signal number or exit status: ".toList ++ status)

def sendSignal (st : State) (n : Nat) (targets : Args) : State :=
  let unknown (st : State) : State := st.failWith 1 "No such process\n".toList
  targets.foldl (fun st target =>
    if st.status = 2 || st.isOver then st
    else if target.head? = some '%' then
      match st.jobs.named target with
      | .ok _ => unknown st
      | .error what => st.failWith 2 what
    else
      let isGroup : Bool := target.head? = some '-'
      let written := if isGroup then target.drop 1 else target
      match Arithmetic.naturalOf? written with
      | none => st.failWith 2 (State.illegalNumber written)
      | some pid =>
        let isOutside : Bool := pid = st.first - 1 || pid = 1
        if !isGroup && (st.processes.get? pid).isSome then
          { st with toWorld := st.published.deliver pid n }
        else if !isGroup && isOutside then st
        else unknown st) st.succeed

def runKill (st : State) (args : Args) : State :=
  let send (n : Nat) (targets : Args) : State :=
    if targets = [] then st.failWith 2 killUsage else sendSignal st n targets
  let named : Option Nat :=
    match args with
    | ('-' :: name) :: _ => Signal.of? false name
    | _ => none
  match args, named with
  | [], _ => st.failWith 2 killUsage
  | _ :: targets, some n => send n targets
  | args, none =>
    if (args.headD []).head? ≠ some '-' then send 15 args
    else
      st.withFlags false "ls:" args fun flags targets =>
        let asked := flags.filter fun f => f.1 = 's'
        match asked.find? fun f => (Signal.of? false f.2).isNone with
        | some f => st.failWith 2 ("invalid signal number or name: ".toList ++ f.2)
        | none =>
          if flags.any fun f => f.1 = 'l' then
            if asked = [] then listSignals st targets else st.failWith 2 killUsage
          else send ((asked.getLast?.bind fun f => Signal.of? false f.2).getD 15) targets

/-- Complains that there is no job control for the first of some jobs. -/
def runForeground (st : State) (args : Args) : State :=
  match st.jobs.named (args.headD ['%']) with
  | .ok _ =>
    let name := args.headD "(null)".toList
    st.failWith 2 ("job ".toList ++ name ++ " not created under job control".toList)
  | .error what => st.failWith 2 what

def tellJob (letter : Option Char) (st : State) (n : Nat) : State :=
  let j := (st.jobs.get? n).getD {}
  if letter = some 'p' then
    (st.print 1 (shownNat ((j.members.head?.map Prod.fst).getD 0) ++ ['\n'])).1
  else
    let st := (st.print 1 (st.jobs.shown n j (letter = some 'l'))).1
    if j.isDone then { st with jobs := st.jobs.remove n } else st

def runJobs (st : State) (args : Args) : State :=
  st.withFlags false "lp" args fun flags args =>
    let letter := flags.getLast?.map Prod.fst
    if args = [] then
      let st := st.hearEndings none
      st.jobs.order.foldl (tellJob letter) st.succeed
    else
      args.foldl (fun st word =>
        if st.status ≠ 0 then st
        else
          match st.jobs.named word with
          | .ok n => tellJob letter st n
          | .error what => st.failWith 2 what) st.succeed

def shownPermissions (letter : Char) (bits : Nat) : List Char :=
  letter :: '=' :: ([('r', 4), ('w', 2), ('x', 1)].filter fun e => bits / e.2 % 2 = 1).map Prod.fst

def permissionBits (granted : Nat) : List Char → Nat
  | [] => 0
  | c :: rest =>
    let bits :=
      if c = 'r' then 4 else if c = 'w' then 2 else if c = 'x' then 1
      else if c = 'u' then granted / 64 % 8 else if c = 'g' then granted / 8 % 8
      else if c = 'o' then granted % 8 else 0
    bits ||| permissionBits granted rest

def changePermissions (granted : Nat) (change : List Char) : Option Nat :=
  let who := change.takeWhile fun c => c ∈ ['u', 'g', 'o', 'a']
  match change.drop who.length with
  | sign :: letters =>
    if sign ∉ ['+', '-', '='] ∨ letters.any (· ∉ ['r', 'w', 'x', 's', 'u', 'g', 'o']) then none
    else
      let who := if who = [] then ['a'] else who
      let places :=
        [('u', 64), ('g', 8), ('o', 1)].filter fun e => e.1 ∈ who || 'a' ∈ who
      let bits := permissionBits granted letters
      some (places.foldl (fun n e =>
        let own := n / e.2 % 8
        let new :=
          if sign = '+' then own ||| bits else if sign = '-' then own - (own &&& bits) else bits
        n - own * e.2 + new * e.2) granted)
  | [] => none

def runMask (st : State) (args : Args) : State :=
  st.withFlags false "S" args fun flags args =>
    let granted := 511 - st.mask
    match args with
    | [] =>
      if flags = [] then
        let ds := Nat.toDigits 8 st.mask
        st.tell (List.replicate (4 - ds.length) '0' ++ ds ++ ['\n'])
      else
        st.tell ([','].intercalate [shownPermissions 'u' (granted / 64 % 8),
          shownPermissions 'g' (granted / 8 % 8), shownPermissions 'o' (granted % 8)] ++ ['\n'])
    | word :: _ =>
      if word.head?.any Char.isDigit then
        if word.all fun c => (Arithmetic.digitValue? 8 c).isSome then
          { st with mask := Arithmetic.valueOf 8 word % 512 }.succeed
        else st.failWith 2 (State.illegalNumber word)
      else
        match (Text.splitOn ',' word).foldl (fun n change =>
            n.bind fun n => changePermissions n change) (some granted) with
        | some n => { st with mask := 511 - n }.succeed
        | none => st.failWith 2 ("Illegal mode: ".toList ++ word)

end Script
end MachTree
