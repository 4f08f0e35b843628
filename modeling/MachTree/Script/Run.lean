import MachTree.Script.Control
import MachTree.Script.Start
import MachTree.Script.Utility
import MachTree.Script.VariableRequest
import MachTree.Script.Words

/-! Scripts run on a file tree.  Commands run one after the other, and those in pipes and in the
background at the same time; what a script prints goes to its channels, and files change as it
writes them. -/
namespace MachTree
namespace Script

def commandTime : Nat := 1000

def maxDepth : Nat := 1000

def breathe (time : Nat) : Act Unit := Act.pause time fun _ => true

/-- The words of a command that is to be run past functions, unless something is asked about it. -/
def pastOptions : Args → Option Args
  | [] => none
  | ['-', '-'] :: args => some args
  | ('-' :: c :: more) :: args =>
    if (c :: more).all (· = 'p') then pastOptions args else none
  | args => some args

def sourcePath? (st : State) (file : List Char) : Option String :=
  if '/' ∈ file then some (Text.decoded file)
  else
    (Program.candidates Program.slash st.searchPath (Text.decoded file)).find? fun path =>
      match st.files.locateText st.dir path.toList with
      | .ok loc => (st.files.node? loc).any Files.Node.isFile
      | .error _ => false

def fileText (st : State) (loc : Location) : List Char :=
  (Text.charsOf (st.fileBytes loc)).filter (· ≠ '\x00')

def anyFits (perform : Command → Act (List Char)) (text : List Char) : List Word → Act Bool
  | [] => pure false
  | w :: rest => do
    let p ← expandPattern perform w
    if !(← get).isGoing then pure false
    else if p.fits text then pure true
    else anyFits perform text rest

/-- The signal with the least number among those that have come and that nothing was done on. -/
def nextSignal? (st : State) : Option Nat :=
  (st.processes.get? st.self).bind fun p => p.pending.min?

def dropSignal (n : Nat) (st : State) : State :=
  match st.processes.get? st.self with
  | some p =>
    { st with processes :=
        st.processes.insert st.self { p with pending := p.pending.filter (· ≠ n) } }
  | none => st

def aliasesAtEnd (text : List Char) (r : Reader) : List (List Char) :=
  let isUnended : Bool := r.rest = [] && text.getLast? ≠ some '\n'
  let left := if isUnended then 0 else r.rest.length + 1
  (r.openAliases.filter fun a => a.left = left).map OpenAlias.name

/-- Lets go of the aliases that have been held; those that are to go do so. -/
def releaseAliases (before : State) (held : List (List Char)) (st : State) : State :=
  let gone := st.doomedAliases.filter fun name => held.contains name
  { st with
    aliases := gone.foldl Table.erase st.aliases
    doomedAliases := st.doomedAliases.filter fun name => !held.contains name
    heldAliases := before.heldAliases }

mutual

def runCommand (fuel : Nat) (docs : Documents) (m : Mode) (c : Command) : Act Unit := do
  match fuel with
  | 0 => pure ()
  | fuel + 1 =>
    if c matches .nothing then return
    if 'n' ∈ (← get).options then return
    answerSignals fuel
    if !(← get).isGoing then return
    let rest : Mode := { m with isLast := false }
    let asked : Mode := { tested := true }
    match c with
    | .nothing => pure ()
    | .simple line assignments words redirects =>
      modify fun st => { st with line, outputStatus := 0 }
      runSimple fuel docs m assignments words redirects
      breathe commandTime
    | .both a b =>
      runCommand fuel docs rest a
      runCommand fuel docs m b
    | .andThen a b =>
      runCommand fuel docs asked a
      let st ← get
      if st.isGoing && st.status = 0 then runCommand fuel docs m b
    | .orElse a b =>
      runCommand fuel docs asked a
      let st ← get
      if st.isGoing && st.status ≠ 0 then runCommand fuel docs m b
    | .negate a =>
      runCommand fuel docs asked a
      modify fun st => if st.isGoing then st.withStatus (if st.status = 0 then 1 else 0) else st
    | .background (.pipe stages) =>
      runStages fuel docs m true (← addJob) (← get).kept none stages
      modify State.succeed
    | .background a =>
      let pid ← startMember partTime (← addJob) (backgroundState true) (runInner fuel docs {} a)
      modify fun st => { st.succeed with backgroundProcess := some pid }
    | .pipe stages =>
      let job ← addJob
      runStages fuel docs m false job (← get).kept none stages
      let status ← awaitJob fuel job
      modify fun st => st.withStatus status
    | .branch condition yes no =>
      runCommand fuel docs asked condition
      let st ← get
      if !st.isGoing then pure ()
      else if st.status = 0 then runCommand fuel docs m yes
      else if no matches .nothing then set st.succeed
      else runCommand fuel docs m no
    | .loop whileTrue condition body =>
      modify fun st => { st with loops := st.loops + 1 }
      runLoop fuel docs rest whileTrue condition body 0
      modify fun st => { st with loops := st.loops - 1 }
    | .each line name words body =>
      modify fun st => { st with line }
      let fields ← expandFields (perform fuel docs) words
      if (← get).isGoing then
        modify fun st => { st with loops := st.loops + 1 }
        runEach fuel docs rest name fields body 0
        modify fun st => { st with loops := st.loops - 1 }
    | .choose line word choices =>
      modify fun st => { st with line }
      let text ← expandText (perform fuel docs) false word
      if (← get).isGoing then runChoices fuel docs m text choices
    | .subshell line body redirects =>
      modify fun st => { st with line }
      let os ← expandRedirects (perform fuel docs) redirects
      let st ← get
      if !st.isGoing then return
      let inner : Act Unit := do
        if ← openAll (perform fuel docs) docs os then
          runInner fuel docs { m with isLast := true } body
      if m.isLast && !hasTraps st then
        set (innerState st)
        inner
        Act.exit (.exited (← get).status)
      else
        let job ← addJob
        let _ ← startMember partTime job innerState inner
        let status ← awaitJob fuel job
        modify fun st => st.withStatus status
    | .redirected line body redirects =>
      modify fun st => { st with line }
      let os ← expandRedirects (perform fuel docs) redirects
      let before ← get
      if before.isGoing then
        modify (keepFds os)
        if ← openAll (perform fuel docs) docs os then runCommand fuel docs rest body
        modify (restoreFds before os)
    | .define name body =>
      modify fun st => { st.succeed with functions := st.functions.insert name ⟨body, docs⟩ }
    answerSignals fuel
    if c matches .simple .. | .pipe _ | .subshell .. then modify (checkFailure m.tested)

def perform (fuel : Nat) (docs : Documents) (c : Command) : Act (List Char) := do
  match fuel with
  | 0 => pure []
  | fuel + 1 =>
    if c matches .nothing then return []
    let job ← addJob
    let k ← modifyGet fun st => st.newChannel (.gathered [])
    let _ ← startMember partTime job (fun st => { innerState st with fds := st.fds.insert 1 k })
      (runInner fuel docs { isLast := true } c)
    Act.await fun w => !w.isHeld none k
    let text := (← get).gatheredIn k
    modify fun st => { st with channels := st.channels.erase k }
    let outputStatus ← awaitJob fuel job
    modify fun st => { st with outputStatus }
    pure text

/-- Runs a command in a process of its own, and what that has left to do at its end. -/
def runInner (fuel : Nat) (docs : Documents) (m : Mode) (c : Command) : Act Unit := do
  match fuel with
  | 0 => pure ()
  | fuel + 1 =>
    runCommand fuel docs { m with isLast := true } c
    finish fuel

def finish (fuel : Nat) : Act Unit := do
  match fuel with
  | 0 => pure ()
  | fuel + 1 =>
    let st ← get
    match st.traps.get? 0 with
    | none | some [] => pure ()
    | some action =>
      set { st with
        traps := st.traps.erase 0, control := .going, command := []
        statusBefore := some st.status }
      runLines fuel false { rest := action }
      if !((← get).control matches .exiting _) then modify fun after => after.withStatus st.status
    modify fun st => st.withStatus (st.status % 256)

def answerSignals (fuel : Nat) : Act Unit := do
  match fuel with
  | 0 => pure ()
  | fuel + 1 =>
    let st ← get
    match nextSignal? st with
    | none => pure ()
    | some n =>
      if !st.isGoing then return
      modify (dropSignal n)
      let status := st.statusBefore.getD st.status
      match st.traps.get? n with
      | none | some [] => pure ()
      | some action =>
        modify fun st => { st with statusBefore := some status }
        runLines fuel false { rest := action }
        modify fun after =>
          let after := { after with statusBefore := st.statusBefore }
          if after.isGoing || after.control = .returning false then after.withStatus status
          else after
      answerSignals fuel

/-- Runs the commands of a text, line by line.  A text without commands succeeds. -/
def runLines (fuel : Nat) (tested : Bool) (r : Reader) (hasRun : Bool := false) : Act Unit := do
  match fuel with
  | 0 => pure ()
  | fuel + 1 =>
    let st ← get
    let showLines (left : List Char) : Act Unit :=
      if r.isShown && 'v' ∈ st.options then
        modify fun st => st.printErr (r.rest.take (r.rest.length - left.length))
      else pure ()
    let aliases := st.heldAliases.foldl Table.erase st.aliases
    match { r with aliases }.next? with
    | .ended =>
      showLines []
      if !hasRun then modify State.succeed
    | .failed f =>
      showLines []
      modify fun st => { st with line := f.line }.abort f.reason.complaint
    | .command p after =>
      showLines after.rest
      if p.command matches .nothing then runLines fuel tested after hasRun
      else
        let held := aliasesAtEnd r.rest after
        modify fun st => { st with heldAliases := held ++ st.heldAliases }
        runCommand fuel p.documents { tested } p.command
        modify (releaseAliases st held)
        if (← get).isGoing then runLines fuel tested after true

def runStages (fuel : Nat) (docs : Documents) (m : Mode) (isBackground : Bool) (job : Nat)
    (kept : List Nat) (input : Option Nat) (stages : List Command) : Act Unit := do
  match fuel, stages with
  | fuel + 1, c :: rest =>
    let output ←
      if rest.isEmpty then pure none
      else
        modifyGet fun st =>
          let (source, st) := st.newChannel (.source st.nextChannel)
          let (sink, st) := st.newChannel (.sink source)
          (some (source, sink), { st with pipes := st.pipes.insert source {} })
    let prepare (st : State) : State :=
      let st := { (if isBackground then backgroundState input.isNone st else innerState st) with
        kept }
      let st := input.elim st fun k => { st with fds := st.fds.insert 0 k }
      output.elim st fun e => { st with fds := st.fds.insert 1 e.2 }
    modify fun st => { st with kept := (output.map Prod.fst).toList ++ input.toList ++ kept }
    let pid ← startMember partTime job prepare (runInner fuel docs m c)
    modify fun st => { st with kept := (output.map Prod.fst).toList ++ kept }
    match output with
    | some (source, _) => runStages fuel docs m isBackground job kept (some source) rest
    | none =>
      if isBackground then modify fun st => { st with backgroundProcess := some pid }
  | _, _ => pure ()

def runLoop (fuel : Nat) (docs : Documents) (m : Mode) (whileTrue : Bool)
    (condition body : Command) (status : Nat) : Act Unit := do
  match fuel with
  | 0 => pure ()
  | fuel + 1 =>
    breathe 0
    runCommand fuel docs { tested := true } condition
    let st ← get
    if !st.isGoing then
      let (st, goesOn) := afterRound st
      set (if !goesOn && st.isGoing then st.withStatus status else st)
      if goesOn then runLoop fuel docs m whileTrue condition body status
    else if (st.status = 0) ≠ (whileTrue = true) then set (st.withStatus status)
    else
      runCommand fuel docs m body
      let (st, goesOn) := afterRound (← get)
      set st
      if goesOn then runLoop fuel docs m whileTrue condition body st.status

def runEach (fuel : Nat) (docs : Documents) (m : Mode) (name : List Char)
    (fields : List (List Char)) (body : Command) (status : Nat) : Act Unit := do
  match fuel, fields with
  | fuel + 1, a :: rest =>
    breathe 0
    modify fun st => st.assign name a
    if !(← get).isGoing then return
    runCommand fuel docs m body
    let (st, goesOn) := afterRound (← get)
    set st
    if goesOn then runEach fuel docs m name rest body st.status
  | _, _ => modify fun st => st.withStatus status

def runChoices (fuel : Nat) (docs : Documents) (m : Mode) (text : List Char)
    (choices : List (List Word × Command)) : Act Unit := do
  match fuel, choices with
  | fuel + 1, (patterns, body) :: rest =>
    let fits ← anyFits (perform fuel docs) text patterns
    if !(← get).isGoing then pure ()
    else if !fits then runChoices fuel docs m text rest
    else if body matches .nothing then modify State.succeed
    else runCommand fuel docs m body
  | _, _ => modify State.succeed

/-- Runs a simple command: its words are found first, then its redirections are made, then its
variables are set. -/
def runSimple (fuel : Nat) (docs : Documents) (m : Mode) (assignments words : List Word)
    (redirects : List Redirect) : Act Unit := do
  match fuel with
  | 0 => pure ()
  | fuel + 1 =>
    let perform := perform fuel docs
    let (front, rest) ← firstWord perform words
    let args ← expandArguments perform (front.headD []) rest
    let words := front ++ args
    let isSpecial : Bool := specialBuiltins.contains (String.ofList (words.headD []))
    let os ← if (← get).isGoing then expandRedirects perform redirects else pure []
    let before ← get
    if !before.isGoing then return
    modify (keepFds os)
    if ← openAll perform docs os then
      let isLasting : Bool := words.isEmpty || isSpecial
      let assigned ← assignAll perform isLasting assignments
      if (← get).isGoing then
        trace perform before (assigned.map Assignment.text ++ words)
        match words with
        | [] => modify fun st => st.withStatus st.outputStatus
        | command :: args => runWords fuel m true command args
      if !isLasting then modify (unassign assigned)
      if words = ["exec".toList] then
        modify fun st => { st with kept := before.kept }.forgetUnused
      else modify (restoreFds before os)
    else
      modify fun st =>
        let st := restoreFds before os st
        if isSpecial then { st with control := .exiting true } else st

/-- Runs a command by its words: a special one, a function, one that is built in, or a program. -/
def runWords (fuel : Nat) (m : Mode) (findsFunctions : Bool) (command : List Char) (args : Args) :
    Act Unit := do
  match fuel with
  | 0 => pure ()
  | fuel + 1 =>
    let name := String.ofList command
    let st ← get
    if specialBuiltins.contains name then
      set { st with command, hasLost := false }
      match name with
      | "eval" => runLines fuel m.tested { rest := [' '].intercalate args }
      | "." => runSource fuel args
      | "exec" =>
        modify State.succeed
        if args ≠ [] then
          runInPlace fuel args
          modify fun st => { st with control := .exiting false, traps := ∅ }
      | "break" | "continue" | "return" | "exit" => modify (runControl name args)
      | name =>
        modify (runAtOnce name args)
        let _ ← Act.settle
        modify State.noteLoss
      modify fun after => { after with command := st.command }
    else
      match if findsFunctions then st.functions.get? command else none with
      | some f => callFunction fuel m f args
      | none =>
        if name = "command" then runNamed fuel m args
        else if builtins.contains name then
          set { st with command, hasLost := false }
          runPlain fuel name args
          let _ ← Act.settle
          modify fun after => { (contain after).noteLoss with command := st.command }
        else startProgram fuel m (command :: args)
      if (← get).hasEndedChild st.self then modify fun st => st.hearEndings none

def runNamed (fuel : Nat) (m : Mode) (args : Args) : Act Unit := do
  match fuel, pastOptions args with
  | 0, _ => pure ()
  | fuel + 1, some (command :: args) =>
    runWords fuel m false command args
    modify contain
  | _, _ =>
    let st ← get
    let inner := { st with command := "command".toList, hasLost := false }
    set (inner.withFlags false "pvV" args fun flags rest =>
      let has (c : Char) : Bool := flags.any fun f => f.1 = c
      match rest.head? with
      | some name =>
        if has 'v' || has 'V' then describe inner.succeed (has 'V') name else inner.succeed
      | none => inner.succeed)
    let _ ← Act.settle
    modify fun after => { after.noteLoss with command := st.command }

def callFunction (fuel : Nat) (m : Mode) (f : Function) (args : Args) : Act Unit := do
  match fuel with
  | 0 => pure ()
  | fuel + 1 =>
    let st ← get
    if st.depth ≥ maxDepth then
      set (st.abort
        ("Maximum function recursion depth (" ++ toString maxDepth ++ ") reached").toList)
    else
      set { st with
        args, locals := [] :: st.locals, loops := 0, nextOption := {}, depth := st.depth + 1 }
      runCommand fuel f.documents { m with isLast := false } f.body
      modify fun after =>
        let after := after.restore (after.locals.headD [])
        { after with
          args := st.args, locals := st.locals, loops := st.loops, nextOption := st.nextOption
          depth := st.depth
          control := if after.control matches .returning _ then .going else after.control }

def runSource (fuel : Nat) (args : Args) : Act Unit := do
  match fuel with
  | 0 => pure ()
  | fuel + 1 =>
    let st ← get
    match takeFlags [] [] args with
    | .error what => set (st.refuse true what)
    | .ok (_, []) => set st.succeed
    | .ok (_, file :: _) =>
      match sourcePath? st file with
      | none => set (st.abort (file ++ ": not found".toList))
      | some path =>
        match st.files.locateText st.dir path.toList with
        | .error b =>
          set (st.abort ("cannot open ".toList ++ file ++ ": ".toList ++
            refusalText "No such file" (.ofBlocked b)))
        | .ok loc =>
          set { st with command := Text.encoded path }
          runLines fuel false { rest := fileText st loc, isShown := true }
          modify fun after => { after with
            command := st.command
            control := if after.control matches .returning _ then .going else after.control }

def startProgram (fuel : Nat) (m : Mode) (words : Args) : Act Unit := do
  match fuel with
  | 0 => pure ()
  | fuel + 1 =>
    let st ← get
    if m.isLast && !hasTraps st then runInPlace fuel words
    else
      match findProgram st words with
      | .error (status, what) => set (st.failWith status what)
      | .ok (p, words') =>
        let job ← addJob
        let _ ← startMember launchTime job programState (runProgram fuel p words')
        let status ← awaitJob fuel job
        modify fun st => (st.track (words.headD [])).withStatus status

/-- Runs a program in the place of the script, which ends with it; without the program, the script
goes on. -/
def runInPlace (fuel : Nat) (words : Args) : Act Unit := do
  match fuel with
  | 0 => pure ()
  | fuel + 1 =>
    let st ← get
    match findProgram st words with
    | .error (status, what) => set (st.failWith status what)
    | .ok (p, words) =>
      set (programState st)
      runProgram fuel p words
      Act.exit (.exited (← get).status)

def runProgram (fuel : Nat) (p : Program) (words : Args) : Act Unit := do
  match fuel with
  | 0 => pure ()
  | fuel + 1 =>
    breathe loadTime
    match p with
    | .shell =>
      modify fun st => startState st (words.headD [])
      startShell fuel words
    | .withVariables => runWithVariables fuel words
    | p => runSmall fuel p words

def runWithVariables (fuel : Nat) (words : Args) : Act Unit := do
  match fuel with
  | 0 => pure ()
  | fuel + 1 =>
    let st ← get
    let name := String.ofList (words.headD [])
    let failed (st : State) (what : List Char) (status : Nat) : State :=
      (complainAs st name what).withStatus status
    let advise (st : State) : State :=
      (st.printErr ("Try '" ++ name ++ " --help' for more information.\n").toList).withStatus 125
    let length := (words.flatten.length + 2) * 2
    match readVariableRequest length { vars := .ofList st.exported } (words.drop 1) with
    | .error what => set (advise (failed st what 125))
    | .ok q =>
      match q.command, q.dir with
      | [], some _ => set (advise (failed st "must specify command with --chdir (-C)".toList 125))
      | [], none =>
        set st.succeed
        printAs name (q.vars.entries.flatMap fun e => e.1 ++ '=' :: e.2 ++ [q.separator])
      | command :: args, dir =>
        match st.files.locateText st.dir (Text.decoded (dir.getD ['.'])).toList with
        | .error b =>
          set (failed st ("cannot change directory to '".toList ++ dir.getD [] ++
            "': ".toList ++ refusalText "" (.ofBlocked b)) 125)
        | .ok loc =>
          let vars : Table (List Char) Variable := .ofList (q.vars.entries.map fun e =>
            (e.1, { value := some e.2, isExported := true }))
          let inner := { st with vars, dir := ⟨.root, loc⟩, command := [] }
          let search :=
            if (q.vars.get? "PATH".toList).isSome then inner.searchPath else "/bin:/usr/bin"
          let paths := Program.candidates Program.slash search (Text.decoded command)
          match Program.find inner.files inner.dir paths ((command :: args).map Text.decoded) with
          | .ok (p, texts) =>
            set inner
            runProgram fuel p (texts.map Text.encoded)
          | .error .badFormat =>
            let path := (programPath? inner command).getD command
            set inner
            runProgram fuel .shell ("/bin/sh".toList :: path :: args)
          | .error r =>
            let status := if r = .missing then 127 else 126
            let st := failed st ('\x27' :: command ++ "': ".toList ++ refusalText "" r) status
            set (if r = .missing ∧ ' ' ∈ command then
              failed st "use -[v]S to pass options in shebang lines".toList status
            else st)

def runInput (fuel : Nat) : Act Unit := do
  match fuel with
  | 0 => pure ()
  | fuel + 1 =>
    if let some (.source pipe) := (← get).channel? 0 then
      Act.await fun w => !w.hasEnd none (.sink pipe)
    let text := ((← get).input 0).getD []
    modify fun st => st.advance 0 text.length
    runLines fuel false { rest := text.filter (· ≠ '\x00'), isShown := true }

/-- Starts the interpreter of scripts with words, the first of which is its own name. -/
def startShell (fuel : Nat) (words : Args) : Act Unit := do
  match fuel with
  | 0 => pure ()
  | fuel + 1 =>
    let (st, hasCommand, rest) := takeOptions true (← get) false (words.drop 1)
    set st
    if !st.isGoing then return
    match hasCommand, rest.getD [] with
    | true, [] => set (st.abort "-c requires an argument".toList)
    | true, text :: rest =>
      set { st with name := rest.headD st.name, args := rest.drop 1 }
      runLines fuel false { rest := text }
      if 's' ∈ (← get).options && (← get).isGoing then runInput fuel
      finish fuel
    | false, [] =>
      set { st with options := setOption true st.options 's' }
      runInput fuel
      finish fuel
    | false, file :: args =>
      if 's' ∈ st.options then
        set { st with args := file :: args }
        runInput fuel
        finish fuel
      else
        match st.files.locateText st.dir (Text.decoded file).toList with
        | .error b =>
          set (st.abort ("cannot open ".toList ++ file ++ ": ".toList ++
            refusalText "No such file" (.ofBlocked b)))
        | .ok loc =>
          set { st with name := file, args }
          runLines fuel false { rest := fileText st loc, isShown := true }
          finish fuel

end

def maxSteps : Nat := 1000000000

end Script
end MachTree
