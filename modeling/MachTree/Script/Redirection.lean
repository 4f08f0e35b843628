import MachTree.Script.Builtin.Basic
import MachTree.Script.Expansion

/-! Redirections: what the descriptors of a command lead to while it runs. -/
namespace MachTree
namespace Script

/-- A redirection whose target is known, apart from the texts that stand in a script. -/
structure Opening where
  fd : Nat
  direction : Direction
  target : List Char

/-- Why something with a file cannot be done; a script has its own word for what is not there. -/
def refusalText (missing : String) (r : Files.Refusal) : List Char :=
  if missing ≠ "" ∧ (r = .missing ∨ r = .notDirectory) then missing.toList
  else (r.message.toList.dropWhile (· ≠ ']')).drop 2

def openInput (st : State) (o : Opening) : State × Bool :=
  match st.files.locateText st.dir (Text.decoded o.target).toList with
  | .error b =>
    (st.failWith 2 ("cannot open ".toList ++ o.target ++ ": ".toList ++
      refusalText "No such file" (.ofBlocked b)), false)
  | .ok place =>
    match st.files.node? place with
    | some (.file _ _) => (st.openChannel o.fd (.file place 0 .read), true)
    | some .directory => (st.openChannel o.fd .directory, true)
    | _ => (st.openChannel o.fd .nothing, true)

def openOutput (st : State) (o : Opening) : State × Bool :=
  let failed (r : Files.Refusal) : State × Bool :=
    (st.failWith 2 ("cannot create ".toList ++ o.target ++ ": ".toList ++
      refusalText "Directory nonexistent" r), false)
  match st.files.placeToWrite st.dir (Text.decoded o.target).toList with
  | .error r => failed r
  | .ok place =>
    let node := st.files.node? place
    if node = some .device then (st.openChannel o.fd .nothing, true)
    else if o.direction = .output ∧ 'C' ∈ st.options ∧ node.isSome then failed .exists
    else
      let keeps : Bool := o.direction ∈ [.append, .both]
      let files :=
        if keeps then st.files.appendAt place [] else st.files.writeAt place []
      let access : Access :=
        if o.direction = .append then .append else if o.direction = .both then .both else .write
      ({ st with files, changes := st.changes + 1 }.openChannel o.fd (.file place 0 access), true)

variable (perform : Command → Act (List Char))

def openDocument (docs : Documents) (fd index : Nat) : Act Bool := do
  let word := ((docs.find? fun e => e.1 = index).map Prod.snd).getD []
  let bits ← expandPieces perform .text false word
  let isGoing := (← get).isGoing
  modify fun st =>
    if isGoing then st.openChannel fd (.text (bitText bits)) else { st with control := .going }
  pure isGoing

def duplicate (st : State) (o : Opening) : State × Bool :=
  if o.target = ['-'] then (st.close o.fd, true)
  else
    match st.fds.get? (Arithmetic.valueOf 10 o.target) with
    | some k => ({ st with fds := st.fds.insert o.fd k }, true)
    | none => ((st.close o.fd).failWith 2 (o.target ++ ": Bad file descriptor".toList), false)

def openOne (docs : Documents) (o : Opening) : Act Bool := do
  let opened (f : State → Opening → State × Bool) : Act Bool :=
    modifyGet fun st => let (st, isOpen) := f st o; (isOpen, st)
  match o.direction with
  | .input => opened openInput
  | .document index => openDocument perform docs o.fd index
  | .duplicate => opened duplicate
  | _ => opened openOutput

def openAll (docs : Documents) : List Opening → Act Bool
  | [] => pure true
  | o :: rest => do
    if ← openOne perform docs o then openAll docs rest else pure false

/-- Keeps the channels that descriptors lead to before they are led elsewhere. -/
def keepFds (os : List Opening) (st : State) : State :=
  { st with kept := os.filterMap (fun o => st.fds.get? o.fd) ++ st.kept }

def restoreFds (before : State) (os : List Opening) (st : State) : State :=
  if os.isEmpty then st
  else
    let fds := os.foldl (fun t o =>
      match before.fds.get? o.fd with
      | some k => t.insert o.fd k
      | none => t.erase o.fd) st.fds
    { st with fds, kept := before.kept }.forgetUnused

def expandRedirects : List Redirect → Act (List Opening)
  | [] => pure []
  | .mk fd (.document index) _ :: rest => do
    pure (⟨fd, .document index, []⟩ :: (← expandRedirects rest))
  | .mk fd direction target :: rest => do
    let text ← expandText perform false target
    if !(← get).isGoing then pure []
    else if direction = .duplicate ∧ text ≠ ['-'] ∧ !(text.length = 1 && text.all Char.isDigit) then
      modify fun st => st.abort SyntaxError.badFileNumber.complaint
      pure []
    else pure (⟨fd, direction, text⟩ :: (← expandRedirects rest))

end Script
end MachTree
