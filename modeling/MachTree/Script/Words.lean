import MachTree.Script.Parser
import MachTree.Script.Redirection
import MachTree.Script.Waiting

/-! The words of simple commands: what they stand for, and how they are shown. -/
namespace MachTree
namespace Script

variable (perform : Command → Act (List Char))

/-- Splits off the words that come before the first that stands for something. -/
def firstWord : List Word → Act (List (List Char) × List Word)
  | [] => pure ([], [])
  | w :: rest => do
    let fields ← expandWord perform w
    if fields = [] ∧ (← get).isGoing then firstWord rest else pure (fields, rest)

/-- The words of a command after its name; those that set a variable of a command for variables
stay whole. -/
def expandArguments (name : List Char) (ws : List Word) : Act Args := do
  let keepsValues : Bool := ["export", "readonly", "local", "alias"].contains (String.ofList name)
  let expand (w : Word) : Act Args := do
    if !(← get).isGoing then return []
    match if keepsValues then assignment? w else none with
    | some (name, value) => pure [name ++ '=' :: (← expandText perform true value)]
    | none => expandWord perform w
  pure (← ws.mapM expand).flatten

/-- A variable that is set in front of a command. -/
structure Assignment where
  name : List Char
  value : List Char
  /-- what the variable was before -/
  before : Option Variable

def Assignment.text (a : Assignment) : List Char := a.name ++ '=' :: a.value

/-- Sets the variables in front of a command, for ever or for the command. -/
def assignAll (isLasting : Bool) : List Word → Act (List Assignment)
  | [] => pure []
  | w :: rest => do
    match assignment? w with
    | none => assignAll isLasting rest
    | some (name, value) =>
      let value ← expandText perform true value
      let st ← get
      if !st.isGoing then return []
      let st' := st.assign name value
      set (if isLasting then st' else st'.setExported name)
      let a : Assignment := { name, value, before := st.vars.get? name }
      if st'.isGoing then pure (a :: (← assignAll isLasting rest)) else pure [a]

def unassign (as : List Assignment) (st : State) : State :=
  st.restore (as.reverse.map fun a => (a.name, a.before))

/-- What a text that is put before shown commands stands for; one that is no good stands for
itself. -/
def expandPrompt (text : List Char) : Act (List Char) := do
  match readDocument (4 * text.length + 8) { rest := text } with
  | .error f =>
    modify fun st => st.complain f.reason.complaint
    pure text
  | .ok (w, _) =>
    let bits ← expandPieces perform .text false w
    if (← get).isGoing then pure (bitText bits)
    else
      modify fun st => { st with control := .going }
      pure text

/-- Shows a command that is about to run, where complaints went before its redirections. -/
def trace (before : State) (words : List (List Char)) : Act Unit := do
  let st ← get
  if 'x' ∈ st.options ∧ !st.isTracing ∧ words ≠ [] then
    set { st with isTracing := true }
    let front ← expandPrompt perform ((st.find? "PS4".toList).getD ['+', ' '])
    modify fun st =>
      let shown := front ++ [' '].intercalate words ++ ['\n']
      { { st with fds := before.fds }.printErr shown with fds := st.fds, isTracing := false }

end Script
end MachTree
