import MachTree.Activity
import MachTree.Environment
import MachTree.Json.Reader
import MachTree.Settings.Basic

/-! The mach command of a source tree, run in the tree with the user's overrides, and the
environment that it reports. -/
namespace MachTree

structure Mach where
  srcdir : Path
  /-- the command without overrides -/
  command : List String
  settings : Option Settings := none
deriving DecidableEq

namespace Mach

inductive RunError
  | settings (e : Settings.Error)
  | launch (e : LaunchError)
deriving DecidableEq

def RunError.message : RunError → String
  | .settings e => e.message
  | .launch e => e.message

inductive Error
  | settings (e : Settings.Error)
  | noEnvironment
deriving DecidableEq

def Error.message : Error → String
  | .settings e => e.message
  | .noEnvironment => "Unable to parse mach environment."

def override? (m : Mach) : Except Settings.Error (Option (List String)) :=
  match m.settings with
  | none => .ok none
  | some s => s.mach? (some m.srcdir)

def effectiveCommand (m : Mach) : Except Settings.Error (List String) :=
  m.override?.map fun override => override.getD m.command

def extraVariables (m : Mach) : Table String String :=
  match m.settings with
  | none => ∅
  | some s => s.machEnvironment

def execute (m : Mach) (args : List String) : Activity RunError Outcome := do
  let command ← Activity.ofExcept .settings m.effectiveCommand
  let call : Call :=
    { command := command ++ args, cwd := some m.srcdir, env := some m.extraVariables }
  (Activity.run call).mapError .launch

def environmentArgs : List String := ["environment", "--format", "json"]

inductive ReplyError
  | malformed (e : Json.Misplaced)
  | schema (e : Environment.SchemaError)
deriving DecidableEq

def ReplyError.message : ReplyError → String
  | .malformed e => e.message
  | .schema e => e.message

def readReply (text : String) : Except (Fault ⊕ ReplyError) Environment :=
  match Json.parse text with
  | .error (.malformed e) => .error (.inr (.malformed e))
  | .error (.integerTooLong digits) => .error (.inl (.integerTooLong digits))
  | .error (.nestedTooDeep kind) => .error (.inl (.nestedTooDeep kind))
  | .ok v =>
    match Environment.ofJson v with
    | .ok e => .ok e
    | .error e => .error (.inr (.schema e))

/-- Asks mach for its environment; the lines of the reply are read as one text. -/
def queryEnvironment (m : Mach) : Activity Error Environment := do
  let outcome ← (m.execute environmentArgs).handle fun
    | .settings e => Activity.fail (.settings e)
    | .launch e => do
      Activity.error ("Unable to run mach: " ++ e.message)
      Activity.fail .noEnvironment
  if !outcome.success then
    Activity.error ("mach environment failed:\n" ++ outcome.describe)
    Activity.fail .noEnvironment
  else
    let text := String.join outcome.stdout
    match readReply text with
    | .ok e => pure e
    | .error (.inl f) => Activity.raise f
    | .error (.inr e) => do
      Activity.error ("Failed to parse mach environment (" ++ e.message ++ "): " ++ text)
      Activity.fail .noEnvironment

def state (m : Mach) : Except Settings.Error Json :=
  m.override?.map fun override =>
    .object [("command", .strings m.command), ("override", Json.ofOption .strings override),
      ("environment", .object (m.extraVariables.entries.map fun e => (e.1, .string e.2)))]

end Mach
end MachTree
