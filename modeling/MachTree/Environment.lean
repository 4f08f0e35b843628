import MachTree.Json.Basic

/-! The environment that mach reports: its directories and the user's configuration.  A report is
read from JSON; the first item that does not fit is named, and items that are not asked for are
passed over. -/
namespace MachTree

/-- The user's configuration of a build. -/
structure MozConfig where
  configureArgs : List Symbols
  makeExtra : List Symbols
  makeFlags : List Symbols
  path : Symbols
deriving DecidableEq, Repr

structure Environment where
  mozconfig : MozConfig
  topobjdir : Symbols
  topsrcdir : Symbols
deriving DecidableEq, Repr

namespace Environment

/-- An item of a report that does not fit. -/
inductive SchemaError
  | notObject (item kind : String)
  | notString (item key kind : String)
  | notStrings (item key : String)
deriving DecidableEq, Repr

def SchemaError.message : SchemaError → String
  | .notObject item kind => item ++ ": expected object, got " ++ kind
  | .notString item key kind => item ++ "." ++ key ++ ": expected string, got " ++ kind
  | .notStrings item key => item ++ "." ++ key ++ ": expected string[]"

def requireObject (v : Json) (name : String) : Except SchemaError Unit :=
  match v with
  | .object _ => .ok ()
  | _ => .error (.notObject name v.kind)

def requireString (v : Json) (key name : String) : Except SchemaError Symbols :=
  match v.get key with
  | .string s => .ok s
  | other => .error (.notString name key other.kind)

def stringItems? : List Json → Option (List Symbols)
  | [] => some []
  | .string s :: rest => (stringItems? rest).map (s :: ·)
  | _ :: _ => none

def requireStrings (v : Json) (key name : String) : Except SchemaError (List Symbols) :=
  match v.get key with
  | .array items =>
    match stringItems? items with
    | some ss => .ok ss
    | none => .error (.notStrings name key)
  | _ => .error (.notStrings name key)

def mozconfigOfJson (v : Json) : Except SchemaError MozConfig := do
  requireObject v "mozconfig"
  let configureArgs ← requireStrings v "configure_args" "mozconfig"
  let makeExtra ← requireStrings v "make_extra" "mozconfig"
  let makeFlags ← requireStrings v "make_flags" "mozconfig"
  let path ← requireString v "path" "mozconfig"
  pure { configureArgs, makeExtra, makeFlags, path }

def ofJson (v : Json) : Except SchemaError Environment := do
  requireObject v "environment"
  let mozconfig ← mozconfigOfJson (v.get "mozconfig")
  let topobjdir ← requireString v "topobjdir" "environment"
  let topsrcdir ← requireString v "topsrcdir" "environment"
  pure { mozconfig, topobjdir, topsrcdir }

def mozconfigToJson (m : MozConfig) : Json :=
  .object [("configure_args", .texts m.configureArgs), ("make_extra", .texts m.makeExtra),
    ("make_flags", .texts m.makeFlags), ("path", .string m.path)]

def toJson (e : Environment) : Json :=
  .object [("mozconfig", mozconfigToJson e.mozconfig), ("topobjdir", .string e.topobjdir),
    ("topsrcdir", .string e.topsrcdir)]

end Environment
end MachTree
