import MachTree.Table
import MachTree.Text.Symbol

/-! JSON values.  The fields of an object keep the order in which their names first came, and a
repeated name has its last value. -/
namespace MachTree

inductive Json
  | null
  | bool (b : Bool)
  | integer (n : Int)
  /-- a number with a fraction or an exponent, or one that is not finite, as it is written -/
  | real (literal : String)
  | string (s : Symbols)
  | array (items : List Json)
  | object (fields : List (Symbols × Json))

namespace Json

instance : Inhabited Json := ⟨.null⟩

def kind : Json → String
  | .null => "NoneType"
  | .bool _ => "bool"
  | .integer _ => "int"
  | .real _ => "float"
  | .string _ => "str"
  | .array _ => "list"
  | .object _ => "dict"

def entry (name : String) (v : Json) : Symbols × Json := (name, v)

/-- An object with the last value of each name. -/
def ofFields (fields : List (Symbols × Json)) : Json :=
  .object (fields.foldl (fun seen f => Table.put f.1 f.2 seen) [])

def field? (v : Json) (name : String) : Option Json :=
  match v with
  | .object fields => (fields.find? fun f => f.1 = Symbols.ofString name).map Prod.snd
  | _ => none

def get (v : Json) (name : String) : Json := (v.field? name).getD .null

def symbols? : Json → Option Symbols
  | .string s => some s
  | _ => none

def string? (v : Json) : Option String := v.symbols?.bind Symbols.string?

def bool? : Json → Option Bool
  | .bool b => some b
  | _ => none

def integer? : Json → Option Int
  | .integer n => some n
  | _ => none

/-- The items of an array; anything else has none. -/
def items : Json → List Json
  | .array vs => vs
  | _ => []

def fields : Json → List (Symbols × Json)
  | .object fs => fs
  | _ => []

/-- The strings in an array, whatever surrogates stand alone in them. -/
def symbolItems (v : Json) : List Symbols := v.items.filterMap symbols?

def stringItems (v : Json) : List String := v.items.filterMap string?

def stringFields (v : Json) : Table String String :=
  .ofList (v.fields.filterMap fun e => do pure (← Symbols.string? e.1, ← e.2.string?))

def texts (ss : List Symbols) : Json := .array (ss.map .string)

def strings (ss : List String) : Json := texts (ss.map Symbols.ofString)

def ofOption {α : Type} (f : α → Json) : Option α → Json
  | none => .null
  | some a => f a

end Json
end MachTree
