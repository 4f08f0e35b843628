import MachTree.Path.Way

/-! What a tree of files holds: at each place a node, and below a directory other places by their
names. -/
namespace MachTree

abbrev Location := List Component

inductive Node
  | file (bytes : List UInt8) (executable : Bool)
  | directory
  /-- a link to what a text leads to from the link's directory -/
  | link (target : List Char)
  | device
deriving DecidableEq

namespace Files

/-- A place: what is there, and the places below it by their names. -/
inductive Tree
  | mk (node : Node) (branches : List (Component × Tree))

namespace Tree

def node : Tree → Node
  | mk node _ => node

def branches : Tree → List (Component × Tree)
  | mk _ branches => branches

def empty : Tree := mk .directory []

def child? (t : Tree) (c : Component) : Option Tree :=
  (t.branches.find? fun e => e.1 = c).map Prod.snd

def at? (t : Tree) : Location → Option Tree
  | [] => some t
  | c :: rest => (t.child? c).bind fun u => u.at? rest

/-- Entries with another one for a name, or without it; a new name goes to the end. -/
def alter (c : Component) (new : Option Tree) :
    List (Component × Tree) → List (Component × Tree)
  | [] => (new.map fun u => (c, u)).toList
  | e :: rest =>
    if e.1 = c then (new.map fun u => (c, u)).toList ++ rest else e :: alter c new rest

/-- A tree with a node at a place; what is below it stays.  Directories are made on the way. -/
def put (t : Tree) (loc : Location) (node : Node) : Tree :=
  match loc with
  | [] => mk node t.branches
  | c :: rest => mk t.node (alter c (some (put ((t.child? c).getD empty) rest node)) t.branches)

def remove (t : Tree) (loc : Location) : Tree :=
  match loc with
  | [] => mk t.node []
  | [c] => mk t.node (alter c none t.branches)
  | c :: rest =>
    match t.child? c with
    | some u => mk t.node (alter c (some (remove u rest)) t.branches)
    | none => t

mutual

def entries (loc : Location) : Tree → List (Location × Node)
  | mk node branches => (loc, node) :: entriesOf loc branches

def entriesOf (loc : Location) : List (Component × Tree) → List (Location × Node)
  | [] => []
  | (c, t) :: rest => entries (loc ++ [c]) t ++ entriesOf loc rest

end

end Tree
end Files
end MachTree
