import MachTree.Text.Split

/-! Paths as a sequence of components below an anchor.  Single dots, empty components and slashes
at the end carry no meaning and are not kept; two leading slashes are an anchor of their own, and
`..` is kept as written. -/
namespace MachTree

/-- A component is neither empty nor a single dot and has no slash in it. -/
def IsComponent (s : String) : Prop := s ≠ "" ∧ s ≠ "." ∧ '/' ∉ s.toList

instance (s : String) : Decidable (IsComponent s) := by unfold IsComponent; infer_instance

abbrev Component := { s : String // IsComponent s }

namespace Component

def ofString? (s : String) : Option Component :=
  if h : IsComponent s then some ⟨s, h⟩ else none

@[simp] theorem ofString?_val (c : Component) : ofString? c.val = some c := by
  simp [ofString?, c.property]

def up : Component := ⟨"..", by simp [IsComponent]⟩

/-- Whether a component holds the character that no name of a file can hold. -/
def hasNull (c : Component) : Bool := c.val.toList.contains '\x00'

end Component

inductive Anchor
  | relative
  | root
  | doubleRoot
deriving DecidableEq, Repr

namespace Anchor

/-- Two leading slashes are kept apart from one; three and more mean one. -/
def ofText : List Char → Anchor
  | '/' :: '/' :: '/' :: _ => .root
  | '/' :: '/' :: _ => .doubleRoot
  | '/' :: _ => .root
  | _ => .relative

def text : Anchor → List Char
  | .relative => []
  | .root => ['/']
  | .doubleRoot => ['/', '/']

end Anchor

structure Path where
  anchor : Anchor
  parts : List Component
deriving DecidableEq

namespace Path

def components (cs : List Char) : List Component :=
  (Text.splitOn '/' cs).filterMap fun piece => Component.ofString? (String.ofList piece)

def ofString (s : String) : Path := ⟨Anchor.ofText s.toList, components s.toList⟩

/-- A path as text; the relative path without components is a dot. -/
def text (p : Path) : List Char :=
  if p.anchor = .relative ∧ p.parts = [] then ['.']
  else p.anchor.text ++ Text.joinWith '/' (p.parts.map fun c => c.val.toList)

def toString (p : Path) : String := String.ofList p.text

instance : ToString Path := ⟨Path.toString⟩

def here : Path := ⟨.relative, []⟩

instance : Inhabited Path := ⟨here⟩

def isAbsolute (p : Path) : Bool := p.anchor ≠ .relative

def hasNull (p : Path) : Bool := p.parts.any Component.hasNull

/-- `q` seen from `p`: an absolute `q` stays as it is. -/
def append (p q : Path) : Path := if q.isAbsolute then q else ⟨p.anchor, p.parts ++ q.parts⟩

instance : Append Path := ⟨append⟩

/-- The place that a text names below `p`. -/
def child (p : Path) (s : String) : Path := p ++ ofString s

def parent (p : Path) : Path := ⟨p.anchor, p.parts.dropLast⟩

/-- The paths above `p`, nearest first. -/
def parents (p : Path) : List Path :=
  (List.range p.parts.length).map fun k => ⟨p.anchor, p.parts.take (p.parts.length - 1 - k)⟩

def name (p : Path) : String := (p.parts.getLast?.map Subtype.val).getD ""

/-- A name without its suffix, and the suffix with its dot: the part from the last dot on, unless
that dot is the first or the last character. -/
def splitSuffix (name : List Char) : List Char × List Char :=
  let tail := name.reverse.takeWhile (· ≠ '.')
  let stem := name.reverse.drop (tail.length + 1)
  if tail = [] ∨ stem = [] then (name, [])
  else (stem.reverse, '.' :: tail.reverse)

def suffix (p : Path) : String := String.ofList (splitSuffix p.name.toList).2

def withSuffix (p : Path) (s : String) : Path :=
  ⟨p.anchor, p.parts.dropLast ++
    (Component.ofString? (String.ofList (splitSuffix p.name.toList).1 ++ s)).toList⟩

@[simp] theorem append_of_isAbsolute {p q : Path} (h : q.isAbsolute = true) : p ++ q = q :=
  if_pos h

@[simp] theorem append_here (p : Path) : p ++ here = p := by
  cases p
  show append _ _ = _
  simp [append, here, isAbsolute]

theorem append_assoc (p q r : Path) : p ++ q ++ r = p ++ (q ++ r) := by
  show append (append p q) r = append p (append q r)
  by_cases hr : r.isAbsolute
  · simp [append, hr]
  · by_cases hq : q.isAbsolute
    · have : (⟨q.anchor, q.parts ++ r.parts⟩ : Path).isAbsolute = true := hq
      simp [append, hr, hq, this]
    · have : (⟨q.anchor, q.parts ++ r.parts⟩ : Path).isAbsolute = false := by
        simpa [isAbsolute] using hq
      simp [append, hr, hq, this]

end Path
end MachTree
