import MachTree.Text.Quoted

/-! Text in which a surrogate may stand alone.  Two of them make a character; one without its
partner makes none, so that such a text is no string. -/
namespace MachTree

inductive Symbol
  | char (c : Char)
  | lone (surrogate : Nat)
deriving DecidableEq, Repr

namespace Symbol

def char? : Symbol → Option Char
  | .char c => some c
  | .lone _ => none

/-- Whether a surrogate stands for one byte of a name that is not UTF-8. -/
def isByte : Symbol → Bool
  | .char _ => false
  | .lone surrogate => 0xdc80 ≤ surrogate && surrogate ≤ 0xdcff

def shown : Symbol → List Char
  | .char c => [c]
  | .lone surrogate => '\\' :: 'u' :: Text.hexDigits 4 surrogate

end Symbol

/-- Surrogates that no name of a file can be written with. -/
structure Unencodable where
  /-- the first of them -/
  surrogate : Nat
  position : Nat
  /-- those that follow it at once -/
  extra : Nat
deriving DecidableEq, Repr

def Unencodable.message (e : Unencodable) : String :=
  let place :=
    if e.extra = 0 then
      "character '" ++ String.ofList (Symbol.lone e.surrogate).shown ++ "' in position " ++
        toString e.position
    else "characters in position " ++ toString e.position ++ "-" ++ toString (e.position + e.extra)
  "'utf-8' codec can't encode " ++ place ++ ": surrogates not allowed"

abbrev Symbols := List Symbol

namespace Symbols

def ofString (s : String) : Symbols := s.toList.map .char

instance : Coe String Symbols := ⟨ofString⟩

/-- The characters of a text, unless a surrogate stands alone in it. -/
def chars? : Symbols → Option (List Char)
  | [] => some []
  | .char c :: rest => (chars? rest).map (c :: ·)
  | .lone _ :: _ => none

def string? (s : Symbols) : Option String := (chars? s).map String.ofList

def shown (s : Symbols) : String := String.ofList (s.flatMap Symbol.shown)

/-- A text in the place of a name.  The null character, which no name of a file holds either, is
put for each surrogate that stands alone. -/
def name (s : Symbols) : String := String.ofList (s.map fun x => x.char?.getD '\x00')

/-- The first surrogate that stands for nothing in a name, if there is one; `position` is that of
the text. -/
def unencodable? (position : Nat) : Symbols → Option Unencodable
  | [] => none
  | .char _ :: rest => unencodable? (position + 1) rest
  | .lone surrogate :: rest =>
    if (Symbol.lone surrogate).isByte then unencodable? (position + 1) rest
    else some ⟨surrogate, position, (rest.takeWhile fun x => x.char?.isNone).length⟩

def pieces : Symbols → List Symbols
  | [] => [[]]
  | x :: rest =>
    if x = .char '/' then [] :: pieces rest
    else match pieces rest with
      | [] => [[x]]
      | piece :: more => (x :: piece) :: more

theorem chars?_eq_some {s : Symbols} {cs : List Char} :
    chars? s = some cs ↔ s = cs.map .char := by
  induction s generalizing cs with
  | nil => cases cs <;> simp [chars?]
  | cons x s ih =>
    cases x with
    | lone surrogate => cases cs <;> simp [chars?]
    | char c =>
      cases cs with
      | nil => simp [chars?]
      | cons d cs =>
        simp only [chars?, Option.map_eq_some_iff, ih, List.map_cons, List.cons.injEq,
          Symbol.char.injEq]
        constructor
        · rintro ⟨_, rfl, rfl, rfl⟩
          exact ⟨rfl, rfl⟩
        · rintro ⟨rfl, rfl⟩
          exact ⟨cs, rfl, rfl, rfl⟩

theorem string?_eq_some {s : Symbols} {t : String} : string? s = some t ↔ s = ofString t := by
  rw [string?, Option.map_eq_some_iff, ofString]
  constructor
  · rintro ⟨cs, hcs, rfl⟩
    rw [chars?_eq_some.mp hcs, String.toList_ofList]
  · rintro rfl
    exact ⟨t.toList, chars?_eq_some.mpr rfl, String.ofList_toList⟩

@[simp] theorem string?_ofString (t : String) : string? (ofString t) = some t :=
  string?_eq_some.mpr rfl

@[simp] theorem name_ofString (t : String) : name (ofString t) = t := by
  simp [name, ofString, Function.comp_def, Symbol.char?]

theorem ofString_injective {s t : String} (h : ofString s = ofString t) : s = t := by
  simpa using congrArg string? h

@[simp] theorem ofString_inj {s t : String} : ofString s = ofString t ↔ s = t :=
  ⟨ofString_injective, congrArg ofString⟩

end Symbols
end MachTree
