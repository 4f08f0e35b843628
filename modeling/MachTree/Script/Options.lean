import MachTree.Script.State

/-! Options of commands: letters after a dash, some of which ask for an argument. -/
namespace MachTree
namespace Script

/-- Whether a letter asks for an argument, if it is among the letters of options; a colon stands
after those that do. -/
def asksArgument? (letters : List Char) (c : Char) : Option Bool :=
  match letters with
  | [] => none
  | [l] => if l = c then some false else none
  | l :: m :: rest =>
    if m = ':' then if l = c then some true else asksArgument? rest c
    else if l = c then some false
    else asksArgument? (m :: rest) c

/-- The options in front of words, each with its argument, and the other words; or what is wrong
with them.  Two dashes end the options. -/
def takeFlags (spec letters : List Char) (args : Args) :
    Except (List Char) (List (Char × List Char) × Args) :=
  match letters, args with
  | c :: more, args =>
    match asksArgument? spec c with
    | none => .error ("Illegal option -".toList ++ [c])
    | some false => (takeFlags spec more args).map fun r => ((c, []) :: r.1, r.2)
    | some true =>
      if more ≠ [] then (takeFlags spec [] args).map fun r => ((c, more) :: r.1, r.2)
      else
        match args with
        | a :: args => (takeFlags spec [] args).map fun r => ((c, a) :: r.1, r.2)
        | [] => .error ("No arg for -".toList ++ c :: " option".toList)
  | [], ('-' :: c :: more) :: args =>
    if c = '-' ∧ more = [] then .ok ([], args) else takeFlags spec (c :: more) args
  | [], args => .ok ([], args)
termination_by (args.length, letters.length)

/-- What has been found among words in the search for an option. -/
structure FoundOption where
  /-- the letter of the option, or the character that tells what is wrong -/
  letter : Char := '?'
  /-- the argument, if it is to be set, or that it is to be unset -/
  argument : Option (Option (List Char)) := none
  place : OptionPlace
  warning : List Char := []
  isEnd : Bool := false

def nextOption (spec : List Char) (words : Args) (place : OptionPlace) : FoundOption :=
  let word (n : Nat) : Option (List Char) := words[n - 1]?
  let left := (place.offset.bind fun k => (word (place.index - 1)).map (List.drop k)).getD []
  let isQuiet : Bool := spec.head? = some ':'
  let letters := if isQuiet then spec.drop 1 else spec
  let begun : Option (List Char × Nat) :=
    if left ≠ [] then some (left, place.index)
    else
      match word place.index with
      | some ('-' :: c :: rest) => some (c :: rest, place.index + 1)
      | _ => none
  match begun with
  | none | some ([], _) => { place := { index := place.index }, isEnd := true }
  | some (c :: rest, index) =>
    let here : OptionPlace :=
      { index, offset := (word (index - 1)).map fun w => w.length - rest.length }
    if left = [] ∧ c = '-' ∧ rest = [] then { place := { index }, isEnd := true }
    else
      match asksArgument? letters c with
      | none =>
        if isQuiet then { argument := some (some [c]), place := here }
        else
          { argument := some none, place := here
            warning := "Illegal option -".toList ++ [c, '\n'] }
      | some false => { letter := c, argument := some (some []), place := here }
      | some true =>
        if rest ≠ [] then { letter := c, argument := some (some rest), place := { index } }
        else
          match word index with
          | some w => { letter := c, argument := some (some w), place := { index := index + 1 } }
          | none =>
            if isQuiet then { letter := ':', argument := some (some [c]), place := { index } }
            else
              { argument := some none, place := { index }
                warning := "No arg for -".toList ++ c :: " option\n".toList }

end Script
end MachTree
