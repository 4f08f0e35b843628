import MachTree.Script.Builtin.Basic

/-! The words of a program that runs another one with other variables. -/
namespace MachTree
namespace Script

def splitWords (quote : Option Char) (word : Option (List Char)) : List Char → Args
  | [] => word.toList.map List.reverse
  | c :: rest =>
    if quote = some c then splitWords none word rest
    else if quote.isNone && (c = '\x27' || c = '\x22') then
      splitWords (some c) (some (word.getD [])) rest
    else if quote.isNone && (c = ' ' || c = '\t') then
      word.toList.map List.reverse ++ splitWords none none rest
    else splitWords quote (some (c :: word.getD [])) rest

/-- What is asked of a program that runs another one with other variables. -/
structure VariableRequest where
  vars : Table (List Char) (List Char)
  dir : Option (List Char) := none
  separator : Char := '\n'
  command : Args := []

def shortOption (a : List Char) : List Char :=
  let name := a.takeWhile (· ≠ '=')
  let value := a.drop (name.length + 1)
  match ([("--ignore-environment", 'i'), ("--unset", 'u'), ("--chdir", 'C'), ("--null", '0'),
      ("--split-string", 'S')].find? fun e => e.1.toList = name) with
  | some e => '-' :: e.2 :: value
  | none => a

/-- Reads the words of a program that runs another one with other variables, or tells what is wrong
with them. -/
def readVariableRequest (fuel : Nat) (q : VariableRequest) (words : Args) :
    Except (List Char) VariableRequest :=
  match fuel with
  | 0 => .ok q
  | fuel + 1 =>
    match words with
    | ['-'] :: rest => readVariableRequest fuel { q with vars := ∅ } rest
    | ('-' :: '-' :: c :: more) :: rest =>
      let short := shortOption ('-' :: '-' :: c :: more)
      if short = '-' :: '-' :: c :: more then
        .error ("unrecognized option '--".toList ++ c :: more ++ ['\x27'])
      else readVariableRequest fuel q (short :: rest)
    | ['-', '-'] :: rest => .ok (assign q rest)
    | ('-' :: c :: more) :: rest =>
      match asksArgument? "iu:C:0vS:".toList c, more, rest with
      | none, _, _ => .error ("invalid option -- '".toList ++ [c, '\x27'])
      | some false, more, rest =>
        let q := if c = 'i' then { q with vars := ∅ } else
          if c = '0' then { q with separator := '\x00' } else q
        readVariableRequest fuel q (if more = [] then rest else ('-' :: more) :: rest)
      | some true, [], [] => .error ("option requires an argument -- '".toList ++ [c, '\x27'])
      | some true, [], value :: rest => readVariableRequest fuel q (('-' :: c :: value) :: rest)
      | some true, value, rest =>
        if c = 'S' then readVariableRequest fuel q (splitWords none none value ++ rest)
        else
          readVariableRequest fuel (
            if c = 'u' then { q with vars := q.vars.erase value } else { q with dir := some value })
            rest
    | words => .ok (assign q words)
where
  assign (q : VariableRequest) : Args → VariableRequest
    | a :: rest =>
      if '=' ∈ a then
        let name := variableName a
        assign { q with vars := q.vars.insert name (a.drop (name.length + 1)) } rest
      else { q with command := a :: rest }
    | [] => q

end Script
end MachTree
