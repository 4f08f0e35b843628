import MachTree.Script.Program
import MachTree.Script.Builtin.Basic

/-! What names of commands stand for. -/
namespace MachTree
namespace Script

def programPath? (st : State) (name : List Char) : Option (List Char) :=
  ((Program.candidates Program.slash st.searchPath (Text.decoded name)).find? fun file =>
    match st.files.locateText st.dir file.toList with
    | .ok loc =>
      match st.files.node? loc with
      | some (.file _ executable) => executable
      | _ => false
    | .error _ => false).map Text.encoded

def aliasText (name value : List Char) : List Char := name ++ '=' :: shownValue value ++ ['\n']

def describe (st : State) (inFull : Bool) (name : List Char) : State :=
  let line (inShort : List Char) (what : String) : State :=
    (st.print 1 (if inFull then name ++ what.toList ++ ['\n'] else inShort ++ ['\n'])).1
  let text := String.ofList name
  if (Mark.ofWord? name).isSome then line name " is a shell keyword"
  else
    match st.aliases.get? name with
    | some value =>
      (st.print 1 (if inFull then name ++ " is an alias for ".toList ++ value ++ ['\n']
        else "alias ".toList ++ aliasText name value)).1
    | none =>
      if text ∈ specialBuiltins then line name " is a special shell builtin"
      else if (st.functions.get? name).isSome then line name " is a shell function"
      else if text ∈ builtins then line name " is a shell builtin"
      else
        match programPath? st name with
        | some path =>
          let what := if st.tracked.contains name then " is a tracked alias for " else " is "
          (line path (what ++ String.ofList path)).track name
        | none =>
          if inFull then (line [] ": not found").withStatus 127 else st.withStatus 127

def runType (st : State) (args : Args) : State :=
  args.foldl (fun st name =>
    let after := describe st true name
    if after.status = 0 then after.withStatus st.status else after) st.succeed

def runHash (st : State) (args : Args) : State :=
  st.withFlags false "r" args fun flags args =>
    if flags ≠ [] then { st with tracked := [] }.succeed
    else if args = [] then
      st.tell ((inTableOrder 31 st.tracked).flatMap fun name =>
        (programPath? st name).elim [] fun path => path ++ ['\n'])
    else
      args.foldl (fun st name =>
        if '/' ∈ name || String.ofList name ∈ builtins || (st.functions.get? name).isSome then st
        else if (programPath? st name).isNone then
          (st.complain (name ++ ": not found".toList)).withStatus 1
        else st.track name) st.succeed

def runAlias (st : State) (args : Args) : State :=
  if args = [] then
    st.tell ((inTableOrder 39 st.aliases.keys).flatMap fun name =>
      aliasText name ((st.aliases.get? name).getD []))
  else
    args.foldl (fun st a =>
      let name := a.take 1 ++ (a.drop 1).takeWhile (· ≠ '=')
      if name.length < a.length then
        { st with
          aliases := st.aliases.insert name (a.drop (name.length + 1))
          doomedAliases := st.doomedAliases.filter (· ≠ name) }
      else
        match st.aliases.get? a with
        | some value => (st.print 1 (aliasText a value)).1
        | none =>
          (st.printErr ("alias: ".toList ++ a ++ " not found\n".toList)).withStatus 1) st.succeed

def dropAlias (st : State) (name : List Char) : State :=
  if st.heldAliases.contains name then { st with doomedAliases := name :: st.doomedAliases }
  else { st with aliases := st.aliases.erase name }

def runUnalias (st : State) (args : Args) : State :=
  st.withFlags false "a" args fun flags args =>
    if flags ≠ [] then (st.aliases.keys.foldl dropAlias st).succeed
    else
      args.foldl (fun st name =>
        if (st.aliases.get? name).isSome then dropAlias st name
        else
          (st.printErr ("unalias: ".toList ++ name ++ " not found\n".toList)).withStatus 1)
        st.succeed

end Script
end MachTree
