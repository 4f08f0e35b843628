import MachTree.Script.Builtin.Basic
import MachTree.Text.Split

/-! The current directory of a script, as it is changed and shown. -/
namespace MachTree
namespace Script

/-- A text without what stands after its last slash but one, each given from its end; a number of
characters at the front stay. -/
def climbText (least : Nat) : List Char → List Char
  | c :: rest =>
    if rest.length < least then c :: rest
    else if rest.head? = some '/' then rest
    else climbText least rest
  | [] => []

/-- The text of a directory seen from another one.  Only what is added is cleared of steps that stay
or lead up. -/
def seenFrom (base target : List Char) : List Char :=
  let (front, least) :=
    if startsAtRoot target then
      if target[1]? = some '/' ∧ target[2]? ≠ some '/' then (['/', '/'], 2) else (['/'], 1)
    else
      (if base.getLast? = some '/' then base else base ++ ['/'],
        if base[1]? = some '/' then 2 else 1)
  let ending := (Text.splitOn '/' target).foldl (fun reversed piece =>
    if piece = [] ∨ piece = ['.'] then reversed
    else if piece = ['.', '.'] then climbText least reversed
    else '/' :: piece.reverse ++ reversed) front.reverse
  (if least < ending.length then ending.drop 1 else ending).reverse

/-- The current directory becomes the one that a text leads to.  A `..` in it leads back the way
that the script came, unless links are to be followed first. -/
def changeDirectory (st : State) (followsLinks shows : Bool) (target : List Char) : State :=
  let text := if followsLinks then target else seenFrom st.shownDir target
  match st.files.locateText st.dir (Text.decoded text).toList with
  | .ok loc =>
    if st.files.node? loc ≠ some .directory then
      st.failWith 2 ("can't cd to ".toList ++ target)
    else
      let physical : Path := ⟨.root, loc⟩
      let shown := if followsLinks then Text.encoded physical.toString else text
      let st := (st.put "OLDPWD".toList st.shownDir).setExported "OLDPWD".toList
      let st := (st.put "PWD".toList shown).setExported "PWD".toList
      let st := { st with dir := physical, shownDir := shown }
      if shows then st.tell (shown ++ ['\n']) else st.succeed
  | .error _ => st.failWith 2 ("can't cd to ".toList ++ target)

/-- Whether a path is looked up in the directories of a search path before a change to it. -/
def isSearched (target : List Char) : Bool :=
  match Text.splitOn '/' target with
  | first :: _ => target ≠ [] && !([[], ['.'], ['.', '.']].contains first)
  | [] => false

def searchedDirectory? (st : State) (target : List Char) : Option (List Char × Bool) :=
  ((Text.splitOn ':' (st.get "CDPATH".toList)).map fun dir =>
    if dir = [] then (target, false) else (dir ++ '/' :: target, true)).find? fun e =>
      match st.files.locateText st.dir (Text.decoded e.1).toList with
      | .ok loc => st.files.node? loc = some .directory
      | .error _ => false

def runCd (st : State) (args : Args) : State :=
  st.withFlags false "LP" args fun flags args =>
    let followsLinks : Bool := flags.getLast?.any fun f => f.1 = 'P'
    let goesBack : Bool := args.head? = some ['-']
    let target :=
      if goesBack then st.get "OLDPWD".toList else args.headD (st.get "HOME".toList)
    if target ≠ [] ∧ !isSearched target then changeDirectory st followsLinks goesBack target
    else
      let target := if target = [] then ['.'] else target
      match if (st.find? "CDPATH".toList).isSome then searchedDirectory? st target else none with
      | some (found, shows) => changeDirectory st followsLinks (shows || goesBack) found
      | none => changeDirectory st followsLinks goesBack target

def runPwd (st : State) (args : Args) : State :=
  st.withFlags false "LP" args fun flags _ =>
    let followsLinks : Bool := flags.getLast?.any fun f => f.1 = 'P'
    st.tell ((if followsLinks then Text.encoded st.dir.toString else st.shownDir) ++ ['\n'])

end Script
end MachTree
