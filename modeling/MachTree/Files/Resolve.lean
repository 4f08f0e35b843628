import MachTree.Files.Basic
import MachTree.Platform
import MachTree.Table
import MachTree.Text.Symbol

/-! Paths without symbolic links.  A component that does not exist, or that lies below a file, is
kept as it is; a link that leads back to itself stops the search, and so do too many links that are
met within each other. -/
namespace MachTree
namespace Files

def placeOf (cwd p : Path) : Location := (Path.absolute cwd p).parts

def linkAt? (t : Files) (cwd p : Path) : Option (List Char) :=
  if isTooLong p.text then none
  else
    match t.node? (placeOf cwd p) with
    | some (.link target) => some target
    | _ => none

/-- Why a path cannot be followed to its end. -/
inductive Stuck
  /-- a link that leads back to itself, with what was still to follow -/
  | looping (path : Path)
  | nullCharacter
  | nestedTooDeep
deriving DecidableEq

/-- Goes on, after the path of a loop, with the way that was still to follow. -/
def Stuck.andThen (rest : Way) : Stuck → Stuck
  | .looping path => .looping (path ++ Way.toPath rest)
  | stuck => stuck

/-- The links that have been met, by the path on which each was met, and where each leads once that
is known.  One that is met on a relative and on an absolute path is followed for both. -/
abbrev Met := Table Path (Option Path)

/-- The links that may be met within each other.  What bounds them is the stack, as it is when a
build is set up. -/
def maxNestedLinks : Nat := 989

/-- Follows steps from a path without links.  A link whose end is not known yet leads back to
itself. -/
def follow (t : Files) (cwd : Path) (depth : Nat) (met : Met) (here : Path) :
    Way → Except Stuck Path × Met
  | [] => (.ok here, met)
  | .nothing :: rest | .stay :: rest => follow t cwd depth met here rest
  | .up :: rest =>
    follow t cwd depth met (Path.mk here.anchor (here.parts ++ [Component.up])).normal rest
  | .enter c :: rest =>
    let next : Path := ⟨here.anchor, here.parts ++ [c]⟩
    if c.hasNull then (.error .nullCharacter, met)
    else
      match t.linkAt? cwd next with
      | none => follow t cwd depth met next rest
      | some target =>
        match met.get? next with
        | some (some there) => follow t cwd depth met there rest
        | some none => (.error (.looping (next ++ Way.toPath rest)), met)
        | none =>
          match depth with
          | 0 => (.error .nestedTooDeep, met)
          | depth + 1 =>
            -- a link that is met again before its own way has come to an end is a loop
            match follow t cwd depth (met.insert next none)
                (if startsAtRoot target then ⟨.root, []⟩ else here) (Way.ofText target) with
            | (.ok there, met) =>
              follow t cwd (depth + 1) (met.insert next (some there)) there rest
            | (.error stuck, met) => (.error (stuck.andThen rest), met)
termination_by way => (depth, way.length)

def followAll (t : Files) (cwd p : Path) : Except Stuck Path :=
  (t.follow cwd maxNestedLinks ∅
    (if p.isAbsolute then ⟨.root, []⟩ else Path.here) (Way.ofText p.text)).1

/-- Why a path has no form without links. -/
inductive Unresolved
  | linkLoop (path : Path)
  | linksTooDeep
  | nullCharacter
  | unencodable (e : Unencodable)
  /-- the path is relative, and the current directory has been removed -/
  | noCurrentDirectory
deriving DecidableEq

/-- The path in its absolute normal form, which must not be a loop. -/
def withoutLoop (t : Files) (cwd p : Path) : Except Unresolved Path :=
  match t.stat cwd (Path.absolute cwd p) with
  | .error .tooManyLinks => .error (.linkLoop (Path.absolute cwd p))
  | _ => .ok (Path.absolute cwd p)

/-- The absolute path without links that leads to the same place. -/
def resolve (t : Files) (cwd p : Path) : Except Unresolved Path :=
  match t.followAll cwd p with
  | .error .nullCharacter => .error .nullCharacter
  | .error .nestedTooDeep => .error .linksTooDeep
  | .ok q | .error (.looping q) =>
    if !q.isAbsolute && cwd.isRemoved then .error .noCurrentDirectory
    else if (Path.absolute cwd q).hasNull then .error .nullCharacter
    else t.withoutLoop cwd q

/-- The first piece of a way that no file can be asked for by, and why; `position` is that of the
way in its text. -/
def refusal? (position : Nat) : List Symbols → Option Unresolved
  | [] => none
  | piece :: rest =>
    match piece.unencodable? position with
    | some e => some (.unencodable e)
    | none =>
      if Symbol.char '\x00' ∈ piece then some .nullCharacter
      else refusal? (position + piece.length + 1) rest

/-- The absolute path without links for a text in which a surrogate stands alone.  The way to the
first of them is followed; there is nothing below, as all names in a tree are UTF-8. -/
def resolveTorn (t : Files) (cwd : Path) (platform : Platform) (s : Symbols) :
    Except Unresolved Path :=
  let clean := s.takeWhile fun x => x.char?.isSome
  -- the name in which the surrogate stands is no longer followed, and is left with the rest
  let front := (clean.reverse.dropWhile (· ≠ .char '/')).reverse
  let rest := s.drop front.length
  match t.followAll cwd (platform.path (Symbols.name front)) with
  | .error .nullCharacter => .error .nullCharacter
  | .error .nestedTooDeep => .error .linksTooDeep
  | .ok q | .error (.looping q) =>
    let position := q.parts.foldl (fun n c => n + c.val.length + 1) q.anchor.text.length
    match refusal? position (Symbols.pieces rest) with
    | some reason => .error reason
    | none =>
      if !q.isAbsolute && cwd.isRemoved then .error .noCurrentDirectory
      else t.withoutLoop cwd (q ++ Path.ofString (Symbols.name rest))

/-- The absolute path without links that a build tool means by a text. -/
def resolveText (t : Files) (cwd : Path) (platform : Platform) (s : Symbols) :
    Except Unresolved Path :=
  match Symbols.string? s with
  | some text => t.resolve cwd (platform.path text)
  | none => t.resolveTorn cwd platform s

end Files
end MachTree
