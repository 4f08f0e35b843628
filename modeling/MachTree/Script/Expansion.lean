import MachTree.Script.Arithmetic
import MachTree.Script.Pattern
import MachTree.Script.Task
import MachTree.Text.Split

/-! What words stand for: their substitutions are made, what these give outside quotes is cut into
fields, and fields that are patterns become the names of files. -/
namespace MachTree
namespace Script

/-- A part of a word whose substitutions have been made. -/
inductive Bit
  /-- a place with quotes -/
  | mark
  /-- the start of what a substitution gives: arguments that are fields of their own, or text that
  is cut into fields -/
  | start (ofArguments : Bool)
  /-- the end of one argument, before the next -/
  | cut
  /-- a character that is not cut -/
  | char (g : Glyph)
  /-- a character of text that is cut into fields -/
  | given (c : Char)
deriving DecidableEq

namespace Bit

def glyph? : Bit → Option Glyph
  | .char g => some g
  | .given c => some ⟨c, false⟩
  | _ => none

def ofText (isQuoted : Bool) (cs : List Char) : List Bit :=
  if isQuoted then cs.map fun c => .char ⟨c, true⟩ else .start false :: cs.map .given

end Bit

def glyphs (bits : List Bit) : List Glyph := bits.filterMap Bit.glyph?

def bitText (bits : List Bit) : List Char := Glyph.text (glyphs bits)

/-- Fields while they are put together. -/
structure Cutting where
  done : List (List Bit) := []
  /-- the field that has begun, the last part first -/
  current : List Bit := []
  /-- whether separators that follow the end of a field are passed over, and whether that may still
  be one that is not blank -/
  passing : Option Bool := none
  /-- whether the last substitution gave arguments, and whether the one before it did -/
  ofArguments : Bool := false
  afterArguments : Bool := false

def isBlankSeparator (c : Char) : Bool := c = ' ' || c = '\t' || c = '\n'

namespace Cutting

def finish (f : Cutting) : Cutting :=
  { f with done := f.current.reverse :: f.done, current := [], passing := none }

def add (f : Cutting) (b : Bit) : Cutting := { f with current := b :: f.current, passing := none }

/-- A separator: blanks end a field once, any other ends one each time with the blanks around it. -/
def separate (f : Cutting) (isBlank : Bool) : Cutting :=
  let endField : Cutting :=
    if isBlank && f.current = [] && !f.afterArguments then { f with passing := none }
    else { f.finish with passing := some isBlank }
  match f.passing with
  | none => endField
  | some mayPass =>
    if isBlank then f else if mayPass then { f with passing := some false } else endField

def step (separators : List Char) (f : Cutting) (b : Bit) : Cutting :=
  match b with
  | .start ofArguments =>
    { f with passing := none, ofArguments, afterArguments := f.ofArguments }
  | .given c => if c ∈ separators then f.separate (isBlankSeparator c) else f.add b
  | .cut => if f.ofArguments then f.finish else f.separate true
  | b => f.add b

end Cutting

def cutFields (separators : List Char) (bits : List Bit) : List (List Bit) :=
  let f := bits.foldl (Cutting.step separators) {}
  (if f.current = [] ∧ !f.ofArguments then f.done else f.finish.done).reverse

def entries (st : State) (dir : Path) : List (List Char) :=
  match st.files.locate st.dir dir with
  | .error _ => []
  | .ok loc => (st.files.namesIn loc).map fun c => Text.encoded c.val

/-- Whether there is anything at a text, be it a link that leads nowhere. -/
def isThere (st : State) (text : List Char) : Bool :=
  let p := pathOf text
  let isOpen : Bool :=
    match st.files.locate st.dir p.parent with
    | .ok dir => (p.parts.getLast?.bind fun c => st.files.node? (dir ++ [c])).isSome
    | .error _ => false
  if text.getLast? = some '/' then
    match st.files.locateText st.dir (Text.decoded text).toList with
    | .ok loc => (st.files.node? loc).isSome
    | .error _ => false
  else isOpen || (st.files.stat st.dir p matches .ok _)

def pathPieces (gs : List Glyph) : List (List Glyph) :=
  gs.foldr (fun g acc =>
    match acc with
    | piece :: more => if g.char = '/' then [] :: piece :: more else (g :: piece) :: more
    | [] => [[g]]) [[]]

def pathsAfter (st : State) (front : List Char) : List (List Glyph) → List (List Char)
  | [] => []
  | [piece] =>
    if piece.any Glyph.isMagic then
      (Pattern.names piece (entries st (pathOf front))).map (front ++ ·)
    else
      let text := front ++ Glyph.text piece
      if isThere st text then [text] else []
  | piece :: rest =>
    if piece.any Glyph.isMagic then
      (Pattern.names piece (entries st (pathOf front))).flatMap fun name =>
        pathsAfter st (front ++ name ++ ['/']) rest
    else pathsAfter st (front ++ Glyph.text piece ++ ['/']) rest

/-- The paths that a field fits, in order, or else the field itself. -/
def pathsOf (st : State) (field : List Bit) : List (List Char) :=
  let gs := glyphs field
  if gs.any Glyph.isMagic && !('f' ∈ st.options) then
    match pathsAfter st [] (pathPieces gs) with
    | [] => [Glyph.text gs]
    | paths => paths.mergeSort fun a b => !decide (b < a)
  else [Glyph.text gs]

/-- How a word is used: whether it may become several fields. -/
inductive Use
  | fields
  | text
deriving DecidableEq

/-- What stands between all arguments where they are one text; where they may become fields of their
own, nothing does. -/
def betweenArguments (st : State) (use : Use) (name : List Char) (isQuoted : Bool) :
    Option (List Char) :=
  if use = .text ∨ (isQuoted ∧ name = ['*']) then
    some ((st.find? "IFS".toList).elim [' '] fun ifs => ifs.take 1)
  else none

def argumentBits (st : State) (use : Use) (name : List Char) (isQuoted : Bool) : List Bit :=
  match betweenArguments st use name isQuoted with
  | some between => Bit.ofText isQuoted (between.intercalate st.args)
  | none =>
    if st.args = [] ∧ isQuoted then []
    else
      .start isQuoted :: [Bit.cut].intercalate (st.args.map fun a => a.map fun c =>
        if isQuoted then .char ⟨c, true⟩ else .given c)

/-- All arguments as one text; a zero character ends those that may become fields. -/
def argumentText (st : State) (use : Use) (name : List Char) (isQuoted : Bool) : List Char :=
  ((betweenArguments st use name isQuoted).getD ['\x00']).intercalate st.args

/-- The replacement of a tilde at the front of a text, up to a character that ends a name. -/
def expandTilde (st : State) (ends : List Char) (cs : List Char) (isWhole : Bool) :
    Option (List Char × List Char) :=
  match cs with
  | '~' :: rest =>
    let user := rest.takeWhile fun c => c ∉ ends
    if user.length = rest.length ∧ !isWhole then none
    else if user = [] then (st.find? "HOME".toList).map fun home => (home, rest)
    else if user = "root".toList then some ("/root".toList, rest.drop 4)
    else none
  | _ => none

/-- A word with its tildes replaced: the one at the front, and those after a colon in the value of a
variable. -/
def withTildes (st : State) (isValue : Bool) (w : Word) : Word :=
  let ends := if isValue then ['/', ':'] else ['/']
  let expand (cs : List Char) (isWhole : Bool) : Word :=
    match expandTilde st ends cs isWhole with
    | some (home, rest) => [.text home true, .text rest false]
    | none => [.text cs false]
  match w with
  | .text cs false :: rest =>
    if isValue then
      let parts := Text.splitOn ':' cs
      let isLast (k : Nat) : Bool := k + 1 = parts.length
      ((parts.zipIdx.map fun e =>
        expand e.1 (!isLast e.2 || rest.isEmpty) ++
          if isLast e.2 then [] else [.text [':'] false]).flatten) ++ rest
    else expand cs rest.isEmpty ++ rest
  | w => w

def counts (empty : Bool) (value : Option (List Char)) : Bool :=
  match value with
  | none => false
  | some cs => !(empty && cs.isEmpty)

def isArguments (name : List Char) : Bool := name = ['@'] || name = ['*']

def valueOf? (st : State) (use : Use) (name : List Char) (isQuoted : Bool) : Option (List Char) :=
  if isArguments name then some (argumentText st use name isQuoted) else st.parameter? name

variable (perform : Command → Act (List Char))

def abortWith (what : List Char) : Act (List Bit) := do
  modify fun st => st.abort what
  pure []

mutual

/-- What a part of a word stands for.  The text of the operand of a substitution outside quotes is
cut like what the substitution gives. -/
def expandPiece (use : Use) (inOperand : Bool) (p : Piece) : Act (List Bit) := do
  let st ← get
  if !st.isGoing then return []
  match p with
  | .text cs isQuoted =>
    pure (if inOperand && !isQuoted then Bit.ofText false cs
      else cs.map fun c => .char ⟨c, isQuoted⟩)
  | .quotes => pure [.mark]
  | .output body isQuoted =>
    let text ← perform body
    pure (Bit.ofText isQuoted
      ((text.reverse.dropWhile (· = '\n')).reverse.filter (· ≠ '\x00')))
  | .arithmetic expression isQuoted =>
    let bits ← expandPieces .text false expression
    let st ← get
    if !st.isGoing then return []
    match Arithmetic.evaluate st.get (bitText bits) with
    | .ok (n, assigned) =>
      modify fun st => assigned.entries.foldl (fun st e =>
        if st.isGoing then st.assign e.1 e.2 else st) st
      pure (Bit.ofText isQuoted (Arithmetic.shownNumber n))
    | .error (.malformed what cs) =>
      abortWith ("arithmetic expression: ".toList ++ what.toList ++ ": \x22".toList ++ cs ++
        ['\x22'])
    | .error (.notNumber cs) => abortWith ("Illegal number: ".toList ++ cs)
  | .param name rule operand isQuoted =>
    let value := valueOf? st use name isQuoted
    let shown (st : State) : List Bit :=
      if isArguments name then argumentBits st use name isQuoted
      else Bit.ofText isQuoted ((st.parameter? name).getD [])
    let isMissing : Bool := value.isNone && 'u' ∈ st.options
    let missing : Act (List Bit) := abortWith (name ++ ": parameter not set".toList)
    match rule with
    | .value => if isMissing then missing else pure (if value.isNone then [] else shown st)
    | .length =>
      if isMissing then missing
      else pure (Bit.ofText isQuoted (shownNat (value.getD []).length))
    | .orElse empty =>
      if counts empty value then pure (shown st) else expandPieces use (!isQuoted) operand
    | .ifSet empty =>
      if counts empty value then expandPieces use (!isQuoted) operand
      else pure (Bit.ofText isQuoted [])
    | .orAssign empty =>
      if counts empty value then return shown st
      let bits ← expandPieces .text false operand
      if !(← get).isGoing then return []
      if !isName name then abortWith (name ++ ": bad variable name".toList)
      else
        modify fun st => st.assign name (bitText bits)
        pure (shown (← get))
    | .orComplain empty =>
      if counts empty value then return shown st
      let bits ← expandPieces .text false operand
      if !(← get).isGoing then return []
      let what :=
        if operand.isEmpty then
          "parameter not set".toList ++ if empty then " or null".toList else []
        else bitText bits
      abortWith (name ++ ": ".toList ++ what)
    | .trim atEnd longest =>
      if isMissing then missing
      else
        let bits ← expandPieces .text false operand
        let kept := (Pattern.ofGlyphs (glyphs bits)).trim atEnd longest (value.getD [])
        let st ← get
        if value.isNone then pure []
        else if isArguments name && (betweenArguments st use name isQuoted).isNone then
          pure (argumentBits { st with args := Text.splitOn '\x00' kept } use name isQuoted)
        else pure (Bit.ofText isQuoted kept)
    | .none => abortWith "Bad substitution".toList

def expandPieces (use : Use) (inOperand : Bool) (w : List Piece) : Act (List Bit) := do
  match w with
  | [] => pure []
  | p :: rest =>
    let front ← expandPiece use inOperand p
    pure (front ++ (← expandPieces use inOperand rest))

end

def expandWord (w : Word) : Act (List (List Char)) := do
  let bits ← expandPieces perform .fields false (withTildes (← get) false w)
  let st ← get
  pure (if st.isGoing then (cutFields st.separators bits).flatMap (pathsOf st) else [])

def expandFields (ws : List Word) : Act (List (List Char)) := do
  pure (← ws.mapM (expandWord perform)).flatten

def expandText (isValue : Bool) (w : Word) : Act (List Char) := do
  pure (bitText (← expandPieces perform .text false (withTildes (← get) isValue w)))

def expandPattern (w : Word) : Act Pattern := do
  let bits ← expandPieces perform .text false (withTildes (← get) false w)
  pure (Pattern.ofGlyphs (glyphs bits))

end Script
end MachTree
