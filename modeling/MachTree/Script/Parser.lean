import MachTree.Script.Reader

/-! Commands read from the text of a script.  A script is read command by command, and each is run
before the next is read; what is wrong further on does not keep it from running. -/
namespace MachTree
namespace Script

open Parse

def ruleOf? (empty : Bool) : Char → Option ParamRule
  | '-' => some (.orElse empty)
  | '=' => some (.orAssign empty)
  | '?' => some (.orComplain empty)
  | '+' => some (.ifSet empty)
  | _ => none

/-- The rule after the name of a parameter between braces.  The closing brace of one without a rule
is taken away as well. -/
def readRule : Parse ParamRule := do
  match ← joined with
  | '\x7d' :: _ =>
    skip 1
    pure .value
  | ':' :: c :: _ =>
    match ruleOf? true c with
    | some rule =>
      skip 2
      pure rule
    | none =>
      skip (if c = '\x7d' then 1 else 2)
      pure .none
  | c :: _ =>
    if c = '%' ∨ c = '#' then
      skip 1
      pure (.trim (c = '%') (← skipChar c))
    else
      match ruleOf? false c with
      | some rule =>
        skip 1
        pure rule
      | none =>
        skip 1
        pure .none
  | [] => pure .none

def readParam : Parse (List Char × ParamRule) := do
  match ← joined with
  | c :: rest =>
    if isNameStart c then
      let name ← takeWhile isNameChar
      pure (name, ← readRule)
    else if c.isDigit then
      let name ← takeWhile Char.isDigit
      pure (name, ← readRule)
    else if c = '#' ∧ rest.head?.any isNameChar then
      skip 1
      let name ← takeWhile (if rest.head?.any Char.isDigit then Char.isDigit else isNameChar)
      pure (name, if (← joined).head? = some '\x7d' then .length else .none)
    else if c = '#' ∧ rest.head?.any isSpecial ∧ (rest.drop 1).head? = some '\x7d' then
      skip 2
      pure (rest.take 1, .length)
    else if isSpecial c then
      skip 1
      pure ([c], ← readRule)
    else pure ([], .none)
  | [] => pure ([], .none)

def readRedirect (fd : Option Nat) : Parse Token := do
  if ← skipChar '>' then
    let direction : Direction ←
      if ← skipChar '>' then pure .append
      else if ← skipChar '|' then pure .overwrite
      else if ← skipChar '&' then pure .duplicate
      else pure .output
    pure (.redirect (fd.getD 1) direction)
  else
    skip 1
    if ← skipChar '<' then pure (.document (fd.getD 0) (← skipChar '-'))
    else
      let direction : Direction ←
        if ← skipChar '&' then pure .duplicate
        else if ← skipChar '>' then pure .both
        else pure .input
      pure (.redirect (fd.getD 0) direction)

def readOperator? : Parse (Option Mark) := do
  match ← joined with
  | '&' :: _ =>
    skip 1
    pure (some (if ← skipChar '&' then .andAnd else .amp))
  | '|' :: _ =>
    skip 1
    pure (some (if ← skipChar '|' then .orOr else .bar))
  | ';' :: _ =>
    skip 1
    pure (some (if ← skipChar ';' then .semiSemi else .semi))
  | '(' :: _ =>
    skip 1
    pure (some .openParen)
  | ')' :: _ =>
    skip 1
    pure (some .closeParen)
  | '\n' :: _ =>
    skip 1
    pure (some .newline)
  | [] => pure (some .ended)
  | _ => pure none

def skipBlanks (fuel : Nat) : Parse Unit := do
  match fuel, ← joined with
  | fuel + 1, c :: _ =>
    if c = ' ' ∨ c = '\t' then
      skip 1
      skipBlanks fuel
    else if c = '#' then
      let _ ← takeWhile (· ≠ '\n')
    else pure ()
  | _, _ => pure ()

/-- Takes the characters in front that stand for themselves between double quotes. -/
def takeRun (stops : List Char) : Parse (List Char) :=
  takeWhile fun c => !(c ∈ ['\\', '$', '\x60']) && !(c ∈ stops)

def specialBuiltins : List String :=
  [".", ":", "break", "continue", "eval", "exec", "exit", "export", "local", "readonly", "return",
    "set", "shift", "times", "trap", "unset"]

def quotedWord : Word → Word
  | [.param ['@'] .value operand true] => [.param ['@'] .value operand true]
  | w => .quotes :: w ++ [.quotes]

mutual

def readDollar (fuel : Nat) (isQuoted : Bool) : Parse Piece := do
  match fuel with
  | 0 => refuse .missingBrace
  | fuel + 1 =>
    match ← joined with
    | '(' :: _ =>
      skip 1
      if ← skipChar '(' then pure (.arithmetic (← readArithmetic fuel 0) isQuoted)
      else
        pure (.output (← nested (do
          let c ← readList fuel true
          let t ← readToken fuel false true
          if t.is .closeParen then pure c else unexpected t (some .closeParen))) isQuoted)
    | '\x7b' :: _ =>
      skip 1
      let (name, rule) ← readParam
      let operand ←
        match rule with
        | .value => pure []
        | .trim _ _ => readUnquoted fuel true
        | _ => if isQuoted then readOperand fuel false else readUnquoted fuel true
      pure (.param name rule operand isQuoted)
    | c :: _ =>
      if isNameStart c then pure (.param (← takeWhile isNameChar) .value [] isQuoted)
      else if isSpecial c then
        skip 1
        pure (.param [c] .value [] isQuoted)
      else pure (.text ['$'] isQuoted)
    | [] => pure (.text ['$'] isQuoted)

def readBackquoted (fuel : Nat) (isQuoted : Bool) : Parse Piece := do
  match fuel with
  | 0 => refuse .unterminatedBackquote
  | fuel + 1 =>
    let cs ← rest
    match backquoted isQuoted cs with
    | none =>
      skip cs.length
      refuse .unterminatedBackquote
    | some (text, after) =>
      let c ← within text (readList fuel true)
      skip (cs.length - after.length)
      pure (.output c isQuoted)

def readArithmetic (fuel depth : Nat) : Parse Word := do
  match fuel with
  | 0 => refuse .missingParentheses
  | fuel + 1 =>
    let run ← takeRun ['(', ')']
    if run ≠ [] then return .text run true :: (← readArithmetic fuel depth)
    match ← char? with
    | none => refuse .missingParentheses
    | some '(' => pure (.text ['('] true :: (← readArithmetic fuel (depth + 1)))
    | some ')' =>
      match depth with
      | 0 =>
        if ← skipChar ')' then pure []
        else pure (.text [')'] true :: (← readArithmetic fuel 0))
      | depth + 1 => pure (.text [')'] true :: (← readArithmetic fuel depth))
    | some c =>
      let piece ← readInDouble fuel ['\x22'] c
      pure (piece :: (← readArithmetic fuel depth))

/-- A piece between double quotes that starts with a character; a backslash takes the meaning from
some characters only. -/
def readInDouble (fuel : Nat) (escaped : List Char) (c : Char) : Parse Piece := do
  match fuel with
  | 0 => refuse .unterminatedQuote
  | fuel + 1 =>
    if c = '$' then readDollar fuel true
    else if c = '\x60' then readBackquoted fuel true
    else if c = '\\' then
      match ← rest with
      | d :: _ =>
        skip 1
        pure (.text (if d ∈ ['\\', '\x60', '$'] ++ escaped then [d] else ['\\', d]) true)
      | [] => pure (.text ['\\'] true)
    else pure (.text [c] true)

def readDouble (fuel : Nat) : Parse Word := do
  match fuel with
  | 0 => refuse .unterminatedQuote
  | fuel + 1 =>
    let run ← takeRun ['\x22']
    if run ≠ [] then return .text run true :: (← readDouble fuel)
    match ← char? with
    | none => refuse .unterminatedQuote
    | some '\x22' => pure []
    | some c =>
      let piece ← readInDouble fuel ['\x22'] c
      pure (piece :: (← readDouble fuel))

/-- The operand of a parameter between double quotes, up to its closing brace. -/
def readOperand (fuel : Nat) (isInner : Bool) : Parse Word := do
  match fuel with
  | 0 => refuse .unterminatedQuote
  | fuel + 1 =>
    let run ← takeRun ['\x22', '\x7d']
    if run ≠ [] then return .text run true :: (← readOperand fuel isInner)
    match ← char? with
    | none => refuse .unterminatedQuote
    | some '\x22' => readOperand fuel (!isInner)
    | some c =>
      if c = '\x7d' ∧ !isInner then pure []
      else
        let piece ← readInDouble fuel ['\x22', '\x7d'] c
        pure (piece :: (← readOperand fuel isInner))

def readDocument (fuel : Nat) : Parse Word := do
  match fuel with
  | 0 => pure []
  | fuel + 1 =>
    let run ← takeRun []
    if run ≠ [] then return .text run true :: (← readDocument fuel)
    match ← char? with
    | none => pure []
    | some c =>
      let piece ← readInDouble fuel [] c
      pure (piece :: (← readDocument fuel))

def readUnquoted (fuel : Nat) (inBraces : Bool) : Parse Word := do
  match fuel with
  | 0 => refuse .missingBrace
  | fuel + 1 =>
    match ← joined with
    | [] => if inBraces then refuse .missingBrace else pure []
    | c :: after =>
      if isPlain c then
        let front ← takeWhile isPlain
        pure (.text front false :: (← readUnquoted fuel inBraces))
      else if c = '\x7d' ∧ inBraces then
        skip 1
        pure []
      else if endsWord c ∧ !inBraces then pure []
      else
        skip 1
        let pieces ←
          if c = '\x27' then pure [.quotes, .text (← toQuote) true]
          else if c = '\x22' then pure (quotedWord (← readDouble fuel))
          else if c = '\\' then
            skip 1
            pure [.text (if after = [] then ['\\'] else after.take 1) true]
          else if c = '$' then pure [← readDollar fuel false]
          else if c = '\x60' then pure [← readBackquoted fuel false]
          else pure [.text [c] false]
        pure (pieces ++ (← readUnquoted fuel inBraces))

def readDocuments (fuel : Nat) (pending : List Pending) : Parse Unit := do
  match fuel, pending with
  | fuel + 1, d :: more =>
    let cs ← rest
    let (body, after) := takeDocument d (cs.length + 1) false cs
    let w ←
      if d.isLiteral then pure [.text body true]
      else within body (readDocument fuel)
    skip (cs.length - after.length)
    modify fun r => { r with documents := (d.index, w) :: r.documents }
    readDocuments fuel more
  | _, _ => pure ()

def readRaw (fuel : Nat) : Parse Token := do
  match fuel with
  | 0 => pure (.mark .ended)
  | fuel + 1 =>
    match (← get).pushed with
    | some t =>
      modify fun r => { r with pushed := none }
      pure t
    | none =>
      skipBlanks (← rest).length
      let cs ← joined
      match ← readOperator? with
      | some m => pure (.mark m)
      | none =>
        let isRedirect (c : Option Char) : Bool := c = some '<' || c = some '>'
        if isRedirect cs.head? then readRedirect none
        else if cs.head?.any Char.isDigit && isRedirect (cs.drop 1).head? then
          skip 1
          readRedirect (cs.head?.map fun c => c.toNat - 48)
        else pure (.word (← readUnquoted fuel false))

/-- The next token; ends of lines may be skipped, and words may be reserved or aliases. -/
def readToken (fuel : Nat) (skipsLines findsReserved : Bool)
    (findsAliases : Bool := findsReserved) : Parse Token := do
  match fuel with
  | 0 => pure (.mark .ended)
  | fuel + 1 =>
    let r ← get
    let hasAliases := !r.aliases.isEmpty
    let before := if hasAliases then r.rest.length else 0
    let t ← readRaw fuel
    match t with
    | .mark .newline =>
      if skipsLines then
        endLine fuel
        readToken fuel true findsReserved findsAliases
      else pure t
    | .word w =>
      match if findsReserved then (plain? w).bind Mark.ofWord? else none, plain? w with
      | some m, _ => pure (.mark m)
      | none, some word =>
        if hasAliases then
          if ← substituteAlias word findsAliases before then
            readToken fuel skipsLines findsReserved findsAliases
          else pure t
        else pure t
      | none, none => pure t
    | t => pure t

def endLine (fuel : Nat) : Parse Unit := do
  match fuel with
  | 0 => pure ()
  | fuel + 1 =>
    let pending := (← get).pending
    modify fun r => { r with pending := [] }
    readDocuments fuel pending

/-- A list of commands over several lines, which may be empty. -/
def readList (fuel : Nat) (mayBeEmpty : Bool) : Parse Command := do
  match fuel with
  | 0 => pure .nothing
  | fuel + 1 =>
    let t ← readToken fuel true true
    push t
    match t with
    | .mark .ended =>
      endLine fuel
      pure .nothing
    | .mark m =>
      if mayBeEmpty && m ∈ Mark.listEnds then pure .nothing
      else
        let c ← readChain fuel
        readListRest fuel c
    | _ =>
      let c ← readChain fuel
      readListRest fuel c

def readListRest (fuel : Nat) (first : Command) : Parse Command := do
  match fuel with
  | 0 => pure first
  | fuel + 1 =>
    let t ← readToken fuel false false
    match t with
    | .mark .amp => pure (.both (.background first) (← readList fuel true))
    | .mark .semi => pure (.both first (← readList fuel true))
    | .mark .newline =>
      push t
      pure (.both first (← readList fuel true))
    | t =>
      push t
      pure first

def readChain (fuel : Nat) : Parse Command := do
  match fuel with
  | 0 => pure .nothing
  | fuel + 1 =>
    let c ← readPipe fuel false
    readLinks fuel c

def readLinks (fuel : Nat) (first : Command) : Parse Command := do
  match fuel with
  | 0 => pure first
  | fuel + 1 =>
    let t ← readToken fuel false false
    match t with
    | .mark .andAnd =>
      let second ← readPipe fuel true
      readLinks fuel (.andThen first second)
    | .mark .orOr =>
      let second ← readPipe fuel true
      readLinks fuel (.orElse first second)
    | t =>
      push t
      pure first

def readPipe (fuel : Nat) (skipsLines : Bool) : Parse Command := do
  match fuel with
  | 0 => pure .nothing
  | fuel + 1 =>
    let t ← readToken fuel skipsLines true
    if t.is .bang then
      let c ← readStages fuel false
      pure (.negate c)
    else
      push t
      readStages fuel false

def readStages (fuel : Nat) (skipsLines : Bool) : Parse Command := do
  match fuel with
  | 0 => pure .nothing
  | fuel + 1 =>
    let first ← readCommand fuel skipsLines
    let t ← readToken fuel false false
    if t.is .bar then
      match ← readStages fuel true with
      | .pipe stages => pure (.pipe (first :: stages))
      | c => pure (.pipe [first, c])
    else
      push t
      pure first

def readCommand (fuel : Nat) (skipsLines : Bool) : Parse Command := do
  match fuel with
  | 0 => pure .nothing
  | fuel + 1 =>
    let t ← readToken fuel skipsLines true
    let line := (← get).line
    match t with
    | .mark .ifWord => readRedirects fuel line (← readBranch fuel)
    | .mark .whileWord => readRedirects fuel line (← readLoop fuel true)
    | .mark .untilWord => readRedirects fuel line (← readLoop fuel false)
    | .mark .forWord => readRedirects fuel line (← readEach fuel line)
    | .mark .caseWord =>
      let t ← readToken fuel false false
      match t with
      | .word w =>
        let t ← readToken fuel true true false
        if t.is .inWord then readRedirects fuel line (.choose line w (← readChoices fuel))
        else unexpected t (some .inWord)
      | t => notWord t
    | .mark .openParen =>
      let c ← readList fuel false
      close fuel .closeParen
      readRedirects fuel line (.subshell line c [])
    | .mark .openBrace =>
      let c ← readList fuel false
      close fuel .closeBrace
      readRedirects fuel line c
    | .word _ | .redirect _ _ | .document _ _ =>
      push t
      readSimple fuel line [] [] []
    | t => unexpected t

def close (fuel : Nat) (m : Mark) : Parse Unit := do
  match fuel with
  | 0 => pure ()
  | fuel + 1 =>
    let t ← readToken fuel false true false
    if t.is m then pure () else unexpected t (some m)

def readTarget (fuel : Nat) (t : Token) : Parse Redirect := do
  match fuel, t with
  | _ + 1, .document fd dropsTabs =>
    skipBlanks (← rest).length
    match ← readOperator? with
    | some m => unexpected (.mark m)
    | none =>
      let cs ← joined
      if cs.head? = some '<' ∨ cs.head? = some '>' then unexpected (.redirect 0 .input)
      else
        let (mark, hasQuotes, after) := takeMark false cs
        skip (cs.length - after.length)
        let index ← announce mark dropsTabs hasQuotes
        pure (.mk fd (.document index) [])
  | fuel + 1, .redirect fd direction =>
    let target ← readToken fuel false false
    match target with
    | .word w => pure (.mk fd direction w)
    | t => unexpected t
  | _, t => unexpected t

def readRedirects (fuel line : Nat) (c : Command) : Parse Command := do
  match fuel with
  | 0 => pure c
  | fuel + 1 =>
    let redirects ← readRedirectList fuel
    match redirects, c with
    | [], c => pure c
    | redirects, .subshell line body _ => pure (.subshell line body redirects)
    | redirects, c => pure (.redirected line c redirects)

def readRedirectList (fuel : Nat) : Parse (List Redirect) := do
  match fuel with
  | 0 => pure []
  | fuel + 1 =>
    let t ← readToken fuel false true
    match t with
    | .redirect _ _ | .document _ _ =>
      let d ← readTarget fuel t
      pure (d :: (← readRedirectList fuel))
    | t =>
      push t
      pure []

def readBranch (fuel : Nat) : Parse Command := do
  match fuel with
  | 0 => pure .nothing
  | fuel + 1 =>
    let condition ← readList fuel false
    close fuel .thenWord
    let yes ← readList fuel false
    let t ← readToken fuel false true
    match t with
    | .mark .elifWord => pure (.branch condition yes (← readBranch fuel))
    | .mark .elseWord =>
      let no ← readList fuel false
      close fuel .fiWord
      pure (.branch condition yes no)
    | .mark .fiWord => pure (.branch condition yes .nothing)
    | t => unexpected t (some .fiWord)

def readLoop (fuel : Nat) (whileTrue : Bool) : Parse Command := do
  match fuel with
  | 0 => pure .nothing
  | fuel + 1 =>
    let condition ← readList fuel false
    close fuel .doWord
    let body ← readList fuel false
    close fuel .doneWord
    pure (.loop whileTrue condition body)

/-- A loop over words after its first word; without words it is over the arguments. -/
def readEach (fuel line : Nat) : Parse Command := do
  match fuel with
  | 0 => pure .nothing
  | fuel + 1 =>
    let t ← readToken fuel false false
    let name : Option (List Char) :=
      match t with
      | .word w => (plain? w).filter isName
      | _ => none
    match name with
    | none => refuse .badLoopVariable
    | some name =>
      let t ← readToken fuel true true
      let words ←
        if t.is .inWord then readWords fuel
        else
          if !t.is .semi then push t
          pure [[.param ['@'] .value [] true]]
      let t ← readToken fuel true true
      if t.is .doWord then
        let body ← readList fuel false
        close fuel .doneWord
        pure (.each line name words body)
      else unexpected t (some .doWord)

def readWords (fuel : Nat) : Parse (List Word) := do
  match fuel with
  | 0 => pure []
  | fuel + 1 =>
    let t ← readToken fuel false false
    match t with
    | .word w => pure (w :: (← readWords fuel))
    | .mark .semi => pure []
    | .mark .newline =>
      push t
      pure []
    | t => unexpected t

def readChoices (fuel : Nat) : Parse (List (List Word × Command)) := do
  match fuel with
  | 0 => pure []
  | fuel + 1 =>
    let t ← readToken fuel true true false
    if t.is .esacWord then pure []
    else
      let t ← if t.is .openParen then readToken fuel false false else pure t
      let patterns ← readPatterns fuel t
      let body ← readList fuel true
      let t ← readToken fuel true true false
      match t with
      | .mark .esacWord => pure [(patterns, body)]
      | .mark .semiSemi => pure ((patterns, body) :: (← readChoices fuel))
      | t => unexpected t (some .semiSemi)

def readPatterns (fuel : Nat) (t : Token) : Parse (List Word) := do
  match fuel with
  | 0 => pure []
  | fuel + 1 =>
    let pattern : Word :=
      match t with
      | .word w => w
      | .mark m => if m ∈ Mark.reserved then [.text m.text.toList false] else []
      | _ => []
    let t ← readToken fuel false false
    match t with
    | .mark .closeParen => pure [pattern]
    | .mark .bar =>
      let t ← readToken fuel false false
      pure (pattern :: (← readPatterns fuel t))
    | t => unexpected t (some .closeParen)

def readSimple (fuel line : Nat) (assignments words : List Word) (redirects : List Redirect) :
    Parse Command := do
  match fuel with
  | 0 => pure .nothing
  | fuel + 1 =>
    let t ← readToken fuel false false words.isEmpty
    match t with
    | .word w =>
      if words = [] ∧ (assignment? w).isSome then
        readSimple fuel line (assignments ++ [w]) words redirects
      else readSimple fuel line assignments (words ++ [w]) redirects
    | .redirect _ _ | .document _ _ =>
      let d ← readTarget fuel t
      readSimple fuel line assignments words (redirects ++ [d])
    | t =>
      match t.is .openParen, assignments, words, redirects with
      | true, [], [w], [] =>
        close fuel .closeParen
        match (plain? w).filter fun name => isName name ∧ String.ofList name ∉ specialBuiltins with
        | none => refuse .badFunctionName
        | some name =>
          let t ← readToken fuel true true
          push t
          pure (.define name (← readCommand fuel false))
      | _, _, _, _ =>
        push t
        pure (.simple line assignments words redirects)

def readLine (fuel : Nat) (before : Option Command) : Parse (Option Command) := do
  match fuel with
  | 0 => pure none
  | fuel + 1 =>
    let t ← readToken fuel false true
    match t with
    | .mark .newline =>
      endLine fuel
      pure (some (before.getD .nothing))
    | .mark .ended =>
      endLine fuel
      pure before
    | t =>
      push t
      let c ← readChain fuel
      let t ← readToken fuel false false
      let joined (c : Command) : Option Command := some (before.elim c fun b => .both b c)
      match t with
      | .mark .amp => readLine fuel (joined (.background c))
      | .mark .semi => readLine fuel (joined c)
      | .mark .newline | .mark .ended =>
        push t
        readLine fuel (joined c)
      | t => unexpected t

end

inductive Next
  | command (p : Portion) (after : Reader)
  | failed (f : Failure)
  | ended

def Reader.next? (r : Reader) : Next :=
  let growth := 1 + r.aliases.values.flatten.length
  match readLine (16 * (r.rest.length + 4) * growth * growth) none r with
  | .ok (some c, after) => .command ⟨c, after.documents⟩ after
  | .ok (none, _) => .ended
  | .error f => .failed f

end Script
end MachTree
