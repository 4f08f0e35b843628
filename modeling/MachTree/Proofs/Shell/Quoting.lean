import MachTree.Proofs.Shell.Words

/-! Shell quoting.  A text is read from left to right as single characters, escaped characters and
quotations; it has words unless the reading breaks off in a quotation or after a backslash.  What is
written between single quotes is read back as it was. -/
namespace MachTree
namespace Shell

/-- The inside of a double quotation, in which a backslash takes the next character along. -/
inductive Doubled : List Char → Prop
  | nil : Doubled []
  | plain {c : Char} {cs : List Char} : c ≠ '\x22' → c ≠ '\\' → Doubled cs → Doubled (c :: cs)
  | escaped {c : Char} {cs : List Char} : Doubled cs → Doubled ('\\' :: c :: cs)

/-- A text that is read to its end with nothing left open. -/
inductive Closed : List Char → Prop
  | nil : Closed []
  | plain {c : Char} {cs : List Char} : c ≠ '\\' → c ≠ '\x27' → c ≠ '\x22' → Closed cs →
      Closed (c :: cs)
  | escaped {c : Char} {cs : List Char} : Closed cs → Closed ('\\' :: c :: cs)
  | single {body cs : List Char} : '\x27' ∉ body → Closed cs →
      Closed ('\x27' :: (body ++ '\x27' :: cs))
  | double {body cs : List Char} : Doubled body → Closed cs →
      Closed ('\x22' :: (body ++ '\x22' :: cs))

/-- What is left open at the end of a text: a quotation, or a backslash that escapes nothing. -/
inductive Open : Unfinished → List Char → Prop
  | single {body : List Char} : '\x27' ∉ body → Open .quotation ('\x27' :: body)
  | double {body : List Char} : Doubled body → Open .quotation ('\x22' :: body)
  | escape : Open .escape ['\\']
  | doubleEscape {body : List Char} : Doubled body → Open .escape ('\x22' :: (body ++ ['\\']))

/-- A text whose reading breaks off in what is left open at its end. -/
def BreaksOff (reason : Unfinished) (cs : List Char) : Prop :=
  ∃ front back, cs = front ++ back ∧ Closed front ∧ Open reason back

variable {c : Char} {cs front body rest : List Char} {place : Place} {word : List Char}
  {reason : Unfinished}

theorem Closed.append (h : Closed front) (hcs : Closed cs) : Closed (front ++ cs) := by
  induction h with
  | nil => exact hcs
  | plain hb hq hd _ ih => exact .plain hb hq hd ih
  | escaped _ ih => exact .escaped ih
  | single hbody _ ih => simpa using Closed.single hbody ih
  | double hbody _ ih => simpa using Closed.double hbody ih

theorem BreaksOff.append (h : Closed front) (hcs : BreaksOff reason cs) :
    BreaksOff reason (front ++ cs) := by
  obtain ⟨before, back, rfl, hbefore, hback⟩ := hcs
  exact ⟨front ++ before, back, (List.append_assoc ..).symm, h.append hbefore, hback⟩

/-- After an opening double quote the reading comes to the closing one, or to the end of the text
in the quotation, perhaps right after a backslash. -/
theorem doubled_cases (cs : List Char) :
    (∃ body rest, cs = body ++ '\x22' :: rest ∧ Doubled body) ∨ Doubled cs ∨
      ∃ body, cs = body ++ ['\\'] ∧ Doubled body := by
  match cs with
  | [] => exact .inr (.inl .nil)
  | [c] =>
    by_cases hq : c = '\x22'
    · exact .inl ⟨[], [], by rw [hq]; rfl, .nil⟩
    by_cases hb : c = '\\'
    · exact .inr (.inr ⟨[], by rw [hb]; rfl, .nil⟩)
    · exact .inr (.inl (.plain hq hb .nil))
  | c :: d :: cs =>
    by_cases hq : c = '\x22'
    · exact .inl ⟨[], d :: cs, by rw [hq]; rfl, .nil⟩
    by_cases hb : c = '\\'
    · -- a backslash takes the next character with it, whatever that is
      subst hb
      rcases doubled_cases cs with ⟨body, rest, rfl, h⟩ | h | ⟨body, rfl, h⟩
      · exact .inl ⟨'\\' :: d :: body, rest, rfl, .escaped h⟩
      · exact .inr (.inl (.escaped h))
      · exact .inr (.inr ⟨'\\' :: d :: body, rfl, .escaped h⟩)
    · rcases doubled_cases (d :: cs) with ⟨body, rest, hcs, h⟩ | h | ⟨body, hcs, h⟩
      · exact .inl ⟨c :: body, rest, by rw [hcs]; rfl, .plain hq hb h⟩
      · exact .inr (.inl (.plain hq hb h))
      · exact .inr (.inr ⟨c :: body, by rw [hcs]; rfl, .plain hq hb h⟩)

/-- Every text is read to its end, or the reading breaks off. -/
theorem closed_or_breaksOff (cs : List Char) : Closed cs ∨ ∃ reason, BreaksOff reason cs := by
  have hopen {reason : Unfinished} (h : Open reason cs) :
      Closed cs ∨ ∃ reason, BreaksOff reason cs := .inr ⟨reason, [], cs, rfl, .nil, h⟩
  -- What is closed at the front does not matter, and the rest is shorter.
  have hrest (front rest : List Char) (hcs : cs = front ++ rest) (hne : front ≠ [])
      (hclosed : Closed front) : Closed cs ∨ ∃ reason, BreaksOff reason cs := by
    have hlength : rest.length < cs.length := by
      have hpos := List.length_pos_iff.mpr hne
      rw [hcs, List.length_append]
      omega
    have ih := closed_or_breaksOff rest
    rw [hcs]
    exact ih.imp hclosed.append fun ⟨reason, h⟩ => ⟨reason, h.append hclosed⟩
  match cs with
  | [] => exact .inl .nil
  | c :: cs =>
    by_cases hb : c = '\\'
    · subst hb
      cases cs with
      | nil => exact hopen .escape
      | cons d cs => exact hrest ['\\', d] cs rfl (by simp) (.escaped .nil)
    by_cases hs : c = '\x27'
    · subst hs
      by_cases hmem : '\x27' ∈ cs
      · obtain ⟨body, rest, rfl, hbody⟩ := List.eq_append_cons_of_mem hmem
        exact hrest ('\x27' :: (body ++ ['\x27'])) rest (by simp) (by simp) (.single hbody .nil)
      · exact hopen (.single hmem)
    by_cases hd : c = '\x22'
    · subst hd
      rcases doubled_cases cs with ⟨body, rest, rfl, h⟩ | h | ⟨body, rfl, h⟩
      · exact hrest ('\x22' :: (body ++ ['\x22'])) rest (by simp) (by simp) (.double h .nil)
      · exact hopen (.double h)
      · exact hopen (.doubleEscape h)
    · exact hrest [c] cs rfl (by simp) (.plain hb hs hd .nil)
termination_by cs.length

theorem wordsFrom_single (hbody : '\x27' ∉ body) :
    wordsFrom .single word (body ++ '\x27' :: rest) =
      wordsFrom .bare (body.reverse ++ word) rest := by
  induction body generalizing word with
  | nil => rw [List.nil_append, wordsFrom, if_pos rfl]; rfl
  | cons c body ih =>
    simp only [List.mem_cons, not_or] at hbody
    rw [List.cons_append, wordsFrom, if_neg (Ne.symm hbody.1), ih hbody.2, List.reverse_cons,
      List.append_assoc]
    rfl

theorem wordsFrom_single_open (hbody : '\x27' ∉ body) :
    wordsFrom .single word body = .error .quotation := by
  induction body generalizing word with
  | nil => rfl
  | cons c body ih =>
    simp only [List.mem_cons, not_or] at hbody
    rw [wordsFrom, if_neg (Ne.symm hbody.1), ih hbody.2]

theorem wordsFrom_double (h : Doubled body) (word : List Char) :
    ∃ word', ∀ rest, wordsFrom .double word (body ++ rest) = wordsFrom .double word' rest := by
  induction h generalizing word with
  | nil => exact ⟨word, fun rest => rfl⟩
  | @plain c cs hq hb _ ih =>
    obtain ⟨word', hword⟩ := ih (c :: word)
    refine ⟨word', fun rest => ?_⟩
    rw [List.cons_append, wordsFrom, if_neg hq, if_neg hb, hword]
  | @escaped c cs _ ih =>
    by_cases hc : c = '\\' ∨ c = '\x22'
    · obtain ⟨word', hword⟩ := ih (c :: word)
      refine ⟨word', fun rest => ?_⟩
      rw [List.cons_append, List.cons_append, wordsFrom, if_neg (by decide), if_pos rfl, wordsFrom,
        if_pos hc, hword]
    · obtain ⟨word', hword⟩ := ih (c :: '\\' :: word)
      refine ⟨word', fun rest => ?_⟩
      rw [List.cons_append, List.cons_append, wordsFrom, if_neg (by decide), if_pos rfl, wordsFrom,
        if_neg hc, hword]

def Place.IsOutside (place : Place) : Prop := place = .between ∨ place = .bare

theorem wordsFrom_enter (hplace : place.IsOutside) (hc : isSeparator c = false) (word : List Char) :
    ∃ word', ∀ rest, wordsFrom place word (c :: rest) =
      wordsFrom (Place.enter c).1 ((Place.enter c).2 ++ word') rest := by
  rcases hplace with rfl | rfl
  · refine ⟨[], fun rest => ?_⟩
    rw [wordsFrom, if_neg (by simp [hc]), List.append_nil]
  · refine ⟨word, fun rest => ?_⟩
    rw [wordsFrom, if_neg (by simp [hc])]

theorem wordsFrom_backslash (hplace : place.IsOutside) (word : List Char) :
    ∃ word', ∀ rest, wordsFrom place word ('\\' :: rest) = wordsFrom .escaped word' rest :=
  wordsFrom_enter hplace (by decide) word

theorem wordsFrom_quote (hplace : place.IsOutside) (word : List Char) :
    ∃ word', ∀ rest, wordsFrom place word ('\x27' :: rest) = wordsFrom .single word' rest :=
  wordsFrom_enter hplace (by decide) word

theorem wordsFrom_doubleQuote (hplace : place.IsOutside) (word : List Char) :
    ∃ word', ∀ rest, wordsFrom place word ('\x22' :: rest) = wordsFrom .double word' rest :=
  wordsFrom_enter hplace (by decide) word

/-- That a part of a text is read from outside quotation to outside quotation.  The words that end
in it stand before those that are still to come. -/
def Passed (front : List Char) : Prop :=
  ∀ place word, place.IsOutside → ∃ ws place' word', place'.IsOutside ∧
    ∀ rest, wordsFrom place word (front ++ rest) = (wordsFrom place' word' rest).map (ws ++ ·)

theorem map_nil_append (r : Except Unfinished (List (List Char))) : r.map ([] ++ ·) = r := by
  cases r <;> rfl

theorem map_append_append (ws vs : List (List Char)) (r : Except Unfinished (List (List Char))) :
    (r.map (vs ++ ·)).map (ws ++ ·) = r.map (ws ++ vs ++ ·) := by
  cases r <;> simp [Except.map]

theorem Passed.of_bare (h : ∀ place word, place.IsOutside →
    ∃ word', ∀ rest, wordsFrom place word (front ++ rest) = wordsFrom .bare word' rest) :
    Passed front := by
  intro place word hplace
  obtain ⟨word', hread⟩ := h place word hplace
  exact ⟨[], .bare, word', .inr rfl, fun rest => by rw [hread, map_nil_append]⟩

theorem Passed.nil : Passed [] :=
  fun place word hplace => ⟨[], place, word, hplace, fun _ => (map_nil_append _).symm⟩

theorem Passed.append (h : Passed front) (hcs : Passed cs) : Passed (front ++ cs) := by
  intro place word hplace
  obtain ⟨ws, place', word', hplace', hfront⟩ := h place word hplace
  obtain ⟨vs, place'', word'', hplace'', hread⟩ := hcs place' word' hplace'
  refine ⟨ws ++ vs, place'', word'', hplace'', fun rest => ?_⟩
  rw [List.append_assoc, hfront, hread, map_append_append]

theorem passed_separator (hc : isSeparator c = true) : Passed [c] := by
  rintro place word (rfl | rfl)
  · refine ⟨[], .between, [], .inl rfl, fun rest => ?_⟩
    rw [map_nil_append]
    exact wordsFrom_separator hc
  · refine ⟨[word.reverse], .between, [], .inl rfl, fun rest => ?_⟩
    rw [List.cons_append, wordsFrom, if_pos hc]
    rfl

theorem passed_plain (hb : c ≠ '\\') (hs : c ≠ '\x27') (hd : c ≠ '\x22') : Passed [c] := by
  cases hc : isSeparator c with
  | true => exact passed_separator hc
  | false =>
    refine .of_bare fun place word hplace => ?_
    obtain ⟨word', hread⟩ := wordsFrom_enter hplace hc word
    refine ⟨c :: word', fun rest => ?_⟩
    rw [List.cons_append, hread, Place.enter, if_neg hb, if_neg hs, if_neg hd]
    rfl

theorem passed_escaped (c : Char) : Passed ['\\', c] := by
  refine .of_bare fun place word hplace => ?_
  obtain ⟨word', hread⟩ := wordsFrom_backslash hplace word
  exact ⟨c :: word', fun rest => by rw [List.cons_append, hread]; rfl⟩

theorem passed_single (hbody : '\x27' ∉ body) : Passed ('\x27' :: (body ++ ['\x27'])) := by
  refine .of_bare fun place word hplace => ?_
  obtain ⟨word', hread⟩ := wordsFrom_quote hplace word
  refine ⟨body.reverse ++ word', fun rest => ?_⟩
  rw [List.cons_append, hread, List.append_assoc]
  exact wordsFrom_single hbody

theorem passed_double (hbody : Doubled body) : Passed ('\x22' :: (body ++ ['\x22'])) := by
  refine .of_bare fun place word hplace => ?_
  obtain ⟨word', hread⟩ := wordsFrom_doubleQuote hplace word
  obtain ⟨word'', hinside⟩ := wordsFrom_double hbody word'
  refine ⟨word'', fun rest => ?_⟩
  rw [List.cons_append, hread, List.append_assoc, hinside]
  rfl

theorem Closed.passed (h : Closed cs) : Passed cs := by
  induction h with
  | nil => exact .nil
  | plain hb hs hd _ ih => exact (passed_plain hb hs hd).append ih
  | escaped _ ih => exact (passed_escaped _).append ih
  | single hbody _ ih => simpa using (passed_single hbody).append ih
  | double hbody _ ih => simpa using (passed_double hbody).append ih

theorem Closed.exists_words (h : Closed cs) : ∃ ws, wordsFrom .between [] cs = .ok ws := by
  obtain ⟨ws, place, word, hplace, hread⟩ := h.passed .between [] (.inl rfl)
  rw [← List.append_nil cs, hread]
  rcases hplace with rfl | rfl
  · exact ⟨ws ++ [], rfl⟩
  · exact ⟨ws ++ [word.reverse], rfl⟩

theorem Open.wordsFrom_eq (h : Open reason cs) (hplace : place.IsOutside) (word : List Char) :
    wordsFrom place word cs = .error reason := by
  cases h with
  | single hbody =>
    obtain ⟨word', hread⟩ := wordsFrom_quote hplace word
    rw [hread, wordsFrom_single_open hbody]
  | @double body hbody =>
    obtain ⟨word', hread⟩ := wordsFrom_doubleQuote hplace word
    obtain ⟨word'', hinside⟩ := wordsFrom_double hbody word'
    rw [hread, ← List.append_nil body, hinside]
    rfl
  | escape =>
    obtain ⟨word', hread⟩ := wordsFrom_backslash hplace word
    rw [hread]
    rfl
  | doubleEscape hbody =>
    obtain ⟨word', hread⟩ := wordsFrom_doubleQuote hplace word
    obtain ⟨word'', hinside⟩ := wordsFrom_double hbody word'
    rw [hread, hinside]
    rfl

theorem BreaksOff.wordsFrom_eq (h : BreaksOff reason cs) :
    wordsFrom .between [] cs = .error reason := by
  obtain ⟨front, back, rfl, hfront, hback⟩ := h
  obtain ⟨ws, place, word, hplace, hread⟩ := hfront.passed .between [] (.inl rfl)
  rw [hread, hback.wordsFrom_eq hplace]
  rfl

theorem wordsFrom_eq_error_iff :
    wordsFrom .between [] cs = .error reason ↔ BreaksOff reason cs := by
  refine ⟨fun h => ?_, BreaksOff.wordsFrom_eq⟩
  rcases closed_or_breaksOff cs with hclosed | ⟨reason', hbreaks⟩
  · obtain ⟨ws, hws⟩ := hclosed.exists_words
    rw [hws] at h
    cases h
  · rw [hbreaks.wordsFrom_eq] at h
    cases h
    exact hbreaks

theorem exists_words_iff : (∃ ws, wordsFrom .between [] cs = .ok ws) ↔ Closed cs := by
  refine ⟨fun ⟨ws, hws⟩ => ?_, Closed.exists_words⟩
  rcases closed_or_breaksOff cs with hclosed | ⟨reason, hbreaks⟩
  · exact hclosed
  · rw [hbreaks.wordsFrom_eq] at hws
    cases hws

/-- A character between single quotes; a single quote is written outside them, after a backslash. -/
def quotedChar (c : Char) : List Char :=
  if c = '\x27' then ['\x27', '\\', '\x27', '\x27'] else [c]

def quotedWord (word : List Char) : List Char := '\x27' :: (word.flatMap quotedChar ++ ['\x27'])

/-- What stands between two words: spaces, tabs and newlines, at least one of them. -/
def IsGap (gap : List Char) : Prop := gap ≠ [] ∧ ∀ c ∈ gap, c = ' ' ∨ c = '\t' ∨ c = '\n'

/-- A text in which words are written between single quotes, with a gap between each two. -/
inductive Written : List (List Char) → List Char → Prop
  | none : Written [] []
  | one (word : List Char) : Written [word] (quotedWord word)
  | more {word next gap text : List Char} {ws : List (List Char)} : IsGap gap →
      Written (next :: ws) text → Written (word :: next :: ws) (quotedWord word ++ gap ++ text)

theorem wordsFrom_quotedChars (inside word rest : List Char) :
    wordsFrom .single word (inside.flatMap quotedChar ++ '\x27' :: rest) =
      wordsFrom .bare (inside.reverse ++ word) rest := by
  induction inside generalizing word with
  | nil => exact wordsFrom_single List.not_mem_nil
  | cons c inside ih =>
    have hword : (c :: inside).reverse ++ word = inside.reverse ++ c :: word := by simp
    rw [List.flatMap_cons, List.append_assoc, hword, ← ih]
    by_cases hc : c = '\x27'
    · subst hc
      rfl
    · rw [quotedChar, if_neg hc, List.cons_append, wordsFrom, if_neg hc]
      rfl

theorem wordsFrom_quotedWord (word rest : List Char) :
    wordsFrom .between [] (quotedWord word ++ rest) = wordsFrom .bare word.reverse rest := by
  have hread := wordsFrom_quotedChars word [] rest
  rw [List.append_nil] at hread
  rw [← hread, quotedWord, List.cons_append, List.append_assoc]
  rfl

theorem wordsFrom_gap {gap : List Char} (hgap : IsGap gap) (word rest : List Char) :
    wordsFrom .bare word (gap ++ rest) =
      (wordsFrom .between [] rest).map (word.reverse :: ·) := by
  obtain ⟨hne, hall⟩ := hgap
  have hsep : ∀ c ∈ gap, isSeparator c = true := by
    intro c hc
    rcases hall c hc with rfl | rfl | rfl <;> decide
  have hskip : ∀ gap : List Char, (∀ c ∈ gap, isSeparator c = true) →
      wordsFrom .between [] (gap ++ rest) = wordsFrom .between [] rest := by
    intro gap hgap
    induction gap with
    | nil => rfl
    | cons c gap ih =>
      rw [List.cons_append, wordsFrom_separator (hgap c (by simp)),
        ih fun d hd => hgap d (by simp [hd])]
  obtain ⟨c, more, rfl⟩ := List.exists_cons_of_ne_nil hne
  rw [List.cons_append, wordsFrom, if_pos (hsep c (by simp)),
    hskip more fun d hd => hsep d (by simp [hd])]

theorem Written.wordsFrom_eq {ws : List (List Char)} {text : List Char} (h : Written ws text) :
    wordsFrom .between [] text = .ok ws := by
  induction h with
  | none => rfl
  | one word =>
    have hread := wordsFrom_quotedWord word []
    rw [List.append_nil] at hread
    rw [hread, wordsFrom, List.reverse_reverse]
  | @more word next gap text ws hgap _ ih =>
    rw [List.append_assoc, wordsFrom_quotedWord, wordsFrom_gap hgap, ih, List.reverse_reverse]
    rfl

/-- Words that are written between single quotes, whatever is in them and whatever gaps are between
them, are read back as they were.  A text has words if all of it is read as characters, escaped
characters and quotations; any other text is refused, and the reason tells what its reading breaks
off in. -/
theorem words_of_quoting :
    (∀ (args : List String) (text : String),
      Written (args.map String.toList) text.toList → words text = .ok args) ∧
    (∀ text, (∃ args, words text = .ok args) ↔ Closed text.toList) ∧
    (∀ text reason, words text = .error ⟨text, reason⟩ ↔ BreaksOff reason text.toList) ∧
    ∀ text e, words text = .error e → e.text = text := by
  refine ⟨fun args text h => ?_, fun text => ?_, fun text reason => ?_, fun text e h => ?_⟩
  · refine words_eq_ok.mpr ⟨_, h.wordsFrom_eq, ?_⟩
    rw [List.map_map]
    exact (List.map_congr_left fun s _ => String.ofList_toList).trans (List.map_id args)
  · rw [← exists_words_iff]
    simp only [words_eq_ok]
    exact ⟨fun ⟨_, ws, hws, _⟩ => ⟨ws, hws⟩, fun ⟨ws, hws⟩ => ⟨_, ws, hws, rfl⟩⟩
  · rw [← wordsFrom_eq_error_iff, words]
    cases wordsFrom .between [] text.toList <;> simp
  · rw [words] at h
    cases hread : wordsFrom .between [] text.toList <;> rw [hread] at h <;> cases h
    rfl

/-- An empty word, and words with blanks, quotes, backslashes and line ends in them. -/
theorem words_of_quoting_awkward :
    Written (["a b", "", "it's", "\\\"#\n"].map String.toList)
      "'a b' \t'' 'it'\\''s'\n'\\\"#\n'".toList ∧
    words "'a b' \t'' 'it'\\''s'\n'\\\"#\n'" = .ok ["a b", "", "it's", "\\\"#\n"] := by
  have hwritten : Written (["a b", "", "it's", "\\\"#\n"].map String.toList)
      "'a b' \t'' 'it'\\''s'\n'\\\"#\n'".toList := by
    have hspaces : IsGap [' ', '\t'] := by simp [IsGap]
    have hspace : IsGap [' '] := by simp [IsGap]
    have hline : IsGap ['\n'] := by simp [IsGap]
    exact .more hspaces (.more hspace (.more hline (.one "\\\"#\n".toList)))
  exact ⟨hwritten, words_of_quoting.1 _ _ hwritten⟩

end Shell
end MachTree
