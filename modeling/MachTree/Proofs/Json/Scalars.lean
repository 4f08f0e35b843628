import MachTree.Json.Reader
import Mathlib.Data.List.TakeWhile

/-! The numbers and words of a JSON text.  The parts of a number are told by a grammar; what is
read as a number or as a word is read alike before any text that does not go on with it. -/
namespace MachTree
namespace Json

variable {c : Char} {cs after digits frac exp : List Char} {v : Json}

def IsDigits (digits : List Char) : Prop := digits ≠ [] ∧ ∀ c ∈ digits, c.isDigit = true

def IsInteger (digits : List Char) : Prop :=
  digits = ['0'] ∨ IsDigits digits ∧ digits.head? ≠ some '0'

def IsFraction (frac : List Char) : Prop :=
  frac = [] ∨ ∃ digits, frac = '.' :: digits ∧ IsDigits digits

def IsSign (sign : List Char) : Prop := sign = [] ∨ sign = ['+'] ∨ sign = ['-']

/-- Nothing, or a letter, a sign that may be left out, and digits. -/
def IsExponent (exp : List Char) : Prop :=
  exp = [] ∨ ∃ e sign digits, exp = e :: sign ++ digits ∧ (e = 'e' ∨ e = 'E') ∧ IsSign sign ∧
    IsDigits digits

def EndsDigits (cs : List Char) : Prop := ∀ c ∈ cs.head?, c.isDigit = false

theorem isDigits_takeWhile (h : cs.takeWhile Char.isDigit ≠ []) :
    IsDigits (cs.takeWhile Char.isDigit) := ⟨h, fun _ => List.mem_takeWhile_imp⟩

theorem IsDigits.takeWhile_append (h : IsDigits digits) (hafter : EndsDigits after) :
    (digits ++ after).takeWhile Char.isDigit = digits := by
  rw [List.takeWhile_append_of_pos h.2]
  cases after with
  | nil => simp
  | cons c after =>
    rw [List.takeWhile_cons_of_neg (by simpa using hafter c rfl), List.append_nil]

theorem IsDigits.exists_cons (h : IsDigits digits) :
    ∃ d ds, digits = d :: ds ∧ d.isDigit = true := by
  obtain ⟨d, ds, rfl⟩ := List.exists_cons_of_ne_nil h.1
  exact ⟨d, ds, rfl, h.2 d (by simp)⟩

theorem IsInteger.isDigits (h : IsInteger digits) : IsDigits digits := by
  rcases h with rfl | h
  · exact ⟨by simp, List.forall_mem_singleton.mpr rfl⟩
  · exact h.1

theorem integerDigits_prefix (cs : List Char) : integerDigits cs <+: cs := by
  unfold integerDigits
  split
  · exact ⟨_, rfl⟩
  · exact List.takeWhile_prefix _

theorem isInteger_integerDigits (h : integerDigits cs ≠ []) : IsInteger (integerDigits cs) := by
  unfold integerDigits at h ⊢
  split at h
  · exact .inl rfl
  · rename_i hzero
    refine .inr ⟨isDigits_takeWhile h, fun hhead => ?_⟩
    obtain ⟨ds, hds⟩ := List.takeWhile_prefix (l := cs) Char.isDigit
    cases htake : cs.takeWhile Char.isDigit with
    | nil => exact h htake
    | cons d digits =>
      rw [htake] at hhead hds
      cases hhead
      exact hzero _ hds.symm

theorem IsInteger.integerDigits_append (h : IsInteger digits) (hafter : EndsDigits after) :
    integerDigits (digits ++ after) = digits := by
  rcases h with rfl | ⟨h, hhead⟩
  · rfl
  · obtain ⟨d, ds, rfl, -⟩ := h.exists_cons
    rw [List.cons_append, integerDigits.eq_2 _ (by simpa using hhead), ← List.cons_append,
      h.takeWhile_append hafter]

theorem fraction_eq (cs : List Char) : fraction cs <+: cs ∧ IsFraction (fraction cs) := by
  unfold fraction
  split
  · rename_i rest
    split
    · exact ⟨List.nil_prefix, .inl rfl⟩
    · rename_i digits hne
      exact ⟨(List.prefix_cons_inj _).mpr (List.takeWhile_prefix _),
        .inr ⟨_, rfl, isDigits_takeWhile hne⟩⟩
  · exact ⟨List.nil_prefix, .inl rfl⟩

theorem IsFraction.fraction_append (h : IsFraction frac) (hafter : EndsDigits after)
    (hpoint : after.head? ≠ some '.') : fraction (frac ++ after) = frac := by
  rcases h with rfl | ⟨digits, rfl, hdigits⟩
  · exact fraction.eq_2 _ fun rest heq => hpoint (by rw [List.nil_append] at heq; rw [heq]; rfl)
  · rw [List.cons_append, fraction, hdigits.takeWhile_append hafter]
    obtain ⟨d, ds, rfl, -⟩ := hdigits.exists_cons
    rfl

def signOf : List Char → List Char
  | s :: _ => if s = '+' ∨ s = '-' then [s] else []
  | [] => []

theorem exponent_cons (e : Char) (rest : List Char) : exponent (e :: rest) =
    if e = 'e' ∨ e = 'E' then
      match (rest.drop (signOf rest).length).takeWhile Char.isDigit with
      | [] => []
      | digits => e :: signOf rest ++ digits
    else [] := by
  cases rest <;> rfl

theorem signOf_eq (cs : List Char) : signOf cs <+: cs ∧ IsSign (signOf cs) := by
  unfold signOf
  split
  · rename_i s rest
    split
    · rename_i hs
      refine ⟨⟨rest, rfl⟩, ?_⟩
      rcases hs with rfl | rfl
      · exact .inr (.inl rfl)
      · exact .inr (.inr rfl)
    · exact ⟨List.nil_prefix, .inl rfl⟩
  · exact ⟨List.nil_prefix, .inl rfl⟩

theorem IsSign.signOf_append {sign : List Char} (h : IsSign sign) (hdigits : IsDigits digits)
    (after : List Char) : signOf (sign ++ (digits ++ after)) = sign := by
  rcases h with rfl | rfl | rfl
  · obtain ⟨d, ds, rfl, hd⟩ := hdigits.exists_cons
    have hne : ¬ (d = '+' ∨ d = '-') := by
      rintro (rfl | rfl) <;> exact absurd hd (by decide)
    exact if_neg hne
  · rfl
  · rfl

theorem exponent_eq (cs : List Char) : exponent cs <+: cs ∧ IsExponent (exponent cs) := by
  cases cs with
  | nil => exact ⟨List.nil_prefix, .inl rfl⟩
  | cons e rest =>
    obtain ⟨⟨more, hmore⟩, hsign⟩ := signOf_eq rest
    have hdrop : rest.drop (signOf rest).length = more :=
      (congrArg (List.drop (signOf rest).length) hmore).symm.trans List.drop_left
    rw [exponent_cons, hdrop]
    split
    · rename_i he
      split
      · exact ⟨List.nil_prefix, .inl rfl⟩
      · rename_i digits hne
        refine ⟨?_, .inr ⟨e, _, _, rfl, he, hsign, isDigits_takeWhile hne⟩⟩
        obtain ⟨tail, htail⟩ := List.takeWhile_prefix (l := more) Char.isDigit
        exact ⟨tail, by rw [List.cons_append, List.cons_append, List.append_assoc, htail, hmore]⟩
    · exact ⟨List.nil_prefix, .inl rfl⟩

theorem IsExponent.exponent_append (h : IsExponent exp) (hafter : EndsDigits after)
    (hletter : after.head? ≠ some 'e' ∧ after.head? ≠ some 'E') :
    exponent (exp ++ after) = exp := by
  rcases h with rfl | ⟨e, sign, digits, rfl, he, hsign, hdigits⟩
  · cases after with
    | nil => rfl
    | cons c after =>
      have hc : ¬ (c = 'e' ∨ c = 'E') := by simpa using hletter
      simp only [List.nil_append, exponent, if_neg hc]
  · have hrest : e :: sign ++ digits ++ after = e :: (sign ++ (digits ++ after)) := by simp
    rw [hrest, exponent_cons, if_pos he, hsign.signOf_append hdigits, List.drop_left,
      hdigits.takeWhile_append hafter]
    obtain ⟨d, ds, rfl, -⟩ := hdigits.exists_cons
    rfl

/-- A number as it is written, not too long to be converted. -/
structure Numeral where
  sign : List Char
  digits : List Char
  frac : List Char
  exp : List Char
  isSign : sign = [] ∨ sign = ['-']
  isInteger : IsInteger digits
  isFraction : IsFraction frac
  isExponent : IsExponent exp
  short : frac = [] ∧ exp = [] → digits.length ≤ maxDigits

namespace Numeral

def chars (n : Numeral) : List Char := n.sign ++ (n.digits ++ (n.frac ++ n.exp))

def value (n : Numeral) : Json :=
  if n.frac = [] ∧ n.exp = [] then
    .integer (if n.sign = [] then digitsValue n.digits else -digitsValue n.digits)
  else .real (String.ofList (n.sign ++ n.digits ++ n.frac ++ n.exp))

end Numeral

/-- A text that a number before it does not go on with. -/
structure EndsNumber (cs : List Char) : Prop where
  digit : EndsDigits cs
  point : cs.head? ≠ some '.'
  letter : cs.head? ≠ some 'e' ∧ cs.head? ≠ some 'E'

def minusOf (cs : List Char) : List Char := if cs.head? = some '-' then ['-'] else []

theorem minusOf_prefix (cs : List Char) : minusOf cs <+: cs := by
  unfold minusOf
  split
  · rename_i h
    obtain ⟨rest, rfl⟩ := List.head?_eq_some_iff.mp h
    exact ⟨rest, rfl⟩
  · exact List.nil_prefix

theorem minusOf_eq (cs : List Char) : minusOf cs = [] ∨ minusOf cs = ['-'] := by
  unfold minusOf
  split
  · exact .inr rfl
  · exact .inl rfl

theorem drop_of_append {front : List Char} (h : front ++ after = cs) :
    cs.drop front.length = after := by
  rw [← h, List.drop_left]

theorem exists_numeral (h : number cs = .ok (v, after)) :
    ∃ n : Numeral, cs = n.chars ++ after ∧ v = n.value := by
  obtain ⟨body, hbody⟩ := minusOf_prefix cs
  obtain ⟨rest, hrest⟩ := integerDigits_prefix body
  obtain ⟨⟨rest', hrest'⟩, hfraction⟩ := fraction_eq rest
  obtain ⟨⟨rest'', hrest''⟩, hexponent⟩ := exponent_eq rest'
  have hafter : rest.drop ((fraction rest).length + (exponent rest').length) = rest'' := by
    rw [← List.drop_drop, drop_of_append hrest', drop_of_append hrest'']
  have hread := h
  rw [number] at hread
  simp only [← minusOf.eq_def, drop_of_append hbody, drop_of_append hrest, drop_of_append hrest',
    hafter] at hread
  split at hread
  · cases hread
  rename_i hdigits
  -- a number of digits alone is converted, and only then its length is limited
  have hparts (hshort : fraction rest = [] ∧ exponent rest' = [] →
      (integerDigits body).length ≤ maxDigits) : ∃ n : Numeral, cs = n.chars ++ rest'' ∧
        n.value = if fraction rest = [] ∧ exponent rest' = [] then
          .integer (if minusOf cs = [] then digitsValue (integerDigits body)
            else -digitsValue (integerDigits body))
        else .real (String.ofList
          (minusOf cs ++ integerDigits body ++ fraction rest ++ exponent rest')) := by
    refine ⟨⟨minusOf cs, integerDigits body, fraction rest, exponent rest', minusOf_eq cs,
      isInteger_integerDigits hdigits, hfraction, hexponent, hshort⟩, ?_, rfl⟩
    simp only [Numeral.chars, List.append_assoc, hrest'', hrest', hrest, hbody]
  split at hread
  · rename_i hinteger
    split at hread
    · cases hread
    · rename_i hshort
      obtain ⟨n, hcs, hvalue⟩ := hparts fun _ => Nat.le_of_not_lt hshort
      rw [if_pos hinteger] at hvalue
      cases hread
      refine ⟨n, ?_, hvalue.symm⟩
      rw [hcs, ← hrest', ← hrest'', hinteger.1, hinteger.2]
      rfl
  · rename_i hreal
    obtain ⟨n, hcs, hvalue⟩ := hparts fun hinteger => absurd hinteger hreal
    rw [if_neg hreal] at hvalue
    cases hread
    exact ⟨n, hcs, hvalue.symm⟩

theorem IsExponent.ends (h : IsExponent exp) (hafter : EndsNumber after) :
    EndsDigits (exp ++ after) ∧ (exp ++ after).head? ≠ some '.' := by
  rcases h with rfl | ⟨e, sign, digits, rfl, he, -, -⟩
  · exact ⟨hafter.digit, hafter.point⟩
  · rcases he with rfl | rfl <;> exact ⟨fun c hc => by cases hc; decide, by simp⟩

theorem IsFraction.ends (h : IsFraction frac) (hafter : EndsDigits after) :
    EndsDigits (frac ++ after) := by
  rcases h with rfl | ⟨digits, rfl, -⟩
  · exact hafter
  · intro c hc
    cases hc
    decide

theorem minusOf_append {sign : List Char} (h : sign = [] ∨ sign = ['-']) (hdigits : IsDigits digits)
    (after : List Char) : minusOf (sign ++ (digits ++ after)) = sign := by
  rcases h with rfl | rfl
  · obtain ⟨d, ds, rfl, hd⟩ := hdigits.exists_cons
    refine if_neg fun hminus => ?_
    cases hminus
    exact absurd hd (by decide)
  · rfl

theorem Numeral.number_append (n : Numeral) (h : EndsNumber after) :
    number (n.chars ++ after) = .ok (n.value, after) := by
  have hchars : n.chars ++ after = n.sign ++ (n.digits ++ (n.frac ++ (n.exp ++ after))) := by
    simp [chars]
  obtain ⟨hexp, hpoint⟩ := n.isExponent.ends h
  have hdigits := n.isInteger.integerDigits_append (n.isFraction.ends hexp)
  have hfraction := n.isFraction.fraction_append hexp hpoint
  have hexponent := n.isExponent.exponent_append h.digit h.letter
  have hafter : (n.frac ++ (n.exp ++ after)).drop (n.frac.length + n.exp.length) = after := by
    rw [← List.drop_drop, List.drop_left, List.drop_left]
  rw [hchars, number]
  simp only [← minusOf.eq_def, minusOf_append n.isSign n.isInteger.isDigits, List.drop_left,
    hdigits, hfraction, hexponent, hafter, if_neg n.isInteger.isDigits.1, value]
  split
  · rename_i hinteger
    rw [if_neg (Nat.not_lt.mpr (n.short hinteger)), hinteger.1, hinteger.2]
    rfl
  · rfl

def wordAt? (cs : List Char) : Option (List Char × Json) :=
  wordValues.find? fun w => w.1.isPrefixOf cs

def isWritten (c : Char) : Bool := c.isAlphanum || c == '+' || c == '-' || c == '.'

theorem wordValues_written : ∀ w ∈ wordValues, w.1 ≠ [] ∧ ∀ c ∈ w.1, isWritten c = true := by
  have hwords : wordValues.all (fun w => !w.1.isEmpty && w.1.all isWritten) = true := by decide
  simpa [List.all_eq_true] using hwords

theorem wordAt?_append {w : List Char × Json} (h : w ∈ wordValues) (after : List Char) :
    wordAt? (w.1 ++ after) = some w := by
  simp only [wordValues, List.mem_cons, List.not_mem_nil, or_false] at h
  rcases h with rfl | rfl | rfl | rfl | rfl | rfl <;> rfl

theorem Numeral.wordAt?_append (n : Numeral) (after : List Char) :
    wordAt? (n.chars ++ after) = none := by
  obtain ⟨d, ds, hd, hdigit⟩ := n.isInteger.isDigits.exists_cons
  have hword : ∀ c ∈ ['n', 't', 'f', 'N', 'I', '-'], c ≠ d := by
    have hletters : ∀ c ∈ ['n', 't', 'f', 'N', 'I', '-'], c.isDigit = false := by simp
    rintro c hc rfl
    rw [hletters c hc] at hdigit
    cases hdigit
  simp only [List.forall_mem_cons] at hword
  rcases n.isSign with hsign | hsign <;> simp [wordAt?, wordValues, chars, hsign, hd, hword]

theorem IsDigits.isWritten (h : IsDigits digits) : ∀ c ∈ digits, isWritten c = true :=
  fun c hc => by simp [Json.isWritten, Char.isAlphanum, h.2 c hc]

theorem Numeral.isWritten (n : Numeral) : ∀ c ∈ n.chars, isWritten c = true := by
  have hsign : ∀ c ∈ n.sign, Json.isWritten c = true := by
    rcases n.isSign with h | h <;> rw [h] <;> simp [Json.isWritten]
  have hfrac : ∀ c ∈ n.frac, Json.isWritten c = true := by
    rcases n.isFraction with h | ⟨digits, h, hdigits⟩ <;> rw [h]
    · simp
    · exact List.forall_mem_cons.mpr ⟨by decide, hdigits.isWritten⟩
  have hexp : ∀ c ∈ n.exp, Json.isWritten c = true := by
    rcases n.isExponent with h | ⟨e, sign, digits, h, he, hs, hdigits⟩ <;> rw [h]
    · simp
    · have hletter : Json.isWritten e = true := by rcases he with rfl | rfl <;> decide
      have hsign : ∀ c ∈ sign, Json.isWritten c = true := by
        rcases hs with rfl | rfl | rfl <;> simp [Json.isWritten]
      rw [List.cons_append, List.forall_mem_cons, List.forall_mem_append]
      exact ⟨hletter, hsign, hdigits.isWritten⟩
  intro c hc
  simp only [chars, List.mem_append] at hc
  rcases hc with hc | hc | hc | hc
  · exact hsign c hc
  · exact n.isInteger.isDigits.isWritten c hc
  · exact hfrac c hc
  · exact hexp c hc

theorem scalar_of_word {w : List Char × Json} {rest : List Char}
    (h : wordAt? (w.1 ++ rest) = some w) : scalar (w.1 ++ rest) = .ok (w.2, rest) := by
  rw [scalar, ← wordAt?.eq_def, h]
  simp only [List.drop_left]

theorem scalar_of_no_word (h : wordAt? cs = none) : scalar cs = number cs := by
  rw [scalar, ← wordAt?.eq_def, h]

/-- What is read as a number or a word is there in full, and is read alike before any text that does
not go on with it. -/
theorem scalar_local (h : scalar cs = .ok (v, after)) :
    ∃ front, front ≠ [] ∧ (∀ c ∈ front, isWritten c = true) ∧ cs = front ++ after ∧
      ∀ after', EndsNumber after' → scalar (front ++ after') = .ok (v, after') := by
  cases hword : wordAt? cs with
  | some w =>
    have hmem : w ∈ wordValues := List.mem_of_find?_eq_some hword
    have hstarts : w.1.isPrefixOf cs = true := by
      rw [wordAt?] at hword
      simpa using List.find?_some hword
    obtain ⟨rest, rfl⟩ := List.isPrefixOf_iff_prefix.mp hstarts
    rw [scalar_of_word hword] at h
    cases h
    obtain ⟨hne, hwritten⟩ := wordValues_written w hmem
    exact ⟨w.1, hne, hwritten, rfl, fun after' _ => scalar_of_word (wordAt?_append hmem after')⟩
  | none =>
    rw [scalar_of_no_word hword] at h
    obtain ⟨n, hcs, rfl⟩ := exists_numeral h
    obtain ⟨d, ds, hd, -⟩ := n.isInteger.isDigits.exists_cons
    refine ⟨n.chars, by simp [Numeral.chars, hd], n.isWritten, hcs, fun after' hafter => ?_⟩
    rw [scalar_of_no_word (n.wordAt?_append after')]
    exact n.number_append hafter

end Json
end MachTree
