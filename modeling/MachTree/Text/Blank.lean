/-! White space in Unicode text, and text without it at either end.  The main statements say that
trimmed text neither starts nor ends with white space and that trimming twice changes nothing. -/
namespace MachTree
namespace Text

/-- The characters with the Unicode property White_Space or a separating bidirectional class. -/
def isBlank (c : Char) : Bool :=
  c == ' ' || ('\t' ≤ c && c ≤ '\r') || ('\x1c' ≤ c && c ≤ '\x1f') || c == '\u0085' ||
  c == '\u00a0' || c == '\u1680' || ('\u2000' ≤ c && c ≤ '\u200a') || c == '\u2028' ||
  c == '\u2029' || c == '\u202f' || c == '\u205f' || c == '\u3000'

theorem isBlank_of_isWhitespace {c : Char} (h : c.isWhitespace = true) : isBlank c = true := by
  simp only [Char.isWhitespace, Bool.or_eq_true, decide_eq_true_eq] at h
  rcases h with ((rfl | rfl) | rfl) | rfl <;> decide

def dropBlank (cs : List Char) : List Char := cs.dropWhile isBlank

/-- Text without the white space at its end. -/
def trimRight (cs : List Char) : List Char := (dropBlank cs.reverse).reverse

/-- Text without the white space at either end. -/
def trim (cs : List Char) : List Char := trimRight (dropBlank cs)

theorem head?_dropBlank {cs : List Char} {c : Char} (h : (dropBlank cs).head? = some c) :
    isBlank c = false := by
  have := List.head?_dropWhile_not isBlank cs
  unfold dropBlank at h
  rw [h] at this
  simpa using this

theorem getLast?_trimRight {cs : List Char} {c : Char} (h : (trimRight cs).getLast? = some c) :
    isBlank c = false := by
  rw [trimRight, List.getLast?_reverse] at h
  exact head?_dropBlank h

theorem getLast?_trim {cs : List Char} {c : Char} (h : (trim cs).getLast? = some c) :
    isBlank c = false :=
  getLast?_trimRight h

theorem trimRight_prefix (cs : List Char) : trimRight cs <+: cs := by
  have h : dropBlank cs.reverse <:+ cs.reverse := List.dropWhile_suffix _
  simpa [trimRight] using List.reverse_prefix.mpr h

theorem head?_trim {cs : List Char} {c : Char} (h : (trim cs).head? = some c) :
    isBlank c = false := by
  obtain ⟨rest, hrest⟩ := trimRight_prefix (dropBlank cs)
  have hd : (dropBlank cs).head? = some c := by
    rw [← hrest, ← trim]
    cases ht : trim cs with
    | nil => simp [ht] at h
    | cons a as => simpa [ht] using h
  exact head?_dropBlank hd

theorem dropBlank_eq_self {cs : List Char} (h : ∀ c, cs.head? = some c → isBlank c = false) :
    dropBlank cs = cs := by
  cases cs with
  | nil => rfl
  | cons a as => simp [dropBlank, h a rfl]

theorem trimRight_eq_self {cs : List Char} (h : ∀ c, cs.getLast? = some c → isBlank c = false) :
    trimRight cs = cs := by
  rw [trimRight, dropBlank_eq_self, List.reverse_reverse]
  intro c hc
  exact h c (by simpa using hc)

@[simp] theorem trim_trim (cs : List Char) : trim (trim cs) = trim cs := by
  rw [trim, dropBlank_eq_self fun _ h => head?_trim h,
    trimRight_eq_self fun _ h => getLast?_trim h]

end Text

/-- A string without the white space at either end. -/
def trimmed (s : String) : String := String.ofList (Text.trim s.toList)

end MachTree
