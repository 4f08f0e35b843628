/-! Text cut into lines.  Two notions occur: the lines of a captured output or of a fragment end at
any Unicode line boundary, the lines of a file read as text end at a newline only, after the three
newline spellings have been made one. -/
namespace MachTree
namespace Text

/-- The characters that end a line, a carriage return with a newline counting as one end. -/
def isLineEnd (c : Char) : Bool :=
  ('\n' ≤ c && c ≤ '\r') || ('\x1c' ≤ c && c ≤ '\x1e') || c == '\u0085' || c == '\u2028' ||
  c == '\u2029'

/-- The lines of a text without their ends; a last line that is empty is no line. -/
def lines : List Char → List (List Char)
  | [] => []
  | '\r' :: '\n' :: rest => [] :: lines rest
  | c :: rest =>
    if isLineEnd c then [] :: lines rest
    else match lines rest with
      | [] => [[c]]
      | line :: more => (c :: line) :: more

def unifyNewlines : List Char → List Char
  | [] => []
  | '\r' :: '\n' :: rest => '\n' :: unifyNewlines rest
  | '\r' :: rest => '\n' :: unifyNewlines rest
  | c :: rest => c :: unifyNewlines rest

def newlineLines : List Char → List (List Char)
  | [] => []
  | c :: rest =>
    if c = '\n' then [c] :: newlineLines rest
    else match newlineLines rest with
      | [] => [[c]]
      | line :: more => (c :: line) :: more

theorem flatten_newlineLines (cs : List Char) : (newlineLines cs).flatten = cs := by
  induction cs with
  | nil => rfl
  | cons c rest ih =>
    simp only [newlineLines]
    split
    · simp [ih]
    · cases h : newlineLines rest with
      | nil => simp_all
      | cons line more => simp_all

theorem flatten_lines (cs : List Char) : (lines cs).flatten = cs.filter fun c => !isLineEnd c := by
  fun_induction lines cs with
  | case1 => rfl
  | case2 rest ih => simpa [isLineEnd] using ih
  | case3 c rest _ hend ih => simpa [hend] using ih
  | case4 c rest _ hend hnone ih =>
    rw [hnone] at ih
    simp [hend, ← ih]
  | case5 c rest _ hend line more hlines ih =>
    rw [hlines] at ih
    simp [hend, ← ih]

@[simp] theorem lines_unifyNewlines (cs : List Char) : lines (unifyNewlines cs) = lines cs := by
  fun_induction unifyNewlines cs with
  | case1 => rfl
  | case2 rest ih => simp [lines, isLineEnd, ih]
  | case3 rest hcr ih =>
    rw [lines.eq_3 _ _ (by simp), lines.eq_3 _ _ (by simpa using hcr), ih]
    simp [isLineEnd]
  | case4 c rest hcrlf hcr ih =>
    have hne : c ≠ '\r' := by simpa using hcr
    rw [lines.eq_3 _ _ (by simp [hne]), lines.eq_3 _ _ (by simp [hne]), ih]

theorem lines_eq_singleton {cs : List Char} (hne : cs ≠ []) (h : ∀ c ∈ cs, isLineEnd c = false) :
    lines cs = [cs] := by
  induction cs with
  | nil => exact absurd rfl hne
  | cons c rest ih =>
    have hc : isLineEnd c = false := h c (by simp)
    rw [lines.eq_3 c rest (by rintro r rfl; simp [isLineEnd] at hc), if_neg (by simp [hc])]
    cases rest with
    | nil => simp [lines]
    | cons d more =>
      rw [ih (by simp) fun x hx => h x (by simp [hx])]

end Text

end MachTree
