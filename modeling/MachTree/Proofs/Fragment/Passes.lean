import MachTree.Proofs.Fragment.Value
import Mathlib.Data.List.DropRight
import Mathlib.Data.List.Induction

/-! What a fragment makes of a variable, all lines taken together, and fragments that are read one
after the other.  The value is what has come together since the variable was last set, and a text
that ends with its line may be read on its own before the rest. -/
namespace MachTree

namespace Text

theorem lines_ne_nil {text : List Char} (h : text ≠ []) : lines text ≠ [] := by
  fun_cases lines text <;> simp_all

theorem getLast?_of_cons {c d : Char} {rest : List Char} (h : rest.getLast? = some d) :
    (c :: rest).getLast? = some d := by
  rw [List.getLast?_cons, h]
  rfl

/-- A carriage return in a text that ends with its last line has no newline after it in a longer
text if it has none in the text itself. -/
theorem not_crlf_append {c : Char} {rest : List Char}
    (hcrlf : ∀ front, c = '\r' → rest = '\n' :: front → False)
    (hlast : ∀ d, (c :: rest).getLast? = some d → d = '\n') (more front : List Char)
    (hc : c = '\r') : rest ++ more ≠ '\n' :: front := by
  intro hmore
  cases rest with
  | nil =>
    have hn := hlast c rfl
    rw [hc] at hn
    exact absurd hn (by decide)
  | cons d rest =>
    obtain ⟨rfl, -⟩ := List.cons.inj hmore
    exact hcrlf rest hc rfl

theorem lines_append {text : List Char} (h : ∀ c, text.getLast? = some c → c = '\n')
    (more : List Char) : lines (text ++ more) = lines text ++ lines more := by
  fun_induction lines text with
  | case1 => rfl
  | case2 rest ih =>
    have hrest := ih fun c hc => h c (getLast?_of_cons (getLast?_of_cons hc))
    simp [lines, hrest]
  | case3 c rest hcrlf hend ih =>
    rw [List.cons_append, lines.eq_3 _ _ (not_crlf_append hcrlf h more), if_pos hend,
      ih fun d hd => h d (getLast?_of_cons hd)]
    rfl
  | case4 c rest hcrlf hend hnone ih =>
    -- a text whose last character ends no line does not end with a newline
    obtain rfl : rest = [] := Decidable.byContradiction fun hne => lines_ne_nil hne hnone
    obtain rfl : c = '\n' := h c rfl
    exact absurd (by decide) hend
  | case5 c rest hcrlf hend line others hlines ih =>
    rw [List.cons_append, lines.eq_3 _ _ (not_crlf_append hcrlf h more), if_neg hend,
      ih fun d hd => h d (getLast?_of_cons hd), hlines]
    rfl

end Text

namespace Fragment

variable {previous : Option String} {as : List Assignment} {a : Assignment}

/-- The values that make up a variable: those of its assignments from the last one on that sets it,
and where none does, the value it had and all that are added. -/
def contributions (previous : Option String) (as : List Assignment) : List String :=
  (((as.rdropWhile (·.mode = .append)).getLast?.map Assignment.value).or previous).toList ++
    (as.rtakeWhile (·.mode = .append)).map Assignment.value

/-- Values with a space between each two, without the empty ones at the front. -/
def joined (values : List String) : String := " ".intercalate (values.dropWhile (· = ""))

theorem contributions_nil (previous : Option String) :
    contributions previous [] = previous.toList := by
  simp [contributions]

theorem contributions_concat_set (h : a.mode = .set) :
    contributions previous (as ++ [a]) = [a.value] := by
  rw [contributions, List.rdropWhile_concat_neg _ _ _ (by simp [h]),
    List.rtakeWhile_concat_neg _ _ _ (by simp [h])]
  simp

theorem contributions_concat_append (h : a.mode = .append) :
    contributions previous (as ++ [a]) = contributions previous as ++ [a.value] := by
  rw [contributions, List.rdropWhile_concat_pos _ _ _ (by simp [h]),
    List.rtakeWhile_concat_pos _ _ _ (by simp [h])]
  simp [contributions]

theorem joined_singleton (v : String) : joined [v] = v := by
  by_cases h : v = "" <;> simp [joined, h]

theorem joined_eq_empty_iff {values : List String} :
    joined values = "" ↔ values.dropWhile (· = "") = [] := by
  constructor
  · intro h
    cases hkept : values.dropWhile (· = "") with
    | nil => rfl
    | cons v kept =>
      have hv : v ≠ "" := by
        have hhead := List.head?_dropWhile_not (· = "") values
        rw [hkept] at hhead
        simpa using hhead
      cases kept <;> simp [joined, hkept, hv] at h
  · intro h
    simp [joined, h]

theorem joined_concat (values : List String) (v : String) :
    joined (values ++ [v]) =
      if joined values = "" then v else joined values ++ " " ++ v := by
  simp only [joined_eq_empty_iff]
  by_cases h : values.dropWhile (· = "") = []
  · rw [if_pos h, joined, List.dropWhile_append, h]
    exact joined_singleton v
  · rw [if_neg h, joined, List.dropWhile_append, if_neg (by simpa using h),
      String.intercalate_append_of_ne_nil h (by simp), String.intercalate_singleton, joined]

theorem valueAfter_concat (previous : Option String) (as : List Assignment) (a : Assignment) :
    valueAfter previous (as ++ [a]) = some (a.result (valueAfter previous as)) := by
  rw [valueAfter, List.foldl_append]
  rfl

theorem valueAfter_eq (previous : Option String) (as : List Assignment) :
    valueAfter previous as =
      if previous = none ∧ as = [] then none else some (joined (contributions previous as)) := by
  -- from the last assignment back: a setting starts the value anew, an adding goes on with it
  induction as using List.reverseRecOn with
  | nil =>
    rw [contributions_nil]
    cases previous with
    | none => rfl
    | some v => simp [valueAfter, joined_singleton]
  | append_singleton as a ih =>
    have hassigned : ¬ (previous = none ∧ as ++ [a] = []) := by simp
    rw [valueAfter_concat, ih, if_neg hassigned]
    cases hmode : a.mode with
    | set =>
      rw [contributions_concat_set hmode, joined_singleton]
      simp [Assignment.result, hmode]
    | append =>
      rw [contributions_concat_append hmode, joined_concat]
      by_cases hnone : previous = none ∧ as = []
      · rw [if_pos hnone, hnone.1, hnone.2]
        simp [Assignment.result, hmode, contributions_nil, joined]
      · rw [if_neg hnone]
        simp [Assignment.result, hmode]

theorem get?_parse (text : List Char) (vars : Variables) (key : String) :
    (parse text vars).get? key =
      valueAfter (vars.get? key) (assignmentsTo key (Text.lines text)) :=
  get?_foldl_applyLine key (Text.lines text) vars

theorem assignmentsTo_eq_nil_iff {key : String} {lines : List (List Char)} :
    assignmentsTo key lines = [] ↔ ∀ line ∈ lines, assigns key line = false := by
  induction lines with
  | nil => simp [assignmentsTo]
  | cons line lines ih =>
    rw [assignmentsTo_cons, List.forall_mem_cons, ← ih]
    cases ha : assignment? line with
    | none => simp [assigns, ha]
    | some a => by_cases hkey : a.key = key <;> simp [assigns, ha, hkey]

/-- What a fragment makes of a variable.  Its value is what has come together since it was last set,
the value before the fragment among it if no line sets it.  There is none only if there was none and
no line assigns the variable; and lines that assign other variables do not count.  A text that is
empty or ends with a newline may be read on its own before what comes after it. -/
theorem parse_joined (text : List Char) (vars : Variables) :
    (∀ key, (parse text vars).get? key =
      if vars.get? key = none ∧ assignmentsTo key (Text.lines text) = [] then none
      else some (joined (contributions (vars.get? key) (assignmentsTo key (Text.lines text))))) ∧
    (∀ key, (parse text vars).get? key = none ↔
      vars.get? key = none ∧ ∀ line ∈ Text.lines text, assigns key line = false) ∧
    (∀ key text' vars', vars'.get? key = vars.get? key →
      (Text.lines text').filter (assigns key) = (Text.lines text).filter (assigns key) →
      (parse text' vars').get? key = (parse text vars).get? key) ∧
    ∀ more, text = [] ∨ text.getLast? = some '\n' →
      parse more (parse text vars) = parse (text ++ more) vars := by
  have hvalue (key : String) := (get?_parse text vars key).trans (valueAfter_eq _ _)
  refine ⟨hvalue, fun key => ?_, fun key text' vars' hvars hlines => ?_, fun more htext => ?_⟩
  · rw [hvalue, ← assignmentsTo_eq_nil_iff]
    exact ite_eq_left_iff.trans (by simp)
  · rw [get?_parse, get?_parse, hvars, assignmentsTo_eq_filter, hlines, ← assignmentsTo_eq_filter]
  · have hlast : ∀ c, text.getLast? = some c → c = '\n' := by
      rintro c hc
      rcases htext with rfl | hnewline
      · cases hc
      · exact Option.some.inj (hc.symm.trans hnewline)
    rw [parse, parse, parse, Text.lines_append hlast, List.foldl_append]

example : (parse "A += x\nB = \nA = \nA += \nA += y\nB += z\nA += \nA += w\n".toList
    (.ofList [("A", "before")])).entries = [("A", "y  w"), ("B", "z")] := by decide +kernel

end Fragment
end MachTree
