import MachTree.Shell.Words
import MachTree.Text.Blank

/-! Words of texts put together.  A text that ends outside quotation keeps its words when a
separator and another text follow, whatever quotes and escapes are in it. -/
namespace MachTree
namespace Shell

variable {c : Char} {cs rest : List Char} {place : Place} {word : List Char}
  {ws : List (List Char)}

theorem wordsFrom_separator (hc : isSeparator c = true) :
    wordsFrom .between word (c :: rest) = wordsFrom .between [] rest := by
  rw [wordsFrom, if_pos hc, wordsFrom_between]

theorem wordsFrom_append (hc : isSeparator c = true) (h : wordsFrom place word cs = .ok ws) :
    wordsFrom place word (cs ++ c :: rest) = (wordsFrom .between [] rest).map (ws ++ ·) := by
  fun_induction wordsFrom place word cs generalizing ws with
  | case1 word =>
    obtain rfl : [] = ws := Except.ok.inj h
    rw [List.nil_append, wordsFrom_separator hc]
    cases wordsFrom .between [] rest <;> rfl
  | case2 word =>
    obtain rfl : [word.reverse] = ws := Except.ok.inj h
    rw [List.nil_append, wordsFrom, if_pos hc]
    rfl
  | case3 | case4 | case5 | case6 => cases h
  | case7 word d cs hd ih => rw [List.cons_append, wordsFrom, if_pos hd, ih h]
  | case8 word d cs hd ih => rw [List.cons_append, wordsFrom, if_neg hd, ih h]
  | case9 word d cs hd ih =>
    -- the word that a separator ends stands before all words that are still to come
    cases hrest : wordsFrom .between [] cs with
    | error e =>
      rw [hrest] at h
      cases h
    | ok more =>
      rw [hrest] at h
      obtain rfl : word.reverse :: more = ws := Except.ok.inj h
      rw [List.cons_append, wordsFrom, if_pos hd, ih hrest]
      cases wordsFrom .between [] rest <;> rfl
  | case10 word d cs hd ih => rw [List.cons_append, wordsFrom, if_neg hd, ih h]
  | case11 word cs ih => rw [List.cons_append, wordsFrom, if_pos rfl, ih h]
  | case12 word d cs hd ih => rw [List.cons_append, wordsFrom, if_neg hd, ih h]
  | case13 word cs ih => rw [List.cons_append, wordsFrom, if_pos rfl, ih h]
  | case14 word cs hne ih => rw [List.cons_append, wordsFrom, if_neg hne, if_pos rfl, ih h]
  | case15 word d cs hq hb ih => rw [List.cons_append, wordsFrom, if_neg hq, if_neg hb, ih h]
  | case16 word d cs ih => rw [List.cons_append, wordsFrom, ih h]
  | case17 word d cs hd ih => rw [List.cons_append, wordsFrom, if_pos hd, ih h]
  | case18 word d cs hd ih => rw [List.cons_append, wordsFrom, if_neg hd, ih h]

theorem words_eq_ok {s : String} {args : List String} :
    words s = .ok args ↔
      ∃ ws, wordsFrom .between [] s.toList = .ok ws ∧ ws.map String.ofList = args := by
  rw [words]
  cases wordsFrom .between [] s.toList <;> simp

/-- Texts with a space between them have the words of the one and then those of the other. -/
theorem words_append_space {s t : String} {xs ys : List String} (hs : words s = .ok xs)
    (ht : words t = .ok ys) : words (s ++ " " ++ t) = .ok (xs ++ ys) := by
  obtain ⟨ws, hws, rfl⟩ := words_eq_ok.mp hs
  obtain ⟨vs, hvs, rfl⟩ := words_eq_ok.mp ht
  have htext : (s ++ " " ++ t).toList = s.toList ++ ' ' :: t.toList := by simp
  refine words_eq_ok.mpr ⟨ws ++ vs, ?_, List.map_append⟩
  rw [htext, wordsFrom_append (by decide) hws, hvs]
  rfl

theorem enter_ne_between (c : Char) : (Place.enter c).1 ≠ .between := by
  rw [Place.enter]
  repeat' split
  all_goals simp

theorem wordsFrom_ne_nil (h : place ≠ .between) : wordsFrom place word cs ≠ .ok [] := by
  fun_induction wordsFrom place word cs with
  | case1 | case7 | case8 => exact absurd rfl h
  | case2 => simp
  | case3 | case4 | case5 | case6 => nofun
  | case9 word d cs hd ih =>
    cases wordsFrom .between [] cs with
    | error e => nofun
    | ok more => simp [Except.map]
  | case10 word d cs hd ih => exact ih (enter_ne_between d)
  | case11 | case12 | case13 | case14 | case15 | case16 | case17 | case18 =>
    rename_i ih
    exact ih (by simp)

theorem words_ne_nil {s : String} (h : s.toList = c :: rest) (hc : isSeparator c = false) :
    words s ≠ .ok [] := by
  intro hw
  obtain ⟨ws, hws, hnil⟩ := words_eq_ok.mp hw
  obtain rfl := List.map_eq_nil_iff.mp hnil
  rw [h, wordsFrom, if_neg (by simp [hc])] at hws
  exact wordsFrom_ne_nil (enter_ne_between c) hws

theorem isBlank_of_isSeparator (h : isSeparator c = true) : Text.isBlank c = true := by
  simp only [isSeparator, Bool.or_eq_true, beq_iff_eq] at h
  rcases h with ((rfl | rfl) | rfl) | rfl <;> decide

theorem words_trimmed_ne_nil {s : String} (h : trimmed s ≠ "") : words (trimmed s) ≠ .ok [] := by
  have htext : (trimmed s).toList = Text.trim s.toList := by simp [trimmed]
  cases ht : Text.trim s.toList with
  | nil => exact absurd (by simp [trimmed, ht]) h
  | cons c rest =>
    have hblank : Text.isBlank c = false := Text.head?_trim (by rw [ht]; rfl)
    have hc : isSeparator c = false := by
      cases hs : isSeparator c with
      | false => rfl
      | true => simp [isBlank_of_isSeparator hs] at hblank
    exact words_ne_nil (htext.trans ht) hc

end Shell
end MachTree
