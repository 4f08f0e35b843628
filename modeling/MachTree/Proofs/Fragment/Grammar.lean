import MachTree.Proofs.Fragment.Value
import Mathlib.Data.Nat.Find

/-! Which lines of a fragment are assignments.  The leftmost of the two tokens in a line tells what
is assigned and how, if there is something before it.  A line that starts with the token of adding
is not passed over: it is read by the first token of setting in it. -/
namespace MachTree

namespace Text

/-- A token stands at a column of a text, and at none before it. -/
structure IsFirst (token text : List Char) (column : Nat) : Prop where
  stands : token <+: text.drop column
  least : ∀ earlier < column, ¬ token <+: text.drop earlier

variable {token text : List Char} {column : Nat}

theorem IsFirst.unique {other : Nat} (h : IsFirst token text column)
    (h' : IsFirst token text other) : column = other := by
  rcases Nat.lt_trichotomy column other with hlt | heq | hgt
  · exact absurd h.stands (h'.least column hlt)
  · exact heq
  · exact absurd h'.stands (h.least other hgt)

theorem IsFirst.succ {c : Char} (hc : ¬ token <+: c :: text) (h : IsFirst token text column) :
    IsFirst token (c :: text) (column + 1) where
  stands := h.stands
  least := by
    rintro (_ | earlier) hlt
    · exact hc
    · exact h.least earlier (Nat.lt_of_succ_lt_succ hlt)

theorem splitAt?_cases (hne : token ≠ []) (text : List Char) :
    (splitAt? token text = none ∧ ∀ column, ¬ token <+: text.drop column) ∨
      ∃ column, IsFirst token text column ∧
        splitAt? token text = some (text.take column, text.drop (column + token.length)) := by
  induction text with
  | nil => exact .inl ⟨if_neg hne, fun column h => hne (by simpa using h)⟩
  | cons c rest ih =>
    by_cases hc : token <+: c :: rest
    · refine .inr ⟨0, ⟨hc, fun _ h => absurd h (Nat.not_lt_zero _)⟩, ?_⟩
      rw [splitAt?, if_pos (List.isPrefixOf_iff_prefix.mpr hc), Nat.zero_add]
      rfl
    · have hcut : splitAt? token (c :: rest) =
          (splitAt? token rest).map fun r => (c :: r.1, r.2) := by
        rw [splitAt?, if_neg (mt List.isPrefixOf_iff_prefix.mp hc)]
      rcases ih with ⟨hnone, hnowhere⟩ | ⟨column, hfirst, hsome⟩
      · refine .inl ⟨by rw [hcut, hnone]; rfl, ?_⟩
        rintro (_ | column)
        · exact hc
        · exact hnowhere column
      · refine .inr ⟨column + 1, hfirst.succ hc, ?_⟩
        rw [hcut, hsome, Nat.add_right_comm]
        rfl

theorem splitAt?_of_isFirst (hne : token ≠ []) (h : IsFirst token text column) :
    splitAt? token text = some (text.take column, text.drop (column + token.length)) := by
  rcases splitAt?_cases hne text with ⟨-, hnowhere⟩ | ⟨other, hother, hsome⟩
  · exact absurd h.stands (hnowhere column)
  · rw [hsome, h.unique hother]

theorem splitAt?_of_nowhere (hne : token ≠ []) (h : ∀ column, ¬ token <+: text.drop column) :
    splitAt? token text = none := by
  rcases splitAt?_cases hne text with ⟨hnone, -⟩ | ⟨column, hfirst, -⟩
  · exact hnone
  · exact absurd hfirst.stands (h column)

theorem isFirst_or_nowhere (hne : token ≠ []) (text : List Char) :
    (∃ column, IsFirst token text column) ∨ ∀ column, ¬ token <+: text.drop column := by
  rcases splitAt?_cases hne text with ⟨-, hnowhere⟩ | ⟨column, hfirst, -⟩
  · exact .inr hnowhere
  · exact .inl ⟨column, hfirst⟩

theorem lt_length_of_stands (hne : token ≠ []) (h : token <+: text.drop column) :
    column < text.length := by
  have hlength := h.length_le
  have hpos := List.length_pos_iff.mpr hne
  rw [List.length_drop] at hlength
  omega

theorem IsFirst.take_eq_nil_iff (hne : token ≠ []) (h : IsFirst token text column) :
    text.take column = [] ↔ column = 0 := by
  have hlt := lt_length_of_stands hne h.stands
  rw [List.take_eq_nil_iff]
  exact ⟨fun h' => h'.resolve_right (List.length_pos_iff.mp (by omega)), .inl⟩

theorem IsFirst.length_take (hne : token ≠ []) (h : IsFirst token text column) :
    (text.take column).length = column :=
  List.length_take_of_le (Nat.le_of_lt (lt_length_of_stands hne h.stands))

end Text

namespace Fragment

open Text (IsFirst)

variable {line : List Char} {column : Nat} {mode : Mode} {a : Assignment}

/-- The token of an assignment stands at a column of a line, and none stands before it. -/
structure IsLeftmost (line : List Char) (column : Nat) (mode : Mode) : Prop where
  stands : mode.token <+: line.drop column
  least : ∀ earlier < column, ∀ other : Mode, ¬ other.token <+: line.drop earlier

/-- The assignment that a line is read as, if it is cut at a token at a column. -/
def assignmentAt (line : List Char) (column : Nat) (mode : Mode) : Assignment :=
  ⟨String.ofList (Text.trim (line.take column)),
    String.ofList (Text.trim (line.drop (column + mode.token.length))), mode⟩

theorem token_ne_nil (mode : Mode) : mode.token ≠ [] := by cases mode <;> decide

theorem mode_eq_of_stands {other : Mode} {text : List Char} (h : mode.token <+: text)
    (h' : other.token <+: text) : mode = other := by
  have hsecond (m : Mode) (hm : m.token <+: text) : text[1]? = m.token[1]? := by
    obtain ⟨rest, rfl⟩ := hm
    cases m <;> rfl
  have heq : mode.token[1]? = other.token[1]? := (hsecond mode h).symm.trans (hsecond other h')
  revert heq
  cases mode <;> cases other <;> decide

theorem IsLeftmost.isFirst (h : IsLeftmost line column mode) : IsFirst mode.token line column :=
  ⟨h.stands, fun earlier hlt => h.least earlier hlt mode⟩

theorem IsLeftmost.lt_of_isFirst {other : Nat} (h : IsLeftmost line column mode) (mode' : Mode)
    (hne : mode ≠ mode') (h' : IsFirst mode'.token line other) : column < other := by
  rcases Nat.lt_trichotomy column other with hlt | rfl | hgt
  · exact hlt
  · exact absurd (mode_eq_of_stands h.stands h'.stands) hne
  · exact absurd h'.stands (h.least other hgt mode')

theorem setToken_ne_nil : setToken ≠ [] := token_ne_nil .set

theorem appendToken_ne_nil : appendToken ≠ [] := token_ne_nil .append

theorem sides?_of_isFirst {token : List Char} (hne : token ≠ []) (h : IsFirst token line column) :
    sides? token line =
      if column = 0 then none else some (line.take column, line.drop (column + token.length)) := by
  rw [sides?, Text.splitAt?_of_isFirst hne h]
  by_cases hzero : column = 0 <;> simp [Option.filter, h.take_eq_nil_iff hne, hzero]

theorem sides?_of_nowhere {token : List Char} (hne : token ≠ [])
    (h : ∀ column, ¬ token <+: line.drop column) : sides? token line = none := by
  rw [sides?, Text.splitAt?_of_nowhere hne h]
  rfl

theorem assignment?_of_no_append (happend : sides? appendToken line = none)
    (h : IsFirst setToken line column) :
    assignment? line = if column = 0 then none else some (assignmentAt line column .set) := by
  rw [assignment?, happend, Text.splitAt?_of_isFirst setToken_ne_nil h]
  by_cases hzero : column = 0 <;>
    simp [h.take_eq_nil_iff setToken_ne_nil, hzero, assignmentAt, assign, Mode.token]

theorem assignment?_of_no_set (hset : ∀ column, ¬ setToken <+: line.drop column)
    (h : IsFirst appendToken line column) :
    assignment? line = if column = 0 then none else some (assignmentAt line column .append) := by
  rw [assignment?, sides?_of_isFirst appendToken_ne_nil h,
    Text.splitAt?_of_nowhere setToken_ne_nil hset]
  by_cases hzero : column = 0 <;> simp [hzero, assignmentAt, assign, Mode.token]

/-- With a token of adding behind the start and one of setting, the one further left counts. -/
theorem assignment?_of_both {other : Nat} (happend : IsFirst appendToken line column)
    (hpos : 0 < column) (hset : IsFirst setToken line other) :
    assignment? line =
      if column < other then some (assignmentAt line column .append)
      else if other = 0 then none
      else some (assignmentAt line other .set) := by
  have hlength := happend.length_take appendToken_ne_nil
  have hlength' := hset.length_take setToken_ne_nil
  have htake := hset.take_eq_nil_iff setToken_ne_nil
  rw [assignment?, sides?_of_isFirst appendToken_ne_nil happend, if_neg (by omega),
    Text.splitAt?_of_isFirst setToken_ne_nil hset]
  by_cases hlt : column < other
  · simp only [hlength, hlength', if_pos hlt]
    rfl
  · by_cases hzero : other = 0
    · simp [hlength, hzero]
    · simp only [hlength, hlength', if_neg hlt, if_neg hzero, Ne, htake, if_pos hzero]
      rfl

/-- The leftmost token tells how a line is read, if there is something before it. -/
theorem assignment?_of_isLeftmost (h : IsLeftmost line column mode) (hpos : 0 < column) :
    assignment? line = some (assignmentAt line column mode) := by
  cases mode with
  | set =>
    rcases Text.isFirst_or_nowhere appendToken_ne_nil line with ⟨added, hadded⟩ | hnowhere
    · have hlt : column < added := h.lt_of_isFirst .append (by decide) hadded
      rw [assignment?_of_both hadded (by omega) h.isFirst, if_neg (by omega), if_neg (by omega)]
    · rw [assignment?_of_no_append (sides?_of_nowhere appendToken_ne_nil hnowhere) h.isFirst,
        if_neg (by omega)]
  | append =>
    rcases Text.isFirst_or_nowhere setToken_ne_nil line with ⟨given, hgiven⟩ | hnowhere
    · have hlt : column < given := h.lt_of_isFirst .set (by decide) hgiven
      rw [assignment?_of_both h.isFirst hpos hgiven, if_pos hlt]
    · rw [assignment?_of_no_set hnowhere h.isFirst, if_neg (by omega)]

theorem assignment?_of_set_at_start (h : IsLeftmost line 0 .set) : assignment? line = none := by
  rcases Text.isFirst_or_nowhere appendToken_ne_nil line with ⟨added, hadded⟩ | hnowhere
  · have hlt : 0 < added := h.lt_of_isFirst .append (by decide) hadded
    rw [assignment?_of_both hadded hlt h.isFirst, if_neg (by omega), if_pos rfl]
  · rw [assignment?_of_no_append (sides?_of_nowhere appendToken_ne_nil hnowhere) h.isFirst,
      if_pos rfl]

theorem assignment?_of_append_at_start (h : IsLeftmost line 0 .append)
    (hset : IsFirst setToken line column) :
    assignment? line = some (assignmentAt line column .set) := by
  have hlt : 0 < column := h.lt_of_isFirst .set (by decide) hset
  have hsides : sides? appendToken line = none := by
    rw [sides?_of_isFirst appendToken_ne_nil h.isFirst, if_pos rfl]
  rw [assignment?_of_no_append hsides hset, if_neg (by omega)]

theorem isLeftmost_or_nowhere (line : List Char) :
    (∃ column mode, IsLeftmost line column mode) ∨
      ∀ (mode : Mode) column, ¬ mode.token <+: line.drop column := by
  by_cases h : ∃ column, ∃ mode : Mode, mode.token <+: line.drop column
  · classical
    obtain ⟨mode, hmode⟩ := Nat.find_spec h
    exact .inl ⟨Nat.find h, mode, hmode, fun earlier hlt other ho => Nat.find_min h hlt ⟨other, ho⟩⟩
  · exact .inr fun mode column hmode => h ⟨column, mode, hmode⟩

/-- Only a token makes a line an assignment, and at the start of the line only that of adding. -/
theorem eq_assignmentAt_of_eq_some (h : assignment? line = some a) :
    (∃ column mode, 0 < column ∧ IsLeftmost line column mode ∧ a = assignmentAt line column mode) ∨
      (IsLeftmost line 0 .append ∧
        ∃ column, IsFirst setToken line column ∧ a = assignmentAt line column .set) := by
  rcases isLeftmost_or_nowhere line with ⟨column, mode, hleft⟩ | hnowhere
  · by_cases hpos : 0 < column
    · rw [assignment?_of_isLeftmost hleft hpos] at h
      exact .inl ⟨column, mode, hpos, hleft, (Option.some.inj h).symm⟩
    · obtain rfl : column = 0 := by omega
      cases mode with
      | set =>
        rw [assignment?_of_set_at_start hleft] at h
        cases h
      | append =>
        rcases Text.isFirst_or_nowhere setToken_ne_nil line with ⟨given, hgiven⟩ | hnowhere
        · rw [assignment?_of_append_at_start hleft hgiven] at h
          exact .inr ⟨hleft, given, hgiven, (Option.some.inj h).symm⟩
        · rw [assignment?_of_no_set hnowhere hleft.isFirst, if_pos rfl] at h
          cases h
  · have hset : Text.splitAt? setToken line = none :=
      Text.splitAt?_of_nowhere setToken_ne_nil (hnowhere .set)
    rw [assignment?, sides?_of_nowhere appendToken_ne_nil (hnowhere .append), hset] at h
    cases h

/-- A line is an assignment by its leftmost token, if there is something before that token: what is
before it is the name, what is after it the value, both without the white space around them, and the
token tells whether the value is set or added.  Of all other lines only those are read that start
with the token of adding and have a token of setting further on: they set a name that starts with
the sign for adding. -/
theorem assignment?_by_leftmost (line : List Char) :
    (∀ a, assignment? line = some a ↔
      (∃ column mode, 0 < column ∧ IsLeftmost line column mode ∧
        a = assignmentAt line column mode) ∨
      (IsLeftmost line 0 .append ∧
        ∃ column, IsFirst setToken line column ∧ a = assignmentAt line column .set)) ∧
    ∀ vars, (∀ c ∈ line, Text.isLineEnd c = false) →
      parse line vars = (assignment? line).elim vars fun a => a.apply vars := by
  refine ⟨fun a => ⟨eq_assignmentAt_of_eq_some, ?_⟩, fun vars hline => ?_⟩
  · rintro (⟨column, mode, hpos, hleft, rfl⟩ | ⟨hleft, column, hset, rfl⟩)
    · exact assignment?_of_isLeftmost hleft hpos
    · exact assignment?_of_append_at_start hleft hset
  · have happlied : parse line vars = applyLine vars line := by
      by_cases hne : line = []
      · subst hne
        rfl
      · rw [parse, Text.lines_eq_singleton hne hline]
        rfl
    rw [happlied, applyLine]
    cases assignment? line <;> rfl

example : assignment? " += x = y".toList = some ⟨"+= x", "y", .set⟩ := by decide

end Fragment
end MachTree
