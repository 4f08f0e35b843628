import MachTree.Ini.Reader
import MachTree.Proofs.Shell.Words
import MachTree.Proofs.Table

/-! The white space around a value that is read.  Every line of a value is trimmed when it is taken
up, so a value has newlines before its first character and nothing else, and the words of a value
are its words when it is trimmed. -/
namespace MachTree

namespace Text

theorem trim_trimRight (cs : List Char) : trim (trimRight cs) = dropBlank (trimRight cs) := by
  refine trimRight_eq_self fun c hc => @getLast?_trimRight cs c ?_
  obtain ⟨before, hbefore⟩ : dropBlank (trimRight cs) <:+ trimRight cs := List.dropWhile_suffix _
  rw [← hbefore, List.getLast?_append]
  exact Option.or_eq_some_iff.mpr (.inl hc)

theorem mem_takeWhile_append {p : Char → Bool} {cs more : List Char} {c : Char}
    (h : c ∈ cs.takeWhile p) : c ∈ (cs ++ more).takeWhile p := by
  rw [List.takeWhile_append]
  split
  · exact List.mem_append_left _ (List.takeWhile_subset p h)
  · exact h

end Text

theorem trimmed_trim (cs : List Char) :
    trimmed (String.ofList (Text.trim cs)) = String.ofList (Text.trim cs) := by
  rw [trimmed, String.toList_ofList, Text.trim_trim]

namespace Shell

/-- White space before a text does not count, as long as it separates words. -/
theorem wordsFrom_dropBlank {cs : List Char}
    (h : ∀ c ∈ cs.takeWhile Text.isBlank, isSeparator c = true) :
    wordsFrom .between [] (Text.dropBlank cs) = wordsFrom .between [] cs := by
  induction cs with
  | nil => rfl
  | cons c cs ih =>
    cases hc : Text.isBlank c with
    | false => rw [Text.dropBlank, List.dropWhile_cons_of_neg (by simp [hc])]
    | true =>
      rw [List.takeWhile_cons_of_pos hc, List.forall_mem_cons] at h
      rw [wordsFrom_separator h.1, Text.dropBlank, List.dropWhile_cons_of_pos hc]
      exact ih h.2

end Shell

namespace Ini

variable {option sect text given : String} {lines : List String}

/-- That there is no white space around any line of a section while it is read. -/
def Draft.IsTrimmed (d : Draft) : Prop :=
  ∀ option lines, d.get? option = some lines → ∀ line ∈ lines, trimmed line = line

theorem Draft.isTrimmed_empty : Draft.IsTrimmed ∅ := by
  intro option lines h
  simp at h

theorem Draft.IsTrimmed.insert {d : Draft} (h : Draft.IsTrimmed d)
    (hlines : ∀ line ∈ lines, trimmed line = line) :
    Draft.IsTrimmed (Table.insert d option lines) := by
  intro option' lines' hget
  rw [Table.get?_insert] at hget
  split at hget
  · rwa [← Option.some.inj hget]
  · exact h option' lines' hget

namespace Reader

/-- That there is no white space around any line of a value that has been read. -/
structure IsTrimmed (r : Reader) : Prop where
  defaults : Draft.IsTrimmed r.defaults
  sections : ∀ sect d, r.sections.get? sect = some d → Draft.IsTrimmed d

variable {r r' : Reader} {raw : List Char}

theorem isTrimmed_start (source : Source) : IsTrimmed { source } :=
  ⟨Draft.isTrimmed_empty, by simp⟩

theorem IsTrimmed.draft (h : r.IsTrimmed) (sect : String) : Draft.IsTrimmed (r.draft sect) := by
  rw [Reader.draft]
  split
  · exact h.defaults
  · cases hsect : r.sections.get? sect with
    | none => exact Draft.isTrimmed_empty
    | some d => exact h.sections sect d hsect

theorem IsTrimmed.setDraft {d : Draft} (h : r.IsTrimmed) (hd : Draft.IsTrimmed d) (sect : String) :
    (r.setDraft sect d).IsTrimmed := by
  rw [Reader.setDraft]
  split
  · exact ⟨hd, h.sections⟩
  · refine ⟨h.defaults, fun sect' d' hget => ?_⟩
    rw [Table.get?_insert] at hget
    split at hget
    · rwa [← Option.some.inj hget]
    · exact h.sections sect' d' hget

theorem IsTrimmed.continueValue (h : r.IsTrimmed) (htext : trimmed text = text) :
    (r.continueValue text).IsTrimmed := by
  rw [Reader.continueValue]
  split
  · rename_i sect option hcurrent hoption
    refine h.setDraft ((h.draft sect).insert ?_) sect
    intro line hline
    rcases List.mem_cons.mp hline with rfl | hline
    · exact htext
    · cases hget : (r.draft sect).get? option with
      | none => simp [hget] at hline
      | some lines => exact h.draft sect option lines hget line (by simpa [hget] using hline)
  · exact h

theorem IsTrimmed.startSection (h : r.IsTrimmed) {name : String}
    (hstart : r.startSection name = .ok r') : r'.IsTrimmed := by
  rw [Reader.startSection] at hstart
  repeat' split at hstart
  · obtain rfl := Except.ok.inj hstart
    exact ⟨h.defaults, h.sections⟩
  · cases hstart
  · obtain rfl := Except.ok.inj hstart
    refine ⟨h.defaults, fun sect d hget => ?_⟩
    rw [Table.get?_insert] at hget
    split at hget
    · rw [← Option.some.inj hget]
      exact Draft.isTrimmed_empty
    · exact h.sections sect d hget

theorem IsTrimmed.startOption (h : r.IsTrimmed) {name raw : String}
    (hgiven : trimmed given = given) (hstart : r.startOption sect name given raw = .ok r') :
    r'.IsTrimmed := by
  have hrefused : (if name = "" then r.refuseLine raw else r).IsTrimmed := by
    split
    · exact ⟨h.defaults, h.sections⟩
    · exact h
  rw [Reader.startOption] at hstart
  generalize (if name = "" then r.refuseLine raw else r) = q at hrefused hstart
  simp only at hstart
  split at hstart
  · cases hstart
  · obtain rfl := Except.ok.inj hstart
    have hlines : ∀ line ∈ [given], trimmed line = line := by simpa using hgiven
    have hstarted : IsTrimmed { q with
        seen := (sect, name) :: q.seen, option := if name = "" then none else some name } :=
      ⟨hrefused.defaults, hrefused.sections⟩
    exact hstarted.setDraft ((hstarted.draft sect).insert hlines) sect

theorem trim_of_option {cs name value : List Char} (h : Line.ofText cs = .option name value) :
    Text.trim value = value := by
  simp only [Line.ofText] at h
  split at h
  · cases h
  · split at h
    · cases h
    · obtain ⟨-, rfl⟩ := Line.option.inj h
      exact Text.trim_trim _

theorem IsTrimmed.startLine (h : r.IsTrimmed) {cs : List Char} {raw : String}
    (hstart : r.startLine cs raw = .ok r') : r'.IsTrimmed := by
  rw [Reader.startLine] at hstart
  split at hstart
  · exact h.startSection hstart
  · cases hstart
  · rename_i name value sect hline hcurrent
    have hvalue : trimmed (String.ofList value) = String.ofList value := by
      rw [← trim_of_option hline]
      exact trimmed_trim value
    exact h.startOption hvalue hstart
  · obtain rfl := Except.ok.inj hstart
    exact ⟨h.defaults, h.sections⟩

theorem IsTrimmed.feed (h : r.IsTrimmed) (hfeed : r.feed raw = .ok r') : r'.IsTrimmed := by
  have hnext : IsTrimmed { r with lineNumber := r.lineNumber + 1 } := ⟨h.defaults, h.sections⟩
  rw [Reader.feed] at hfeed
  generalize ({ r with lineNumber := r.lineNumber + 1 } : Reader) = q at hnext hfeed
  simp only at hfeed
  repeat' split at hfeed
  · obtain rfl := Except.ok.inj hfeed
    exact hnext
  · obtain rfl := Except.ok.inj hfeed
    exact hnext.continueValue (by decide)
  · obtain rfl := Except.ok.inj hfeed
    exact hnext.continueValue (trimmed_trim raw)
  · have hindented : IsTrimmed { q with indent := (raw.takeWhile Text.isBlank).length } :=
      ⟨hnext.defaults, hnext.sections⟩
    exact hindented.startLine hfeed

theorem IsTrimmed.feedAll (h : r.IsTrimmed) {raws : List (List Char)}
    (hfeed : r.feedAll raws = .ok r') : r'.IsTrimmed := by
  induction raws generalizing r with
  | nil =>
    obtain rfl := Except.ok.inj hfeed
    exact h
  | cons raw rest ih =>
    rw [Reader.feedAll] at hfeed
    split at hfeed
    · rename_i q hq
      exact ih (h.feed hq) hfeed
    · cases hfeed

theorem takeWhile_isBlank_append {line : String} (h : trimmed line = line) {more : List Char}
    {c : Char} (hc : c ∈ (line.toList ++ more).takeWhile Text.isBlank) :
    c ∈ more.takeWhile Text.isBlank := by
  have htrim : Text.trim line.toList = line.toList := by
    conv_rhs => rw [← h, trimmed, String.toList_ofList]
  cases hline : line.toList with
  | nil => simpa [hline] using hc
  | cons d ds =>
    have hd : Text.isBlank d = false := Text.head?_trim (by rw [htrim, hline]; rfl)
    rw [hline, List.cons_append, List.takeWhile_cons_of_neg (by simp [hd])] at hc
    cases hc

/-- Before the first character of trimmed lines there are the ends of empty lines alone. -/
theorem isSeparator_of_mem_takeWhile (h : ∀ line ∈ lines, trimmed line = line) :
    ∀ c ∈ ("\n".intercalate lines).toList.takeWhile Text.isBlank, Shell.isSeparator c = true := by
  have hnewline : "\n".toList = ['\n'] := rfl
  rw [String.toList_intercalate, hnewline]
  induction lines with
  | nil => simp
  | cons line rest ih =>
    rw [List.forall_mem_cons] at h
    intro c hc
    cases rest with
    | nil =>
      have hc : c ∈ (line.toList ++ []).takeWhile Text.isBlank := by simpa using hc
      simpa using takeWhile_isBlank_append h.1 hc
    | cons next rest =>
      rw [List.map_cons, List.map_cons, List.intercalate_cons_cons, List.append_assoc] at hc
      have hc := takeWhile_isBlank_append h.1 hc
      rw [List.singleton_append, List.takeWhile_cons_of_pos (by decide)] at hc
      rcases List.mem_cons.mp hc with rfl | hc
      · rfl
      · exact ih h.2 c hc

theorem wordsFrom_value (h : ∀ line ∈ lines, trimmed line = line) :
    Shell.wordsFrom .between [] (trimmed (value lines)).toList =
      Shell.wordsFrom .between [] (value lines).toList := by
  rw [trimmed, String.toList_ofList, value, String.toList_ofList, Text.trim_trimRight]
  refine Shell.wordsFrom_dropBlank fun c hc => ?_
  obtain ⟨more, hmore⟩ := Text.trimRight_prefix ("\n".intercalate lines.reverse).toList
  have hreversed : ∀ line ∈ lines.reverse, trimmed line = line := by simpa using h
  refine isSeparator_of_mem_takeWhile hreversed c ?_
  rw [← hmore]
  exact Text.mem_takeWhile_append hc

theorem IsTrimmed.exists_value {ini : Ini} (h : r.IsTrimmed) (hfinish : r.finish = .ok ini)
    (hget : ini.get? sect option = some text) :
    ∃ lines, text = value lines ∧ ∀ line ∈ lines, trimmed line = line := by
  rw [finish] at hfinish
  split at hfinish
  · obtain rfl := Except.ok.inj hfinish
    obtain ⟨own, hown, hget⟩ := Option.bind_eq_some_iff.mp hget
    rw [Table.get?_ofList_map] at hown
    obtain ⟨d, hd, rfl⟩ := Option.map_eq_some_iff.mp hown
    rw [options, options, Table.get?_ofList_map, Table.get?_ofList_map] at hget
    rcases Option.or_eq_some_iff.mp hget with hget | ⟨-, hget⟩
    · obtain ⟨lines, hlines, rfl⟩ := Option.map_eq_some_iff.mp hget
      exact ⟨lines, rfl, h.sections sect d hd option lines hlines⟩
    · obtain ⟨lines, hlines, rfl⟩ := Option.map_eq_some_iff.mp hget
      exact ⟨lines, rfl, h.defaults option lines hlines⟩
  · cases hfinish

end Reader

/-- A value that is read has words just when it has words trimmed. -/
theorem wordsFrom_of_ofLines {source : Source} {raws : List (List Char)} {ini : Ini}
    (h : ofLines source raws = .ok ini) (hget : ini.get? sect option = some given) :
    Shell.wordsFrom .between [] (trimmed given).toList =
      Shell.wordsFrom .between [] given.toList := by
  rcases hr : Reader.feedAll { source } raws with e | r
  · simp [ofLines, hr, bind, Except.bind] at h
  · have hfinish : r.finish = .ok ini := by simpa [ofLines, hr, bind, Except.bind] using h
    have htrimmed := (Reader.isTrimmed_start source).feedAll hr
    obtain ⟨lines, rfl, hlines⟩ := htrimmed.exists_value hfinish hget
    exact Reader.wordsFrom_value hlines

end Ini
end MachTree
