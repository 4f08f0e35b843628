import MachTree.Proofs.Files.Relative
import MachTree.Proofs.Settings.Load

/-! Where settings are read from.  The name of the source is in the errors alone, so that what can
be read under one name is the same under another; a tree has the same settings for its root as it is
spelled, unless the spelling goes up. -/
namespace MachTree

namespace Ini
namespace Reader

variable {r r' : Reader} {ini : Ini} {raw : List Char}

def withSource (r : Reader) (source : Source) : Reader := { r with source }

theorem refuseLine_withSource (r : Reader) (source : Source) (raw : String) :
    (r.withSource source).refuseLine raw = (r.refuseLine raw).withSource source := rfl

theorem setDraft_withSource (r : Reader) (source : Source) (sect : String) (d : Draft) :
    (r.withSource source).setDraft sect d = (r.setDraft sect d).withSource source := by
  by_cases h : sect = defaultSection <;> simp [setDraft, withSource, h]

theorem continueValue_withSource (r : Reader) (source : Source) (text : String) :
    (r.withSource source).continueValue text = (r.continueValue text).withSource source := by
  rcases r with ⟨_, _, _, _, _ | sect, _ | option, _, _, _⟩
  · rfl
  · rfl
  · rfl
  · exact setDraft_withSource _ _ _ _

variable (source : Source)

theorem startSection_withSource {name : String} (h : r.startSection name = .ok r') :
    (r.withSource source).startSection name = .ok (r'.withSource source) := by
  by_cases hname : name = defaultSection
  · obtain rfl : { r with current := some name, option := none } = r' := by
      simpa [startSection, hname] using h
    exact if_pos hname
  · by_cases hold : r.sections.contains name
    · simp [startSection, hname, hold] at h
    · obtain rfl : { r with
          sections := r.sections.insert name ∅, current := some name, option := none } = r' := by
        simpa [startSection, hname, hold] using h
      exact (if_neg hname).trans (if_neg hold)

theorem startOption_withSource {sect name value raw : String}
    (h : r.startOption sect name value raw = .ok r') :
    (r.withSource source).startOption sect name value raw = .ok (r'.withSource source) := by
  have hrefused :
      (if name = "" then (r.withSource source).refuseLine raw else r.withSource source) =
        (if name = "" then r.refuseLine raw else r).withSource source := by
    split <;> rfl
  rw [startOption] at h ⊢
  rw [hrefused]
  generalize (if name = "" then r.refuseLine raw else r) = q at h ⊢
  by_cases hseen : (sect, name) ∈ q.seen
  · simp [hseen] at h
  · simp only [hseen, if_false, Except.ok.injEq] at h
    rw [← h, ← setDraft_withSource]
    exact if_neg hseen

theorem startLine_withSource {text : List Char} {raw : String} (h : r.startLine text raw = .ok r') :
    (r.withSource source).startLine text raw = .ok (r'.withSource source) := by
  have hsame : (r.withSource source).current = r.current := rfl
  cases hline : Line.ofText text with
  | header name =>
    simp only [startLine, hline] at h ⊢
    exact startSection_withSource source h
  | option name value =>
    cases hcurrent : r.current with
    | none => simp [startLine, hline, hcurrent] at h
    | some sect =>
      simp only [startLine, hline, hsame, hcurrent] at h ⊢
      exact startOption_withSource source h
  | other =>
    cases hcurrent : r.current with
    | none => simp [startLine, hline, hcurrent] at h
    | some sect =>
      simp only [startLine, hline, hsame, hcurrent] at h ⊢
      rw [refuseLine_withSource, Except.ok.inj h]

theorem feed_withSource (h : r.feed raw = .ok r') :
    (r.withSource source).feed raw = .ok (r'.withSource source) := by
  have hnext : { r.withSource source with lineNumber := (r.withSource source).lineNumber + 1 } =
      { r with lineNumber := r.lineNumber + 1 }.withSource source := rfl
  rw [feed] at h ⊢
  rw [hnext]
  generalize ({ r with lineNumber := r.lineNumber + 1 } : Reader) = q at h ⊢
  have hindented (indent : Nat) : { q.withSource source with indent := indent } =
      { q with indent := indent }.withSource source := rfl
  have hdeeper (indent : Nat) :
      ((q.withSource source).option.isSome ∧ indent > (q.withSource source).indent) =
        (q.option.isSome ∧ indent > q.indent) := rfl
  simp only [hindented, hdeeper, continueValue_withSource] at h ⊢
  split at h
  · obtain rfl := Except.ok.inj h
    rw [if_pos ‹_›]
  · rw [if_neg ‹_›]
    split at h
    · obtain rfl := Except.ok.inj h
      rw [if_pos ‹_›]
    · rw [if_neg ‹_›]
      split at h
      · obtain rfl := Except.ok.inj h
        rw [if_pos ‹_›]
      · rw [if_neg ‹_›]
        exact startLine_withSource source h

theorem feedAll_withSource {lines : List (List Char)} (h : r.feedAll lines = .ok r') :
    (r.withSource source).feedAll lines = .ok (r'.withSource source) := by
  induction lines generalizing r with
  | nil =>
    obtain rfl : r = r' := by simpa [feedAll] using h
    rfl
  | cons raw rest ih =>
    rw [feedAll] at h ⊢
    rcases hfeed : r.feed raw with e | r₁
    · simp [hfeed] at h
    · rw [feed_withSource source hfeed]
      exact ih (by simpa [hfeed] using h)

theorem finish_withSource (h : r.finish = .ok ini) : (r.withSource source).finish = .ok ini := by
  rw [finish] at h ⊢
  by_cases hr : r.unreadable = []
  · rw [if_pos hr] at h
    rw [← h]
    exact if_pos hr
  · simp [hr] at h

end Reader

/-- What can be read is the same from any source. -/
theorem ofLines_of_ok {source source' : Source} {lines : List (List Char)} {ini : Ini}
    (h : ofLines source lines = .ok ini) : ofLines source' lines = .ok ini := by
  have hstart : (({ source } : Reader).withSource source') = { source := source' } := rfl
  rcases hr : Reader.feedAll { source } lines with e | r
  · simp [ofLines, hr, bind, Except.bind] at h
  · have hfinish : r.finish = .ok ini := by simpa [ofLines, hr, bind, Except.bind] using h
    have hfeed := Reader.feedAll_withSource source' hr
    rw [hstart] at hfeed
    simp [ofLines, hfeed, bind, Except.bind, Reader.finish_withSource source' hfinish]

end Ini

namespace Settings

variable {host : Host} {j : Journal} {root : Path} {ini : Ini}

theorem exists_ofLines_of_ofBytes {source : Ini.Source} {bytes : List UInt8}
    (h : ofBytes source bytes = .ok ini) : ∃ lines, ∀ source',
      ofBytes source' bytes = .ok ini ↔ Ini.ofLines source' lines = .ok ini := by
  rcases hdecoded : Utf8.decodeBlocks [] (Utf8.blocks blockSize bytes) with ⟨cs, _ | reason⟩
  · refine ⟨Text.newlineLines (Text.unifyNewlines cs), fun source' => ?_⟩
    simp only [ofBytes, hdecoded]
    split <;> simp [*]
  · rcases hfeed : Ini.Reader.feedAll { source } (endedLines cs) with e | r <;>
      simp [ofBytes, hdecoded, hfeed] at h

theorem ofBytes_of_ok {source source' : Ini.Source} {bytes : List UInt8}
    (h : ofBytes source bytes = .ok ini) : ofBytes source' bytes = .ok ini := by
  obtain ⟨lines, hlines⟩ := exists_ofLines_of_ofBytes h
  exact (hlines source').mpr (Ini.ofLines_of_ok ((hlines source).mp h))

theorem up_not_mem_child (hup : Component.up ∉ root.parts) :
    Component.up ∉ (root.child fileName).parts := by
  have hname : Component.up ∉ (Path.ofString fileName).parts := by decide
  exact fun hm => (List.mem_append.mp hm).elim hup hname

section Relative

variable (hs : host.files.Stands host.cwd) (hroot : root.isAbsolute = false)
  (hup : Component.up ∉ root.parts)
include hs hroot hup

theorem absolute_child : Path.absolute host.cwd (root.child fileName) =
    (Path.absolute host.cwd root).child fileName := by
  have hchild : (root.child fileName).isAbsolute = false := hroot
  have hparts : (root.child fileName).parts = root.parts ++ (Path.ofString fileName).parts := rfl
  rw [hs.absolute_eq hchild (up_not_mem_child hup), hs.absolute_eq hroot hup, hparts,
    ← List.append_assoc]
  rfl

theorem Holds.of_relative (h : Holds host j (Path.absolute host.cwd root) ini) :
    Holds host j root ini := by
  have hchild : (root.child fileName).isAbsolute = false := hroot
  have hne : (root.child fileName).parts ≠ [] :=
    List.append_ne_nil_of_right_ne_nil _ (by decide)
  have hup' := up_not_mem_child hup
  have hsame := absolute_child hs hroot hup
  cases h with
  | missing hfile =>
    rw [← hsame] at hfile
    exact .missing (Files.isFile_of_relative hs hchild hup' hne hfile)
  | file hfile hbytes =>
    -- the log may have been written meanwhile, but the current directory stands
    have hafter : (host.filesAfter j).Stands host.cwd := by
      rw [Host.filesAfter]
      split
      · exact hs
      · exact hs.appendAt _ _
    rw [← hsame] at hfile
    have hlong := Files.not_isTooLong_of_leadsTo (Files.hasNull_of_leadsTo hfile) hfile
    have hread := Files.read?_of_relative hafter hchild hup' hne hlong
    have hbytes' : bytesAt host j root = bytesAt host j (Path.absolute host.cwd root) := by
      rw [bytesAt, bytesAt, hread, hsame]
    exact .file (Files.isFile_of_relative hs hchild hup' hne hfile)
      (hbytes' ▸ ofBytes_of_ok hbytes)

end Relative

theorem Holds.of_absolute (hs : root.isAbsolute = false → host.files.Stands host.cwd)
    (hup : Component.up ∉ root.parts) (h : Holds host j (Path.absolute host.cwd root) ini) :
    Holds host j root ini := by
  cases hroot : root.isAbsolute with
  | true => rwa [Path.absolute_of_not_mem host.cwd hroot hup] at h
  | false => exact h.of_relative (hs hroot) hroot hup

end Settings
end MachTree
