import Mathlib.Data.List.Basic
import MachTree.Proofs.Path.Within
import MachTree.Settings.Basic

/-! Overrides: which commands settings give for a path.  The same text read for a root that is
spelled relative has no part for a directory that is written relative: such a directory has no
absolute path below it. -/
namespace MachTree
namespace Settings

variable {s s' : Settings} {path root cwd : Path} {ini : Ini}

theorem command?_of_sectionsFor {s : Settings} {path : Option Path} (h : s.sectionsFor path = [])
    (option : String) : s.command? option path = .ok none := by
  rw [command?, h]
  rfl

theorem command?_of_empty (root : Path) (option : String) (path : Option Path) :
    ({ root } : Settings).command? option path = .ok none := by
  have hnames : ({ root } : Settings).sectionsFor path = [] := by
    cases path <;> simp [sectionsFor, Ini.sectionNames, Ini.hasSection]
  exact command?_of_sectionsFor hnames option

/-- Settings of one text give the same commands for a path that the same sections hold for. -/
theorem command?_congr (option : String) (hini : s.ini = s'.ini)
    (hscope : ∀ sect ∈ s'.ini.sectionNames, s.scope? path sect = s'.scope? path sect) :
    s.command? option (some path) = s'.command? option (some path) := by
  have hsections : s.sectionsFor (some path) = s'.sectionsFor (some path) := by
    simp only [sectionsFor, hini, List.filterMap_congr hscope]
  rw [command?, command?, hini, hsections]

theorem scope?_normal (s : Settings) (path : Path) (sect : String) :
    s.scope? path.normal sect = s.scope? path sect := by
  simp only [scope?, Path.isWithin_normal]

/-- Whether a section is for a directory that is nowhere: one that is written relative, in settings
whose root is spelled relative. -/
def isUnplaced (root : Path) (sect : String) : Bool :=
  !root.isAbsolute &&
    (directoryText? sect).any fun text => !(Path.ofString (trimmed text)).isAbsolute

/-- That a path is below no directory of a section that is nowhere from a spelling of the root. -/
def IsClear (cwd root : Path) (ini : Ini) (path : Path) : Prop :=
  ∀ sect ∈ ini.sectionNames, isUnplaced root sect = true →
    ({ root := Path.absolute cwd root, ini } : Settings).scope? path sect = none

theorem IsClear.normal (h : IsClear cwd root ini path) : IsClear cwd root ini path.normal := by
  intro sect hsect hun
  rw [scope?_normal]
  exact h sect hsect hun

/-- The directory of a section that is not nowhere is the same from every spelling of the root. -/
theorem normal_child_of_not_isUnplaced {text : String} (cwd : Path)
    (h : root.isAbsolute = true ∨ (Path.ofString text).isAbsolute = true) :
    (root.child text).normal = ((Path.absolute cwd root).child text).normal := by
  rw [Path.child, Path.child]
  rcases h with hroot | htext
  · rw [Path.absolute, Path.append_of_isAbsolute hroot, Path.normal_append]
  · rw [Path.append_of_isAbsolute htext, Path.append_of_isAbsolute htext]

theorem scope?_of_not_isUnplaced {sect : String} (cwd : Path) (ini : Ini)
    (h : isUnplaced root sect = false) (path : Path) :
    ({ root, ini } : Settings).scope? path sect =
      ({ root := Path.absolute cwd root, ini } : Settings).scope? path sect := by
  cases ht : directoryText? sect with
  | none => simp only [scope?, directory?, ht, Option.map_none, Option.bind_none]
  | some text =>
    have hplaced : root.isAbsolute = true ∨ (Path.ofString (trimmed text)).isAbsolute = true := by
      simpa [isUnplaced, ht, Classical.or_iff_not_imp_left] using h
    have hnormal := normal_child_of_not_isUnplaced cwd hplaced
    simp only [scope?, directory?, ht, Option.map_some, Option.bind_some,
      Path.isWithin_congr hnormal, hnormal]

theorem scope?_of_isUnplaced {sect : String} (ini : Ini) (h : isUnplaced root sect = true)
    (hpath : path.isAbsolute = true) : ({ root, ini } : Settings).scope? path sect = none := by
  cases ht : directoryText? sect with
  | none => simp only [scope?, directory?, ht, Option.map_none, Option.bind_none]
  | some text =>
    have hrelative : (root.child (trimmed text)).isAbsolute = false := by
      rw [Path.child]
      simpa [Path.isAbsolute_append, isUnplaced, ht] using h
    simp [scope?, directory?, ht, Path.isWithin_eq_false hpath hrelative]

/-- The spelling of the root does not change the commands for an absolute path, unless the path is
below a directory that is nowhere from that spelling. -/
theorem command?_of_isClear (option : String) (hpath : path.isAbsolute = true)
    (hclear : IsClear cwd root ini path) :
    ({ root, ini } : Settings).command? option (some path) =
      ({ root := Path.absolute cwd root, ini } : Settings).command? option (some path) := by
  refine command?_congr option rfl fun sect hsect => ?_
  cases hun : isUnplaced root sect with
  | false => exact scope?_of_not_isUnplaced cwd ini hun path
  | true => rw [scope?_of_isUnplaced ini hun hpath, hclear sect hsect hun]

end Settings
end MachTree
