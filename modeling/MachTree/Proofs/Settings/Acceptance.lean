import MachTree.Proofs.Ini.Values
import MachTree.Proofs.Settings.Decision
import MachTree.Proofs.Settings.Source

/-! Which settings files are accepted.  A file that can be read is refused just when some section
for commands has one that cannot be cut into words; whatever has been accepted has an answer for
every path and for none. -/
namespace MachTree
namespace Settings

variable {s : Settings} {ini : Ini} {sect option given : String}

/-- That a section for commands has one, of its own or by default, that cannot be cut into words. -/
def HasUncut (ini : Ini) : Prop :=
  ∃ sect ∈ ini.sectionNames, (sect = baseSection ∨ directoryMarker.toList <+: sect.toList) ∧
    ∃ (key : Key) (given : String), ini.get? sect key.option = some given ∧ trimmed given ≠ "" ∧
      ∃ e, Shell.words given = .error e

theorem givesCommands_iff :
    givesCommands sect = true ↔ sect = baseSection ∨ directoryMarker.toList <+: sect.toList := by
  simp [givesCommands, directoryText?, ← List.isPrefixOf_iff_prefix]

theorem wordsFrom_of_ofBytes {source : Ini.Source} {bytes : List UInt8}
    (h : ofBytes source bytes = .ok ini) (hget : ini.get? sect option = some given) :
    Shell.wordsFrom .between [] (trimmed given).toList =
      Shell.wordsFrom .between [] given.toList := by
  obtain ⟨lines, hlines⟩ := exists_ofLines_of_ofBytes h
  exact Ini.wordsFrom_of_ofLines ((hlines source).mp h) hget

theorem sectionCommand_eq_error_iff :
    (∃ e, sectionCommand ini sect option = .error e) ↔
      ∃ value, value? ini sect option = some value ∧ ∃ e, Shell.words value = .error e := by
  rw [sectionCommand_eq]
  cases value? ini sect option with
  | none => simp
  | some value => cases hcut : Shell.words value <;> simp [cut, hcut]

theorem words_eq_error_iff {text : String} : (∃ e, Shell.words text = .error e) ↔
    ∃ e, Shell.wordsFrom .between [] text.toList = .error e := by
  rw [Shell.words]
  cases Shell.wordsFrom .between [] text.toList <;> simp

theorem exists_ok_iff {α : Type} {x : Except Error α} : (∃ a, x = .ok a) ↔ ¬ ∃ e, x = .error e := by
  cases x <;> simp

/-- A check fails just when there is a command that cannot be cut, in what has been read. -/
theorem validate_eq_error_iff {source : Ini.Source} {bytes : List UInt8}
    (h : ofBytes source bytes = .ok s.ini) :
    (∃ e, s.validate = .error e) ↔ HasUncut s.ini := by
  have huncut (sect : String) (key : Key) :
      (∃ e, sectionCommand s.ini sect key.option = .error e) ↔
        ∃ given, s.ini.get? sect key.option = some given ∧ trimmed given ≠ "" ∧
          ∃ e, Shell.words given = .error e := by
    rw [sectionCommand_eq_error_iff]
    constructor
    · rintro ⟨value, hvalue, hcut⟩
      obtain ⟨given, hget, hne, rfl⟩ := value?_eq_some_iff.mp hvalue
      rw [words_eq_error_iff, wordsFrom_of_ofBytes h hget, ← words_eq_error_iff] at hcut
      exact ⟨given, hget, hne, hcut⟩
    · rintro ⟨given, hget, hne, hcut⟩
      rw [words_eq_error_iff, ← wordsFrom_of_ofBytes h hget, ← words_eq_error_iff] at hcut
      exact ⟨_, value?_eq_some_iff.mpr ⟨given, hget, hne, rfl⟩, hcut⟩
  have hunit : s.validate = .ok () ↔ ∃ u, s.validate = .ok u := ⟨fun h => ⟨(), h⟩, fun ⟨_, h⟩ => h⟩
  rw [← not_iff_not, ← exists_ok_iff, ← hunit, validate_eq_ok_iff]
  simp only [exists_ok_iff, huncut, HasUncut, givesCommands_iff]
  push Not
  rfl

section Load

variable {host : Host} {j : Journal} {root : Path} {file : Option Path}

/-- Where a file can be read as settings, what is left to do is to look at the commands in them. -/
theorem perform_load_of_ofBytes
    (hfile : host.files.isFile host.cwd (filePath root file) = .ok true)
    (hread : ofBytes (.file (filePath root file))
      (((host.filesAfter j).read? host.cwd (filePath root file)).getD []) = .ok ini) :
    (load root file).perform host j = (check root ini).perform host j := by
  rw [load]
  refine (Activity.perform_bind_of_ok (Activity.perform_isFile_eq_ok.mpr ⟨hfile, rfl⟩)).trans ?_
  refine (Activity.perform_bind_of_ok (Activity.perform_readBytes _)).trans ?_
  rw [hread]
  exact Activity.perform_bind_of_ok (Activity.perform_pure _)

/-- The reading of a file fails just when there is a command in it that cannot be cut into words;
else it gives what is in the file. -/
theorem perform_load_iff
    (hfile : host.files.isFile host.cwd (filePath root file) = .ok true)
    (hread : ofBytes (.file (filePath root file))
      (((host.filesAfter j).read? host.cwd (filePath root file)).getD []) = .ok ini) :
    ((∃ e, (load root file).perform host j = (.error (.failed e), j)) ↔ HasUncut ini) ∧
      ((load root file).perform host j = (.ok { root, ini }, j) ↔ ¬ HasUncut ini) := by
  have huncut := @validate_eq_error_iff { root, ini } _ _ hread
  rw [perform_load_of_ofBytes hfile hread, perform_check, ← huncut]
  cases ({ root, ini } : Settings).validate <;> simp

end Load

theorem exists_command?_none (h : s.validate = .ok ()) (key : Key) :
    ∃ command, s.command? key.option none = .ok command := by
  refine exists_firstCommand fun sect hsect => ?_
  rw [validate_eq_ok_iff] at h
  cases hbase : s.ini.hasSection baseSection with
  | false => simp [sectionsFor, hbase] at hsect
  | true =>
    obtain rfl : sect = baseSection := by simpa [sectionsFor, hbase] using hsect
    exact h baseSection (mem_sectionNames_of_hasSection hbase) rfl key

theorem command?_of_validate (h : s.validate = .ok ()) (key : Key) (path : Option Path) :
    ∃ command, s.command? key.option path = .ok command ∧ command ≠ some [] := by
  obtain ⟨command, hcommand⟩ : ∃ command, s.command? key.option path = .ok command := by
    cases path with
    | none => exact exists_command?_none h key
    | some path => exact exists_command?_of_validate h key path
  refine ⟨command, hcommand, ?_⟩
  rintro rfl
  exact command?_ne_nil s key.option path hcommand

/-- Settings that have been read give no command or one with words in it, for every path and for
none.  A file that can be read is refused just when a command in it cannot be cut into words. -/
theorem load_acceptance (root : Path) (file : Option Path) (host : Host) (j : Journal) :
    (∀ s j', (load root file).perform host j = (.ok s, j') → ∀ path,
      (∃ command, s.mach? path = .ok command ∧ command ≠ some []) ∧
      ∀ language : Language,
        ∃ command, s.compilerNamed? path language.tag = .ok command ∧ command ≠ some []) ∧
    ∀ ini, host.files.isFile host.cwd (filePath root file) = .ok true →
      ofBytes (.file (filePath root file))
        (((host.filesAfter j).read? host.cwd (filePath root file)).getD []) = .ok ini →
      ((∃ e, (load root file).perform host j = (.error (.failed e), j)) ↔ HasUncut ini) ∧
      ((load root file).perform host j = (.ok { root, ini }, j) ↔ ¬ HasUncut ini) := by
  refine ⟨fun s j' h path => ?_, fun ini hfile hread => perform_load_iff hfile hread⟩
  have hvalid := validate_of_load h
  exact ⟨command?_of_validate hvalid .mach path,
    fun language => command?_of_validate hvalid (.compiler language) path⟩

def refusedText : List Char := "[DEFAULT]\nmach = 'run\n[mozcpp:gone]\n".toList

def refusedIni : Ini where
  defaults := Table.ofList [("mach", "'run")]
  sections := Table.ofList [("mozcpp:gone", ∅)]

def acceptedText : List Char := "[mozcpp]\nmach =\n  'a b' c\n".toList

def acceptedIni : Ini where
  sections := Table.ofList [("mozcpp", Table.ofList [("mach", "\n'a b' c")])]

def fileOf (text : List Char) : Files.Tree :=
  .mk (.file (text.map fun c => c.toNat.toUInt8) false) []

/-- A file with a quotation that a section for a missing directory has by default, and a file
without fault. -/
def filesHost : Host where
  files := ⟨.mk .directory [(⟨"refused", by decide⟩, fileOf refusedText),
    (⟨"accepted", by decide⟩, fileOf acceptedText)]⟩
  cwd := .ofString "/"
  runner := fun _ _ => .finished 1 [] []

theorem ofBytes_refusedText :
    ofBytes (.file (.ofString "/refused")) (refusedText.map fun c => c.toNat.toUInt8) =
      .ok refusedIni :=
  ofBytes_ascii (by decide) (by decide +kernel)

theorem ofBytes_acceptedText :
    ofBytes (.file (.ofString "/accepted")) (acceptedText.map fun c => c.toNat.toUInt8) =
      .ok acceptedIni :=
  ofBytes_ascii (by decide) (by decide +kernel)

theorem read_filesHost {name : String} {text : List Char} {ini : Ini}
    (hplain : (Path.ofString name).IsPlain)
    (hreach : filesHost.files.root.reach? (Path.ofString name).parts = some (fileOf text))
    (hini : ofBytes (.file (.ofString name)) (text.map fun c => c.toNat.toUInt8) = .ok ini) :
    filesHost.files.isFile filesHost.cwd (.ofString name) = .ok true ∧
      ofBytes (.file (.ofString name))
        (((filesHost.filesAfter []).read? filesHost.cwd (.ofString name)).getD []) = .ok ini := by
  have hafter : filesHost.filesAfter [] = filesHost.files := rfl
  refine ⟨Files.isFile_of_reach? hplain hreach (by simp [Files.Tree.node, fileOf]) _, ?_⟩
  rw [hafter, Files.read?_of_reach? hplain hreach, Option.getD_some]
  exact hini

theorem hasUncut_refusedIni : HasUncut refusedIni :=
  ⟨"mozcpp:gone", by decide, .inr (by decide), .mach, "'run", rfl, by decide, _, rfl⟩

theorem not_hasUncut_acceptedIni : ¬ HasUncut acceptedIni := by
  rintro ⟨sect, hsect, -, key, given, hget, -, e, hcut⟩
  have hnames : acceptedIni.sectionNames = ["mozcpp"] := rfl
  obtain rfl : sect = "mozcpp" := by simpa [hnames] using hsect
  cases key with
  | mach =>
    have hwords : Shell.words "\n'a b' c" = .ok ["a b", "c"] := by decide
    have hgiven : acceptedIni.get? "mozcpp" Key.mach.option = some "\n'a b' c" := rfl
    rw [hgiven] at hget
    rw [← Option.some.inj hget, hwords] at hcut
    cases hcut
  | compiler language => cases language <;> cases hget

/-- The one file is refused and the other is accepted, and what is accepted has an answer. -/
theorem load_acceptance_files :
    (∃ e, (load (.ofString "src") (some (.ofString "/refused"))).perform filesHost [] =
      (.error (.failed e), [])) ∧
    (load (.ofString "src") (some (.ofString "/accepted"))).perform filesHost [] =
      (.ok { root := .ofString "src", ini := acceptedIni }, []) ∧
    ∃ command, ({ root := .ofString "src", ini := acceptedIni } : Settings).mach? none =
      .ok command ∧ command ≠ some [] := by
  obtain ⟨hrefusedFile, hrefused⟩ :=
    @read_filesHost "/refused" refusedText refusedIni (by decide) rfl ofBytes_refusedText
  obtain ⟨hacceptedFile, haccepted⟩ :=
    @read_filesHost "/accepted" acceptedText acceptedIni (by decide) rfl ofBytes_acceptedText
  have hload : (load (.ofString "src") (some (.ofString "/accepted"))).perform filesHost [] =
      (.ok { root := .ofString "src", ini := acceptedIni }, []) :=
    ((load_acceptance _ (some _) _ _).2 _ hacceptedFile haccepted).2.mpr not_hasUncut_acceptedIni
  have hfail := ((load_acceptance (.ofString "src") (some _) _ _).2 _ hrefusedFile hrefused).1.mpr
    hasUncut_refusedIni
  exact ⟨hfail, hload, ((load_acceptance _ _ _ _).1 _ _ hload none).1⟩

end Settings
end MachTree
