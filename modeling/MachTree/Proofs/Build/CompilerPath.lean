import MachTree.Proofs.Build.Noninterference
import MachTree.Proofs.Build.Spelling
import MachTree.Proofs.Flags
import MachTree.Proofs.Settings.Precedence

/-! The compiler that a configuration names.  It is the one that the settings give for the whole
tree, asked when the compiler reported its defaults; the command that compiles a file is asked for
the file.  The two are the same unless a section holds for the file and not for the tree. -/
namespace MachTree
namespace Build

open Activity

variable {host host' : Host} {j j' : Journal} {root source srcdir : Path} {given : Option Settings}
  {s s' : Settings} {language : Language} {showProgress : Bool} {b : Build} {config : CompileConfig}

theorem exists_recipe_of_resolve (h : ((b.resolve source).perform host j).1 = .ok (some config)) :
    ∃ r : Recipe, HasLanguage host j source (some r.language) ∧
      b.configure host.platform r = config := by
  have hd : ¬ Adrift host source := by
    intro hd
    rw [b.perform_resolve_of_adrift hd] at h
    cases h
  obtain ⟨recipe, hrecipe, hmap⟩ := (b.perform_resolve hd).mp (Prod.ext h rfl)
  obtain ⟨r, rfl, hconfig⟩ := Option.map_eq_some_iff.mp hmap
  exact ⟨r, ⟨hd, b.recipe?_language hrecipe⟩, hconfig⟩

theorem isWithin_of_resolve (hsrcdir : b.srcdir.isAbsolute = true)
    (h : ((b.resolve source).perform host j).1 = .ok (some config)) :
    (Path.absolute host.cwd source).isWithin b.srcdir = true := by
  obtain ⟨r, hlanguage, -⟩ := exists_recipe_of_resolve h
  cases hfragment : b.fragmentOf host.platform (Path.absolute host.cwd source) with
  | error e =>
    rw [resolve_of_outside hlanguage hfragment] at h
    cases h
  | ok fragment =>
    rw [fragmentOf] at hfragment
    cases hrebase : (Path.absolute host.cwd source).parent.rebase b.srcdir
        (b.objectDir host.platform) with
    | error e =>
      rw [hrebase] at hfragment
      cases hfragment
    | ok dir =>
      have habsolute : (Path.absolute host.cwd source).isAbsolute = true := by
        have hanchor : (Path.absolute host.cwd source).anchor = b.srcdir.anchor :=
          (Path.names_of_rebase hrebase).1
        simpa [Path.isAbsolute, hanchor] using hsrcdir
      exact Path.isWithin_trans (Path.isWithin_parent habsolute (Path.normal_normal _))
        (Path.isWithin_of_rebase hsrcdir hrebase)

/-- A compiler has the settings in force, and its defaults have the name that these give for the
tree. -/
theorem Scenario.Finds.compilerPath {x : Scenario} {f : Findings} (h : x.Finds root f)
    (language : Language) :
    ∃ override, f.settings.compiler? f.build.srcdir language = .ok override ∧
      (f.build.compilerOf language).baseline.compilerPath = override.bind List.head? ∧
      (f.build.compilerOf language).settings = some f.settings ∧
      (f.build.compilerOf language).language = language := by
  obtain ⟨name, family, override, hasks, heq⟩ := h.compilerOf_eq language
  refine ⟨override, hasks.command, ?_, by rw [heq]; rfl, by rw [heq]; rfl⟩
  rw [heq]
  exact CompilerReport.Reader.feedAll_compilerPath _ _

theorem InForce.validate (h : InForce host j srcdir given s)
    (hgiven : ∀ t ∈ given, t.validate = .ok ()) : s.validate = .ok () := by
  cases h with
  | given => exact hgiven s rfl
  | loaded _ hvalid => exact hvalid

/-- The configuration of a file names the compiler that the settings give for the whole tree, and
none where they give none for it.  The command that the file is compiled with is the one that they
give for the file.  The two are the same if all sections that hold for the file without holding
for the tree are silent on the compiler of its language. -/
theorem resolve_compilerPath (hcwd : host.cwd.isAbsolute = true)
    (hgiven : ∀ t ∈ given, t.validate = .ok ())
    (hready : ((probe root given showProgress : Activity Empty _).perform host j).1 =
      .ok (.ready, some b))
    (hconfig : ((b.resolve source).perform host' j').1 = .ok (some config)) :
    ∃ s language ofTree ofFile,
      InForce host j b.srcdir given s ∧
      HasLanguage host' j' source (some language) ∧
      s.compiler? b.srcdir language = .ok ofTree ∧
      s.compiler? (Path.absolute host'.cwd source) language = .ok ofFile ∧
      (b.compilerOf language).commandFor (some (Path.absolute host'.cwd source)) =
        .ok (ofFile.getD (b.compilerOf language).command) ∧
      config.compilerPath = ofTree.bind List.head? ∧
      (config.compilerPath = none ↔ ofTree = none) ∧
      ((∀ sect ∈ s.ini.sectionNames,
          (s.scope? (Path.absolute host'.cwd source) sect).isSome = true →
          s.scope? b.srcdir sect = none →
          Settings.sectionCommand s.ini sect (Settings.Key.compiler language).option = .ok none) →
        ofFile = ofTree) := by
  obtain ⟨f, rfl, hfinds⟩ := Scenario.exists_finds (x := ⟨host, j, given, showProgress⟩) hready
  obtain ⟨r, hlanguage, hconfigure⟩ := exists_recipe_of_resolve hconfig
  obtain ⟨ofTree, htree, hpath, hsettings, hown⟩ := hfinds.compilerPath r.language
  have hforce : InForce host j f.build.srcdir given f.settings := by
    rw [hfinds.setUp.srcdir]
    exact hfinds.setUp.configured.known.settings
  have hvalid := hforce.validate hgiven
  obtain ⟨ofFile, hfile⟩ := Settings.exists_command?_of_validate hvalid (.compiler r.language)
    (Path.absolute host'.cwd source)
  have hcompilerPath : config.compilerPath = ofTree.bind List.head? := by
    rw [← hconfigure, configure, Compiler.resolve, Flags.apply_compilerPath, hpath]
  refine ⟨f.settings, r.language, ofTree, ofFile, hforce, hlanguage, htree, hfile, ?_,
    hcompilerPath, ?_, ?_⟩
  · have hoverride : Compiler.overrideFor (f.build.compilerOf r.language).settings
        (Path.absolute host'.cwd source) (f.build.compilerOf r.language).language = .ok ofFile := by
      rw [hsettings, hown]
      exact hfile
    rw [Compiler.commandFor, Option.getD_some, hoverride]
    rfl
  · -- an override without words would be one that names no compiler
    have hwords : ofTree ≠ some [] := fun he =>
      Settings.command?_ne_nil f.settings _ _ (htree.trans (by rw [he]))
    rw [hcompilerPath]
    rcases ofTree with _ | (_ | ⟨word, more⟩)
    · simp
    · exact absurd rfl hwords
    · simp
  · intro hsilent
    have hsrcdir : f.build.srcdir.isAbsolute = true := by
      rw [hfinds.setUp.srcdir, Path.absolute, Path.isAbsolute_normal, Path.isAbsolute_append]
      exact Bool.or_eq_true_iff.mpr (.inl hcwd)
    have hsame := Settings.command?_of_isWithin (isWithin_of_resolve hsrcdir hconfig) hsilent
    exact Except.ok.inj (hfile.symm.trans (hsame.trans htree))

namespace Scenario

def fileSettings : Settings :=
  { root := .ofString "/s"
    ini :=
      { sections := Table.ofList
          [("mozcpp:E.cpp", Table.ofList [("compiler.cpp", "/opt/clang++")])] } }

def fileDemo : Scenario := demo "COMPUTED_CXXFLAGS = -DA\n" 0 ["#define __STDC__ 1"]

def fileBuild : Build := (demoFindings ["#define __STDC__ 1"]).build.withSettings fileSettings

theorem probe_fileSettings :
    ((probe (.ofString "/s") (some fileSettings) false : Activity Empty _).perform
      fileDemo.host []).1 = .ok (.ready, some fileBuild) := by
  have hroot : Path.absolute fileDemo.host.cwd (.ofString "/s") = .ofString "/s" :=
    Path.IsPlain.absolute_eq (by decide) _
  have hmach : HasMach fileDemo.host (.ofString "/s") := demoHost_hasMach _ _ _ _
  have hnone : fileSettings.sectionsFor (some (.ofString "/s")) = [] := by decide +kernel
  have hcommand (option : String) : fileSettings.command? option (some (.ofString "/s")) =
      ({ root := .ofString "/s" } : Settings).command? option (some (.ofString "/s")) :=
    (Settings.command?_of_sectionsFor hnone option).trans
      (Settings.command?_of_empty _ _ _).symm
  have hs : SetUp fileDemo.host [] (.ofString "/s") (some fileSettings) fileSettings
      (demoFindings ["#define __STDC__ 1"]).command (demoFindings ["#define __STDC__ 1"]).vars
      (demoFindings ["#define __STDC__ 1"]).cCall (demoFindings ["#define __STDC__ 1"]).cppCall
      fileBuild :=
    (demoHost_setUp [] "COMPUTED_CXXFLAGS = -DA\n" 0 Journal.calls_nil demo_defines).withSettings
      hcommand (by decide +kernel)
  rw [← hroot] at hs hmach
  have hready := probe_of_setUp (fun h => absurd h.1 (by decide)) hmach hs Empty
  exact hready

/-- The file is compiled with its own compiler, which its configuration does not name. -/
theorem resolve_compilerPath_file :
    ((probe (.ofString "/s") (some fileSettings) false : Activity Empty _).perform
      fileDemo.host []).1 = .ok (.ready, some fileBuild) ∧
    ∃ config, ((fileBuild.resolve (.ofString "/s/E.cpp")).perform fileDemo.host []).1 =
        .ok (some config) ∧
      config.compilerPath = none ∧
      (fileBuild.compilerOf .cpp).commandFor (some (.ofString "/s/E.cpp")) =
        .ok ["/opt/clang++"] := by
  have hplace : Path.absolute fileDemo.host.cwd (.ofString "/s/E.cpp") = .ofString "/s/E.cpp" :=
    demo_absolute _ _ _
  have hlanguage : HasLanguage fileDemo.host [] (.ofString "/s/E.cpp") (some .cpp) :=
    demo_hasLanguage _ _ _
  have hfragment : fileBuild.fragmentOf fileDemo.host.platform
      (Path.absolute fileDemo.host.cwd (.ofString "/s/E.cpp")) =
        .ok (.ofString "/o/backend.mk") := demo_fragmentOf _ _ _ ["#define __STDC__ 1"]
  have hresolve := resolve_of_not_tooLong hlanguage hfragment (demo_not_tooLong _ _ _)
  have hflags : (Fragment.assignmentsIn? fileDemo.host [] (.ofString "/o/backend.mk")
      (flagsVariable .cpp)).bind flagsAfter? = some "-DA" := by
    rw [fileDemo, demo_assignmentsIn? _ _ _ _ (by decide +kernel)]
    decide +kernel
  have hwords : Shell.words "-DA" = .ok ["-DA"] := by rfl
  rw [hflags] at hresolve
  simp only [resolved, hwords] at hresolve
  have hvalid : ∀ t ∈ some fileSettings, t.validate = .ok () := by
    rintro t ⟨⟩
    decide +kernel
  obtain ⟨s, language, ofTree, ofFile, hforce, hlanguage', htree, hfile, hcommand, -, hnone, -⟩ :=
    resolve_compilerPath rfl hvalid probe_fileSettings hresolve
  obtain rfl : s = fileSettings := hforce.unique (.given _)
  obtain rfl : Language.cpp = language := by
    have hsame := hlanguage.typed.symm.trans hlanguage'.typed
    exact Option.some.inj (Except.ok.inj (Prod.mk.inj hsame).1)
  have hnoTree : fileSettings.compiler? fileBuild.srcdir .cpp = .ok none := by decide +kernel
  have hownFile : fileSettings.compiler? (.ofString "/s/E.cpp") .cpp =
      .ok (some ["/opt/clang++"]) := by decide +kernel
  rw [hplace] at hfile hcommand
  obtain rfl := Except.ok.inj (hnoTree.symm.trans htree)
  obtain rfl := Except.ok.inj (hownFile.symm.trans hfile)
  exact ⟨probe_fileSettings, _, hresolve, hnone.mpr rfl, hcommand⟩

end Scenario

end Build
end MachTree
