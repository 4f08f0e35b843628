import MachTree.Proofs.Build.Noninterference
import MachTree.Proofs.Build.TestCompile
import MachTree.Proofs.Settings.Source

/-! Spellings of the root.  A tree that is set up with its own settings read beforehand, for the
root as it is spelled, is set up as it is when the settings are read on the way. -/
namespace MachTree

open Activity

namespace Activity

variable {ε α β : Type} {host : Host} {j : Journal}

theorem perform_map (f : α → β) (x : Activity ε α) :
    (f <$> x).perform host j = ((x.perform host j).1.map f, (x.perform host j).2) := by
  rw [← bind_pure_comp, perform_bind]
  rcases x.perform host j with ⟨_ | _, _⟩ <;> rfl

@[simp] theorem map_fail (f : α → β) (e : ε) : f <$> (fail e : Activity ε α) = fail e := rfl

theorem mapError_map {ε' : Type} (f : α → β) (g : ε → ε') (x : Activity ε α) :
    (f <$> x).mapError g = f <$> x.mapError g := by
  funext host j
  show ((f <$> x).mapError g).perform host j = (f <$> x.mapError g).perform host j
  rw [perform_map, mapError, mapError, perform_handle, perform_handle, perform_map]
  rcases x.perform host j with ⟨(_ | _ | _) | _, _⟩ <;> rfl

end Activity

def Compiler.withSettings (c : Compiler) (s : Settings) : Compiler := { c with settings := some s }

variable {s s' : Settings} {srcdir : Path}

/-- That settings give a tree the same commands. -/
structure Settings.SameFor (s s' : Settings) (path : Path) : Prop where
  ini : s.ini = s'.ini
  command : ∀ option, s.command? option (some path) = s'.command? option (some path)

namespace Compiler

theorem discover_withSettings (h : s.SameFor s' srcdir) (command : List String)
    (language : Language) (family : Family) (vars : Fragment.Variables) :
    discover srcdir command language family vars (some s) =
      (fun c => c.withSettings s) <$> discover srcdir command language family vars (some s') := by
  have hoverride : overrideFor (some s) srcdir language = overrideFor (some s') srcdir language :=
    h.command _
  by_cases hf : family = .msvc
  · simp [discover, hf]
  · simp only [discover, hf, if_false, hoverride, map_bind, apply_ite (Functor.map _), map_pure,
      map_fail]
    rfl

end Compiler

namespace Build

variable {language : Language} {vars : Fragment.Variables} {env : Environment} {root : Path}
  {host : Host} {j : Journal}

def withSettings (b : Build) (s : Settings) : Build :=
  { b with
    mach := { b.mach with settings := some s }
    cCompiler := b.cCompiler.withSettings s
    cppCompiler := b.cppCompiler.withSettings s }

section Same

variable (h : s.SameFor s' srcdir)
include h

theorem compilerIn_withSettings (name : String) (language : Language)
    (vars : Fragment.Variables) :
    compilerIn srcdir name language vars s =
      (fun c => c.withSettings s) <$> compilerIn srcdir name language vars s' := by
  simp only [compilerIn, Compiler.create, Compiler.discover_withSettings h, ← map_bind,
    mapError_map]

theorem environmentOf_machOf :
    environmentOf (machOf srcdir s) = environmentOf (machOf srcdir s') := by
  have hcommand : (machOf srcdir s).effectiveCommand = (machOf srcdir s').effectiveCommand := by
    rw [Mach.effectiveCommand, Mach.effectiveCommand]
    exact congrArg _ (h.command _)
  have hvariables : (machOf srcdir s).extraVariables = (machOf srcdir s').extraVariables :=
    congrArg (fun ini => ini.options Settings.environmentSection) h.ini
  have hquery : (machOf srcdir s).queryEnvironment = (machOf srcdir s').queryEnvironment := by
    simp only [Mach.queryEnvironment, Mach.execute, hcommand, hvariables]
    rfl
  rw [environmentOf, environmentOf, hquery]
  rfl

theorem attemptKnown_withSettings (env : Environment) (showProgress : Bool) :
    attemptKnown srcdir s env showProgress =
      (fun b => b.withSettings s) <$> attemptKnown srcdir s' env showProgress := by
  have hfind (vars : Fragment.Variables) : findCompilers srcdir s env vars showProgress =
      (fun b => b.withSettings s) <$> findCompilers srcdir s' env vars showProgress := by
    rw [findCompilers, findCompilers]
    cases filled? vars "_CC" with
    | none => rfl
    | some cc =>
      cases filled? vars "_CXX" with
      | none => rfl
      | some cxx =>
        simp only [findCpp, compilerIn_withSettings h, map_bind, bind_map_left, map_pure]
        rfl
  simp only [attemptKnown, hfind, map_bind]

theorem attemptIn_withSettings (showProgress : Bool) :
    attemptIn srcdir (some s) showProgress =
      (fun b => b.withSettings s) <$> attemptIn srcdir (some s') showProgress := by
  have hin (t : Settings) : attemptIn srcdir (some t) showProgress = (do
      let env ← environmentOf (machOf srcdir t)
      attemptKnown srcdir t env showProgress) := rfl
  simp only [hin, environmentOf_machOf h, attemptKnown_withSettings h, map_bind]

end Same

theorem perform_attempt_withSettings (h : s.SameFor s' (Path.absolute host.cwd root))
    (showProgress : Bool) (j : Journal) :
    (attempt root (some s) showProgress).perform host j =
      (((attempt root (some s') showProgress).perform host j).1.map fun b => b.withSettings s,
        ((attempt root (some s') showProgress).perform host j).2) := by
  by_cases hd : Adrift host root
  · rw [perform_attempt_of_adrift hd, perform_attempt_of_adrift hd]
    rfl
  · rw [perform_attempt hd, perform_attempt hd, attemptIn_withSettings h, perform_map]
    rcases host.files.isFile host.cwd ((Path.absolute host.cwd root).child machFile) with
      n | _ | _ <;> rfl

theorem perform_probe_withSettings {ε : Type} (h : s.SameFor s' (Path.absolute host.cwd root))
    (showProgress : Bool) (j : Journal) :
    (probe root (some s) showProgress : Activity ε _).perform host j =
      (((probe root (some s') showProgress : Activity ε _).perform host j).1.map
          fun r => (r.1, r.2.map fun b => b.withSettings s),
        ((probe root (some s') showProgress : Activity ε _).perform host j).2) := by
  rw [perform_probe, perform_probe, perform_attempt_withSettings h]
  rcases (attempt root (some s') showProgress).perform host j with ⟨(_ | _ | _) | _, _⟩ <;> rfl

/-- It does not matter whether the settings in force are given or come from the tree. -/
theorem perform_probe_of_inForce {ε : Type} {given given' : Option Settings}
    (h : InForce host j (Path.absolute host.cwd root) given s)
    (h' : InForce host j (Path.absolute host.cwd root) given' s) (showProgress : Bool) :
    (probe root given showProgress : Activity ε _).perform host j =
      (probe root given' showProgress : Activity ε _).perform host j := by
  have hattempt : (attempt root given showProgress).perform host j =
      (attempt root given' showProgress).perform host j := by
    by_cases hd : Adrift host root
    · rw [perform_attempt_of_adrift hd, perform_attempt_of_adrift hd]
    · rw [perform_attempt hd, perform_attempt hd, attemptIn, attemptIn,
        perform_bind_of_ok (perform_settingsOf_of_inForce h),
        perform_bind_of_ok (perform_settingsOf_of_inForce h')]
  rw [perform_probe, perform_probe, hattempt]

theorem resolve_withSettings (b : Build) (s : Settings) (source : Path) :
    (b.withSettings s).resolve source = b.resolve source := by
  have hconfigure (platform : Platform) (r : Recipe) :
      (b.withSettings s).configure platform r = b.configure platform r := by
    obtain ⟨language, args, objdir⟩ := r
    cases language <;> rfl
  have hrecipe (source : Path) : (b.withSettings s).recipe? source = b.recipe? source := rfl
  have hfunction (platform : Platform) :
      (b.withSettings s).configure platform = b.configure platform :=
    funext (hconfigure platform)
  simp only [resolve, hrecipe, hfunction]

/-- That other settings give a build the same compilers for a path. -/
def SameCompilers (b : Build) (s : Settings) (path : Path) : Prop :=
  ∀ language, Compiler.overrideFor (some s) path (b.compilerOf language).language =
    Compiler.overrideFor (b.compilerOf language).settings path (b.compilerOf language).language

theorem compilerOf_withSettings (b : Build) (s : Settings) (language : Language) :
    (b.withSettings s).compilerOf language = (b.compilerOf language).withSettings s := by
  cases language <;> rfl

theorem commandFor_withSettings {b : Build} {path : Path} (h : b.SameCompilers s path)
    (language : Language) :
    ((b.withSettings s).compilerOf language).commandFor (some path) =
      (b.compilerOf language).commandFor (some path) := by
  rw [compilerOf_withSettings, Compiler.commandFor, Compiler.commandFor]
  exact congrArg _ (h language)

theorem compile_withSettings {b : Build} {path : Path} (h : b.SameCompilers s path) :
    (b.withSettings s).compile path = b.compile path := by
  have hcompile (language : Language) (config : CompileConfig) :
      ((b.withSettings s).compilerOf language).compile config path =
        (b.compilerOf language).compile config path := by
    have hcommand := commandFor_withSettings h language
    rw [compilerOf_withSettings] at hcommand ⊢
    simp only [Compiler.compile, Compiler.compileCommand, hcommand]
    rfl
  have hconfigure (platform : Platform) (r : Recipe) :
      (b.withSettings s).configure platform r = b.configure platform r := by
    rw [configure, configure, compilerOf_withSettings]
    rfl
  have hrecipe : (b.withSettings s).recipe? path = b.recipe? path := rfl
  simp only [compile, hrecipe, hcompile, hconfigure]

theorem perform_testCompile_withSettings {ε : Type} {b : Build} {source : Path} (host : Host)
    (j : Journal) (h : b.SameCompilers s (Path.absolute host.cwd source)) :
    ((b.withSettings s).testCompile source : Activity ε Unit).perform host j =
      (b.testCompile source : Activity ε Unit).perform host j := by
  rw [testCompile, testCompile]
  by_cases hd : Adrift host source
  · rw [perform_bind_of_error (perform_absolute_of_adrift hd),
      perform_bind_of_error (perform_absolute_of_adrift hd)]
  · rw [perform_bind_of_ok (perform_absolute_of_not_adrift hd),
      perform_bind_of_ok (perform_absolute_of_not_adrift hd), compile_withSettings h]
    rfl

theorem SetUp.withSettings {command : List String} {vars : Fragment.Variables}
    {cCall cppCall : Call}
    (h : SetUp host j srcdir (some s) s command vars cCall cppCall b)
    (hcommand : ∀ option, s'.command? option (some srcdir) = s.command? option (some srcdir))
    (henvironment : s'.machEnvironment = s.machEnvironment) :
    SetUp host j srcdir (some s') s' command vars cCall cppCall (b.withSettings s') := by
  have hvariables : (machOf srcdir s').extraVariables = (machOf srcdir s).extraVariables :=
    henvironment
  have hcall : machCall srcdir s' command = machCall srcdir s command := by
    rw [machCall, machCall, Mach.environmentCall, Mach.environmentCall, hvariables]
    rfl
  have heffective : (machOf srcdir s').effectiveCommand = (machOf srcdir s).effectiveCommand := by
    rw [Mach.effectiveCommand, Mach.effectiveCommand]
    exact congrArg _ (hcommand _)
  have hfound {calls : List Call} {language : Language} {call : Call} {c : Compiler}
      (hc : Found host calls srcdir s vars language call c) :
      Found host calls srcdir s' vars language call (c.withSettings s') := by
    obtain ⟨name, family, override, output, ⟨hnamed, hasks, hcall⟩, hanswers, rfl⟩ := hc
    exact ⟨name, family, override, output,
      ⟨hnamed, ⟨hasks.type, hasks.supported, (hcommand _).trans hasks.command⟩, hcall⟩, hanswers,
      rfl⟩
  obtain ⟨⟨⟨-, hknown, ⟨stdout, output, hreply, henv⟩, htree⟩, hfragment⟩, hc, hcpp, hmach,
    hsrcdir⟩ := h
  rw [← hcall] at hc hcpp
  exact
    { configured :=
        ⟨⟨.given s', heffective.trans hknown,
          ⟨⟨stdout, output, by rw [← hreply]; exact congrArg _ hcall, henv⟩, htree⟩⟩,
          by rw [afterMach, hcall]; exact hfragment⟩
      c := hfound hc
      cpp := hfound hcpp
      mach := by rw [Build.withSettings, hmach]; rfl
      srcdir := hsrcdir }

theorem SetUp.sameCompilers {given : Option Settings} {command : List String} {cCall cppCall : Call}
    {b : Build} {path : Path}
    (hb : SetUp host j srcdir given s' command vars cCall cppCall b)
    (h : ∀ option, s.command? option (some path) = s'.command? option (some path)) :
    b.SameCompilers s path := by
  intro language
  have hcompiler : (b.compilerOf language).settings = some s' := by
    obtain ⟨_, _, _, _, -, -, hc⟩ := hb.c
    obtain ⟨_, _, _, _, -, -, hcpp⟩ := hb.cpp
    cases language with
    | c => rw [compilerOf, hc]; rfl
    | cpp => rw [compilerOf, hcpp]; rfl
  rw [hcompiler]
  exact h _

/-- A tree is set up with the settings that are read for its root as it is spelled as with those
that are read for its absolute path, with the same journal and the same answers afterwards, for all
that is below no directory that is nowhere from that spelling.  A spelling with a way up in it may
lead elsewhere, out of a link; then the settings have to be the same there. -/
theorem probe_spelling {ε : Type} {ini : Ini} (root : Path) (showProgress : Bool) (host : Host)
    (j : Journal) (hcwd : root.isAbsolute = false → host.files.Stands host.cwd)
    (hup : Component.up ∈ root.parts → Settings.Holds host j root ini)
    (hheld : Settings.Holds host j (Path.absolute host.cwd root) ini)
    (hvalid : ({ root, ini } : Settings).validate = .ok ())
    (hclear : Settings.IsClear host.cwd root ini (Path.absolute host.cwd root)) :
    let onTheWay := (probe root none showProgress : Activity Settings.Error _).perform host j
    let beforehand := (do
      let s ← Settings.load root none
      probe root (some s) showProgress : Activity Settings.Error _).perform host j
    beforehand.2 = onTheWay.2 ∧
    beforehand.1 = onTheWay.1.map
      (fun r => (r.1, r.2.map fun b => b.withSettings { root, ini })) ∧
    ∀ stage b, onTheWay.1 = .ok (stage, some b) → ∀ (now : Host) (k : Journal) (source : Path),
      ((b.withSettings { root, ini }).resolve source).perform now k =
        (b.resolve source).perform now k ∧
      (source.isAbsolute = true → Settings.IsClear host.cwd root ini source →
        ((b.withSettings { root, ini }).testCompile source : Activity ε Unit).perform now k =
            (b.testCompile source : Activity ε Unit).perform now k ∧
        ∀ language, ((b.withSettings { root, ini }).compilerOf language).commandFor (some source) =
          (b.compilerOf language).commandFor (some source)) := by
  intro onTheWay beforehand
  have hsrcdir : (Path.absolute host.cwd root).isAbsolute = true := by
    rw [Path.absolute, Path.isAbsolute_normal, Path.isAbsolute_append, Bool.or_eq_true]
    exact Classical.or_iff_not_imp_right.mpr fun hr =>
      (hcwd (by simpa using hr)).isAbsolute
  have hspelled : Settings.Holds host j root ini := by
    by_cases hmem : Component.up ∈ root.parts
    · exact hup hmem
    · exact hheld.of_absolute hcwd hmem
  have hsame : ({ root, ini } : Settings).SameFor { root := Path.absolute host.cwd root, ini }
      (Path.absolute host.cwd root) :=
    ⟨rfl, fun option => Settings.command?_of_isClear option hsrcdir hclear⟩
  have hgiven : onTheWay = (probe root (some { root := Path.absolute host.cwd root, ini })
      showProgress : Activity Settings.Error _).perform host j :=
    perform_probe_of_inForce (.loaded hheld hvalid) (.given _) showProgress
  have hbefore : beforehand = (onTheWay.1.map
      (fun r => (r.1, r.2.map fun b => b.withSettings { root, ini })), onTheWay.2) := by
    rw [hgiven, ← perform_probe_withSettings hsame]
    exact perform_bind_of_ok (Settings.perform_load_of_holds hspelled hvalid)
  refine ⟨by rw [hbefore], by rw [hbefore], ?_⟩
  intro stage b hb now k source
  refine ⟨by rw [resolve_withSettings], ?_⟩
  intro hsource hclear'
  obtain rfl : stage = .ready := (isSome_of_probe hb).mp rfl
  obtain ⟨s₀, command, vars, cCall, cppCall, hs⟩ := setUp_of_probe hb
  obtain rfl : s₀ = { root := Path.absolute host.cwd root, ini } :=
    hs.configured.known.settings.unique (.loaded hheld hvalid)
  have hplace : Path.absolute now.cwd source = source.normal := by
    rw [Path.absolute, Path.append_of_isAbsolute hsource]
  -- the compilers ask their settings again, for the source as it is and for its place
  have hcompilers : b.SameCompilers { root, ini } source :=
    hs.sameCompilers fun option => Settings.command?_of_isClear option hsource hclear'
  have hcompilers' : b.SameCompilers { root, ini } (Path.absolute now.cwd source) := by
    rw [hplace]
    exact hs.sameCompilers fun option =>
      Settings.command?_of_isClear option (source.isAbsolute_normal.trans hsource) hclear'.normal
  exact ⟨perform_testCompile_withSettings now k hcompilers',
    fun language => commandFor_withSettings hcompilers language⟩

namespace Scenario

def placedText : String :=
  "[mozcpp:gfx]\ncompiler.c = gcc\n[mozcpp:/s/dom]\ncompiler.cpp = /opt/clang++\n"

/-- Settings for two directories, one of which is nowhere from a root that is spelled relative. -/
def placedSettings (root : String) : Settings :=
  { root := .ofString root
    ini :=
      { sections := Table.ofList
          [("mozcpp:gfx", Table.ofList [("compiler.c", "gcc")]),
            ("mozcpp:/s/dom", Table.ofList [("compiler.cpp", "/opt/clang++")])] } }

def placedHost : Host :=
  demoHost [(⟨".mozcpp.ini", by decide⟩, demoFile placedText)] "" 0 ["#define __STDC__ 1"]

theorem absolute_placedHost : Path.absolute placedHost.cwd (.ofString "s") = .ofString "/s" := by
  decide

theorem stands_placedHost : placedHost.files.Stands placedHost.cwd :=
  ⟨rfl, by decide, by decide, by decide, _, rfl, .inr rfl⟩

theorem holds_placedHost :
    Settings.Holds placedHost [] (Path.absolute placedHost.cwd (.ofString "s"))
      (placedSettings "s").ini := by
  have hplain : ((Path.ofString "/s").child Settings.fileName).IsPlain := by decide
  have hreach : placedHost.files.root.reach?
      ((Path.ofString "/s").child Settings.fileName).parts = some (demoFile placedText) := rfl
  have hafter : placedHost.filesAfter [] = placedHost.files := rfl
  rw [absolute_placedHost]
  refine .file (Files.isFile_of_reach? hplain hreach (by simp [Files.Tree.node, demoFile]) _) ?_
  rw [Settings.bytesAt, hafter, Files.read?_of_reach? hplain hreach, Option.getD_some]
  exact Settings.ofBytes_ascii (by decide +kernel) (by decide +kernel)

theorem validate_placedSettings (root : String) :
    (placedSettings root).validate = .ok () := by
  have hvalid : (placedSettings "s").validate = .ok () := by decide +kernel
  exact hvalid

theorem isClear_placedSettings {path : Path}
    (h : (placedSettings "/s").scope? path "mozcpp:gfx" = none) :
    Settings.IsClear placedHost.cwd (.ofString "s") (placedSettings "s").ini path := by
  have hnames : (placedSettings "s").ini.sectionNames = ["mozcpp:gfx", "mozcpp:/s/dom"] := by
    decide +kernel
  have hplaced : Settings.isUnplaced (.ofString "s") "mozcpp:/s/dom" = false := by decide +kernel
  intro sect hsect hun
  rw [hnames, List.mem_pair] at hsect
  rw [absolute_placedHost]
  obtain rfl | rfl := hsect
  · exact h
  · simp [hplaced] at hun

def placedBuild : Build :=
  (demoFindings ["#define __STDC__ 1"]).build.withSettings (placedSettings "/s")

theorem probe_placedHost :
    ((probe (.ofString "s") none false : Activity Settings.Error _).perform placedHost []).1 =
      .ok (.ready, some placedBuild) := by
  have hd : ¬ Adrift placedHost (.ofString "s") := fun h => absurd h.2 (by decide)
  have hmach : HasMach placedHost (.ofString "/s") := demoHost_hasMach _ _ _ _
  have hnone : (placedSettings "/s").sectionsFor (some (.ofString "/s")) = [] := by decide +kernel
  have hcommand (option : String) :
      (placedSettings "/s").command? option (some (.ofString "/s")) =
        ({ root := .ofString "/s" } : Settings).command? option (some (.ofString "/s")) :=
    (Settings.command?_of_sectionsFor hnone option).trans
      (Settings.command?_of_empty _ _ _).symm
  have hs := (demoHost_setUp [(⟨".mozcpp.ini", by decide⟩, demoFile placedText)] "" 0
    Journal.calls_nil demo_defines).withSettings hcommand (by decide +kernel)
  rw [← absolute_placedHost] at hs hmach
  have hready := probe_of_setUp hd hmach hs Settings.Error
  have hsettings : { root := Path.absolute placedHost.cwd (.ofString "s")
                     ini := (placedSettings "s").ini } = placedSettings "/s" := by
    rw [absolute_placedHost]
    rfl
  have hforce := InForce.loaded holds_placedHost (validate_placedSettings "s")
  rw [hsettings] at hforce
  have hloaded := perform_probe_of_inForce (ε := Settings.Error) hforce (.given _) false
  exact (congrArg Prod.fst hloaded).trans hready

/-- The tree is set up both ways, and both builds compile a file with the compiler of the directory
that is somewhere. -/
theorem probe_spelling_relative :
    let s := placedSettings "s"
    let onTheWay :=
      (probe (.ofString "s") none false : Activity Settings.Error _).perform placedHost []
    onTheWay.1 = .ok (.ready, some placedBuild) ∧
      (do let s ← Settings.load (.ofString "s") none
          probe (.ofString "s") (some s) false : Activity Settings.Error _).perform placedHost [] =
        (.ok (.ready, some (placedBuild.withSettings s)), onTheWay.2) ∧
      ((placedBuild.withSettings s).testCompile (.ofString "/s/dom/E.cpp") :
          Activity Settings.Error Unit).perform placedHost [] =
        (placedBuild.testCompile (.ofString "/s/dom/E.cpp") :
          Activity Settings.Error Unit).perform placedHost [] ∧
      ((placedBuild.withSettings s).compilerOf .cpp).commandFor
        (some (.ofString "/s/dom/E.cpp")) = .ok ["/opt/clang++"] := by
  have hroot : (placedSettings "/s").scope? (.ofString "/s") "mozcpp:gfx" = none := by
    decide +kernel
  have hsource : (placedSettings "/s").scope? (.ofString "/s/dom/E.cpp") "mozcpp:gfx" = none := by
    decide +kernel
  have hown : (placedBuild.compilerOf .cpp).commandFor (some (.ofString "/s/dom/E.cpp")) =
      .ok ["/opt/clang++"] := by decide +kernel
  rw [← absolute_placedHost] at hroot
  obtain ⟨hjournal, hresult, hlater⟩ := probe_spelling (ε := Settings.Error) (.ofString "s") false
    placedHost [] (fun _ => stands_placedHost) (fun hup => absurd hup (by decide)) holds_placedHost
    (validate_placedSettings "s") (isClear_placedSettings hroot)
  obtain ⟨htest, hcommand⟩ := (hlater .ready placedBuild probe_placedHost placedHost []
    (.ofString "/s/dom/E.cpp")).2 (by decide) (isClear_placedSettings hsource)
  rw [probe_placedHost] at hresult
  exact ⟨probe_placedHost, Prod.ext hresult hjournal, htest, (hcommand .cpp).trans hown⟩

end Scenario

end Build
end MachTree
