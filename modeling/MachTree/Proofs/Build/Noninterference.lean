import Mathlib.Data.List.Permutation
import MachTree.Proofs.Build.Ready
import MachTree.Proofs.Build.Recipe
import MachTree.Proofs.Build.Reply
import MachTree.Proofs.Settings.Overrides

/-! What a source resolves to depends on little: on the defaults of the compiler of its language and
on the flags of that language in the fragment of its directory.  Two trees that agree on these
resolve the source alike, whatever else they hold and whatever else was reported of them. -/
namespace MachTree

open Activity

def Reply.lines : Reply → List String
  | .finished _ _ output => output
  | _ => []

theorem Compiler.Answers.lines_eq {host : Host} {calls : List Call}
    {override : Option (List String)} {call : Call} {output : List String}
    (h : Answers host calls override call output) : (host.runner calls call).lines = output := by
  obtain ⟨⟨exitCode, stdout, hr⟩, -⟩ := h
  rw [hr]
  rfl

namespace Build

/-- The surroundings in which a tree is probed. -/
structure Scenario where
  host : Host
  /-- what has been done before the probe -/
  before : Journal
  given : Option Settings
  showProgress : Bool

/-- What a probe finds on its way to a build. -/
structure Findings where
  settings : Settings
  command : List String
  vars : Fragment.Variables
  cCall : Call
  cppCall : Call
  build : Build

namespace Scenario

variable {x x₁ x₂ : Scenario} {root source : Path} {f f₁ f₂ : Findings} {language : Language}

/-- That the probe of a tree comes to its end, and what it finds. -/
structure Finds (x : Scenario) (root : Path) (f : Findings) : Prop where
  ready : ((probe root x.given x.showProgress : Activity Empty _).perform x.host x.before).1 =
    .ok (.ready, some f.build)
  setUp : SetUp x.host x.before (Path.absolute x.host.cwd root) x.given f.settings f.command f.vars
    f.cCall f.cppCall f.build

theorem exists_finds {b : Build}
    (h : ((probe root x.given x.showProgress : Activity Empty _).perform x.host x.before).1 =
      .ok (.ready, some b)) : ∃ f, f.build = b ∧ x.Finds root f := by
  obtain ⟨s, command, vars, cCall, cppCall, hs⟩ := setUp_of_probe h
  exact ⟨⟨s, command, vars, cCall, cppCall, b⟩, rfl, h, hs⟩

/-- What the runner makes of the call that asks the compiler of a language for its defaults. -/
def replyOf (x : Scenario) (f : Findings) : Language → Reply
  | .c => x.host.runner (x.before.calls ++ [machCall f.build.srcdir f.settings f.command]) f.cCall
  | .cpp => x.host.runner
      (x.before.calls ++ [machCall f.build.srcdir f.settings f.command, f.cCall]) f.cppCall

theorem Finds.compilerOf_eq (h : x.Finds root f) (language : Language) :
    ∃ name family override, Asks f.build.srcdir f.settings f.vars language family override ∧
      f.build.compilerOf language =
        compilerOfOutput x.host f.build.srcdir f.settings f.vars language name family override
          (x.replyOf f language).lines := by
  obtain ⟨-, -, hc, hcpp, -, hsrcdir⟩ := h
  rw [← hsrcdir] at hc hcpp
  cases language with
  | c =>
    obtain ⟨name, family, override, output, hcall, hanswers, heq⟩ := hc
    exact ⟨name, family, override, hcall.asks, by rw [replyOf, hanswers.lines_eq]; exact heq⟩
  | cpp =>
    obtain ⟨name, family, override, output, hcall, hanswers, heq⟩ := hcpp
    exact ⟨name, family, override, hcall.asks, by rw [replyOf, hanswers.lines_eq]; exact heq⟩

/-- That two scenarios have in common where they are, what the user has set, where the build is and
what it says of all its compilers. -/
structure Alike (x₁ x₂ : Scenario) (f₁ f₂ : Findings) : Prop where
  cwd : x₁.host.cwd = x₂.host.cwd
  platform : x₁.host.platform = x₂.host.platform
  settings : f₁.settings = f₂.settings
  topobjdir : f₁.build.environment.topobjdir = f₂.build.environment.topobjdir
  type : f₁.vars.get? "CC_TYPE" = f₂.vars.get? "CC_TYPE"
  sdk : f₁.vars.get? "MACOS_SDK_DIR" = f₂.vars.get? "MACOS_SDK_DIR"

section Two

variable (h₁ : x₁.Finds root f₁) (h₂ : x₂.Finds root f₂) (h : Alike x₁ x₂ f₁ f₂)
include h₁ h₂ h

theorem Alike.srcdir : f₁.build.srcdir = f₂.build.srcdir := by
  rw [h₁.setUp.srcdir, h₂.setUp.srcdir, h.cwd]

theorem Alike.fragmentOf (source : Path) :
    f₁.build.fragmentOf x₁.host.platform source = f₂.build.fragmentOf x₂.host.platform source := by
  rw [Build.fragmentOf, Build.fragmentOf, objectDir, objectDir, h.srcdir h₁ h₂, h.platform,
    h.topobjdir]

theorem Alike.compilerOf
    (hlines : (x₁.replyOf f₁ language).lines = (x₂.replyOf f₂ language).lines) :
    (f₁.build.compilerOf language).family = (f₂.build.compilerOf language).family ∧
      (f₁.build.compilerOf language).baseline = (f₂.build.compilerOf language).baseline := by
  obtain ⟨name₁, family₁, override₁, hasks₁, heq₁⟩ := h₁.compilerOf_eq language
  obtain ⟨name₂, family₂, override₂, hasks₂, heq₂⟩ := h₂.compilerOf_eq language
  obtain rfl : family₁ = family₂ := Compiler.Family.tag_injective
    (Option.some.inj (hasks₁.type.symm.trans (h.type.trans hasks₂.type)))
  have hoverride := hasks₁.command
  rw [h.settings, h.srcdir h₁ h₂] at hoverride
  obtain rfl : override₁ = override₂ := Except.ok.inj (hoverride.symm.trans hasks₂.command)
  have hsdk : Compiler.sdk? x₁.host.platform f₁.vars = Compiler.sdk? x₂.host.platform f₂.vars := by
    rw [Compiler.sdk?, Compiler.sdk?, h.platform, h.sdk]
  rw [heq₁, heq₂]
  refine ⟨rfl, ?_⟩
  simp only [compilerOfOutput, Compiler.baselineOf, hsdk, hlines]

theorem Alike.resolved (hlines : (x₁.replyOf f₁ language).lines = (x₂.replyOf f₂ language).lines)
    (fragment : Path) (flags : Option String) :
    f₁.build.resolved x₁.host.platform language fragment flags =
      f₂.build.resolved x₂.host.platform language fragment flags := by
  obtain ⟨hfamily, hbaseline⟩ := h.compilerOf h₁ h₂ hlines
  have hconfigure (r : Recipe) (hr : r.language = language) :
      f₁.build.configure x₁.host.platform r = f₂.build.configure x₂.host.platform r := by
    subst hr
    rw [configure, configure, Compiler.resolve, Compiler.resolve, Compiler.dialect,
      Compiler.dialect, hfamily, hbaseline, h.platform]
  cases flags with
  | none => rfl
  | some flags =>
    cases hw : Shell.words flags with
    | error e => simp [Build.resolved, hw]
    | ok args =>
      simpa [Build.resolved, hw] using hconfigure ⟨language, args, fragment.parent⟩ rfl

end Two

/-- A source of the same language is resolved alike in two scenarios in which the compiler of the
language reports the same and the fragment of the source's directory has the same assignments to
the flags of the language, or cannot be read.  Only a fragment whose path no file can have does not
count among those that cannot be read. -/
theorem resolve_noninterference {language : Option Language} {k₁ k₂ : Journal}
    (h₁ : x₁.Finds root f₁) (h₂ : x₂.Finds root f₂) (h : Alike x₁ x₂ f₁ f₂)
    (hlanguage₁ : HasLanguage x₁.host k₁ source language)
    (hlanguage₂ : HasLanguage x₂.host k₂ source language)
    (hreply : ∀ T ∈ language, (x₁.replyOf f₁ T).lines = (x₂.replyOf f₂ T).lines)
    (hflags : ∀ T ∈ language, ∀ fragment,
      f₁.build.fragmentOf x₁.host.platform (Path.absolute x₁.host.cwd source) = .ok fragment →
      Fragment.assignmentsIn? x₁.host k₁ fragment (flagsVariable T) =
        Fragment.assignmentsIn? x₂.host k₂ fragment (flagsVariable T)) :
    ((f₁.build.resolve source).perform x₁.host k₁).1 =
        ((f₂.build.resolve source).perform x₂.host k₂).1 ↔
      ∀ T ∈ language, ∀ fragment,
        f₁.build.fragmentOf x₁.host.platform (Path.absolute x₁.host.cwd source) = .ok fragment →
        (Fragment.TooLong x₁.host fragment ↔ Fragment.TooLong x₂.host fragment) := by
  cases language with
  | none => simp [resolve_of_no_language hlanguage₁, resolve_of_no_language hlanguage₂]
  | some T =>
    simp only [Option.mem_def, Option.some.injEq, forall_eq'] at hreply hflags ⊢
    rcases hf₁ : f₁.build.fragmentOf x₁.host.platform (Path.absolute x₁.host.cwd source) with
      e | fragment
    · have hf₂ := (h.fragmentOf h₁ h₂ _).symm.trans hf₁
      rw [h.cwd] at hf₂
      simp [resolve_of_outside hlanguage₁ hf₁, resolve_of_outside hlanguage₂ hf₂]
    · have hf₂ := (h.fragmentOf h₁ h₂ _).symm.trans hf₁
      rw [h.cwd] at hf₂
      simp only [Except.ok.injEq, forall_eq']
      -- a fragment whose path no file can have is a fault, which no other fragment leads to
      by_cases hn₁ : Fragment.TooLong x₁.host fragment <;>
        by_cases hn₂ : Fragment.TooLong x₂.host fragment
      · simp [resolve_of_tooLong hlanguage₁ hf₁ hn₁, resolve_of_tooLong hlanguage₂ hf₂ hn₂, hn₁,
          hn₂]
      · simp [resolve_of_tooLong hlanguage₁ hf₁ hn₁, resolve_of_not_tooLong hlanguage₂ hf₂ hn₂, hn₁,
          hn₂, (resolved_ne_fault _ _ _ _).symm]
      · simp [resolve_of_not_tooLong hlanguage₁ hf₁ hn₁, resolve_of_tooLong hlanguage₂ hf₂ hn₂, hn₁,
          hn₂, resolved_ne_fault]
      · simp [resolve_of_not_tooLong hlanguage₁ hf₁ hn₁, resolve_of_not_tooLong hlanguage₂ hf₂ hn₂,
          hn₁, hn₂, hflags fragment hf₁, h.resolved h₁ h₂ hreply]

def demoAutoconf : String := "_CC = cc\n_CXX = cxx\nCC_TYPE = clang\n"

def demoFile (text : String) : Files.Tree :=
  .mk (.file (text.toList.map fun c => c.toNat.toUInt8) false) []

def demoEnvironment : Environment := Mach.plainEnvironment "/o" "/s"

def demoReply : String := Mach.plainReply "/o" "/s"

/-- A tree with one fragment of flags and what else its root holds; a runner that knows how often it
has been called. -/
def demoHost (own : List (Component × Files.Tree)) (flags : String) (exitCode : Int)
    (cOutput : List String) : Host :=
  { files := ⟨.mk .directory
      [(⟨"s", by decide⟩, .mk .directory ((⟨"mach", by decide⟩, demoFile "") :: own)),
        (⟨"o", by decide⟩, .mk .directory
          [(⟨"config", by decide⟩, .mk .directory
            [(⟨"autoconf.mk", by decide⟩, demoFile demoAutoconf)]),
            (⟨"backend.mk", by decide⟩, demoFile flags)])]⟩
    runner := fun earlier _ =>
      match earlier with
      | [] => .finished 0 [demoReply] [demoReply]
      | [_] => .finished exitCode [] cOutput
      | _ => .finished 0 [] ["#define __cplusplus 201402L"] }

def demo (flags : String) (exitCode : Int) (cOutput : List String) : Scenario :=
  { host := demoHost [] flags exitCode cOutput
    before := []
    given := some { root := .ofString "/s" }
    showProgress := false }

def demoVars : Fragment.Variables :=
  (Text.lines demoAutoconf.toList).foldl Fragment.applyLine ∅

def demoFindings (cOutput : List String) : Findings :=
  let srcdir := Path.ofString "/s"
  let settings : Settings := { root := .ofString "/s" }
  let host := demoHost [] "" 0 cOutput
  { settings
    command := ["/s/mach"]
    vars := demoVars
    cCall := compilerCall host srcdir demoVars .c "cc" .clang none
    cppCall := compilerCall host srcdir demoVars .cpp "cxx" .clang none
    build :=
      { mach := machOf srcdir settings
        srcdir
        environment := demoEnvironment
        cCompiler := compilerOfOutput host srcdir settings demoVars .c "cc" .clang none cOutput
        cppCompiler := compilerOfOutput host srcdir settings demoVars .cpp "cxx" .clang none
          ["#define __cplusplus 201402L"]
        showProgress := false } }

theorem isEnvironment_demoReply :
    Mach.IsEnvironment (String.join [demoReply]) demoEnvironment := by
  have hone : String.join [demoReply] = demoReply := String.empty_append
  rw [hone]
  exact Mach.isEnvironment_plainReply (by decide) (by decide)

theorem demo_defines : ∃ line ∈ ["#define __STDC__ 1"], CompilerReport.DefinesMacro line := by
  decide

theorem demoHost_hasMach (own : List (Component × Files.Tree)) (flags : String) (exitCode : Int)
    (cOutput : List String) : HasMach (demoHost own flags exitCode cOutput) (.ofString "/s") :=
  Files.isFile_of_reach? (by decide) (u := demoFile "") rfl (by simp [Files.Tree.node, demoFile]) _

theorem demoHost_setUp (own : List (Component × Files.Tree)) (flags : String) (exitCode : Int)
    {cOutput : List String} {j : Journal} (hj : j.calls = [])
    (hc : ∃ line ∈ cOutput, CompilerReport.DefinesMacro line) :
    SetUp (demoHost own flags exitCode cOutput) j (.ofString "/s")
      (some (demoFindings cOutput).settings) (demoFindings cOutput).settings
      (demoFindings cOutput).command (demoFindings cOutput).vars (demoFindings cOutput).cCall
      (demoFindings cOutput).cppCall (demoFindings cOutput).build := by
  have hsrcdir : (demoHost own flags exitCode cOutput).files.resolve
      (demoHost own flags exitCode cOutput).cwd (.ofString "/s") = .ok (.ofString "/s") :=
    Files.resolve_of_reach? (by decide) rfl (by simp [Files.Tree.node]) _
  have heffective : (machOf (.ofString "/s") { root := .ofString "/s" }).effectiveCommand =
      .ok ["/s/mach"] := by
    rw [Mach.effectiveCommand, Mach.override?, machOf]
    simp only [Settings.mach?, Settings.command?_of_empty]
    rfl
  have hknows : (machOf (.ofString "/s") { root := .ofString "/s" }).Knows
      (demoHost own flags exitCode cOutput) j.calls ["/s/mach"] demoEnvironment :=
    ⟨⟨_, _, by rw [hj]; rfl, isEnvironment_demoReply⟩, _, _, hsrcdir, hsrcdir, rfl⟩
  have hbase : basePath (demoHost own flags exitCode cOutput) demoEnvironment =
      .ofString "/o/config/autoconf.mk" := by
    show (Platform.generic.path "/o").child baseFragment = _
    decide
  have hreads (j : Journal) : Fragment.Reads (demoHost own flags exitCode cOutput) j
      (basePath (demoHost own flags exitCode cOutput) demoEnvironment) demoVars := by
    rw [hbase]
    exact Fragment.reads_of_linesOf?
      (Fragment.linesOf?_of_reach? j rfl (by decide) rfl (Utf8.decode_ascii (by decide +kernel)))
  have hasks (language : Language) : Asks (.ofString "/s") { root := .ofString "/s" } demoVars
      language .clang none :=
    ⟨by decide +kernel, by decide, Settings.command?_of_empty _ _ _⟩
  have hnamed : demoVars.get? "_CC" = some "cc" ∧ demoVars.get? "_CXX" = some "cxx" := by
    decide +kernel
  exact
    { configured := ⟨⟨.given _, heffective, hknows⟩, hreads _⟩
      c := ⟨"cc", .clang, none, cOutput, ⟨⟨hnamed.1, by decide⟩, hasks _, rfl⟩,
        ⟨⟨_, _, by rw [hj]; rfl⟩, .inl hc⟩, rfl⟩
      cpp := ⟨"cxx", .clang, none, ["#define __cplusplus 201402L"],
        ⟨⟨hnamed.2, by decide⟩, hasks _, rfl⟩,
        ⟨⟨_, _, by rw [hj]; rfl⟩, .inl ⟨_, List.mem_singleton_self _, by decide⟩⟩, rfl⟩
      mach := rfl
      srcdir := rfl }

theorem demo_finds (flags : String) (exitCode : Int) {cOutput : List String}
    (hc : ∃ line ∈ cOutput, CompilerReport.DefinesMacro line) :
    (demo flags exitCode cOutput).Finds (.ofString "/s") (demoFindings cOutput) := by
  have hroot : Path.absolute (demo flags exitCode cOutput).host.cwd (.ofString "/s") =
      .ofString "/s" := Path.IsPlain.absolute_eq (by decide) _
  have hmach := demoHost_hasMach [] flags exitCode cOutput
  have hs := demoHost_setUp [] flags exitCode Journal.calls_nil hc
  rw [← hroot] at hs hmach
  have hd : ¬ Adrift (demo flags exitCode cOutput).host (.ofString "/s") :=
    fun h => absurd h.1 (by decide)
  exact ⟨probe_of_setUp hd hmach hs Empty, hs⟩

theorem demo_assignmentsIn? (flags : String) (exitCode : Int) (cOutput : List String) (key : String)
    (h : flags.toList.all fun c => c.toNat < 0x80) :
    Fragment.assignmentsIn? (demo flags exitCode cOutput).host [] (.ofString "/o/backend.mk") key =
      some (Fragment.assignmentsTo key (Text.lines flags.toList)) := by
  have hlines :
      Fragment.linesOf? (demo flags exitCode cOutput).host [] (.ofString "/o/backend.mk") =
        some (Text.lines flags.toList) :=
    Fragment.linesOf?_of_reach? [] rfl (by decide) rfl (Utf8.decode_ascii h)
  rw [Fragment.assignmentsIn?, hlines]
  rfl

theorem demo_not_tooLong (flags : String) (exitCode : Int) (cOutput : List String) :
    ¬ Fragment.TooLong (demo flags exitCode cOutput).host (.ofString "/o/backend.mk") := by
  have hfile : (demo flags exitCode cOutput).host.files.isFile
      (demo flags exitCode cOutput).host.cwd (.ofString "/o/backend.mk") = .ok true :=
    Files.isFile_of_reach? (by decide) (u := demoFile flags) rfl
      (by simp [Files.Tree.node, demoFile]) _
  rintro ⟨n, hn⟩
  cases hfile.symm.trans hn

theorem demo_absolute (flags : String) (exitCode : Int) (cOutput : List String) :
    Path.absolute (demo flags exitCode cOutput).host.cwd (.ofString "/s/E.cpp") =
      .ofString "/s/E.cpp" := Path.IsPlain.absolute_eq (by decide) _

theorem demo_hasLanguage (flags : String) (exitCode : Int) (cOutput : List String) :
    HasLanguage (demo flags exitCode cOutput).host [] (.ofString "/s/E.cpp") (some .cpp) := by
  refine hasLanguage_of_suffix [] (fun h => absurd h.1 (by decide)) ?_ ?_ <;>
    rw [demo_absolute] <;> decide

theorem demo_fragmentOf (flags : String) (exitCode : Int) (cOutput cOutput' : List String) :
    (demoFindings cOutput').build.fragmentOf (demo flags exitCode cOutput).host.platform
      (Path.absolute (demo flags exitCode cOutput).host.cwd (.ofString "/s/E.cpp")) =
        .ok (.ofString "/o/backend.mk") := by
  have hbelow : ((Path.ofString "/s/E.cpp").parent.rebase (.ofString "/s")
      (Platform.generic.path "/o")).map (fun dir => dir.child directoryFragment) =
        .ok (.ofString "/o/backend.mk") := rfl
  rw [demo_absolute]
  exact hbelow

/-- Other flags of C, and a C compiler that fails and reports something else. -/
theorem resolve_noninterference_demo :
    (((demoFindings ["#define __STDC__ 1"]).build.resolve (.ofString "/s/E.cpp")).perform
        (demo "COMPUTED_CXXFLAGS = -DA\n" 0 ["#define __STDC__ 1"]).host []).1 =
      (((demoFindings ["#define __llvm__ 1"]).build.resolve (.ofString "/s/E.cpp")).perform
        (demo "COMPUTED_CFLAGS = -DC\nCOMPUTED_CXXFLAGS = -DA\n" 1 ["#define __llvm__ 1"]).host
        []).1 := by
  have h₁ : (demo "COMPUTED_CXXFLAGS = -DA\n" 0 ["#define __STDC__ 1"]).Finds (.ofString "/s")
      (demoFindings ["#define __STDC__ 1"]) := demo_finds _ _ (by decide)
  have h₂ : (demo "COMPUTED_CFLAGS = -DC\nCOMPUTED_CXXFLAGS = -DA\n" 1
      ["#define __llvm__ 1"]).Finds (.ofString "/s") (demoFindings ["#define __llvm__ 1"]) :=
    demo_finds _ _ (by decide)
  have halike (flags flags' : String) (exitCode exitCode' : Int) (cOutput cOutput' : List String) :
      Alike (demo flags exitCode cOutput) (demo flags' exitCode' cOutput') (demoFindings cOutput)
        (demoFindings cOutput') := ⟨rfl, rfl, rfl, rfl, rfl, rfl⟩
  have hreply (flags : String) (exitCode : Int) (cOutput : List String) :
      ((demo flags exitCode cOutput).replyOf (demoFindings cOutput) .cpp).lines =
        ["#define __cplusplus 201402L"] := rfl
  refine (resolve_noninterference h₁ h₂ (halike _ _ _ _ _ _) (demo_hasLanguage _ _ _)
    (demo_hasLanguage _ _ _) ?_ ?_).mpr ?_
  · rintro T ⟨⟩
    exact (hreply _ _ _).trans (hreply _ _ _).symm
  · rintro T ⟨⟩ fragment hf
    obtain rfl := Except.ok.inj ((demo_fragmentOf _ _ _ _).symm.trans hf)
    rw [demo_assignmentsIn? _ _ _ _ (by decide +kernel),
      demo_assignmentsIn? _ _ _ _ (by decide +kernel)]
    decide +kernel
  · rintro T ⟨⟩ fragment hf
    obtain rfl := Except.ok.inj ((demo_fragmentOf _ _ _ _).symm.trans hf)
    exact iff_of_false (demo_not_tooLong _ _ _) (demo_not_tooLong _ _ _)

end Scenario
end Build
end MachTree
