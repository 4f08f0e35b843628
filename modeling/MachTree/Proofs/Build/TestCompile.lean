import MachTree.Proofs.Build.Offline

/-! Test compiles.  A test compile makes one call at most: that of the command for the configuration
that the source resolves to. -/
namespace MachTree

open Activity

variable {host : Host} {j j₁ : Journal}

namespace Compiler

variable {c : Compiler} {config : CompileConfig} {source : Path}

theorem compileCommand_of_override (config : CompileConfig) {override : Option (List String)}
    (h : overrideFor c.settings source c.language = .ok override) :
    ∃ command, c.compileCommand config source = .ok command := by
  simp [compileCommand, commandFor, h, Except.map]

theorem compileCommand_of_override_error (config : CompileConfig) {e : Settings.Error}
    (h : overrideFor c.settings source c.language = .error e) :
    c.compileCommand config source = .error e := by
  simp [compileCommand, commandFor, h, Except.map]

theorem perform_compile_of_ne (hf : c.family ≠ .clang) :
    (c.compile config source).perform host j =
      (.error (.failed (.compiler .noTestCompile)), j) := by
  simp [compile, hf]

theorem perform_compile_of_error {e : Settings.Error} (hf : c.family = .clang)
    (hc : c.compileCommand config source = .error e) :
    (c.compile config source).perform host j = (.error (.failed (.settings e)), j) := by
  simp [compile, hf, hc, perform_bind]

theorem perform_compile_of_ok (host : Host) (j : Journal) {command : List String}
    (hf : c.family = .clang) (hc : c.compileCommand config source = .ok command) :
    ∃ r, (c.compile config source).perform host j =
        (r, j ++ [.logged .debug ("Test compiling " ++ source.toString),
          .called { command, cwd := some source.parent }]) ∧
      (∀ text, r = .error (.interrupted text) ↔
        host.runner j.calls { command, cwd := some source.parent } = .interrupted text) ∧
      ∀ outcome, r = .ok outcome ↔ host.runner j.calls { command, cwd := some source.parent } =
        .finished outcome.exitCode outcome.stdout outcome.output ∧ outcome.command = command := by
  simp only [compile, hf, hc, if_true, perform_bind, perform_ofExcept_ok, perform_debug, mapError,
    perform_handle, perform_run]
  cases h : host.runner j.calls { command, cwd := some source.parent } with
  | finished exitCode stdout output =>
    have hsame (outcome : Outcome) : (⟨command, exitCode, stdout, output⟩ : Outcome) = outcome ↔
        (exitCode = outcome.exitCode ∧ stdout = outcome.stdout ∧ output = outcome.output) ∧
          outcome.command = command := by
      obtain ⟨command', exitCode', stdout', output'⟩ := outcome
      simp only [Outcome.mk.injEq, eq_comm, and_comm]
    simpa [h] using hsame
  | refused reason => simp [h]
  | raised t => simp [h]
  | interrupted text => simp [h]

end Compiler

namespace Build

variable {ε : Type} (b : Build) {source : Path}

theorem perform_resolve (hd : ¬ Adrift host source) {config : Option CompileConfig} :
    (b.resolve source).perform host j = (.ok config, j₁) ↔
      ∃ r, (b.recipe? (Path.absolute host.cwd source)).perform host j = (.ok r, j₁) ∧
        r.map (b.configure host.platform) = config := by
  simp only [resolve, perform_bind_of_ok (perform_absolute_of_not_adrift hd),
    perform_bind_of_ok perform_host, perform_bind_eq_ok, perform_pure, Prod.mk.injEq,
    Except.ok.injEq]
  constructor
  · rintro ⟨r, j₂, hr, hc, rfl⟩
    exact ⟨r, hr, hc⟩
  · rintro ⟨r, hr, hc⟩
    exact ⟨r, j₁, hr, hc, rfl⟩

theorem perform_resolve_of_adrift (hd : Adrift host source) :
    (b.resolve source).perform host j = (.error (.fault .noCurrentDirectory), j) :=
  perform_bind_of_error (perform_absolute_of_adrift hd)

theorem language?_journal {language : Option Language}
    (h : (language? source : Activity ε _).perform host j = (.ok language, j₁)) : j₁ = j := by
  by_cases hs : source.suffix = ".h"
  · simp only [language?, hs, if_true, perform_bind_eq_ok, perform_isFile_eq_ok] at h
    obtain ⟨isFile, j₂, ⟨-, rfl⟩, h⟩ := h
    cases isFile <;> simp_all
  · simp only [language?, hs, if_false, perform_pure, Prod.mk.injEq] at h
    exact h.2.symm

theorem recipe?_language {r : Recipe}
    (h : (b.recipe? source).perform host j = (.ok (some r), j₁)) :
    (language? source : Activity Shell.SplitError _).perform host j =
      (.ok (some r.language), j) := by
  rw [recipe?, perform_bind_eq_ok] at h
  obtain ⟨language, j₂, hl, h⟩ := h
  obtain rfl := language?_journal hl
  cases language with
  | none => simp [-bind_pure_comp, perform_bind] at h
  | some language =>
    simp only [perform_bind_eq_ok] at h
    obtain ⟨fragment, j₃, -, h⟩ := h
    cases fragment with
    | none => simp at h
    | some fragment =>
      simp only [perform_bind_eq_ok] at h
      obtain ⟨vars, j₄, -, h⟩ := h
      cases vars with
      | none => simp at h
      | some vars =>
        simp only at h
        cases hf : filled? vars (flagsVariable language) with
        | none => simp [hf] at h
        | some flags =>
          simp only [hf, perform_bind_eq_ok, perform_pure, Prod.mk.injEq, Except.ok.injEq,
            Option.some.injEq] at h
          obtain ⟨args, j₅, -, rfl, -⟩ := h
          exact hl

/-- That a source resolves to a configuration, for a language whose compiler can test it. -/
structure Tests (host : Host) (j : Journal) (source : Path) (config : CompileConfig)
    (language : Language) : Prop where
  resolved : ∃ j₁, (b.resolve source).perform host j = (.ok (some config), j₁)
  typed : (language? (Path.absolute host.cwd source) : Activity Shell.SplitError _).perform
    host j = (.ok (some language), j)
  clang : (b.compilerOf language).family = .clang
  override : ∃ override, Compiler.overrideFor (b.compilerOf language).settings
    (Path.absolute host.cwd source) (b.compilerOf language).language = .ok override

def testCall (host : Host) (source : Path) (command : List String) : Call :=
  { command, cwd := some (Path.absolute host.cwd source).parent }

section Tests

variable {b} {config config' : CompileConfig} {language language' : Language}

theorem Tests.not_adrift (h : b.Tests host j source config language) : ¬ Adrift host source := by
  intro hd
  obtain ⟨j₁, hr⟩ := h.resolved
  simp [b.perform_resolve_of_adrift hd] at hr

theorem Tests.recipe (h : b.Tests host j source config language) :
    ∃ r j₁, (b.recipe? (Path.absolute host.cwd source)).perform host j = (.ok (some r), j₁) ∧
      b.configure host.platform r = config ∧ r.language = language := by
  obtain ⟨j₁, hresolve⟩ := h.resolved
  obtain ⟨recipe, hrecipe, hmap⟩ := (b.perform_resolve h.not_adrift).mp hresolve
  obtain ⟨r, rfl, hconfig⟩ := Option.map_eq_some_iff.mp hmap
  have htyped := (b.recipe?_language hrecipe).symm.trans h.typed
  exact ⟨r, j₁, hrecipe, hconfig, by simpa using htyped⟩

theorem Tests.unique (h : b.Tests host j source config language)
    (h' : b.Tests host j source config' language') : config' = config ∧ language' = language := by
  obtain ⟨j₁, hr⟩ := h.resolved
  obtain ⟨j₂, hr'⟩ := h'.resolved
  have hconfig := hr'.symm.trans hr
  have htyped := h'.typed.symm.trans h.typed
  simp_all

theorem tests_of_recipe {r : Recipe} {override : Option (List String)} (hd : ¬ Adrift host source)
    (h : (b.recipe? (Path.absolute host.cwd source)).perform host j = (.ok (some r), j₁))
    (hf : (b.compilerOf r.language).family = .clang)
    (ho : Compiler.overrideFor (b.compilerOf r.language).settings
      (Path.absolute host.cwd source) (b.compilerOf r.language).language = .ok override) :
    b.Tests host j source (b.configure host.platform r) r.language :=
  ⟨⟨j₁, (b.perform_resolve hd).mpr ⟨some r, h, rfl⟩⟩, b.recipe?_language h, hf, override, ho⟩

end Tests

/-- A report makes no calls, and only standard output can refuse it. -/
theorem perform_reportOutcome (ε : Type) (host : Host) (j : Journal) (source : Path)
    (outcome : Outcome) :
    ((b.reportOutcome source outcome : Activity ε Unit).perform host j).2.calls = j.calls ∧
      ∀ e, ((b.reportOutcome source outcome : Activity ε Unit).perform host j).1 = .error e ↔
        ∃ t, b.showProgress = true ∧ host.refuses j.printedText (report source outcome) = some t ∧
          e = .fault (.outside t) := by
  have hlogged (level : Level) (verdict : String) :
      Journal.printedText (j ++ [.logged level verdict, .logged .debug outcome.describe]) =
        j.printedText := Journal.printedText_append (by simp)
  cases hs : b.showProgress with
  | false => simp [reportOutcome, perform_bind, hs]
  | true =>
    cases ht : host.refuses j.printedText (report source outcome) with
    | none => simp [reportOutcome, perform_bind, hs, perform_printLine, hlogged, ht]
    | some t =>
      have hsame (e : Halt ε) : Halt.fault (.outside t) = e ↔ e = .fault (.outside t) := eq_comm
      simp [reportOutcome, perform_bind, hs, perform_printLine, hlogged, ht, hsame]

/-- Whatever comes of compiling a source, a test compile reports it and goes on, unless the call is
interrupted or the report refused. -/
theorem perform_testCompile (ε : Type) (hd : ¬ Adrift host source)
    {r : Except (Halt TestError) (Option Outcome)}
    (h : (b.compile (Path.absolute host.cwd source)).perform host j = (r, j₁)) :
    ((b.testCompile source : Activity ε Unit).perform host j).2.calls = j₁.calls ∧
      ∀ e, ((b.testCompile source : Activity ε Unit).perform host j).1 = .error e ↔
        (∃ text, r = .error (.interrupted text) ∧ e = .interrupted text) ∨
          ∃ outcome t, r = .ok (some outcome) ∧ b.showProgress = true ∧
            host.refuses j₁.printedText (report (Path.absolute host.cwd source) outcome) =
              some t ∧
            e = .fault (.outside t) := by
  rw [testCompile, perform_bind_of_ok (perform_absolute_of_not_adrift hd), perform_bind,
    perform_settle, h]
  rcases r with (text | fault | e) | _ | outcome
  · have hsame (e : Halt ε) : Halt.interrupted text = e ↔ e = .interrupted text := eq_comm
    simp [hsame]
  · simp
  · simp
  · simp
  · obtain ⟨hcalls, hends⟩ := b.perform_reportOutcome ε host j₁
      (Path.absolute host.cwd source) outcome
    refine ⟨hcalls, fun e => (hends e).trans ?_⟩
    constructor
    · rintro ⟨t, hs, ht, rfl⟩
      exact .inr ⟨outcome, t, rfl, hs, ht, rfl⟩
    · rintro (⟨text, he, -⟩ | ⟨outcome', t, he, hs, ht, rfl⟩)
      · cases he
      · cases he
        exact ⟨t, hs, ht, rfl⟩

/-- That compiling a source comes to something that is neither an outcome nor an interrupt. -/
def ComesToNothing (host : Host) (j j₁ : Journal) (source : Path) : Prop :=
  ∃ r, (b.compile source).perform host j = (r, j₁) ∧
    (∀ text, r ≠ .error (.interrupted text)) ∧ ∀ outcome, r ≠ .ok (some outcome)

theorem testCompile_of_comesToNothing (ε : Type) (hd : ¬ Adrift host source)
    (h : b.ComesToNothing host j j₁ (Path.absolute host.cwd source)) :
    ((b.testCompile source : Activity ε Unit).perform host j).2.calls = j₁.calls ∧
      ∀ e, ((b.testCompile source : Activity ε Unit).perform host j).1 ≠ .error e := by
  obtain ⟨r, hr, htext, houtcome⟩ := h
  obtain ⟨hcalls, hends⟩ := b.perform_testCompile ε hd hr
  refine ⟨hcalls, fun e he => ?_⟩
  rcases (hends e).mp he with ⟨text, ht, -⟩ | ⟨outcome, t, ho, -⟩
  · exact htext text ht
  · exact houtcome outcome ho

theorem comesToNothing_of_recipe {r : Except (Halt Shell.SplitError) (Option Recipe)}
    (hr : ∀ recipe, r ≠ .ok (some recipe))
    (h : (b.recipe? source).perform host j = (r, j₁)) : b.ComesToNothing host j j₁ source := by
  rw [ComesToNothing, compile, perform_bind, mapError, perform_handle, h]
  rcases r with (text | fault | e) | _ | recipe
  · exact absurd h (b.offline_recipe? source).not_interrupted
  · simp
  · simp
  · simp
  · exact absurd rfl (hr recipe)

theorem perform_compile_of_some {r : Recipe} {r' : Except (Halt Compiler.CompileError) Outcome}
    {j₂ : Journal} (h : (b.recipe? source).perform host j = (.ok (some r), j₁))
    (hc : ((b.compilerOf r.language).compile (b.configure host.platform r) source).perform host j₁ =
      (r', j₂)) :
    ∃ r'', (b.compile source).perform host j = (r'', j₂) ∧
      (∀ text, r'' = .error (.interrupted text) ↔ r' = .error (.interrupted text)) ∧
      ∀ outcome, r'' = .ok (some outcome) ↔ r' = .ok outcome := by
  rw [compile, perform_bind_of_ok (perform_mapError_eq_ok.mpr h)]
  simp only [perform_bind, perform_host, mapError, perform_handle, hc]
  rcases r' with (text | fault | e) | outcome <;> simp

theorem testCompile_of_refused (ε : Type) {r : Recipe} {e : Compiler.CompileError}
    (hd : ¬ Adrift host source)
    (h : (b.recipe? (Path.absolute host.cwd source)).perform host j = (.ok (some r), j₁))
    (hc : ((b.compilerOf r.language).compile (b.configure host.platform r)
      (Path.absolute host.cwd source)).perform host j₁ = (.error (.failed e), j₁)) :
    ((b.testCompile source : Activity ε Unit).perform host j).2.calls = j.calls ∧
      ∀ e, ((b.testCompile source : Activity ε Unit).perform host j).1 ≠ .error e := by
  obtain ⟨r', hcompile, htext, houtcome⟩ := b.perform_compile_of_some h hc
  rw [← (b.offline_recipe? _).calls_eq h]
  exact b.testCompile_of_comesToNothing ε hd
    ⟨r', hcompile, fun text => by simp [htext], fun outcome => by simp [houtcome]⟩

/-- How a test compile ends early once it has made its call. -/
inductive EndsEarly {ε : Type} (host : Host) (j : Journal) (source : Path)
    (command : List String) : Halt ε → Prop
  | interrupted {text : String} :
      host.runner j.calls (testCall host source command) = .interrupted text →
      EndsEarly host j source command (.interrupted text)
  /-- standard output does not take the report -/
  | refused {exitCode : Int} {stdout output : List String} {t : Trouble} :
      host.runner j.calls (testCall host source command) = .finished exitCode stdout output →
      b.showProgress = true →
      host.refuses j.printedText (report (Path.absolute host.cwd source)
        ⟨command, exitCode, stdout, output⟩) = some t →
      EndsEarly host j source command (.fault (.outside t))

theorem testCompile_of_command (ε : Type) {r : Recipe} {command : List String}
    (hd : ¬ Adrift host source)
    (h : (b.recipe? (Path.absolute host.cwd source)).perform host j = (.ok (some r), j₁))
    (hf : (b.compilerOf r.language).family = .clang)
    (hc : (b.compilerOf r.language).compileCommand (b.configure host.platform r)
      (Path.absolute host.cwd source) = .ok command) :
    ((b.testCompile source : Activity ε Unit).perform host j).2.calls =
        j.calls ++ [testCall host source command] ∧
      ∀ e, ((b.testCompile source : Activity ε Unit).perform host j).1 = .error e ↔
        b.EndsEarly host j source command e := by
  have hj := (b.offline_recipe? _).calls_eq h
  obtain ⟨r', hrun, htext, houtcome⟩ := Compiler.perform_compile_of_ok host j₁ hf hc
  obtain ⟨r'', hcompile, htext', houtcome'⟩ := b.perform_compile_of_some h hrun
  obtain ⟨hcalls, hends⟩ := b.perform_testCompile ε hd hcompile
  constructor
  · simpa [testCall, hj] using hcalls
  · intro e
    rw [hends, Journal.printedText_append (by simp), b.printedText_recipe? h]
    simp only [htext', htext, houtcome', houtcome, hj]
    constructor
    · rintro (⟨text, hr, rfl⟩ | ⟨outcome, t, ⟨hr, rfl⟩, hs, ht, rfl⟩)
      · exact .interrupted hr
      · exact .refused hr hs ht
    · rintro (hr | ⟨hr, hs, ht⟩)
      · exact .inl ⟨_, hr, rfl⟩
      · exact .inr ⟨⟨_, _, _, _⟩, _, ⟨hr, rfl⟩, hs, ht, rfl⟩

theorem testCompile_of_tests (ε : Type) {config : CompileConfig} {language : Language}
    (h : b.Tests host j source config language) :
    ∃ command, (b.compilerOf language).compileCommand config (Path.absolute host.cwd source) =
        .ok command ∧
      ((b.testCompile source : Activity ε Unit).perform host j).2.calls =
        j.calls ++ [testCall host source command] ∧
      ∀ e, ((b.testCompile source : Activity ε Unit).perform host j).1 = .error e ↔
        b.EndsEarly host j source command e := by
  obtain ⟨r, j₁, hr, rfl, rfl⟩ := h.recipe
  obtain ⟨override, ho⟩ := h.override
  obtain ⟨command, hc⟩ :=
    Compiler.compileCommand_of_override (b.configure host.platform r) ho
  exact ⟨command, hc, b.testCompile_of_command ε h.not_adrift hr h.clang hc⟩

theorem testCompile_of_not_tests (ε : Type) (hd : ¬ Adrift host source)
    (hn : ∀ config language, ¬ b.Tests host j source config language) :
    ((b.testCompile source : Activity ε Unit).perform host j).2.calls = j.calls ∧
      ∀ e, ((b.testCompile source : Activity ε Unit).perform host j).1 ≠ .error e := by
  rcases hr : (b.recipe? (Path.absolute host.cwd source)).perform host j with ⟨r, j₁⟩
  by_cases hsome : ∃ recipe, r = .ok (some recipe)
  · obtain ⟨recipe, rfl⟩ := hsome
    by_cases hf : (b.compilerOf recipe.language).family = .clang
    · cases ho : Compiler.overrideFor (b.compilerOf recipe.language).settings
        (Path.absolute host.cwd source) (b.compilerOf recipe.language).language with
      | error reason =>
        have hc := Compiler.compileCommand_of_override_error
          (b.configure host.platform recipe) ho
        exact b.testCompile_of_refused ε hd hr (Compiler.perform_compile_of_error hf hc)
      | ok override => exact absurd (tests_of_recipe hd hr hf ho) (hn _ _)
    · exact b.testCompile_of_refused ε hd hr (Compiler.perform_compile_of_ne hf)
  · rw [← (b.offline_recipe? _).calls_eq hr]
    exact b.testCompile_of_comesToNothing ε hd
      (b.comesToNothing_of_recipe (fun recipe he => hsome ⟨recipe, he⟩) hr)

/-- A test compile makes the call of the configuration that its source resolves to, if there is
such a configuration and its compiler can test it, and no call otherwise.  It goes on whatever
happens, unless the path of the source cannot be told, the call is interrupted, or standard output
does not take the report. -/
theorem testCompile_calls (source : Path) (host : Host) (j : Journal) :
    (∀ config language, b.Tests host j source config language → ∃ command,
      (b.compilerOf language).compileCommand config (Path.absolute host.cwd source) = .ok command ∧
        ((b.testCompile source : Activity ε Unit).perform host j).2.calls =
          j.calls ++ [testCall host source command]) ∧
    ((∀ config language, ¬ b.Tests host j source config language) →
      ((b.testCompile source : Activity ε Unit).perform host j).2.calls = j.calls) ∧
    ∀ e, ((b.testCompile source : Activity ε Unit).perform host j).1 = .error e ↔
      (Adrift host source ∧ e = .fault .noCurrentDirectory) ∨
        ∃ config language command, b.Tests host j source config language ∧
          (b.compilerOf language).compileCommand config (Path.absolute host.cwd source) =
            .ok command ∧
          b.EndsEarly host j source command e := by
  by_cases hd : Adrift host source
  · have hn (config : CompileConfig) (language : Language) :
        ¬ b.Tests host j source config language := fun h => h.not_adrift hd
    have hrun : (b.testCompile source : Activity ε Unit).perform host j =
        (.error (.fault .noCurrentDirectory), j) :=
      perform_bind_of_error (perform_absolute_of_adrift hd)
    simp [hrun, hn, hd, eq_comm]
  by_cases ht : ∃ config language, b.Tests host j source config language
  · obtain ⟨config, language, h⟩ := ht
    obtain ⟨command, hc, hcalls, hends⟩ := b.testCompile_of_tests ε h
    refine ⟨?_, fun hn => absurd h (hn _ _), ?_⟩
    · intro config' language' h'
      obtain ⟨rfl, rfl⟩ := h.unique h'
      exact ⟨command, hc, hcalls⟩
    · intro e
      rw [hends e]
      constructor
      · exact fun he => .inr ⟨config, language, command, h, hc, he⟩
      · rintro (⟨hd', -⟩ | ⟨config', language', command', h', hc', he⟩)
        · exact absurd hd' hd
        · obtain ⟨rfl, rfl⟩ := h.unique h'
          obtain rfl := Except.ok.inj (hc'.symm.trans hc)
          exact he
  · have hn (config : CompileConfig) (language : Language) :
        ¬ b.Tests host j source config language := fun h => ht ⟨config, language, h⟩
    obtain ⟨hcalls, hends⟩ := b.testCompile_of_not_tests ε hd hn
    simp [hcalls, hends, hn, hd]

end Build
end MachTree
