import MachTree.Proofs.Build.Probe

/-! Interrupts while a build is set up or tried.  An interrupt can come at the call of mach, at the
call of either compiler and at a test compile; wherever it comes, nothing is done after it, and by
then nothing has been shown and no stage has been told. -/
namespace MachTree

open Activity

/-- Whether an event tells how far setting up a tree has come. -/
def Event.TellsStage (e : Event) : Prop :=
  ∃ (root : Path) (stage : Stage),
    e = .logged .info ("Build for " ++ root.toString ++ ": " ++ stage.tag)

/-- That an event shows the user nothing and tells no stage. -/
structure Event.IsQuiet (e : Event) : Prop where
  printed : ∀ text, e ≠ .printed text
  complained : ∀ text, e ≠ .complained text
  stage : ¬ e.TellsStage

namespace Event

theorem isQuiet_called (call : Call) : (called call).IsQuiet :=
  ⟨by simp, by simp, by simp [TellsStage]⟩

theorem isQuiet_logged {level : Level} (h : level ≠ .info) (text : String) :
    (logged level text).IsQuiet := ⟨by simp, by simp, by simp [TellsStage, h]⟩

theorem isQuiet_info {text : String} (h : text.toList.head? ≠ some 'B') :
    (logged .info text).IsQuiet := by
  refine ⟨by simp, by simp, ?_⟩
  rintro ⟨root, stage, he⟩
  obtain rfl : text = "Build for " ++ root.toString ++ ": " ++ stage.tag := by simpa using he
  exact h (by simp)

end Event

/-- That an interrupt ends what is done from a journal on: the call that is interrupted is the last
event, the interrupt is what comes of it all, and before it nothing was shown and no stage told. -/
def Heeds {ε α : Type} (host : Host) (j : Journal) (outcome : Except (Halt ε) α × Journal) : Prop :=
  ∃ new, outcome.2 = j ++ new ∧ ∀ before call after text, new = before ++ .called call :: after →
    host.runner (j ++ before).calls call = .interrupted text →
    after = [] ∧ outcome.1 = .error (.interrupted text) ∧ ∀ e ∈ before, e.IsQuiet

theorem Activity.Ends.heeds {ε α : Type} {Q : Event → Prop} {host : Host} {j j' : Journal}
    {r : Except (Halt ε) α} (h : Ends Event.IsQuiet Q host j r j') : Heeds host j (r, j') := by
  cases h with
  | answered _ hanswered _ =>
    exact ⟨_, rfl, fun before call after text he hr =>
      absurd hr (hanswered before call after he text)⟩
  | @interrupted before₀ call₀ text₀ hbefore _ hanswered hr₀ =>
    refine ⟨_, rfl, fun before call after text he hr => ?_⟩
    rcases List.eq_nil_or_concat after with rfl | ⟨init, last, rfl⟩
    · obtain ⟨rfl, hcall⟩ := List.append_inj' he rfl
      obtain rfl : call₀ = call := by simpa using hcall
      obtain rfl : text₀ = text := by simpa using hr₀.symm.trans hr
      exact ⟨rfl, rfl, hbefore⟩
    · -- an earlier call would have been answered
      rw [List.concat_eq_append, ← List.cons_append, ← List.append_assoc] at he
      obtain ⟨he, -⟩ := List.append_inj' he rfl
      exact absurd hr (hanswered before call init he text)

/-- What else is made of a result does not matter. -/
theorem Heeds.of_result {ε ε' α β : Type} {host : Host} {j j' : Journal}
    {r : Except (Halt ε) α} {r' : Except (Halt ε') β} (h : Heeds host j (r, j'))
    (hr : ∀ text, r = .error (.interrupted text) → r' = .error (.interrupted text)) :
    Heeds host j (r', j') := by
  obtain ⟨new, hnew, hcut⟩ := h
  refine ⟨new, hnew, fun before call after text he hi => ?_⟩
  obtain ⟨hafter, hres, hquiet⟩ := hcut before call after text he hi
  exact ⟨hafter, hr text hres, hquiet⟩

theorem Mach.emits_queryEnvironment (m : Mach) :
    Emits Event.IsQuiet Event.IsQuiet m.queryEnvironment := by
  have herror (text : String) : (Event.logged .error text).IsQuiet :=
    Event.isQuiet_logged (by decide) text
  have hexecute (args : List String) : Emits Event.IsQuiet Event.IsQuiet (m.execute args) :=
    (Emits.ofExcept _ _).bind fun _ =>
      (Emits.run (Event.isQuiet_called _) (Event.isQuiet_called _)).mapError _
  refine ((hexecute _).handle fun e => ?_).bind fun outcome =>
    .ite ((Emits.log (herror _)).bind fun _ => .fail _) ?_
  · cases e with
    | settings e => exact .fail _
    | launch e => exact (Emits.log (herror _)).bind fun _ => .fail _
  · rcases h : readReply (String.join outcome.stdout) with (f | e) | env
    · simp only [h]
      exact .raise _
    · simp only [h]
      exact (Emits.log (herror _)).bind fun _ => .fail _
    · simp only [h]
      exact .pure _

theorem Compiler.emits_create (srcdir : Path) (command : List String) (language : Language)
    (vars : Fragment.Variables) (settings : Option Settings) :
    Emits Event.IsQuiet Event.IsQuiet (create srcdir command language vars settings) := by
  have herror (text : String) : (Event.logged .error text).IsQuiet :=
    Event.isQuiet_logged (by decide) text
  have hwarning (text : String) : (Event.logged .warning text).IsQuiet :=
    Event.isQuiet_logged (by decide) text
  refine (Emits.ofExcept _ _).bind fun family => .ite (.fail _) ?_
  refine (Emits.ofExcept _ _).bind fun override => Emits.ofHost.bind fun host => ?_
  refine ((Emits.run (Event.isQuiet_called _) (Event.isQuiet_called _)).handle fun e =>
    (Emits.log (herror _)).bind fun _ => .fail _).bind fun outcome => ?_
  refine .ite ((Emits.log (hwarning _)).bind fun _ => ?_) ?_ <;>
    exact .ite ((Emits.log (herror _)).bind fun _ => .fail _)
      ((Emits.log (Event.isQuiet_info (by simp))).bind fun _ => .pure _)

namespace Build

variable {ε : Type}

theorem emits_environmentOf (mach : Mach) :
    Emits Event.IsQuiet Event.IsQuiet (environmentOf mach) :=
  (mach.emits_queryEnvironment.mapError _).bind fun _ => (Emits.resolveText _).bind fun _ =>
    (Emits.resolve _).bind fun _ => .ite (.pure _) (.fail _)

theorem emits_findCompilers (srcdir : Path) (s : Settings) (env : Environment)
    (vars : Fragment.Variables) (showProgress : Bool) :
    Emits Event.IsQuiet Event.IsQuiet (findCompilers srcdir s env vars showProgress) := by
  have hcompiler (name : String) (language : Language) :
      Emits Event.IsQuiet Event.IsQuiet (compilerIn srcdir name language vars s) :=
    Emits.ofHost.bind fun _ => (Compiler.emits_create _ _ _ _ _).mapError _
  rw [findCompilers]
  cases filled? vars "_CC" with
  | none => exact .fail _
  | some cc =>
    cases filled? vars "_CXX" with
    | none => exact .fail _
    | some cxx => exact (hcompiler cc .c).bind fun _ => (hcompiler cxx .cpp).bind fun _ => .pure _

theorem emits_attempt (root : Path) (given : Option Settings) (showProgress : Bool) :
    Emits Event.IsQuiet Event.IsQuiet (attempt root given showProgress) := by
  have hsettings (srcdir : Path) :
      Emits Event.IsQuiet Event.IsQuiet (settingsOf srcdir given) := by
    cases given with
    | none => exact (Settings.emits_load _ _).mapError _
    | some s => exact .pure _
  have hload (path : Path) : Emits Event.IsQuiet Event.IsQuiet (Fragment.load path ∅) :=
    Fragment.emits_load (Event.isQuiet_logged (by decide)) path ∅
  have hin (srcdir : Path) :
      Emits Event.IsQuiet Event.IsQuiet (attemptIn srcdir given showProgress) :=
    (hsettings srcdir).bind fun s => (emits_environmentOf _).bind fun env =>
      Emits.ofHost.bind fun host => ((hload _).mapError _).bind fun vars =>
        emits_findCompilers srcdir s env vars showProgress
  rw [attempt_eq]
  refine (Emits.absolute _).bind fun srcdir => (Emits.isFile _).bind fun isFile => ?_
  exact .ite ((Emits.fail _).bind fun _ => hin srcdir) (hin srcdir)

theorem emits_probe (root : Path) (given : Option Settings) (showProgress : Bool) :
    Emits Event.IsQuiet Event.IsQuiet (probe root given showProgress : Activity ε _) := by
  refine ((emits_attempt root given showProgress).bind fun b => .pure _).handle fun e => ?_
  have hlevel : e.level ≠ .info := by cases e <;> simp [ProbeError.level]
  exact (Emits.log (Event.isQuiet_logged hlevel _)).bind fun _ => .pure _

theorem emits_create (root : Path) (given : Option Settings) (showProgress : Bool) :
    Emits Event.IsQuiet Event.IsQuiet (create root given showProgress : Activity ε _) :=
  (emits_probe root given showProgress).bind fun _ => .pure _

theorem emits_compile (b : Build) (source : Path) :
    Emits Event.IsQuiet Event.IsQuiet (b.compile source) := by
  have hdebug (text : String) : (Event.logged .debug text).IsQuiet :=
    Event.isQuiet_logged (by decide) text
  have hcompiler (c : Compiler) (config : CompileConfig) :
      Emits Event.IsQuiet Event.IsQuiet (c.compile config source) :=
    .ite ((Emits.ofExcept _ _).bind fun _ => (Emits.log (hdebug _)).bind fun _ =>
      (Emits.run (Event.isQuiet_called _) (Event.isQuiet_called _)).mapError _) (.fail _)
  refine ((b.emits_recipe? hdebug source).mapError _).bind fun recipe => ?_
  cases recipe with
  | none => exact .pure _
  | some r =>
    exact Emits.ofHost.bind fun host => ((hcompiler _ _).mapError _).bind fun _ => .pure _

theorem emits_reportOutcome {P : Event → Prop} (hlogged : ∀ level text, P (.logged level text))
    (hprinted : ∀ text, P (.printed text)) (b : Build) (source : Path) (outcome : Outcome) :
    Emits P P (b.reportOutcome source outcome : Activity ε Unit) :=
  (Emits.log (hlogged _ _)).bind fun _ => (Emits.log (hlogged _ _)).bind fun _ =>
    .ite (.printLine (hprinted _)) (.pure _)

theorem emits_testCompile (b : Build) (source : Path) :
    Emits Event.IsQuiet (fun _ => True) (b.testCompile source : Activity ε Unit) := by
  refine (Emits.absolute _).bind_last (fun _ _ => trivial) fun path => ?_
  refine (b.emits_compile path).settle.bind_last (fun _ _ => trivial) fun result => ?_
  rcases result with e | _ | outcome
  · exact .log trivial
  · exact .log trivial
  · have hreport : Emits Event.IsNoCall Event.IsNoCall
        (b.reportOutcome path outcome : Activity ε Unit) :=
      b.emits_reportOutcome (by simp [Event.IsNoCall]) (by simp [Event.IsNoCall]) path outcome
    exact hreport.of_noCall

end Build
end MachTree
