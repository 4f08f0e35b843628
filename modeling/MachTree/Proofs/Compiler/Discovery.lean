import MachTree.Build
import MachTree.Proofs.Activity
import MachTree.Proofs.Compiler.Report

/-! How a compiler of a build is found: by one call with the user's compiler, or else the build's,
whose report is the compiler's baseline. -/
namespace MachTree

open Activity

variable {host : Host} {j : Journal}

namespace Compiler

variable {srcdir : Path} {command : List String} {language : Language} {family : Family}
  {vars : Fragment.Variables} {settings : Option Settings} {override : Option (List String)}

def probeCall (host : Host) (srcdir : Path) (command : List String) (language : Language)
    (family : Family) (vars : Fragment.Variables) : Call :=
  { command := command ++ probeArguments family language (sdk? host.platform vars)
    cwd := some srcdir }

def baselineOf (host : Host) (language : Language) (family : Family)
    (override : Option (List String)) (vars : Fragment.Variables) (output : List String) :
    CompileConfig :=
  CompilerReport.read output
    (initialConfig language family override (sdk? host.platform vars))

/-- That a call of a compiler gives no defaults. -/
inductive Silent (host : Host) (calls : List Call) (override : Option (List String))
    (call : Call) : Prop
  | launch {reason : String} : host.runner calls call = .refused reason →
      Silent host calls override call
  | defines {exitCode : Int} {stdout output : List String} :
      host.runner calls call = .finished exitCode stdout output →
      (∀ line ∈ output, ¬ CompilerReport.DefinesMacro line) → overrideName override = "" →
      Silent host calls override call

/-- That a call of a compiler gives the output from which its defaults are read. -/
structure Answers (host : Host) (calls : List Call) (override : Option (List String))
    (call : Call) (output : List String) : Prop where
  reply : ∃ exitCode stdout, host.runner calls call = .finished exitCode stdout output
  useful : (∃ line ∈ output, CompilerReport.DefinesMacro line) ∨ overrideName override ≠ ""

theorem Answers.unique {calls : List Call} {call : Call} {output output' : List String}
    (h : Answers host calls override call output)
    (h' : Answers host calls override call output') : output' = output := by
  obtain ⟨⟨exitCode, stdout, hr⟩, -⟩ := h
  obtain ⟨⟨exitCode', stdout', hr'⟩, -⟩ := h'
  have hsame := hr'.symm.trans hr
  simp_all

theorem Answers.not_silent {calls : List Call} {call : Call} {output : List String}
    (h : Answers host calls override call output) : ¬ Silent host calls override call := by
  obtain ⟨⟨exitCode, stdout, hr⟩, huseful⟩ := h
  intro hs
  cases hs with
  | launch hr' => simp_all
  | @defines exitCode' stdout' output' hr' hno hname =>
    obtain ⟨rfl, rfl, rfl⟩ : exitCode' = exitCode ∧ stdout' = stdout ∧ output' = output := by
      simpa using hr'.symm.trans hr
    rcases huseful with ⟨line, hline, hd⟩ | hnamed
    · exact hno line hline hd
    · exact hnamed hname

theorem Family.tag_injective {f g : Family} (h : f.tag = g.tag) : f = g := by
  have hf := Family.ofTag?_tag f
  rw [h, Family.ofTag?_tag g] at hf
  exact (Option.some.inj hf).symm

theorem Family.ofBuild_eq_ok {name : Option String} :
    Family.ofBuild name = .ok family ↔ name = some family.tag := by
  constructor
  · intro h
    cases name with
    | none => simp [Family.ofBuild] at h
    | some name =>
      by_cases hn : name = ""
      · simp [Family.ofBuild, hn] at h
      · cases ho : Family.ofTag? name with
        | none => simp [Family.ofBuild, hn, ho] at h
        | some f =>
          have hf : f.tag = name := by simpa using List.find?_some ho
          obtain rfl : f = family := by simpa [Family.ofBuild, hn, ho] using h
          rw [hf]
  · rintro rfl
    have htag : family.tag ≠ "" := by cases family <;> decide
    simp [Family.ofBuild, htag, Family.ofTag?_tag]

theorem perform_discover_of_override_error {e : Settings.Error} (hf : family ≠ .msvc)
    (ho : overrideFor settings srcdir language = .error e) :
    (discover srcdir command language family vars settings).perform host j =
      (.error (.failed (.settings e)), j) := by
  simp [discover, hf, ho, perform_bind]

/-- How asking a compiler for its defaults ends. -/
inductive DiscoverRun (host : Host) (j : Journal) (override : Option (List String)) (call : Call)
    (found : List String → Compiler) : Except (Halt DiscoveryError) Compiler → Journal → Prop
  | interrupted {text : String} : host.runner j.calls call = .interrupted text →
      DiscoverRun host j override call found (.error (.interrupted text)) (j ++ [.called call])
  | raised {t : Trouble} : host.runner j.calls call = .raised t →
      DiscoverRun host j override call found (.error (.fault (.outside t))) (j ++ [.called call])
  | silent {e : DiscoveryError} {j' : Journal} : Silent host j.calls override call →
      j'.calls = j.calls ++ [call] →
      DiscoverRun host j override call found (.error (.failed e)) j'
  | found {output : List String} {j' : Journal} : Answers host j.calls override call output →
      j'.calls = j.calls ++ [call] →
      DiscoverRun host j override call found (.ok (found output)) j'

theorem answers_or_silent (language : Language) (family : Family) (vars : Fragment.Variables)
    (override : Option (List String)) {calls : List Call} {call : Call} {exitCode : Int}
    {stdout output : List String}
    (hr : host.runner calls call = .finished exitCode stdout output) :
    (usable (baselineOf host language family override vars output) = true ∧
        Answers host calls override call output) ∨
      (usable (baselineOf host language family override vars output) = false ∧
        Silent host calls override call) := by
  cases hu : usable (baselineOf host language family override vars output) with
  | false =>
    obtain ⟨hno, hname⟩ := (usable_read_eq_false _ _ _ _ _).mp hu
    exact .inr ⟨rfl, .defines hr hno hname⟩
  | true =>
    refine .inl ⟨rfl, ⟨⟨exitCode, stdout, hr⟩, ?_⟩⟩
    by_cases hname : overrideName override = ""
    · left
      have hsome : ¬ ∀ line ∈ output, ¬ CompilerReport.DefinesMacro line := by
        intro hno
        have hfalse := (usable_read_eq_false output language family override
          (sdk? host.platform vars)).mpr ⟨hno, hname⟩
        rw [baselineOf, hfalse] at hu
        cases hu
      simpa using hsome
    · exact .inr hname

theorem discoverRun_perform (host : Host) (j : Journal) (command : List String)
    (vars : Fragment.Variables) (hf : family ≠ .msvc)
    (ho : overrideFor settings srcdir language = .ok override) :
    DiscoverRun host j override
      (probeCall host srcdir (override.getD command) language family vars)
      (fun output => { srcdir, command, language, family, settings,
                       baseline := baselineOf host language family override vars output })
      ((discover srcdir command language family vars settings).perform host j).1
      ((discover srcdir command language family vars settings).perform host j).2 := by
  simp only [discover, hf, if_false, ho, perform_bind, perform_ofExcept_ok, perform_host,
    perform_handle, perform_run]
  rcases hr : host.runner j.calls
    (probeCall host srcdir (override.getD command) language family vars) with
    ⟨exitCode, stdout, output⟩ | reason | text | t
  · have hends := answers_or_silent language family vars override hr
    rw [probeCall] at hr
    rw [baselineOf] at hends
    simp only [hr]
    rcases hends with ⟨hu, hanswers⟩ | ⟨hu, hsilent⟩
    · cases h0 : exitCode == 0 <;> simp only [Outcome.success, h0, hu, Bool.not_true,
        Bool.not_false, Bool.false_eq_true, if_true, if_false, perform_bind, perform_warn,
        perform_info, perform_pure] <;> exact .found hanswers (by simp [probeCall])
    · cases h0 : exitCode == 0 <;> simp only [Outcome.success, h0, hu, Bool.not_true,
        Bool.not_false, Bool.false_eq_true, if_true, if_false, perform_bind, perform_warn,
        perform_error, perform_fail] <;> exact .silent hsilent (by simp [probeCall])
  · rw [probeCall] at hr
    rw [hr]
    exact .silent (.launch hr) (by simp [probeCall])
  · rw [probeCall] at hr
    rw [hr]
    exact .interrupted hr
  · rw [probeCall] at hr
    rw [hr]
    exact .raised hr

end Compiler
end MachTree
