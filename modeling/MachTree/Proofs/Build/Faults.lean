import MachTree.Proofs.Build.Probe

/-! Faults of setting up a build.  They are all that keeps a probe from reporting a stage, but for
an interrupt: a failure of any step is reported, a fault of one goes through. -/
namespace MachTree
namespace Build

open Activity

variable {host : Host} {j j' : Journal} {root srcdir : Path} {given : Option Settings}
  {s : Settings} {command : List String} {env : Environment} {vars : Fragment.Variables}
  {showProgress : Bool} {f : Fault}

theorem perform_settingsOf_of_inForce (h : InForce host j srcdir given s) :
    (settingsOf srcdir given).perform host j = (.ok s, j) := by
  cases h with
  | given => rfl
  | loaded hh hv => exact perform_mapError_eq_ok.mpr (Settings.perform_load_of_holds hh hv)

theorem perform_environmentOf_of_known (h : Known host j srcdir given s command env) :
    (environmentOf (machOf srcdir s)).perform host j = (.ok env, afterMach j srcdir s command) := by
  obtain ⟨reported, expected, hp, hq, hsame⟩ := h.knows.sameTree
  rw [perform_environmentOf_of_reports h.effective h.knows.reports, hp, hq]
  simp [hsame, afterMach, machCall]

theorem perform_attempt_of_hasMach (hd : ¬ Adrift host root)
    (hm : HasMach host (Path.absolute host.cwd root)) :
    (attempt root given showProgress).perform host j =
      (attemptIn (Path.absolute host.cwd root) given showProgress).perform host j := by
  have hfile : host.files.isFile host.cwd ((Path.absolute host.cwd root).child machFile) =
      .ok true := hm
  rw [perform_attempt hd, hfile]

theorem perform_attempt_of_known (hd : ¬ Adrift host root)
    (hm : HasMach host (Path.absolute host.cwd root))
    (h : Known host j (Path.absolute host.cwd root) given s command env) :
    (attempt root given showProgress).perform host j =
      (attemptKnown (Path.absolute host.cwd root) s env showProgress).perform host
        (afterMach j (Path.absolute host.cwd root) s command) := by
  rw [perform_attempt_of_hasMach hd hm, attemptIn,
    perform_bind_of_ok (perform_settingsOf_of_inForce h.settings),
    perform_bind_of_ok (perform_environmentOf_of_known h)]

/-- The journal when the variables of a build have been read. -/
def afterFragment (host : Host) (j : Journal) (srcdir : Path) (s : Settings)
    (command : List String) (env : Environment) : Journal :=
  afterMach j srcdir s command ++ [Fragment.note (basePath host env)]

@[simp] theorem calls_afterFragment : (afterFragment host j srcdir s command env).calls =
    j.calls ++ [machCall srcdir s command] := by
  simp [afterFragment, afterMach, Fragment.note]

/-- With the variables of a build known and its compilers named, the C compiler is asked for. -/
theorem perform_attempt_of_configured (hd : ¬ Adrift host root)
    (hm : HasMach host (Path.absolute host.cwd root))
    (h : Configured host j (Path.absolute host.cwd root) given s command env vars)
    {cc cxx : String} (hcc : vars.get? "_CC" = some cc ∧ cc ≠ "")
    (hcxx : vars.get? "_CXX" = some cxx ∧ cxx ≠ "") :
    (attempt root given showProgress).perform host j = (do
      let c ← compilerIn (Path.absolute host.cwd root) cc .c vars s
      findCpp (Path.absolute host.cwd root) s env vars showProgress c cxx).perform host
        (afterFragment host j (Path.absolute host.cwd root) s command env) := by
  rw [perform_attempt_of_known hd hm h.known, attemptKnown, perform_bind_of_ok perform_host,
    perform_bind_of_ok (perform_mapError_eq_ok.mpr (Fragment.perform_load_of_reads h.fragment)),
    findCompilers, filled?_eq_some.mpr hcc, filled?_eq_some.mpr hcxx]
  rfl

theorem perform_compilerIn_of_found {language : Language} {call : Call} {c : Compiler}
    {name : String} (h : Found host j.calls srcdir s vars language call c)
    (hname : vars.get? (programVariable language) = some name) :
    ∃ j', (compilerIn srcdir name language vars s).perform host j = (.ok c, j') ∧
      j'.calls = j.calls ++ [call] := by
  obtain ⟨name', family, override, output, ⟨hnamed, hasks, rfl⟩, hanswers, rfl⟩ := h
  obtain rfl : name = name' := Option.some.inj (hname.symm.trans hnamed.1)
  exact perform_compilerIn_of_answers hasks hanswers

theorem perform_attempt_of_found (showProgress : Bool) (hd : ¬ Adrift host root)
    (hm : HasMach host (Path.absolute host.cwd root))
    (hconf : Configured host j (Path.absolute host.cwd root) given s command env vars)
    {cCall : Call} {cCompiler : Compiler} {cxx : String}
    (hc : Found host (j.calls ++ [machCall (Path.absolute host.cwd root) s command])
      (Path.absolute host.cwd root) s vars .c cCall cCompiler)
    (hcxx : vars.get? "_CXX" = some cxx ∧ cxx ≠ "") :
    ∃ j', (attempt root given showProgress).perform host j =
        (findCpp (Path.absolute host.cwd root) s env vars showProgress cCompiler cxx).perform host
          j' ∧
      j'.calls = j.calls ++ [machCall (Path.absolute host.cwd root) s command, cCall] := by
  obtain ⟨cc, -, -, ⟨hcc, -, -⟩⟩ := hc.callable
  rw [← calls_afterFragment] at hc
  obtain ⟨j', hrun, hcalls⟩ := perform_compilerIn_of_found hc hcc.1
  rw [calls_afterFragment, List.append_assoc] at hcalls
  refine ⟨j', ?_, hcalls⟩
  rw [perform_attempt_of_configured hd hm hconf hcc hcxx, perform_bind_of_ok hrun]

theorem isSome_of_probe {ε : Type} {stage : Stage} {build : Option Build}
    (h : ((probe root given showProgress : Activity ε _).perform host j).1 = .ok (stage, build)) :
    build.isSome ↔ stage = .ready := by
  rw [perform_probe] at h
  generalize (attempt root given showProgress).perform host j = run at h
  rcases run with ⟨(text | f | e) | b, j'⟩
  · simp at h
  · simp at h
  · obtain ⟨rfl, rfl⟩ : e.stage = stage ∧ none = build := by simpa using h
    cases e <;> simp [ProbeError.stage]
  · obtain ⟨rfl, rfl⟩ : Stage.ready = stage ∧ some b = build := by simpa using h
    simp

end Build
end MachTree
