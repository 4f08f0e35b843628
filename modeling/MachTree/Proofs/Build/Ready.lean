import MachTree.Proofs.Build.Faults

/-! Builds that are ready.  A probe comes to its end just when all that a build needs is found on
the way, and the build is made of what was found. -/
namespace MachTree

open Activity

variable {host : Host} {j : Journal} {root srcdir : Path} {given : Option Settings}
  {s : Settings} {command : List String} {vars : Fragment.Variables} {showProgress : Bool}

namespace Build

variable {language : Language} {call : Call} {c : Compiler} {b : Build} {cCall cppCall : Call}

section SetUp

variable (hd : ¬ Adrift host root) (hm : HasMach host (Path.absolute host.cwd root))
  (h : SetUp host j (Path.absolute host.cwd root) given s command vars cCall cppCall b)
include hd hm h

theorem perform_attempt_of_setUp : ∃ j',
    (attempt root given b.showProgress).perform host j = (.ok b, j') ∧
    j'.calls = j.calls ++ [machCall (Path.absolute host.cwd root) s command, cCall, cppCall] := by
  obtain ⟨mach, srcdir, env, cCompiler, cppCompiler, showProgress⟩ := b
  obtain ⟨hconf, hc, hcpp, rfl, rfl⟩ := h
  obtain ⟨cxx, -, -, ⟨hcxx, -, -⟩⟩ := hcpp.callable
  obtain ⟨j₁, hrun, hcalls⟩ := perform_attempt_of_found showProgress hd hm hconf hc hcxx
  rw [← hcalls] at hcpp
  obtain ⟨j₂, hrun', hcalls'⟩ := perform_compilerIn_of_found hcpp hcxx.1
  refine ⟨j₂, ?_, by simp [hcalls', hcalls]⟩
  rw [hrun, findCpp, perform_bind_of_ok hrun']
  rfl

theorem perform_probe_of_setUp (ε : Type) : ∃ j',
    (probe root given b.showProgress : Activity ε _).perform host j =
      (.ok (.ready, some b), j') ∧
    j'.calls = j.calls ++ [machCall (Path.absolute host.cwd root) s command, cCall, cppCall] := by
  obtain ⟨j', hrun, hcalls⟩ := perform_attempt_of_setUp hd hm h
  exact ⟨j', by rw [perform_probe, hrun], hcalls⟩

theorem probe_of_setUp (ε : Type) :
    ((probe root given b.showProgress : Activity ε _).perform host j).1 =
      .ok (.ready, some b) := by
  obtain ⟨j', hrun, -⟩ := perform_probe_of_setUp hd hm h ε
  rw [hrun]

end SetUp

/-- A probe that comes to its end has found all that its build takes. -/
theorem setUp_of_probe {ε : Type}
    (h : ((probe root given showProgress : Activity ε _).perform host j).1 =
      .ok (.ready, some b)) :
    ∃ s command vars cCall cppCall,
      SetUp host j (Path.absolute host.cwd root) given s command vars cCall cppCall b := by
  rw [perform_probe] at h
  by_cases hd : Adrift host root
  · rw [perform_attempt_of_adrift hd] at h
    cases h
  · have hrun := attempt_run j given showProgress hd
    generalize (attempt root given showProgress).perform host j = run at h hrun
    obtain ⟨r, j'⟩ := run
    cases hrun with
    | setUp hm hs hcalls =>
      obtain rfl := Option.some.inj (Prod.mk.inj (Except.ok.inj h)).2
      exact ⟨_, _, _, _, _, hs⟩
    | noMach | environment | compilers | faults | interrupted => simp at h

theorem Found.exists_state {calls : List Call}
    (h : Found host calls srcdir s vars language call c) : ∃ json, c.state = .ok json := by
  obtain ⟨name, family, override, output, ⟨-, hasks, -⟩, -, rfl⟩ := h
  have hcommand : Compiler.overrideFor (some s) srcdir language = .ok override := hasks.command
  simp [Compiler.state, compilerOfOutput, hcommand, Except.map]

theorem SetUp.exists_state (h : SetUp host j srcdir given s command vars cCall cppCall b)
    (platform : Platform) : ∃ json, b.state platform = .ok json := by
  obtain ⟨c, hc⟩ := h.c.exists_state
  obtain ⟨cpp, hcpp⟩ := h.cpp.exists_state
  obtain ⟨mach, hmach⟩ : ∃ mach, b.mach.state = .ok mach := by
    have heffective := h.configured.known.effective
    rw [h.mach]
    cases ho : (machOf srcdir s).override? with
    | ok override => simp [Mach.state, ho, Except.map]
    | error e => simp [Mach.effectiveCommand, ho, Except.map] at heffective
  simp [state, hmach, hc, hcpp, bind, Except.bind, pure, Except.pure]

end Build
end MachTree
