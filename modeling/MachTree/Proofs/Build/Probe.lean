import MachTree.Proofs.Build.Attempt

/-! Stages of setting up a build: the stage that is reported says exactly what was wrong. -/
namespace MachTree
namespace Build

open Activity

variable {host : Host} {j j' : Journal} {root srcdir : Path} {given : Option Settings}
  {s : Settings} {command : List String} {env : Environment} {vars : Fragment.Variables}
  {showProgress : Bool}

/-- How setting up the build of a tree ends. -/
inductive AttemptRun (host : Host) (j : Journal) (srcdir : Path) (given : Option Settings) :
    Except (Halt ProbeError) Build → Journal → Prop
  | noMach {j' : Journal} : host.files.isFile host.cwd (srcdir.child machFile) = .ok false →
      j'.calls = j.calls →
      AttemptRun host j srcdir given (.error (.failed (.noMach srcdir))) j'
  | environment {e : ProbeError} {made : List Call} {j' : Journal} : HasMach host srcdir →
      EnvironmentFails host j srcdir given → e.stage = .environmentFailed →
      CallsMade host j srcdir given made → j'.calls = j.calls ++ made →
      AttemptRun host j srcdir given (.error (.failed e)) j'
  | compilers {s : Settings} {command : List String} {env : Environment} {e : ProbeError}
      {made : List Call} {j' : Journal} : HasMach host srcdir →
      Known host j srcdir given s command env → CompilersFail host j srcdir given →
      e.stage = .compilersFailed → CallsMade host j srcdir given made →
      j'.calls = j.calls ++ made → AttemptRun host j srcdir given (.error (.failed e)) j'
  | setUp {s : Settings} {command : List String} {vars : Fragment.Variables}
      {cCall cppCall : Call} {b : Build} {j' : Journal} : HasMach host srcdir →
      SetUp host j srcdir given s command vars cCall cppCall b →
      j'.calls = j.calls ++ [machCall srcdir s command, cCall, cppCall] →
      AttemptRun host j srcdir given (.ok b) j'
  | faults {f : Fault} {made : List Call} {j' : Journal} : Faults host j srcdir given f →
      CallsMade host j srcdir given made → j'.calls = j.calls ++ made →
      AttemptRun host j srcdir given (.error (.fault f)) j'
  | interrupted {text : String} (made : List Call) (call : Call) {j' : Journal} :
      CallsMade host j srcdir given (made ++ [call]) →
      host.runner (j.calls ++ made) call = .interrupted text →
      j'.calls = j.calls ++ (made ++ [call]) →
      AttemptRun host j srcdir given (.error (.interrupted text)) j'

/-- What is left to do once the C compiler of a build is found. -/
def findCpp (srcdir : Path) (s : Settings) (env : Environment) (vars : Fragment.Variables)
    (showProgress : Bool) (cCompiler : Compiler) (cxx : String) : Activity ProbeError Build := do
  let cppCompiler ← compilerIn srcdir cxx .cpp vars s
  let mach := machOf srcdir s
  pure { mach, srcdir, environment := env, cCompiler, cppCompiler, showProgress }

/-- What is left to do once the variables of a build are known. -/
def findCompilers (srcdir : Path) (s : Settings) (env : Environment) (vars : Fragment.Variables)
    (showProgress : Bool) : Activity ProbeError Build :=
  match filled? vars "_CC", filled? vars "_CXX" with
  | none, _ => Activity.fail (.noCompiler .c)
  | some _, none => Activity.fail (.noCompiler .cpp)
  | some cc, some cxx => do
    let cCompiler ← compilerIn srcdir cc .c vars s
    findCpp srcdir s env vars showProgress cCompiler cxx

/-- What is left to do once the environment of a tree is known. -/
def attemptKnown (srcdir : Path) (s : Settings) (env : Environment) (showProgress : Bool) :
    Activity ProbeError Build := do
  let host ← Activity.host
  let vars ← (Fragment.load (basePath host env) ∅).mapError .fragment
  findCompilers srcdir s env vars showProgress

/-- What is left to do once a tree is known to have a mach. -/
def attemptIn (srcdir : Path) (given : Option Settings) (showProgress : Bool) :
    Activity ProbeError Build := do
  let s ← settingsOf srcdir given
  let env ← environmentOf (machOf srcdir s)
  attemptKnown srcdir s env showProgress

theorem attempt_eq : attempt root given showProgress = (do
    let srcdir ← Activity.absolute root
    if !(← Activity.isFile (srcdir.child machFile)) then Activity.fail (.noMach srcdir)
    attemptIn srcdir given showProgress) := by
  rfl

theorem filled?_eq_none {name : String} :
    filled? vars name = none ↔ (vars.get? name).getD "" = "" := by
  rw [filled?]
  cases vars.get? name with
  | none => simp
  | some value => by_cases hv : value = "" <;> simp [Option.filter, hv]

theorem filled?_eq_some {name value : String} :
    filled? vars name = some value ↔ vars.get? name = some value ∧ value ≠ "" := by
  simp [filled?, Option.filter_eq_some_iff]

/-- With the C compiler of a build found, the rest comes to what its C++ compiler comes to. -/
theorem findCpp_run {cCall : Call} {cCompiler : Compiler} {cxx : String} (hm : HasMach host srcdir)
    (hconf : Configured host j srcdir given s command env vars)
    (hcxx : vars.get? "_CXX" = some cxx ∧ cxx ≠ "")
    (hc : Found host (j.calls ++ [machCall srcdir s command]) srcdir s vars .c cCall cCompiler)
    (hj : j'.calls = j.calls ++ [machCall srcdir s command, cCall]) :
    AttemptRun host j srcdir given
      ((findCpp srcdir s env vars showProgress cCompiler cxx).perform host j').1
      ((findCpp srcdir s env vars showProgress cCompiler cxx).perform host j').2 := by
  obtain ⟨cc, cFamily, cOverride, hccall⟩ := hc.callable
  have hmade : CallsMade host j srcdir given [machCall srcdir s command, cCall] :=
    .c hm hconf (by simp [programVariable, hcxx]) hccall
  rw [findCpp]
  have hrun := compilerRun_perform host j' srcdir s vars .cpp cxx
  generalize hcpp : (compilerIn srcdir cxx .cpp vars s).perform host j' = run at hrun
  obtain ⟨r, j₁⟩ := run
  cases hrun with
  | family hclang hcl =>
    rw [perform_bind_of_error hcpp]
    exact .compilers hm hconf.known (.type hconf hclang hcl) rfl hmade hj
  | override he =>
    rw [perform_bind_of_error hcpp]
    exact .compilers hm hconf.known (.override .cpp hconf he) rfl hmade hj
  | interrupted hasks hr =>
    rw [perform_bind_of_error hcpp]
    have hcall : Callable host srcdir s vars .cpp cxx _ _ _ := ⟨hcxx, hasks, rfl⟩
    rw [hj] at hr
    exact .interrupted [machCall srcdir s command, cCall] _ (.cpp hm hconf hc hcall) hr
      (by simp [hj])
  | raised hasks hr =>
    rw [perform_bind_of_error hcpp]
    have hcall : Callable host srcdir s vars .cpp cxx _ _ _ := ⟨hcxx, hasks, rfl⟩
    rw [hj] at hr
    exact .faults (.cpp hm hconf hc hcall hr) (.cpp hm hconf hc hcall) (by simp [hj])
  | silent hasks hs hcalls =>
    rw [perform_bind_of_error hcpp]
    have hcall : Callable host srcdir s vars .cpp cxx _ _ _ := ⟨hcxx, hasks, rfl⟩
    rw [hj] at hs hcalls
    exact .compilers hm hconf.known (.cpp hconf hc hcall hs) rfl (.cpp hm hconf hc hcall)
      (by simp [hcalls])
  | found hasks ha hcalls =>
    rw [perform_bind_of_ok hcpp]
    have hcall : Callable host srcdir s vars .cpp cxx _ _ _ := ⟨hcxx, hasks, rfl⟩
    rw [hj] at ha hcalls
    exact .setUp hm ⟨hconf, hc, ⟨_, _, _, _, hcall, ha, rfl⟩, rfl, rfl⟩ (by simp [hcalls])

theorem findCompilers_run (hm : HasMach host srcdir)
    (hconf : Configured host j srcdir given s command env vars)
    (hj : j'.calls = j.calls ++ [machCall srcdir s command]) :
    AttemptRun host j srcdir given
      ((findCompilers srcdir s env vars showProgress).perform host j').1
      ((findCompilers srcdir s env vars showProgress).perform host j').2 := by
  have hmade : CallsMade host j srcdir given [machCall srcdir s command] :=
    .mach hm hconf.known.settings hconf.known.effective
  rw [findCompilers]
  rcases hcc : filled? vars "_CC" with _ | cc
  · exact .compilers hm hconf.known (.name .c hconf (filled?_eq_none.mp hcc)) rfl hmade hj
  rcases hcxx : filled? vars "_CXX" with _ | cxx
  · exact .compilers hm hconf.known (.name .cpp hconf (filled?_eq_none.mp hcxx)) rfl hmade hj
  have hncxx : (vars.get? (programVariable .cpp)).getD "" ≠ "" := by
    rw [programVariable, (filled?_eq_some.mp hcxx).1]
    exact (filled?_eq_some.mp hcxx).2
  simp only
  -- the C compiler is asked first; the C++ compiler only if it has been found
  have hcrun := compilerRun_perform host j' srcdir s vars .c cc
  generalize hc : (compilerIn srcdir cc .c vars s).perform host j' = run at hcrun
  obtain ⟨r, j₁⟩ := run
  cases hcrun with
  | family hclang hcl =>
    rw [perform_bind_of_error hc]
    exact .compilers hm hconf.known (.type hconf hclang hcl) rfl hmade hj
  | override he =>
    rw [perform_bind_of_error hc]
    exact .compilers hm hconf.known (.override .c hconf he) rfl hmade hj
  | interrupted hasks hr =>
    rw [perform_bind_of_error hc]
    have hcall : Callable host srcdir s vars .c cc _ _ _ := ⟨filled?_eq_some.mp hcc, hasks, rfl⟩
    exact .interrupted [machCall srcdir s command] _ (.c hm hconf hncxx hcall)
      (by rw [← hj]; exact hr) (by simp [hj])
  | raised hasks hr =>
    rw [perform_bind_of_error hc]
    have hcall : Callable host srcdir s vars .c cc _ _ _ := ⟨filled?_eq_some.mp hcc, hasks, rfl⟩
    rw [hj] at hr
    exact .faults (.c hm hconf hncxx hcall hr) (.c hm hconf hncxx hcall) (by simp [hj])
  | silent hasks hs hcalls =>
    rw [perform_bind_of_error hc]
    have hcall : Callable host srcdir s vars .c cc _ _ _ := ⟨filled?_eq_some.mp hcc, hasks, rfl⟩
    rw [hj] at hs hcalls
    exact .compilers hm hconf.known (.c hconf hcall hs) rfl (.c hm hconf hncxx hcall)
      (by simp [hcalls])
  | found hasks ha hcalls =>
    rw [perform_bind_of_ok hc]
    have hcall : Callable host srcdir s vars .c cc _ _ _ := ⟨filled?_eq_some.mp hcc, hasks, rfl⟩
    rw [hj] at ha hcalls
    exact findCpp_run hm hconf (filled?_eq_some.mp hcxx) ⟨_, _, _, _, hcall, ha, rfl⟩
      (by simp [hcalls])

theorem attemptKnown_run (hm : HasMach host srcdir) (hk : Known host j srcdir given s command env) :
    AttemptRun host j srcdir given
      ((attemptKnown srcdir s env showProgress).perform host (afterMach j srcdir s command)).1
      ((attemptKnown srcdir s env showProgress).perform host (afterMach j srcdir s command)).2 := by
  have hmade : CallsMade host j srcdir given [machCall srcdir s command] :=
    .mach hm hk.settings hk.effective
  have hj (path : Path) : (afterMach j srcdir s command ++ [Fragment.note path]).calls =
      j.calls ++ [machCall srcdir s command] := by
    simp [afterMach, Fragment.note]
  rw [attemptKnown, perform_bind_of_ok perform_host]
  have hrun := Fragment.loadRun_perform host (afterMach j srcdir s command) (basePath host env)
  generalize hl : (Fragment.load (basePath host env) ∅).perform host
    (afterMach j srcdir s command) = run at hrun
  obtain ⟨r, j₁⟩ := run
  cases hrun with
  | name hn =>
    rw [perform_bind_of_error (perform_mapError_eq_fault.mpr hl)]
    exact .faults (.fragment hm hk hn) hmade (hj _)
  | unreadable hu =>
    rw [perform_bind_of_error (perform_mapError_eq_failed.mpr ⟨_, hl, rfl⟩)]
    exact .compilers hm hk (.fragment hk hu) rfl hmade (hj _)
  | reads hr =>
    rw [perform_bind_of_ok (perform_mapError_eq_ok.mpr hl)]
    exact findCompilers_run hm ⟨hk, hr⟩ (hj _)

theorem perform_settingsOf (host : Host) (j : Journal) (srcdir : Path) (given : Option Settings) :
    (∃ s, (settingsOf srcdir given).perform host j = (.ok s, j) ∧
        InForce host j srcdir given s) ∨
      (∃ e, (settingsOf srcdir given).perform host j = (.error (.failed (.settings srcdir e)), j) ∧
        given = none ∧ Settings.Unusable host j srcdir) ∨
      ∃ f, (settingsOf srcdir given).perform host j = (.error (.fault f), j) ∧
        given = none ∧ Settings.Faults host j srcdir f := by
  cases given with
  | some s => exact .inl ⟨s, rfl, .given s⟩
  | none =>
    obtain ⟨r, hl, hrun⟩ := Settings.perform_load host j srcdir
    cases hrun with
    | holds hh hv => exact .inl ⟨_, perform_mapError_eq_ok.mpr hl, .loaded hh hv⟩
    | unusable hu =>
      exact .inr (.inl ⟨_, perform_mapError_eq_failed.mpr ⟨_, hl, rfl⟩, rfl, hu⟩)
    | faults hf => exact .inr (.inr ⟨_, perform_mapError_eq_fault.mpr hl, rfl, hf⟩)

theorem attemptIn_run (hm : HasMach host srcdir) :
    AttemptRun host j srcdir given ((attemptIn srcdir given showProgress).perform host j).1
      ((attemptIn srcdir given showProgress).perform host j).2 := by
  rw [attemptIn]
  rcases perform_settingsOf host j srcdir given with
    ⟨s, hl, hs⟩ | ⟨e, hl, hnone, hu⟩ | ⟨f, hl, hnone, hf⟩
  · rw [perform_bind_of_ok hl]
    have hrun := environmentRun_perform host j (machOf srcdir s)
    generalize he : (environmentOf (machOf srcdir s)).perform host j = run at hrun
    obtain ⟨r, j₁⟩ := run
    cases hrun with
    | override hc =>
      rw [perform_bind_of_error he]
      exact .environment hm (.override hs hc) rfl .none (by simp)
    | interrupted hc hr =>
      rw [perform_bind_of_error he]
      exact .interrupted [] _ (.mach hm hs hc) (by simpa [machCall] using hr)
        (by simp [machCall])
    | fails hc hf hstage hcalls =>
      rw [perform_bind_of_error he]
      exact .environment hm (.mach hs hc hf) hstage (.mach hm hs hc) hcalls
    | faults hc hf =>
      rw [perform_bind_of_error he]
      exact .faults (.mach hm hs hc hf) (.mach hm hs hc) (by simp [machCall])
    | knows hc hk =>
      rw [perform_bind_of_ok he]
      exact attemptKnown_run hm ⟨hs, hc, hk⟩
  · rw [perform_bind_of_error hl]
    exact .environment hm (.settings hnone hu) rfl .none (by simp)
  · rw [perform_bind_of_error hl]
    exact .faults (.settings hm hnone hf) .none (by simp)

theorem perform_attempt_of_adrift (hd : Adrift host root) :
    (attempt root given showProgress).perform host j = (.error (.fault .noCurrentDirectory), j) :=
  perform_bind_of_error (perform_absolute_of_adrift hd)

theorem perform_attempt (hd : ¬ Adrift host root) :
    (attempt root given showProgress).perform host j =
      match host.files.isFile host.cwd ((Path.absolute host.cwd root).child machFile) with
      | .error n => (.error (.fault (.nameTooLong n.path)), j)
      | .ok false => (.error (.failed (.noMach (Path.absolute host.cwd root))), j)
      | .ok true =>
        (attemptIn (Path.absolute host.cwd root) given showProgress).perform host j := by
  rw [attempt_eq, perform_bind_of_ok (perform_absolute_of_not_adrift hd), perform_bind,
    perform_isFile]
  rcases host.files.isFile host.cwd ((Path.absolute host.cwd root).child machFile) with n | isFile
  · rfl
  · cases isFile <;> rfl

/-- An attempt whose tree can be told ends in one of the ways that it may end. -/
theorem attempt_run (j : Journal) (given : Option Settings) (showProgress : Bool)
    (hd : ¬ Adrift host root) :
    AttemptRun host j (Path.absolute host.cwd root) given
      ((attempt root given showProgress).perform host j).1
      ((attempt root given showProgress).perform host j).2 := by
  rw [perform_attempt hd]
  rcases hm : host.files.isFile host.cwd ((Path.absolute host.cwd root).child machFile) with
    n | isFile
  · exact .faults (.name hm) .none (by simp)
  · cases isFile with
    | false => exact .noMach hm rfl
    | true => exact attemptIn_run hm

theorem perform_probe {ε : Type} :
    (probe root given showProgress : Activity ε _).perform host j =
      match (attempt root given showProgress).perform host j with
      | (.ok b, j') => (.ok (.ready, some b), j')
      | (.error (.failed e), j') => (.ok (e.stage, none), j' ++ [.logged e.level e.message])
      | (.error (.fault f), j') => (.error (.fault f), j')
      | (.error (.interrupted text), j') => (.error (.interrupted text), j') := by
  rw [probe, perform_handle, perform_bind]
  rcases (attempt root given showProgress).perform host j with ⟨(text | f | e) | b, j'⟩ <;> rfl

end Build
end MachTree
