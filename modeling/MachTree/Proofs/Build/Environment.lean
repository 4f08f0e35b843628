import MachTree.Proofs.Build.Offline

/-! How a tree's environment is found: by one call of mach with the settings in force, and only if
the tree that mach reports is the tree that was asked for. -/
namespace MachTree

open Activity

variable {host : Host} {j j' : Journal}

namespace Mach

variable {m : Mach} {command : List String}

def environmentCall (m : Mach) (command : List String) : Call :=
  { command := command ++ environmentArgs, cwd := some m.srcdir, env := some m.extraVariables }

/-- Why a text that mach prints is no environment. -/
inductive NotEnvironment (text : String) : Prop
  | malformed {e : Json.Misplaced} : Json.parse text = .error (.malformed e) → NotEnvironment text
  | schema {v : Json} {e : Environment.SchemaError} : Json.parse text = .ok v →
      Environment.ofJson v = .error e → NotEnvironment text

/-- What is wrong with a text that cannot even be told to be no environment. -/
inductive Unreadable (text : String) : Fault → Prop
  | integer {digits : Nat} : Json.parse text = .error (.integerTooLong digits) →
      Unreadable text (.integerTooLong digits)
  | nesting {kind : String} : Json.parse text = .error (.nestedTooDeep kind) →
      Unreadable text (.nestedTooDeep kind)

/-- That a text is the environment it is read as. -/
def IsEnvironment (text : String) (env : Environment) : Prop :=
  ∃ v, Json.parse text = .ok v ∧ Environment.ofJson v = .ok env

theorem readReply_eq_ok {text : String} {env : Environment} :
    readReply text = .ok env ↔ IsEnvironment text env := by
  rw [readReply, IsEnvironment]
  rcases Json.parse text with (e | digits | kind) | v
  · simp
  · simp
  · simp
  · cases hv : Environment.ofJson v <;> simp [hv]

theorem readReply_eq_fault {text : String} {f : Fault} :
    readReply text = .error (.inl f) ↔ Unreadable text f := by
  rw [readReply]
  constructor
  · intro h
    rcases hp : Json.parse text with (e | digits | kind) | v <;> rw [hp] at h
    · simp at h
    · obtain rfl : Fault.integerTooLong digits = f := by simpa using h
      exact .integer hp
    · obtain rfl : Fault.nestedTooDeep kind = f := by simpa using h
      exact .nesting hp
    · cases hv : Environment.ofJson v <;> simp [hv] at h
  · rintro (hp | hp) <;> simp [hp]

theorem notEnvironment_of_readReply {text : String} {e : ReplyError}
    (h : readReply text = .error (.inr e)) : NotEnvironment text := by
  rw [readReply] at h
  rcases hp : Json.parse text with (e | digits | kind) | v <;> rw [hp] at h
  · exact .malformed hp
  · simp at h
  · simp at h
  · cases hv : Environment.ofJson v with
    | ok env => simp [hv] at h
    | error e => exact .schema hp hv

theorem perform_queryEnvironment_of_error {e : Settings.Error} (h : m.effectiveCommand = .error e) :
    m.queryEnvironment.perform host j = (.error (.failed (.settings e)), j) := by
  simp [queryEnvironment, execute, perform_bind, perform_handle, h]

section Called

variable (hc : m.effectiveCommand = .ok command)
include hc

theorem perform_queryEnvironment (host : Host) (j : Journal) :
    m.queryEnvironment.perform host j =
      match host.runner j.calls (m.environmentCall command) with
      | .refused reason => (.error (.failed .noEnvironment), j ++
          [.called (m.environmentCall command), .logged .error ("Unable to run mach: " ++
            (⟨(m.environmentCall command).command, reason⟩ : LaunchError).message)])
      | .interrupted text =>
        (.error (.interrupted text), j ++ [.called (m.environmentCall command)])
      | .raised t => (.error (.fault (.outside t)), j ++ [.called (m.environmentCall command)])
      | .finished exitCode stdout output =>
        if exitCode ≠ 0 then (.error (.failed .noEnvironment), j ++
          [.called (m.environmentCall command), .logged .error ("mach environment failed:\n" ++
            (⟨(m.environmentCall command).command, exitCode, stdout, output⟩ : Outcome).describe)])
        else
          match readReply (String.join stdout) with
          | .ok env => (.ok env, j ++ [.called (m.environmentCall command)])
          | .error (.inl f) => (.error (.fault f), j ++ [.called (m.environmentCall command)])
          | .error (.inr e) => (.error (.failed .noEnvironment), j ++
              [.called (m.environmentCall command), .logged .error
                ("Failed to parse mach environment (" ++ e.message ++ "): " ++
                  String.join stdout)]) := by
  simp only [queryEnvironment, execute, hc, perform_bind, perform_ofExcept_ok, mapError,
    perform_handle, perform_run, environmentCall]
  rcases host.runner j.calls _ with ⟨exitCode, stdout, output⟩ | reason | text | t
  · by_cases h0 : exitCode = 0
    · rcases hr : readReply (String.join stdout) with (f | e) | env <;>
        simp [h0, hr, Outcome.success, perform_bind]
    · simp [h0, Outcome.success, perform_bind]
  · simp [perform_bind]
  · rfl
  · rfl

end Called

def Reports (host : Host) (calls : List Call) (m : Mach) (command : List String)
    (env : Environment) : Prop :=
  ∃ stdout output, host.runner calls (m.environmentCall command) = .finished 0 stdout output ∧
    IsEnvironment (String.join stdout) env

/-- Why a run of mach does not make the environment of its tree known. -/
inductive Fails (host : Host) (calls : List Call) (m : Mach) (command : List String) : Prop
  | launch {reason : String} :
      host.runner calls (m.environmentCall command) = .refused reason →
      Fails host calls m command
  | exit {exitCode : Int} {stdout output : List String} :
      host.runner calls (m.environmentCall command) = .finished exitCode stdout output →
      exitCode ≠ 0 → Fails host calls m command
  | reply {stdout output : List String} :
      host.runner calls (m.environmentCall command) = .finished 0 stdout output →
      NotEnvironment (String.join stdout) → Fails host calls m command
  | otherTree {env : Environment} {reported expected : Path} :
      Reports host calls m command env →
      host.files.resolveText host.cwd host.platform env.topsrcdir = .ok reported →
      host.files.resolve host.cwd m.srcdir = .ok expected →
      reported.normal ≠ expected.normal → Fails host calls m command

/-- The faults that a run of mach leads to. -/
inductive Faults (host : Host) (calls : List Call) (m : Mach) (command : List String) :
    Fault → Prop
  | raised {t : Trouble} : host.runner calls (m.environmentCall command) = .raised t →
      Faults host calls m command (.outside t)
  | reply {stdout output : List String} {f : Fault} :
      host.runner calls (m.environmentCall command) = .finished 0 stdout output →
      Unreadable (String.join stdout) f → Faults host calls m command f
  | topsrcdir {env : Environment} {reason : Files.Unresolved} :
      Reports host calls m command env →
      host.files.resolveText host.cwd host.platform env.topsrcdir = .error reason →
      Faults host calls m command (.ofUnresolved reason)
  | srcdir {env : Environment} {reported : Path} {reason : Files.Unresolved} :
      Reports host calls m command env →
      host.files.resolveText host.cwd host.platform env.topsrcdir = .ok reported →
      host.files.resolve host.cwd m.srcdir = .error reason →
      Faults host calls m command (.ofUnresolved reason)

/-- That a run of mach makes the environment of its tree known. -/
structure Knows (host : Host) (calls : List Call) (m : Mach) (command : List String)
    (env : Environment) : Prop where
  reports : Reports host calls m command env
  sameTree : ∃ reported expected,
    host.files.resolveText host.cwd host.platform env.topsrcdir = .ok reported ∧
      host.files.resolve host.cwd m.srcdir = .ok expected ∧ reported.normal = expected.normal

theorem Reports.unique {calls : List Call} {env env' : Environment}
    (h : Reports host calls m command env) (h' : Reports host calls m command env') :
    env = env' := by
  obtain ⟨stdout, output, hr, v, hv, he⟩ := h
  obtain ⟨stdout', output', hr', v', hv', he'⟩ := h'
  simp_all

end Mach

namespace Build

variable {m : Mach} {command : List String}

/-- How finding the environment of a tree ends. -/
inductive EnvironmentRun (host : Host) (j : Journal) (m : Mach) :
    Except (Halt ProbeError) Environment → Journal → Prop
  | override {e : Settings.Error} : m.effectiveCommand = .error e →
      EnvironmentRun host j m (.error (.failed (.mach m.srcdir (.settings e)))) j
  | interrupted {command : List String} {text : String} : m.effectiveCommand = .ok command →
      host.runner j.calls (m.environmentCall command) = .interrupted text →
      EnvironmentRun host j m (.error (.interrupted text))
        (j ++ [.called (m.environmentCall command)])
  | fails {command : List String} {e : ProbeError} {j' : Journal} :
      m.effectiveCommand = .ok command → m.Fails host j.calls command →
      e.stage = .environmentFailed → j'.calls = j.calls ++ [m.environmentCall command] →
      EnvironmentRun host j m (.error (.failed e)) j'
  | faults {command : List String} {f : Fault} : m.effectiveCommand = .ok command →
      m.Faults host j.calls command f →
      EnvironmentRun host j m (.error (.fault f)) (j ++ [.called (m.environmentCall command)])
  | knows {command : List String} {env : Environment} : m.effectiveCommand = .ok command →
      m.Knows host j.calls command env →
      EnvironmentRun host j m (.ok env) (j ++ [.called (m.environmentCall command)])

theorem perform_environmentOf_of_error {e : Settings.Error} (h : m.effectiveCommand = .error e) :
    (environmentOf m).perform host j = (.error (.failed (.mach m.srcdir (.settings e))), j) :=
  perform_bind_of_error (perform_mapError_eq_failed.mpr
    ⟨.settings e, Mach.perform_queryEnvironment_of_error h, rfl⟩)

section Called

variable (hc : m.effectiveCommand = .ok command)
include hc

theorem perform_environmentOf_of_reports {env : Environment}
    (h : m.Reports host j.calls command env) :
    (environmentOf m).perform host j =
      match host.files.resolveText host.cwd host.platform env.topsrcdir with
      | .error reason =>
        (.error (.fault (.ofUnresolved reason)), j ++ [.called (m.environmentCall command)])
      | .ok reported =>
        match host.files.resolve host.cwd m.srcdir with
        | .error reason =>
          (.error (.fault (.ofUnresolved reason)), j ++ [.called (m.environmentCall command)])
        | .ok expected =>
          if reported.normal = expected.normal then
            (.ok env, j ++ [.called (m.environmentCall command)])
          else
            (.error (.failed (.otherTree m.srcdir env.topsrcdir)),
              j ++ [.called (m.environmentCall command)]) := by
  obtain ⟨stdout, output, hr, henv⟩ := h
  have hquery : m.queryEnvironment.perform host j =
      (.ok env, j ++ [.called (m.environmentCall command)]) := by
    rw [Mach.perform_queryEnvironment hc host j, hr]
    simp [Mach.readReply_eq_ok.mpr henv]
  rw [environmentOf, perform_bind_of_ok (perform_mapError_eq_ok.mpr hquery), perform_bind,
    perform_resolveText]
  rcases host.files.resolveText host.cwd host.platform env.topsrcdir with reason | reported
  · rfl
  · simp only [perform_bind, perform_resolve]
    rcases host.files.resolve host.cwd m.srcdir with reason | expected
    · rfl
    · by_cases hsame : reported.normal = expected.normal <;> simp [hsame]

theorem perform_environmentOf_of_faults {f : Fault} (h : m.Faults host j.calls command f) :
    (environmentOf m).perform host j =
      (.error (.fault f), j ++ [.called (m.environmentCall command)]) := by
  cases h with
  | raised hr =>
    refine perform_bind_of_error (perform_mapError_eq_fault.mpr ?_)
    rw [Mach.perform_queryEnvironment hc host j, hr]
  | reply hr hf =>
    refine perform_bind_of_error (perform_mapError_eq_fault.mpr ?_)
    rw [Mach.perform_queryEnvironment hc host j, hr]
    simp [Mach.readReply_eq_fault.mpr hf]
  | topsrcdir hr hq => rw [perform_environmentOf_of_reports hc hr, hq]
  | srcdir hr hp hq => rw [perform_environmentOf_of_reports hc hr, hp, hq]

end Called

theorem environmentRun_of_reports (hc : m.effectiveCommand = .ok command) {env : Environment}
    (h : m.Reports host j.calls command env) :
    EnvironmentRun host j m ((environmentOf m).perform host j).1
      ((environmentOf m).perform host j).2 := by
  rw [perform_environmentOf_of_reports hc h]
  rcases hp : host.files.resolveText host.cwd host.platform env.topsrcdir with
    reason | reported
  · exact .faults hc (.topsrcdir h hp)
  · rcases hq : host.files.resolve host.cwd m.srcdir with reason | expected
    · exact .faults hc (.srcdir h hp hq)
    · by_cases hsame : reported.normal = expected.normal
      · simp only [hsame, if_true]
        exact .knows hc ⟨h, reported, expected, hp, hq, hsame⟩
      · simp only [hsame, if_false]
        exact .fails hc (.otherTree h hp hq hsame) rfl (by simp)

theorem environmentRun_perform (host : Host) (j : Journal) (m : Mach) :
    EnvironmentRun host j m ((environmentOf m).perform host j).1
      ((environmentOf m).perform host j).2 := by
  cases hc : m.effectiveCommand with
  | error e =>
    rw [perform_environmentOf_of_error hc]
    exact .override hc
  | ok command =>
    have hquery := Mach.perform_queryEnvironment hc host j
    rcases hr : host.runner j.calls (m.environmentCall command) with
      ⟨exitCode, stdout, output⟩ | reason | text | t
    · by_cases h0 : exitCode = 0
      · subst h0
        rcases hreply : Mach.readReply (String.join stdout) with (f | e) | env
        · have hf := Mach.Faults.reply hr (Mach.readReply_eq_fault.mp hreply)
          rw [perform_environmentOf_of_faults hc hf]
          exact .faults hc hf
        · have hfails := Mach.Fails.reply hr (Mach.notEnvironment_of_readReply hreply)
          simp only [hr, hreply, ne_eq, not_true_eq_false, if_false] at hquery
          rw [environmentOf,
            perform_bind_of_error (perform_mapError_eq_failed.mpr ⟨_, hquery, rfl⟩)]
          exact .fails hc hfails rfl (by simp)
        · exact environmentRun_of_reports hc
            ⟨stdout, output, hr, Mach.readReply_eq_ok.mp hreply⟩
      · simp only [hr, ne_eq, h0, not_false_eq_true, if_true] at hquery
        rw [environmentOf, perform_bind_of_error (perform_mapError_eq_failed.mpr ⟨_, hquery, rfl⟩)]
        exact .fails hc (.exit hr h0) rfl (by simp)
    · rw [hr] at hquery
      rw [environmentOf, perform_bind_of_error (perform_mapError_eq_failed.mpr ⟨_, hquery, rfl⟩)]
      exact .fails hc (.launch hr) rfl (by simp)
    · rw [hr] at hquery
      rw [environmentOf, perform_bind_of_error (perform_mapError_eq_interrupted.mpr hquery)]
      exact .interrupted hc hr
    · rw [perform_environmentOf_of_faults hc (.raised hr)]
      exact .faults hc (.raised hr)

end Build
end MachTree
