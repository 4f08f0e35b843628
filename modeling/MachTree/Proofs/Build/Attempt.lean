import MachTree.Proofs.Build.Compilers
import MachTree.Proofs.Build.Environment
import MachTree.Proofs.Settings.Load

/-! How setting up a build goes: what is known after each step, why a step ends the whole, and what
calls have been made by then. -/
namespace MachTree
namespace Build

open Activity

variable {host : Host} {j j' : Journal} {root srcdir : Path} {given : Option Settings}
  {s : Settings} {command : List String} {env : Environment} {vars : Fragment.Variables}

def HasMach (host : Host) (srcdir : Path) : Prop :=
  host.files.isFile host.cwd (srcdir.child machFile) = .ok true

/-- The settings with which a build is set up: those that are given, or those in the tree. -/
inductive InForce (host : Host) (j : Journal) (srcdir : Path) :
    Option Settings → Settings → Prop
  | given (s : Settings) : InForce host j srcdir (some s) s
  | loaded {ini : Ini} : Settings.Holds host j srcdir ini →
      ({ root := srcdir, ini } : Settings).validate = .ok () →
      InForce host j srcdir none { root := srcdir, ini }

def machOf (srcdir : Path) (s : Settings) : Mach :=
  { srcdir, command := [(srcdir.child machFile).toString], settings := some s }

def machCall (srcdir : Path) (s : Settings) (command : List String) : Call :=
  (machOf srcdir s).environmentCall command

/-- Why the environment of a tree cannot be known. -/
inductive EnvironmentFails (host : Host) (j : Journal) (srcdir : Path) (given : Option Settings) :
    Prop
  | settings : given = none → Settings.Unusable host j srcdir →
      EnvironmentFails host j srcdir given
  | override {s : Settings} {e : Settings.Error} : InForce host j srcdir given s →
      (machOf srcdir s).effectiveCommand = .error e → EnvironmentFails host j srcdir given
  | mach {s : Settings} {command : List String} : InForce host j srcdir given s →
      (machOf srcdir s).effectiveCommand = .ok command →
      (machOf srcdir s).Fails host j.calls command → EnvironmentFails host j srcdir given

structure Known (host : Host) (j : Journal) (srcdir : Path) (given : Option Settings)
    (s : Settings) (command : List String) (env : Environment) : Prop where
  settings : InForce host j srcdir given s
  effective : (machOf srcdir s).effectiveCommand = .ok command
  knows : (machOf srcdir s).Knows host j.calls command env

def afterMach (j : Journal) (srcdir : Path) (s : Settings) (command : List String) : Journal :=
  j ++ [.called (machCall srcdir s command)]

def basePath (host : Host) (env : Environment) : Path :=
  (host.platform.path env.topobjdir.name).child baseFragment

/-- That the variables of a build are known. -/
structure Configured (host : Host) (j : Journal) (srcdir : Path) (given : Option Settings)
    (s : Settings) (command : List String) (env : Environment) (vars : Fragment.Variables) :
    Prop where
  known : Known host j srcdir given s command env
  fragment : Fragment.Reads host (afterMach j srcdir s command) (basePath host env) vars

def programVariable : Language → String
  | .c => "_CC"
  | .cpp => "_CXX"

/-- That a compiler of a build can be asked, and with which call. -/
structure Callable (host : Host) (srcdir : Path) (s : Settings) (vars : Fragment.Variables)
    (language : Language) (name : String) (family : Compiler.Family)
    (override : Option (List String)) (call : Call) : Prop where
  named : vars.get? (programVariable language) = some name ∧ name ≠ ""
  asks : Asks srcdir s vars language family override
  call : call = compilerCall host srcdir vars language name family override

/-- That a call of a compiler gives its defaults, and with them the compiler. -/
def Found (host : Host) (calls : List Call) (srcdir : Path) (s : Settings)
    (vars : Fragment.Variables) (language : Language) (call : Call) (c : Compiler) : Prop :=
  ∃ name family override output,
    Callable host srcdir s vars language name family override call ∧
      Compiler.Answers host calls override call output ∧
      c = compilerOfOutput host srcdir s vars language name family override output

/-- Why the compilers of a build cannot be used.  Several reasons may hold at once; whichever step
comes to one first ends the whole. -/
inductive CompilersFail (host : Host) (j : Journal) (srcdir : Path) (given : Option Settings) :
    Prop
  | fragment {s : Settings} {command : List String} {env : Environment} :
      Known host j srcdir given s command env →
      Fragment.Unreadable host (afterMach j srcdir s command) (basePath host env) →
      CompilersFail host j srcdir given
  | name {s : Settings} {command : List String} {env : Environment} {vars : Fragment.Variables}
      (language : Language) : Configured host j srcdir given s command env vars →
      (vars.get? (programVariable language)).getD "" = "" → CompilersFail host j srcdir given
  | type {s : Settings} {command : List String} {env : Environment}
      {vars : Fragment.Variables} : Configured host j srcdir given s command env vars →
      vars.get? "CC_TYPE" ≠ some "clang" → vars.get? "CC_TYPE" ≠ some "clang-cl" →
      CompilersFail host j srcdir given
  | override {s : Settings} {command : List String} {env : Environment}
      {vars : Fragment.Variables} (language : Language) {e : Settings.Error} :
      Configured host j srcdir given s command env vars →
      s.compiler? srcdir language = .error e → CompilersFail host j srcdir given
  | c {s : Settings} {command : List String} {env : Environment} {vars : Fragment.Variables}
      {name : String} {family : Compiler.Family} {override : Option (List String)} {call : Call} :
      Configured host j srcdir given s command env vars →
      Callable host srcdir s vars .c name family override call →
      Compiler.Silent host (j.calls ++ [machCall srcdir s command]) override call →
      CompilersFail host j srcdir given
  | cpp {s : Settings} {command : List String} {env : Environment} {vars : Fragment.Variables}
      {cCall : Call} {cCompiler : Compiler} {name : String} {family : Compiler.Family}
      {override : Option (List String)} {call : Call} :
      Configured host j srcdir given s command env vars →
      Found host (j.calls ++ [machCall srcdir s command]) srcdir s vars .c cCall cCompiler →
      Callable host srcdir s vars .cpp name family override call →
      Compiler.Silent host (j.calls ++ [machCall srcdir s command, cCall]) override call →
      CompilersFail host j srcdir given

structure SetUp (host : Host) (j : Journal) (srcdir : Path) (given : Option Settings)
    (s : Settings) (command : List String) (vars : Fragment.Variables) (cCall cppCall : Call)
    (b : Build) : Prop where
  configured : Configured host j srcdir given s command b.environment vars
  c : Found host (j.calls ++ [machCall srcdir s command]) srcdir s vars .c cCall b.cCompiler
  cpp : Found host (j.calls ++ [machCall srcdir s command, cCall]) srcdir s vars .cpp cppCall
    b.cppCompiler
  mach : b.mach = machOf srcdir s
  srcdir : b.srcdir = srcdir

/-- The calls that are made: each only when all steps before it have gone well. -/
inductive CallsMade (host : Host) (j : Journal) (srcdir : Path) (given : Option Settings) :
    List Call → Prop
  | none : CallsMade host j srcdir given []
  | mach {s : Settings} {command : List String} : HasMach host srcdir →
      InForce host j srcdir given s → (machOf srcdir s).effectiveCommand = .ok command →
      CallsMade host j srcdir given [machCall srcdir s command]
  | c {s : Settings} {command : List String} {env : Environment} {vars : Fragment.Variables}
      {name : String} {family : Compiler.Family} {override : Option (List String)} {call : Call} :
      HasMach host srcdir → Configured host j srcdir given s command env vars →
      (vars.get? (programVariable .cpp)).getD "" ≠ "" →
      Callable host srcdir s vars .c name family override call →
      CallsMade host j srcdir given [machCall srcdir s command, call]
  | cpp {s : Settings} {command : List String} {env : Environment} {vars : Fragment.Variables}
      {cCall : Call} {cCompiler : Compiler} {name : String} {family : Compiler.Family}
      {override : Option (List String)} {call : Call} :
      HasMach host srcdir → Configured host j srcdir given s command env vars →
      Found host (j.calls ++ [machCall srcdir s command]) srcdir s vars .c cCall cCompiler →
      Callable host srcdir s vars .cpp name family override call →
      CallsMade host j srcdir given [machCall srcdir s command, cCall, call]

/-- The faults that setting up the build of a tree leads to. -/
inductive Faults (host : Host) (j : Journal) (srcdir : Path) (given : Option Settings) :
    Fault → Prop
  | name {n : Files.NameTooLong} :
      host.files.isFile host.cwd (srcdir.child machFile) = .error n →
      Faults host j srcdir given (.nameTooLong n.path)
  | settings {f : Fault} : HasMach host srcdir → given = none →
      Settings.Faults host j srcdir f → Faults host j srcdir given f
  | mach {s : Settings} {command : List String} {f : Fault} : HasMach host srcdir →
      InForce host j srcdir given s → (machOf srcdir s).effectiveCommand = .ok command →
      (machOf srcdir s).Faults host j.calls command f → Faults host j srcdir given f
  | fragment {s : Settings} {command : List String} {env : Environment} {n : Files.NameTooLong} :
      HasMach host srcdir → Known host j srcdir given s command env →
      host.files.isFile host.cwd (basePath host env) = .error n →
      Faults host j srcdir given (.nameTooLong n.path)
  | c {s : Settings} {command : List String} {env : Environment} {vars : Fragment.Variables}
      {name : String} {family : Compiler.Family} {override : Option (List String)} {call : Call}
      {t : Trouble} : HasMach host srcdir → Configured host j srcdir given s command env vars →
      (vars.get? (programVariable .cpp)).getD "" ≠ "" →
      Callable host srcdir s vars .c name family override call →
      host.runner (j.calls ++ [machCall srcdir s command]) call = .raised t →
      Faults host j srcdir given (.outside t)
  | cpp {s : Settings} {command : List String} {env : Environment} {vars : Fragment.Variables}
      {cCall : Call} {cCompiler : Compiler} {name : String} {family : Compiler.Family}
      {override : Option (List String)} {call : Call} {t : Trouble} : HasMach host srcdir →
      Configured host j srcdir given s command env vars →
      Found host (j.calls ++ [machCall srcdir s command]) srcdir s vars .c cCall cCompiler →
      Callable host srcdir s vars .cpp name family override call →
      host.runner (j.calls ++ [machCall srcdir s command, cCall]) call = .raised t →
      Faults host j srcdir given (.outside t)

theorem InForce.unique {s' : Settings} (h : InForce host j srcdir given s)
    (h' : InForce host j srcdir given s') : s = s' := by
  cases h with
  | given => cases h'; rfl
  | loaded h hv =>
    cases h' with
    | loaded h' hv' => rw [h.unique h']

theorem Known.unique {s' : Settings} {command' : List String} {env' : Environment}
    (h : Known host j srcdir given s command env)
    (h' : Known host j srcdir given s' command' env') :
    s' = s ∧ command' = command ∧ env' = env := by
  obtain rfl := h'.settings.unique h.settings
  obtain rfl : command' = command := Except.ok.inj (h'.effective.symm.trans h.effective)
  exact ⟨rfl, rfl, h'.knows.reports.unique h.knows.reports⟩

theorem Configured.unique {s' : Settings} {command' : List String} {env' : Environment}
    {vars' : Fragment.Variables} (h : Configured host j srcdir given s command env vars)
    (h' : Configured host j srcdir given s' command' env' vars') :
    s' = s ∧ command' = command ∧ env' = env ∧ vars' = vars := by
  obtain ⟨rfl, rfl, rfl⟩ := h.known.unique h'.known
  exact ⟨rfl, rfl, rfl, h'.fragment.unique h.fragment⟩

theorem Callable.unique {language : Language} {name name' : String}
    {family family' : Compiler.Family} {override override' : Option (List String)}
    {call call' : Call} (h : Callable host srcdir s vars language name family override call)
    (h' : Callable host srcdir s vars language name' family' override' call') :
    override' = override ∧ call' = call := by
  obtain rfl : name' = name := Option.some.inj (h'.named.1.symm.trans h.named.1)
  obtain rfl : family' = family :=
    Compiler.Family.tag_injective (Option.some.inj (h'.asks.type.symm.trans h.asks.type))
  obtain rfl : override' = override :=
    Except.ok.inj (h'.asks.command.symm.trans h.asks.command)
  exact ⟨rfl, h'.call.trans h.call.symm⟩

theorem Found.callable {calls : List Call} {language : Language} {call : Call} {c : Compiler}
    (h : Found host calls srcdir s vars language call c) :
    ∃ name family override, Callable host srcdir s vars language name family override call := by
  obtain ⟨name, family, override, output, hc, -, -⟩ := h
  exact ⟨name, family, override, hc⟩

theorem Found.not_silent {calls : List Call} {language : Language} {name : String}
    {family : Compiler.Family} {override : Option (List String)} {call call' : Call}
    {c : Compiler} (h : Found host calls srcdir s vars language call c)
    (hc : Callable host srcdir s vars language name family override call') :
    ¬ Compiler.Silent host calls override call' := by
  obtain ⟨name', family', override', output, hc', ha, -⟩ := h
  obtain ⟨rfl, rfl⟩ := hc.unique hc'
  exact ha.not_silent

end Build
end MachTree
