import MachTree.Proofs.Build.Offline
import MachTree.Proofs.Compiler.Discovery

/-! How the compilers of a build are found, once mach has told where it is built: by the variables
of one fragment, and by one call for each language. -/
namespace MachTree

open Activity

variable {host : Host} {j j' : Journal}

namespace Fragment

variable {path : Path} {vars : Variables}

def note (path : Path) : Event := .logged .debug ("Parsing config from " ++ path.toString)

def bytesAt (host : Host) (j : Journal) (path : Path) : List UInt8 :=
  ((host.filesAfter (j ++ [note path])).read? host.cwd path).getD []

/-- That a fragment is a file with the text of certain variables. -/
def Reads (host : Host) (j : Journal) (path : Path) (vars : Variables) : Prop :=
  host.files.isFile host.cwd path = .ok true ∧
    ∃ cs, Utf8.decode (bytesAt host j path) = .ok cs ∧ vars = parse (Text.unifyNewlines cs) ∅

/-- Why a fragment cannot be read. -/
inductive Unreadable (host : Host) (j : Journal) (path : Path) : Prop
  | missing : host.files.isFile host.cwd path = .ok false → Unreadable host j path
  | undecodable {reason : Utf8.Error} : host.files.isFile host.cwd path = .ok true →
      Utf8.decode (bytesAt host j path) = .error reason → Unreadable host j path

theorem Reads.not_unreadable (h : Reads host j path vars) : ¬ Unreadable host j path := by
  obtain ⟨hfile, cs, hcs, -⟩ := h
  intro hu
  cases hu with
  | missing hno => simp_all
  | undecodable _ hbad => simp_all

theorem Reads.unique {vars' : Variables} (h : Reads host j path vars)
    (h' : Reads host j path vars') : vars = vars' := by
  obtain ⟨-, cs, hcs, rfl⟩ := h
  obtain ⟨-, cs', hcs', rfl⟩ := h'
  simp_all

/-- How reading a fragment ends. -/
inductive LoadRun (host : Host) (j : Journal) (path : Path) :
    Except (Halt Error) Variables → Journal → Prop
  | name {n : Files.NameTooLong} : host.files.isFile host.cwd path = .error n →
      LoadRun host j path (.error (.fault (.nameTooLong n.path))) (j ++ [note path])
  | unreadable {e : Error} : Unreadable host j path →
      LoadRun host j path (.error (.failed e)) (j ++ [note path])
  | reads {vars : Variables} : Reads host j path vars →
      LoadRun host j path (.ok vars) (j ++ [note path])

theorem perform_load (vars : Variables) :
    (load path vars).perform host j = (do
      if ← isFile path then
        let bytes ← readBytes path
        let text ← ofExcept id (textOf path bytes)
        pure (parse text vars)
      else fail (.notFound path) : Activity Error Variables).perform host (j ++ [note path]) :=
  perform_bind_of_ok (perform_debug _)

theorem perform_load_of_error {n : Files.NameTooLong}
    (h : host.files.isFile host.cwd path = .error n) :
    (load path ∅).perform host j = (.error (.fault (.nameTooLong n.path)), j ++ [note path]) := by
  rw [perform_load]
  exact perform_bind_of_error (perform_isFile_eq_error.mpr ⟨n, h, rfl, rfl⟩)

theorem loadRun_perform (host : Host) (j : Journal) (path : Path) :
    LoadRun host j path ((load path ∅).perform host j).1 ((load path ∅).perform host j).2 := by
  rcases hfile : host.files.isFile host.cwd path with n | isFile
  · rw [perform_load_of_error hfile]
    exact .name hfile
  · rw [perform_load, perform_bind, perform_isFile, hfile]
    cases isFile with
    | false => exact .unreadable (.missing hfile)
    | true =>
      rcases hcs : Utf8.decode (bytesAt host j path) with reason | cs
      · have htext : textOf path (bytesAt host j path) = .error (.undecodable path reason) := by
          rw [textOf, hcs]
        rw [bytesAt] at htext
        simp only [if_true, perform_bind, perform_readBytes, htext, perform_ofExcept_error]
        exact .unreadable (.undecodable hfile hcs)
      · have htext : textOf path (bytesAt host j path) = .ok (Text.unifyNewlines cs) := by
          rw [textOf, hcs]
        rw [bytesAt] at htext
        simp only [if_true, perform_bind, perform_readBytes, htext, perform_ofExcept_ok,
          perform_pure]
        exact .reads ⟨hfile, cs, hcs, rfl⟩

theorem perform_load_of_reads (h : Reads host j path vars) :
    (load path ∅).perform host j = (.ok vars, j ++ [note path]) := by
  have hrun := loadRun_perform host j path
  generalize (load path ∅).perform host j = run at hrun
  obtain ⟨r, j'⟩ := run
  cases hrun with
  | name hn => simp [h.1] at hn
  | unreadable hu => exact absurd hu h.not_unreadable
  | reads hr =>
    rw [hr.unique h]
    rfl

end Fragment
namespace Build

variable {srcdir : Path} {s : Settings} {vars : Fragment.Variables} {language : Language}
  {name : String}

/-- What it takes for a compiler to be asked for its defaults: a family that reports them, and an
override that is none or can be cut into words. -/
structure Asks (srcdir : Path) (s : Settings) (vars : Fragment.Variables) (language : Language)
    (family : Compiler.Family) (override : Option (List String)) : Prop where
  type : vars.get? "CC_TYPE" = some family.tag
  supported : family ≠ .msvc
  command : s.compiler? srcdir language = .ok override

def compilerCall (host : Host) (srcdir : Path) (vars : Fragment.Variables) (language : Language)
    (name : String) (family : Compiler.Family) (override : Option (List String)) : Call :=
  Compiler.probeCall host srcdir (override.getD [(host.platform.path name).toString]) language
    family vars

def compilerOfOutput (host : Host) (srcdir : Path) (s : Settings) (vars : Fragment.Variables)
    (language : Language) (name : String) (family : Compiler.Family)
    (override : Option (List String)) (output : List String) : Compiler :=
  { srcdir
    command := [(host.platform.path name).toString]
    language
    family
    baseline := Compiler.baselineOf host language family override vars output
    settings := some s }

inductive CompilerRun (host : Host) (j : Journal) (srcdir : Path) (s : Settings)
    (vars : Fragment.Variables) (language : Language) (name : String) :
    Except (Halt ProbeError) Compiler → Journal → Prop
  | family {e : Compiler.DiscoveryError} : vars.get? "CC_TYPE" ≠ some "clang" →
      vars.get? "CC_TYPE" ≠ some "clang-cl" →
      CompilerRun host j srcdir s vars language name (.error (.failed (.compilers e))) j
  | override {reason : Settings.Error} {e : Compiler.DiscoveryError} :
      s.compiler? srcdir language = .error reason →
      CompilerRun host j srcdir s vars language name (.error (.failed (.compilers e))) j
  | interrupted {family : Compiler.Family} {override : Option (List String)} {text : String} :
      Asks srcdir s vars language family override →
      host.runner j.calls (compilerCall host srcdir vars language name family override) =
        .interrupted text →
      CompilerRun host j srcdir s vars language name (.error (.interrupted text))
        (j ++ [.called (compilerCall host srcdir vars language name family override)])
  | raised {family : Compiler.Family} {override : Option (List String)} {t : Trouble} :
      Asks srcdir s vars language family override →
      host.runner j.calls (compilerCall host srcdir vars language name family override) =
        .raised t →
      CompilerRun host j srcdir s vars language name (.error (.fault (.outside t)))
        (j ++ [.called (compilerCall host srcdir vars language name family override)])
  | silent {family : Compiler.Family} {override : Option (List String)}
      {e : Compiler.DiscoveryError} {j' : Journal} :
      Asks srcdir s vars language family override →
      Compiler.Silent host j.calls override
        (compilerCall host srcdir vars language name family override) →
      j'.calls = j.calls ++ [compilerCall host srcdir vars language name family override] →
      CompilerRun host j srcdir s vars language name (.error (.failed (.compilers e))) j'
  | found {family : Compiler.Family} {override : Option (List String)} {output : List String}
      {j' : Journal} : Asks srcdir s vars language family override →
      Compiler.Answers host j.calls override
        (compilerCall host srcdir vars language name family override) output →
      j'.calls = j.calls ++ [compilerCall host srcdir vars language name family override] →
      CompilerRun host j srcdir s vars language name
        (.ok (compilerOfOutput host srcdir s vars language name family override output)) j'

theorem Asks.unique {family family' : Compiler.Family} {override override' : Option (List String)}
    (h : Asks srcdir s vars language family override)
    (h' : Asks srcdir s vars language family' override') :
    family' = family ∧ override' = override := by
  refine ⟨Compiler.Family.tag_injective (Option.some.inj (h'.type.symm.trans h.type)), ?_⟩
  exact Except.ok.inj (h'.command.symm.trans h.command)

theorem perform_compilerIn (j : Journal) (srcdir : Path) (s : Settings)
    (vars : Fragment.Variables) (language : Language) (name : String) :
    (compilerIn srcdir name language vars s).perform host j =
      ((Compiler.create srcdir [(host.platform.path name).toString] language vars
        (some s)).mapError .compilers).perform host j :=
  perform_bind_of_ok perform_host

theorem perform_create_of_type {program : List String} {family : Compiler.Family}
    (h : Compiler.Family.ofBuild (vars.get? "CC_TYPE") = .ok family) :
    (Compiler.create srcdir program language vars (some s)).perform host j =
      (Compiler.discover srcdir program language family vars (some s)).perform host j := by
  rw [Compiler.create, h]
  exact perform_bind_of_ok (perform_ofExcept_ok _ _)

theorem discoverRun_of_asks (host : Host) (j : Journal) (name : String) {family : Compiler.Family}
    {override : Option (List String)} (h : Asks srcdir s vars language family override) :
    Compiler.DiscoverRun host j override
      (compilerCall host srcdir vars language name family override)
      (compilerOfOutput host srcdir s vars language name family override)
      ((Compiler.create srcdir [(host.platform.path name).toString] language vars
        (some s)).perform host j).1
      ((Compiler.create srcdir [(host.platform.path name).toString] language vars
        (some s)).perform host j).2 := by
  rw [perform_create_of_type (Compiler.Family.ofBuild_eq_ok.mpr h.type)]
  exact Compiler.discoverRun_perform host j _ vars h.supported h.command

/-- Finding a compiler ends in one of the ways that it may end. -/
theorem compilerRun_perform (host : Host) (j : Journal) (srcdir : Path) (s : Settings)
    (vars : Fragment.Variables) (language : Language) (name : String) :
    CompilerRun host j srcdir s vars language name
      ((compilerIn srcdir name language vars s).perform host j).1
      ((compilerIn srcdir name language vars s).perform host j).2 := by
  rw [perform_compilerIn]
  rcases hf : Compiler.Family.ofBuild (vars.get? "CC_TYPE") with e | family
  · have hne (f : Compiler.Family) : vars.get? "CC_TYPE" ≠ some f.tag := by
      intro he
      rw [Compiler.Family.ofBuild_eq_ok.mpr he] at hf
      cases hf
    have hrun : (Compiler.create srcdir [(host.platform.path name).toString] language vars
        (some s)).perform host j = (.error (.failed (.compiler e)), j) := by
      rw [Compiler.create, hf]
      exact perform_bind_of_error (perform_ofExcept_error _ _)
    rw [perform_mapError_eq_failed.mpr ⟨_, hrun, rfl⟩]
    exact .family (hne .clang) (hne .clangCl)
  · have htype := Compiler.Family.ofBuild_eq_ok.mp hf
    by_cases hm : family = .msvc
    · subst hm
      have hrun : (Compiler.create srcdir [(host.platform.path name).toString] language vars
          (some s)).perform host j = (.error (.failed (.compiler .noReport)), j) := by
        rw [perform_create_of_type hf]
        rfl
      rw [perform_mapError_eq_failed.mpr ⟨_, hrun, rfl⟩]
      exact .family (by rw [htype]; decide) (by rw [htype]; decide)
    · cases ho : s.compiler? srcdir language with
      | error reason =>
        have hrun : (Compiler.create srcdir [(host.platform.path name).toString] language vars
            (some s)).perform host j = (.error (.failed (.settings reason)), j) :=
          (perform_create_of_type hf).trans (Compiler.perform_discover_of_override_error hm ho)
        rw [perform_mapError_eq_failed.mpr ⟨_, hrun, rfl⟩]
        exact .override ho
      | ok override =>
        have hasks : Asks srcdir s vars language family override := ⟨htype, hm, ho⟩
        have hends := discoverRun_of_asks host j name hasks
        generalize hrun : (Compiler.create srcdir [(host.platform.path name).toString] language
          vars (some s)).perform host j = run at hends
        obtain ⟨r, j'⟩ := run
        cases hends with
        | interrupted hr =>
          rw [perform_mapError_eq_interrupted.mpr hrun]
          exact .interrupted hasks hr
        | raised hr =>
          rw [perform_mapError_eq_fault.mpr hrun]
          exact .raised hasks hr
        | silent hs hcalls =>
          rw [perform_mapError_eq_failed.mpr ⟨_, hrun, rfl⟩]
          exact .silent hasks hs hcalls
        | found ha hcalls =>
          rw [perform_mapError_eq_ok.mpr hrun]
          exact .found hasks ha hcalls

theorem perform_compilerIn_of_answers {family : Compiler.Family}
    {override : Option (List String)} {output : List String}
    (hasks : Asks srcdir s vars language family override)
    (h : Compiler.Answers host j.calls override
      (compilerCall host srcdir vars language name family override) output) :
    ∃ j', (compilerIn srcdir name language vars s).perform host j =
        (.ok (compilerOfOutput host srcdir s vars language name family override output), j') ∧
      j'.calls = j.calls ++ [compilerCall host srcdir vars language name family override] := by
  rw [perform_compilerIn]
  obtain ⟨exitCode, stdout, hreply⟩ := h.reply
  have hends := discoverRun_of_asks host j name hasks
  generalize hrun : (Compiler.create srcdir [(host.platform.path name).toString] language
    vars (some s)).perform host j = run at hends
  obtain ⟨r, j'⟩ := run
  cases hends with
  | interrupted hr => cases hreply.symm.trans hr
  | raised hr => cases hreply.symm.trans hr
  | silent hs _ => exact absurd hs h.not_silent
  | found h' hcalls =>
    obtain rfl := h.unique h'
    exact ⟨j', perform_mapError_eq_ok.mpr hrun, hcalls⟩

end Build
end MachTree
