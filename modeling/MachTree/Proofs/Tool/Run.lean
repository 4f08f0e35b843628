import MachTree.Proofs.Tool.Command

/-! Runs of the tool.  Whatever the command line says, whatever files there are and whatever comes
of the calls, a run ends with one of four exit codes, and what kept a command from what it is for is
shown on the error channel.  Only a log file that cannot be made ends a run in another way. -/
namespace MachTree

open Activity CommandLine

namespace Console

variable {time : String} {least : Level}

/-- That lines start with a title in one of the two colours for trouble. -/
def IsReport (lines : List String) : Prop :=
  ∃ colour text rest, (colour = red ∨ colour = yellow) ∧ lines = title colour text :: rest

theorem isReport_errorLines (text message : String) : IsReport (errorLines text message) :=
  ⟨red, text, _, .inl rfl, rfl⟩

theorem isReport_warningLines (message : String) : IsReport (warningLines message) :=
  ⟨yellow, message, _, .inr rfl, rfl⟩

theorem IsReport.append {lines : List String} (h : IsReport lines) (more : List String) :
    IsReport (lines ++ more) := by
  obtain ⟨colour, text, rest, hcolour, rfl⟩ := h
  exact ⟨colour, text, rest ++ more, hcolour, rfl⟩

theorem isReport_unexpectedLines (kind message : String) (verbose : Bool) :
    IsReport (unexpectedLines kind message verbose) := (isReport_errorLines _ _).append _

theorem isReport_notFoundLines (message : String) : IsReport (notFoundLines message) :=
  (isReport_errorLines _ _).append _

theorem isReport_faultLines (f : Fault) (verbose : Bool) : IsReport (faultLines f verbose) := by
  rw [faultLines]
  split
  · exact isReport_notFoundLines _
  · exact isReport_unexpectedLines _ _ _

@[simp] theorem errorText_append (j k : Journal) :
    errorText time least (j ++ k) = errorText time least j ++ errorText time least k := by
  simp [errorText]

@[simp] theorem errorText_complain (lines : List String) :
    errorText time least (Tool.complain lines) = String.join (lines.map fun l => l ++ "\n") := by
  simp [errorText, Tool.complain, Function.comp_def, shown]

end Console

namespace Tool

variable {time : String} {host here : Host} {args : List String} {o : Options} {c : Command}
  {finish : Finish}

theorem Error.isReport_lines (verbose : Bool) (e : Error) : Console.IsReport (e.lines verbose) := by
  cases e with
  | noRoot e => exact Console.isReport_notFoundLines _
  | settings e => exact Console.isReport_errorLines _ _
  | unsupportedTree root stage => exact Console.isReport_errorLines _ _
  | flags e => exact Console.isReport_errorLines _ _
  | noConfiguration source => exact Console.isReport_warningLines _
  | override e => exact Console.isReport_unexpectedLines _ _ _

theorem isReport_verdict (verbose : Bool) (h : Halt Error) :
    Console.IsReport (verdict verbose (.error h)).2 := by
  rcases h with text | f | e
  · exact Console.isReport_warningLines _
  · exact Console.isReport_faultLines f verbose
  · exact e.isReport_lines verbose

/-- Why the log of a run cannot be kept. -/
inductive LogFails (host : Host) (o : Options) : LogFile.Error → Prop
  | notNamed : o.logFile = some .nothing → LogFails host o .notNamed
  | notMade {p : Path} {e : LogFile.Error} : o.logFile = some (.path p) →
      LogFile.create host.files host.cwd p = .error e → LogFails host o e

/-- The host that a command is carried out on, with the log that was asked for. -/
inductive Equipped (time : String) (host : Host) (o : Options) : Host → Prop
  | unlogged : o.logFile = none → Equipped time host o host
  | logged {p : Path} {files : Files} {place : Location} : o.logFile = some (.path p) →
      LogFile.create host.files host.cwd p = .ok (files, place) →
      Equipped time host o { host with files, log := some { place, time } }

theorem Equipped.runner_eq (h : Equipped time host o here) : here.runner = host.runner := by
  cases h <;> rfl

theorem Equipped.answered_iff (h : Equipped time host o here) {j : Journal} :
    Answered here [] j ↔ Answered host [] j := by
  simp [Answered, h.runner_eq]

theorem runCommand_eq_error_iff {e : LogFile.Error} :
    runCommand time host o c = .error e ↔ LogFails host o e := by
  constructor
  · intro h
    rcases hlog : o.logFile with _ | p | _
    · simp [runCommand, hlog] at h
    · rcases hmade : LogFile.create host.files host.cwd p with e' | ⟨files, place⟩
      · obtain rfl : e' = e := by simpa [runCommand, hlog, hmade] using h
        exact .notMade hlog hmade
      · simp [runCommand, hlog, hmade] at h
    · obtain rfl : LogFile.Error.notNamed = e := by simpa [runCommand, hlog] using h
      exact .notNamed hlog
  · rintro (hlog | ⟨hlog, hmade⟩)
    · simp [runCommand, hlog]
    · simp [runCommand, hlog, hmade]

theorem exists_equipped (h : runCommand time host o c = .ok finish) :
    ∃ here, Equipped time host o here ∧
      finish.exitCode = (carryOut here o c).1 ∧ finish.journal = (carryOut here o c).2 := by
  rcases hlog : o.logFile with _ | p | _
  · simp only [runCommand, hlog, Except.ok.injEq] at h
    subst h
    exact ⟨host, .unlogged hlog, rfl, rfl⟩
  · rcases hmade : LogFile.create host.files host.cwd p with e | ⟨files, place⟩
    · simp [runCommand, hlog, hmade] at h
    · simp only [runCommand, hlog, hmade, Except.ok.injEq] at h
      subst h
      exact ⟨_, .logged hlog hmade, rfl, rfl⟩
  · simp [runCommand, hlog] at h

theorem carryOut_of_succeeds (h : Succeeds here o c) :
    (perform o c).perform here [] = (.ok (), (carryOut here o c).2) ∧
      (carryOut here o c).1 = 0 := by
  obtain ⟨j, hrun⟩ := fst_eq_ok_iff.mp (perform_eq_ok_iff.mpr h)
  simp [carryOut, hrun, verdict, complain]

/-- A command that fails is reported last.  Its exit code tells whether it was interrupted. -/
theorem carryOut_of_not_succeeds (h : ¬ Succeeds here o c) :
    ∃ e j, (perform o c).perform here [] = (.error e, j) ∧
      (carryOut here o c).2 = j ++ complain (verdict o.verbose (.error e)).2 ∧
      (((carryOut here o c).1 = 130 ∧ ¬ Answered here [] j) ∨
        ((carryOut here o c).1 = 1 ∧ Answered here [] j)) := by
  have hanswered := (emits_perform o c here []).answered_iff
  rw [← perform_eq_ok_iff] at h
  rw [carryOut]
  generalize (perform o c).perform here [] = run at h hanswered
  obtain ⟨⟨text | f | e⟩ | ⟨⟩, j⟩ := run
  · exact ⟨_, j, rfl, rfl, .inl ⟨rfl, by simp [hanswered]⟩⟩
  · exact ⟨_, j, rfl, rfl, .inr ⟨rfl, by simp [hanswered]⟩⟩
  · exact ⟨_, j, rfl, rfl, .inr ⟨rfl, by simp [hanswered]⟩⟩
  · exact absurd rfl h

/-- That a run whose command came to a journal shows some lines last, on whatever level its console
is.  The exit code is that of an interrupt if a call was interrupted. -/
structure Reported (time : String) (host : Host) (finish : Finish) (j : Journal)
    (lines : List String) : Prop where
  report : Console.IsReport lines
  journal : finish.journal = j ++ complain lines
  shown : Console.errorText time finish.consoleLevel finish.journal =
    Console.errorText time finish.consoleLevel j ++ String.join (lines.map fun l => l ++ "\n")
  exitCode : (finish.exitCode = 130 ∧ ¬ Answered host [] j) ∨
    (finish.exitCode = 1 ∧ Answered host [] j)

inductive Ending (time : String) (host : Host) (args : List String) (finish : Finish) : Prop
  | misused {refusal : Refusal} : read args = .error refusal → finish.exitCode = 2 →
      finish.journal = [.complained refusal.text] → Ending time host args finish
  | helped {page : Page} : read args = .ok (.help page) → finish.exitCode = 0 →
      finish.journal = [.printed page.help] → Ending time host args finish
  | versioned : read args = .ok .version → finish.exitCode = 0 →
      finish.journal = [.printed versionLine] → Ending time host args finish
  | served {o : Options} {c : Command} {here : Host} : read args = .ok (.run o c) →
      Equipped time host o here → Succeeds here o c →
      (perform o c).perform here [] = (.ok (), finish.journal) → finish.exitCode = 0 →
      Ending time host args finish
  | failed {o : Options} {c : Command} {here : Host} {e : Halt Error} {j : Journal} :
      read args = .ok (.run o c) → Equipped time host o here → ¬ Succeeds here o c →
      (perform o c).perform here [] = (.error e, j) →
      Reported time host finish j (verdict o.verbose (.error e)).2 → Ending time host args finish

theorem Ending.exitCode_mem (h : Ending time host args finish) :
    finish.exitCode ∈ [0, 1, 2, 130] := by
  cases h with
  | failed _ _ _ _ hreported =>
    rcases hreported.exitCode with ⟨hcode, -⟩ | ⟨hcode, -⟩ <;> simp [hcode]
  | misused _ hcode _ | helped _ hcode _ | versioned _ hcode _ | served _ _ _ _ hcode =>
    simp [hcode]

theorem ending_of_runCommand (hread : read args = .ok (.run o c))
    (h : runCommand time host o c = .ok finish) : Ending time host args finish := by
  obtain ⟨here, hequipped, hcode, hjournal⟩ := exists_equipped h
  by_cases hs : Succeeds here o c
  · obtain ⟨hrun, hzero⟩ := carryOut_of_succeeds hs
    exact .served hread hequipped hs (by rw [hrun, hjournal]) (hcode.trans hzero)
  · obtain ⟨e, j, hrun, hlines, hexit⟩ := carryOut_of_not_succeeds hs
    rw [← hcode, hequipped.answered_iff] at hexit
    rw [← hjournal] at hlines
    exact .failed hread hequipped hs hrun ⟨isReport_verdict _ _, hlines, by simp [hlines], hexit⟩

theorem ending_of_run (h : run time host args = .ok finish) : Ending time host args finish := by
  rcases hread : read args with refusal | page | _ | ⟨o, c⟩
  · obtain rfl := Except.ok.inj (h.symm.trans (by rw [run, hread]))
    exact .misused hread rfl rfl
  · obtain rfl := Except.ok.inj (h.symm.trans (by rw [run, hread]))
    exact .helped hread rfl rfl
  · obtain rfl := Except.ok.inj (h.symm.trans (by rw [run, hread]))
    exact .versioned hread rfl rfl
  · exact ending_of_runCommand hread (by simpa [run, hread] using h)

/-- A run ends with a command that was carried out and reported, or with what the command line asked
for instead.  Only a log file that cannot be made keeps it from that. -/
theorem run_ends (time : String) (host : Host) (args : List String) :
    (∀ e, run time host args = .error e ↔
      ∃ o c, read args = .ok (.run o c) ∧ LogFails host o e) ∧
    ∀ finish, run time host args = .ok finish →
      finish.exitCode ∈ [0, 1, 2, 130] ∧ Ending time host args finish := by
  constructor
  · intro e
    rcases hread : read args with refusal | page | _ | ⟨o, c⟩
    · simp [run, hread]
    · simp [run, hread]
    · simp [run, hread]
    · rw [run, hread]
      simpa using runCommand_eq_error_iff
  · intro finish h
    exact ⟨(ending_of_run h).exitCode_mem, ending_of_run h⟩

theorem called_not_mem_complain (call : Call) (lines : List String) :
    .called call ∉ complain lines := by
  simp [complain]

theorem of_append_complain {j before after : Journal} {lines : List String} {call : Call}
    (h : j ++ complain lines = before ++ .called call :: after) :
    ∃ rest, j = before ++ .called call :: rest ∧ after = rest ++ complain lines := by
  have hno := called_not_mem_complain call lines
  rcases List.append_eq_append_iff.mp h with ⟨front, -, hlines⟩ | ⟨back, hj, hback⟩
  · exact absurd (by simp [hlines]) hno
  · cases back with
    | nil =>
      have hlines : .called call :: after = complain lines := hback
      exact absurd (by simp [← hlines]) hno
    | cons event rest =>
      obtain ⟨rfl, rfl⟩ : .called call = event ∧ after = rest ++ complain lines := by
        simpa using hback
      exact ⟨rest, hj, rfl⟩

/-- A run that is interrupted ends there: nothing has been printed, and the interrupt is all that is
complained of. -/
theorem run_of_interrupted {before after : Journal} {call : Call} {text : String}
    (h : run time host args = .ok finish) (hj : finish.journal = before ++ .called call :: after)
    (hr : host.runner before.calls call = .interrupted text) :
    finish.exitCode = 130 ∧ finish.journal.printedText = "" ∧
      after = complain Console.interruptLines ∧ ∀ e ∈ before, e.IsQuiet := by
  cases ending_of_run h with
  | misused _ _ hone | helped _ _ hone | versioned _ _ hone =>
    have hmem : .called call ∈ finish.journal := by simp [hj]
    simp [hone] at hmem
  | @served o c here _ hequipped _ hrun _ =>
    -- a command that ends well has had all its calls answered
    have hanswered := (emits_perform o c here []).answered_iff
    rw [hrun, hequipped.answered_iff] at hanswered
    exact absurd hr (hanswered.mpr (by simp) before call after hj text)
  | @failed o c here e j _ hequipped _ hrun hreported =>
    obtain ⟨rest, hbefore, hafter⟩ := of_append_complain (hreported.journal.symm.trans hj)
    obtain ⟨new, hnew, hcut⟩ := (emits_perform o c here []).heeds
    rw [hrun] at hnew hcut
    obtain rfl : j = new := hnew
    obtain ⟨rfl, hinterrupt, hquiet⟩ := hcut before call rest text hbefore
      (by rw [hequipped.runner_eq]; exact hr)
    obtain rfl : e = .interrupted text := Except.error.inj hinterrupt
    have hnot : ¬ Answered host [] j := fun hanswered => hanswered before call [] hbefore text hr
    refine ⟨?_, ?_, hafter, hquiet⟩
    · rcases hreported.exitCode with ⟨hcode, -⟩ | ⟨-, hanswered⟩
      · exact hcode
      · exact absurd hanswered hnot
    · refine Journal.printedText_eq_empty fun event hevent => ?_
      rw [hj, hafter] at hevent
      rcases List.mem_append.mp hevent with hevent | hevent
      · exact (hquiet event hevent).printed
      · simp only [complain, List.nil_append, List.mem_cons, List.mem_map] at hevent
        rcases hevent with rfl | ⟨line, -, rfl⟩ <;> simp

end Tool
end MachTree
