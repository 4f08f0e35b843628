import MachTree.Proofs.Activity

/-! What activities add to the journal, and how an interrupt ends them.  An activity is put together
from parts; if each part ends with the first call that is interrupted, and adds only events of one
kind, so does the whole. -/
namespace MachTree

def Event.IsNoCall (e : Event) : Prop := ∀ call, e ≠ .called call

namespace Activity

variable {ε ε' α β : Type} {host : Host} {j : Journal} {P Q : Event → Prop}

/-- That no call in a part of a journal is interrupted. -/
def Answered (host : Host) (j new : Journal) : Prop :=
  ∀ before call after, new = before ++ .called call :: after →
    ∀ text, host.runner (j ++ before).calls call ≠ .interrupted text

theorem Answered.of_not_called {new : Journal} (h : ∀ call, .called call ∉ new) :
    Answered host j new := by
  rintro before call after rfl
  exact absurd (by simp) (h call)

theorem Answered.append {new more : Journal} (h : Answered host j new)
    (h' : Answered host (j ++ new) more) : Answered host j (new ++ more) := by
  intro before call after he text
  rcases List.append_eq_append_iff.mp he with ⟨front, rfl, hmore⟩ | ⟨back, hnew, hafter⟩
  · rw [← List.append_assoc]
    exact h' front call after hmore text
  · cases back with
    | nil =>
      obtain rfl : new = before := by simpa using hnew
      have hmore : more = [] ++ .called call :: after := hafter.symm
      simpa using h' [] call after hmore text
    | cons event back =>
      obtain ⟨rfl, rfl⟩ : .called call = event ∧ after = back ++ more := by simpa using hafter
      exact h before call back hnew text

/-- How an activity ends.  As long as a call may be interrupted, all events are of a kind `P`; if
all calls are answered, all events are of a kind `Q`. -/
inductive Ends (P Q : Event → Prop) (host : Host) (j : Journal) :
    Except (Halt ε) α → Journal → Prop
  | answered {r : Except (Halt ε) α} {new : Journal} : (∀ e ∈ new, Q e) → Answered host j new →
      (∀ text, r ≠ .error (.interrupted text)) → Ends P Q host j r (j ++ new)
  | interrupted {before : Journal} {call : Call} {text : String} : (∀ e ∈ before, P e) →
      P (.called call) → Answered host j before →
      host.runner (j ++ before).calls call = .interrupted text →
      Ends P Q host j (.error (.interrupted text)) (j ++ (before ++ [.called call]))

/-- That an activity ends so wherever it is performed. -/
def Emits (P Q : Event → Prop) (x : Activity ε α) : Prop :=
  ∀ host j, Ends P Q host j (x.perform host j).1 (x.perform host j).2

theorem Ends.silent {r : Except (Halt ε) α} (h : ∀ text, r ≠ .error (.interrupted text)) :
    Ends P Q host j r j := by
  have hends : Ends P Q host j r (j ++ []) := .answered (by simp) (.of_not_called (by simp)) h
  rwa [List.append_nil] at hends

theorem Ends.append {r : Except (Halt ε) α} {new j' : Journal} (hnew : ∀ e ∈ new, P e)
    (hanswered : Answered host j new) (h : Ends P Q host (j ++ new) r j')
    (hPQ : ∀ e, P e → Q e) : Ends P Q host j r j' := by
  have hall {S : Event → Prop} {more : Journal} (hPS : ∀ e, P e → S e) (hmore : ∀ e ∈ more, S e) :
      ∀ e ∈ new ++ more, S e := by
    intro e he
    rcases List.mem_append.mp he with he | he
    · exact hPS e (hnew e he)
    · exact hmore e he
  cases h with
  | answered hmore hanswered' hr =>
    rw [List.append_assoc]
    exact .answered (hall hPQ hmore) (hanswered.append hanswered') hr
  | @interrupted before call text hbefore hcall hanswered' hr =>
    rw [List.append_assoc] at hr ⊢
    rw [← List.append_assoc new]
    exact .interrupted (hall (fun _ => id) hbefore) hcall (hanswered.append hanswered') hr

/-- An activity is interrupted just when one of its calls is. -/
theorem Ends.answered_iff {r : Except (Halt ε) α} {j : Journal} (h : Ends P Q host [] r j) :
    Answered host [] j ↔ ∀ text, r ≠ .error (.interrupted text) := by
  cases h with
  | answered _ hanswered hr => simpa using ⟨fun _ => hr, fun _ => hanswered⟩
  | @interrupted before call text _ _ _ hr =>
    constructor
    · intro hanswered
      exact absurd hr (hanswered before call [] rfl text)
    · intro hno
      exact absurd rfl (hno text)

namespace Emits

theorem pure (a : α) : Emits P Q (Pure.pure a : Activity ε α) := fun _ _ => .silent (by simp)

theorem fail (e : ε) : Emits P Q (Activity.fail e : Activity ε α) := fun _ _ => .silent (by simp)

theorem raise (f : Fault) : Emits P Q (Activity.raise f : Activity ε α) :=
  fun _ _ => .silent (by simp)

theorem ofHost : Emits P Q (Activity.host : Activity ε Host) := fun _ _ => .silent (by simp)

theorem ofExcept (f : ε → ε') (r : Except ε α) : Emits P Q (Activity.ofExcept f r) := by
  cases r with
  | ok a => exact pure a
  | error e => exact fail (f e)

theorem ite {c : Prop} [Decidable c] {x y : Activity ε α} (hx : Emits P Q x) (hy : Emits P Q y) :
    Emits P Q (if c then x else y) := by
  split
  · exact hx
  · exact hy

theorem readBytes (p : Path) : Emits P Q (Activity.readBytes p : Activity ε (List UInt8)) :=
  fun _ _ => .silent (by simp)

theorem askFiles (f : Files → Path → Except Files.NameTooLong Bool) :
    Emits P Q (Activity.askFiles f : Activity ε Bool) := by
  intro host j
  cases h : f host.files host.cwd with
  | ok b =>
    have hperform : (Activity.askFiles f : Activity ε Bool).perform host j = (.ok b, j) := by
      simp [perform, Activity.askFiles, ExceptT.run, ReaderT.run, StateT.run, h]
    rw [hperform]
    exact .silent (by simp)
  | error e =>
    have hperform : (Activity.askFiles f : Activity ε Bool).perform host j =
        (.error (.fault (.nameTooLong e.path)), j) := by
      simp [perform, Activity.askFiles, ExceptT.run, ReaderT.run, StateT.run, h]
    rw [hperform]
    exact .silent (by simp)

theorem isFile (p : Path) : Emits P Q (Activity.isFile p : Activity ε Bool) := askFiles _

theorem isDirectory (p : Path) : Emits P Q (Activity.isDirectory p : Activity ε Bool) := askFiles _

theorem currentDirectory : Emits P Q (Activity.currentDirectory : Activity ε Path) := by
  intro host j
  have hperform : (Activity.currentDirectory : Activity ε Path).perform host j =
      if host.cwd.isRemoved then (.error (.fault .noCurrentDirectory), j)
      else (.ok host.cwd, j) := rfl
  rw [hperform]
  split <;> exact .silent (by simp)

theorem absolute (p : Path) : Emits P Q (Activity.absolute p : Activity ε Path) := by
  intro host j
  by_cases hp : Adrift host p
  · rw [perform_absolute_of_adrift hp]
    exact .silent (by simp)
  · rw [perform_absolute_of_not_adrift hp]
    exact .silent (by simp)

theorem resolve (p : Path) : Emits P Q (Activity.resolve p : Activity ε Path) := by
  intro host j
  rw [perform_resolve]
  cases host.files.resolve host.cwd p with
  | ok q => exact .silent (by simp)
  | error reason => exact .silent (by simp)

theorem resolveText (s : Symbols) : Emits P Q (Activity.resolveText s : Activity ε Path) := by
  intro host j
  rw [perform_resolveText]
  cases host.files.resolveText host.cwd host.platform s with
  | ok q => exact .silent (by simp)
  | error reason => exact .silent (by simp)

theorem note {e : Event} (he : Q e) (hcall : ∀ call, e ≠ .called call) :
    Emits P Q (Activity.note e : Activity ε Unit) := by
  intro host j
  exact .answered (by simpa using he) (.of_not_called fun call hm =>
    hcall call (List.mem_singleton.mp hm).symm) fun text h => by cases h

theorem log {level : Level} {text : String} (h : Q (.logged level text)) :
    Emits P Q (Activity.log level text : Activity ε Unit) := note h (by simp)

theorem printLine {text : String} (h : Q (.printed (text ++ "\n"))) :
    Emits P Q (Activity.printLine text : Activity ε Unit) := by
  intro host j
  rw [perform_printLine]
  cases host.refuses j.printedText text with
  | none =>
    exact .answered (by simpa using h) (.of_not_called (by simp)) (by simp)
  | some t => exact .silent (by simp)

theorem run {call : Call} (hP : P (.called call)) (hQ : Q (.called call)) :
    Emits P Q (Activity.run call) := by
  intro host j
  have hone (h : ∀ text, host.runner j.calls call ≠ .interrupted text) :
      Answered host j [.called call] := by
    intro before call' after he text
    obtain ⟨rfl, rfl, rfl⟩ : before = [] ∧ call = call' ∧ after = [] := by
      cases before <;> simp_all
    simpa using h text
  rw [perform_run]
  cases hr : host.runner j.calls call with
  | finished exitCode stdout output =>
    exact .answered (by simpa using hQ) (hone (by simp [hr])) (by simp)
  | refused reason =>
    exact .answered (by simpa using hQ) (hone (by simp [hr])) (by simp)
  | raised t => exact .answered (by simpa using hQ) (hone (by simp [hr])) (by simp)
  | interrupted text =>
    have hends : Ends P Q host j (.error (.interrupted text) : Except (Halt LaunchError) Outcome)
        (j ++ ([] ++ [.called call])) :=
      .interrupted (by simp) hP (.of_not_called (by simp)) (by simpa using hr)
    exact hends

theorem bind_last {x : Activity ε α} {f : α → Activity ε β} (hPQ : ∀ e, P e → Q e)
    (hx : Emits P P x) (hf : ∀ a, Emits P Q (f a)) : Emits P Q (x >>= f) := by
  intro host j
  have hxj := hx host j
  rw [perform_bind]
  generalize x.perform host j = run at hxj
  obtain ⟨r, j₁⟩ := run
  cases hxj with
  | interrupted hbefore hcall hanswered hr => exact .interrupted hbefore hcall hanswered hr
  | answered hnew hanswered hr =>
    cases r with
    | ok a => exact (hf a host _).append hnew hanswered hPQ
    | error e =>
      refine .answered (fun e he => hPQ e (hnew e he)) hanswered fun text he => hr text ?_
      rw [Except.error.inj he]

theorem bind {x : Activity ε α} {f : α → Activity ε β} (hx : Emits P P x)
    (hf : ∀ a, Emits P P (f a)) : Emits P P (x >>= f) := bind_last (fun _ => id) hx hf

theorem handle {x : Activity ε α} {f : ε → Activity ε' α} (hx : Emits P P x)
    (hf : ∀ e, Emits P P (f e)) : Emits P P (x.handle f) := by
  intro host j
  have hxj := hx host j
  rw [perform_handle]
  generalize x.perform host j = run at hxj
  obtain ⟨r, j₁⟩ := run
  cases hxj with
  | interrupted hbefore hcall hanswered hr => exact .interrupted hbefore hcall hanswered hr
  | answered hnew hanswered hr =>
    rcases r with (text | fault | e) | a
    · exact absurd rfl (hr text)
    · exact .answered hnew hanswered (by simp)
    · exact (hf e host _).append hnew hanswered fun _ => id
    · exact .answered hnew hanswered (by simp)

theorem mapError {x : Activity ε α} (g : ε → ε') (hx : Emits P P x) : Emits P P (x.mapError g) :=
  hx.handle fun e => fail (g e)

theorem settle {x : Activity ε α} (hx : Emits P Q x) :
    Emits P Q (x.settle : Activity ε' (Except (Fault ⊕ ε) α)) := by
  intro host j
  have hxj := hx host j
  rw [perform_settle]
  generalize x.perform host j = run at hxj
  obtain ⟨r, j₁⟩ := run
  cases hxj with
  | interrupted hbefore hcall hanswered hr => exact .interrupted hbefore hcall hanswered hr
  | answered hnew hanswered hr =>
    rcases r with (text | fault | e) | a
    · exact absurd rfl (hr text)
    · exact .answered hnew hanswered (by simp)
    · exact .answered hnew hanswered (by simp)
    · exact .answered hnew hanswered (by simp)

theorem of_noCall {x : Activity ε α} (hx : Emits Event.IsNoCall Event.IsNoCall x) :
    Emits P (fun _ => True) x := by
  intro host j
  have hxj := hx host j
  generalize x.perform host j = run at hxj
  obtain ⟨r, j₁⟩ := run
  cases hxj with
  | interrupted _ hcall => exact absurd rfl (hcall _)
  | answered _ hanswered hr => exact .answered (fun _ _ => trivial) hanswered hr

theorem bind_noCall {x : Activity ε α} {f : α → Activity ε β} (hx : Emits P P x)
    (hf : ∀ a, Emits Event.IsNoCall Event.IsNoCall (f a)) : Emits P (fun _ => True) (x >>= f) :=
  hx.bind_last (fun _ _ => trivial) fun a => (hf a).of_noCall

theorem offline {x : Activity ε α} (hx : Emits P P x) (hcall : ∀ call, ¬ P (.called call)) :
    Offline x := by
  intro host j
  have hxj := hx host j
  generalize x.perform host j = run at hxj
  obtain ⟨r, j₁⟩ := run
  cases hxj with
  | interrupted _ hP => exact absurd hP (hcall _)
  | @answered r new hnew _ hr =>
    refine ⟨?_, hr⟩
    have hnone : Journal.calls new = [] := by
      rw [Journal.calls, List.filterMap_eq_nil_iff]
      rintro (_ | call | _ | _) he
      · rfl
      · exact absurd (hnew _ he) (hcall call)
      · rfl
      · rfl
    simp [hnone]

theorem printedText_eq {x : Activity ε α} (hx : Emits P P x)
    (hP : ∀ e, P e → ∀ text, e ≠ .printed text) (host : Host) (j : Journal) :
    (x.perform host j).2.printedText = j.printedText := by
  have hxj := hx host j
  generalize x.perform host j = run at hxj
  obtain ⟨r, j₁⟩ := run
  cases hxj with
  | answered hnew => exact Journal.printedText_append fun e he => hP e (hnew e he)
  | interrupted hbefore hcall =>
    refine Journal.printedText_append fun e he => ?_
    rcases List.mem_append.mp he with he | he
    · exact hP e (hbefore e he)
    · rw [List.mem_singleton.mp he]
      exact hP _ hcall

theorem journal_eq {x : Activity ε α} (hx : Emits (fun _ => False) (fun _ => False) x)
    (host : Host) (j : Journal) : (x.perform host j).2 = j := by
  have hxj := hx host j
  generalize x.perform host j = run at hxj
  obtain ⟨r, j₁⟩ := run
  cases hxj with
  | interrupted _ hP => exact hP.elim
  | @answered r new hnew =>
    obtain rfl : new = [] := List.eq_nil_iff_forall_not_mem.mpr hnew
    exact List.append_nil j

end Emits
end Activity
end MachTree
