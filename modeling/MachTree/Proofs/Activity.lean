import MachTree.Activity

/-! How activities run: what the parts of an activity come to, and what the whole comes to.  An
activity that has come to an end has done so in one of its parts, after all parts before it. -/
namespace MachTree

@[simp] theorem Journal.calls_nil : Journal.calls [] = [] := rfl

@[simp] theorem Journal.calls_append (j k : Journal) :
    Journal.calls (j ++ k) = Journal.calls j ++ Journal.calls k :=
  List.filterMap_append

@[simp] theorem Journal.calls_called (call : Call) (j : Journal) :
    Journal.calls (.called call :: j) = call :: Journal.calls j := rfl

@[simp] theorem Journal.calls_logged (level : Level) (text : String) (j : Journal) :
    Journal.calls (.logged level text :: j) = Journal.calls j := rfl

@[simp] theorem Journal.calls_printed (text : String) (j : Journal) :
    Journal.calls (.printed text :: j) = Journal.calls j := rfl

theorem Journal.printedText_append {j new : Journal} (h : ∀ e ∈ new, ∀ text, e ≠ .printed text) :
    (j ++ new).printedText = j.printedText := by
  rw [Journal.printedText, List.filterMap_append, (List.filterMap_eq_nil_iff (l := new)).mpr,
    List.append_nil]
  · rfl
  · intro e he
    cases e with
    | printed text => exact absurd rfl (h _ he text)
    | _ => rfl

theorem Journal.printedText_eq_empty {j : Journal} (h : ∀ e ∈ j, ∀ text, e ≠ .printed text) :
    j.printedText = "" :=
  Journal.printedText_append (j := []) h

namespace Activity

variable {ε ε' α β : Type} {host : Host} {j j' : Journal}

@[simp] theorem perform_pure (a : α) : (pure a : Activity ε α).perform host j = (.ok a, j) := rfl

theorem perform_bind (x : Activity ε α) (f : α → Activity ε β) :
    (x >>= f).perform host j =
      match x.perform host j with
      | (.ok a, j₁) => (f a).perform host j₁
      | (.error e, j₁) => (.error e, j₁) := by
  have h : (x >>= f).perform host j =
      (ExceptT.bindCont f (x.perform host j).1 host) (x.perform host j).2 := rfl
  rw [h]
  rcases x.perform host j with ⟨_ | _, _⟩ <;> rfl

theorem perform_bind_of_ok {x : Activity ε α} {f : α → Activity ε β} {a : α} {j₁ : Journal}
    (h : x.perform host j = (.ok a, j₁)) : (x >>= f).perform host j = (f a).perform host j₁ := by
  rw [perform_bind, h]

theorem perform_bind_of_error {x : Activity ε α} {f : α → Activity ε β} {e : Halt ε} {j₁ : Journal}
    (h : x.perform host j = (.error e, j₁)) : (x >>= f).perform host j = (.error e, j₁) := by
  rw [perform_bind, h]

theorem perform_bind_eq_ok {x : Activity ε α} {f : α → Activity ε β} {b : β} :
    (x >>= f).perform host j = (.ok b, j') ↔
      ∃ a j₁, x.perform host j = (.ok a, j₁) ∧ (f a).perform host j₁ = (.ok b, j') := by
  rw [perform_bind]
  rcases x.perform host j with ⟨e | a, j₁⟩ <;> simp [and_assoc]

theorem fst_eq_ok_iff {x : Activity ε α} {a : α} :
    (x.perform host j).1 = .ok a ↔ ∃ j', x.perform host j = (.ok a, j') := by
  rcases x.perform host j with ⟨r, j'⟩
  simp

@[simp] theorem perform_host : (Activity.host : Activity ε Host).perform host j = (.ok host, j) :=
  rfl

@[simp] theorem perform_log (level : Level) (text : String) :
    (log level text : Activity ε Unit).perform host j = (.ok (), j ++ [.logged level text]) := rfl

@[simp] theorem perform_debug (text : String) :
    (debug text : Activity ε Unit).perform host j = (.ok (), j ++ [.logged .debug text]) := rfl

@[simp] theorem perform_info (text : String) :
    (info text : Activity ε Unit).perform host j = (.ok (), j ++ [.logged .info text]) := rfl

@[simp] theorem perform_warn (text : String) :
    (warn text : Activity ε Unit).perform host j = (.ok (), j ++ [.logged .warning text]) := rfl

@[simp] theorem perform_error (text : String) :
    (error text : Activity ε Unit).perform host j = (.ok (), j ++ [.logged .error text]) := rfl

theorem perform_printLine (text : String) :
    (printLine text : Activity ε Unit).perform host j =
      match host.refuses j.printedText text with
      | none => (.ok (), j ++ [.printed (text ++ "\n")])
      | some t => (.error (.fault (.outside t)), j) := rfl

theorem perform_printLine_eq_ok {text : String} :
    ((printLine text : Activity ε Unit).perform host j).1 = .ok () ↔
      host.refuses j.printedText text = none := by
  rw [perform_printLine]
  cases host.refuses j.printedText text <;> simp

@[simp] theorem perform_fail (e : ε) :
    (fail e : Activity ε α).perform host j = (.error (.failed e), j) := rfl

@[simp] theorem perform_raise (f : Fault) :
    (raise f : Activity ε α).perform host j = (.error (.fault f), j) := rfl

@[simp] theorem perform_ofExcept_ok (f : ε → ε') (a : α) :
    (ofExcept f (.ok a)).perform host j = (.ok a, j) := rfl

@[simp] theorem perform_ofExcept_error (f : ε → ε') (e : ε) :
    (ofExcept f (.error e) : Activity ε' α).perform host j = (.error (.failed (f e)), j) := rfl

theorem perform_handle (x : Activity ε α) (h : ε → Activity ε' α) :
    (x.handle h).perform host j =
      match x.perform host j with
      | (.ok a, j₁) => (.ok a, j₁)
      | (.error (.failed e), j₁) => (h e).perform host j₁
      | (.error (.fault f), j₁) => (.error (.fault f), j₁)
      | (.error (.interrupted text), j₁) => (.error (.interrupted text), j₁) := rfl

theorem perform_settle (x : Activity ε α) :
    (x.settle : Activity ε' _).perform host j =
      match x.perform host j with
      | (.ok a, j₁) => (.ok (.ok a), j₁)
      | (.error (.failed e), j₁) => (.ok (.error (.inr e)), j₁)
      | (.error (.fault f), j₁) => (.ok (.error (.inl f)), j₁)
      | (.error (.interrupted text), j₁) => (.error (.interrupted text), j₁) := rfl

section mapError

variable {x : Activity ε α} {g : ε → ε'}

@[simp] theorem perform_mapError_eq_ok {a : α} :
    (x.mapError g).perform host j = (.ok a, j') ↔ x.perform host j = (.ok a, j') := by
  rw [mapError, perform_handle]
  rcases x.perform host j with ⟨(_ | _ | _) | _, _⟩ <;> simp

@[simp] theorem perform_mapError_eq_failed {e : ε'} :
    (x.mapError g).perform host j = (.error (.failed e), j') ↔
      ∃ e₀, x.perform host j = (.error (.failed e₀), j') ∧ g e₀ = e := by
  rw [mapError, perform_handle]
  rcases x.perform host j with ⟨(_ | _ | e₀) | _, j₁⟩
  case error.failed =>
    have hiff : (g e₀ = e ∧ j₁ = j') ↔ (j₁ = j' ∧ g e₀ = e) := and_comm
    simpa [and_assoc] using hiff
  all_goals simp

@[simp] theorem perform_mapError_eq_fault {f : Fault} :
    (x.mapError g).perform host j = (.error (.fault f), j') ↔
      x.perform host j = (.error (.fault f), j') := by
  rw [mapError, perform_handle]
  rcases x.perform host j with ⟨(_ | _ | _) | _, _⟩ <;> simp

@[simp] theorem perform_mapError_eq_interrupted {text : String} :
    (x.mapError g).perform host j = (.error (.interrupted text), j') ↔
      x.perform host j = (.error (.interrupted text), j') := by
  rw [mapError, perform_handle]
  rcases x.perform host j with ⟨(_ | _ | _) | _, _⟩ <;> simp

end mapError

theorem perform_isFile (p : Path) :
    (isFile p : Activity ε Bool).perform host j =
      match host.files.isFile host.cwd p with
      | .ok b => (.ok b, j)
      | .error e => (.error (.fault (.nameTooLong e.path)), j) := rfl

theorem perform_isDirectory (p : Path) :
    (isDirectory p : Activity ε Bool).perform host j =
      match host.files.isDirectory host.cwd p with
      | .ok b => (.ok b, j)
      | .error e => (.error (.fault (.nameTooLong e.path)), j) := rfl

@[simp] theorem perform_isFile_eq_ok {p : Path} {b : Bool} :
    (isFile p : Activity ε Bool).perform host j = (.ok b, j') ↔
      host.files.isFile host.cwd p = .ok b ∧ j = j' := by
  rw [perform_isFile]
  cases host.files.isFile host.cwd p <;> simp

@[simp] theorem perform_isFile_eq_error {p : Path} {e : Halt ε} :
    (isFile p : Activity ε Bool).perform host j = (.error e, j') ↔
      ∃ n, host.files.isFile host.cwd p = .error n ∧ e = .fault (.nameTooLong n.path) ∧ j = j' := by
  rw [perform_isFile]
  cases host.files.isFile host.cwd p <;> simp [eq_comm]

@[simp] theorem perform_readBytes (p : Path) :
    (readBytes p : Activity ε (List UInt8)).perform host j =
      (.ok (((host.filesAfter j).read? host.cwd p).getD []), j) := rfl

theorem perform_resolveText (s : Symbols) :
    (resolveText s : Activity ε Path).perform host j =
      match host.files.resolveText host.cwd host.platform s with
      | .ok q => (.ok q, j)
      | .error reason => (.error (.fault (.ofUnresolved reason)), j) := rfl

theorem perform_resolve (p : Path) :
    (resolve p : Activity ε Path).perform host j =
      match host.files.resolve host.cwd p with
      | .ok q => (.ok q, j)
      | .error reason => (.error (.fault (.ofUnresolved reason)), j) := rfl

/-- Whether the absolute form of a path cannot be told: it starts at a current directory that has
been removed. -/
def Adrift (host : Host) (p : Path) : Prop := p.isAbsolute = false ∧ host.cwd.isRemoved = true

theorem perform_absolute_of_adrift {p : Path} (hp : Adrift host p) :
    (absolute p : Activity ε Path).perform host j = (.error (.fault .noCurrentDirectory), j) := by
  obtain ⟨h₁, h₂⟩ := hp
  simp [perform, absolute, ExceptT.run, ReaderT.run, StateT.run, h₁, h₂]

theorem perform_absolute_of_not_adrift {p : Path} (hp : ¬ Adrift host p) :
    (absolute p : Activity ε Path).perform host j = (.ok (Path.absolute host.cwd p), j) := by
  have h : ¬ ((!p.isAbsolute && host.cwd.isRemoved) = true) := by simpa [Adrift] using hp
  simp [perform, absolute, ExceptT.run, ReaderT.run, StateT.run, h]

theorem perform_currentDirectory (h : host.cwd.isRemoved = false) :
    (currentDirectory : Activity ε Path).perform host j = (.ok host.cwd, j) := by
  simp [perform, currentDirectory, ExceptT.run, ReaderT.run, StateT.run, h]

theorem perform_run (call : Call) :
    (run call).perform host j =
      match host.runner j.calls call with
      | .finished exitCode stdout output =>
        (.ok ⟨call.command, exitCode, stdout, output⟩, j ++ [.called call])
      | .refused reason => (.error (.failed ⟨call.command, reason⟩), j ++ [.called call])
      | .interrupted text => (.error (.interrupted text), j ++ [.called call])
      | .raised t => (.error (.fault (.outside t)), j ++ [.called call]) := rfl

/-- An activity that makes no calls, whatever comes of it; so no call can interrupt it. -/
def Offline (x : Activity ε α) : Prop :=
  ∀ host j, (x.perform host j).2.calls = j.calls ∧
    ∀ text, (x.perform host j).1 ≠ .error (.interrupted text)

namespace Offline

theorem calls_eq {x : Activity ε α} (hx : Offline x) {host : Host} {r : Except (Halt ε) α}
    (h : x.perform host j = (r, j')) : j'.calls = j.calls := by
  have hcalls := (hx host j).1
  rwa [h] at hcalls

theorem not_interrupted {x : Activity ε α} (hx : Offline x) {host : Host} {text : String} :
    x.perform host j ≠ (.error (.interrupted text), j') := by
  intro h
  exact (hx host j).2 text (by rw [h])

end Offline

end Activity
end MachTree
