import MachTree.Proofs.Build.Interrupts
import MachTree.Proofs.Registry.Sharing

/-! Interrupts while a registry is asked for a build.  A call that is interrupted stores nothing and
gives the lock of its tree back, so that the next call for the tree sets it up once more. -/
namespace MachTree
namespace Registry

open Activity

/-- Setting up a tree that is not known, with a note before and the stage told after. -/
def setUp {ε : Type} (root : Path) (settings : Option Settings) (showProgress : Bool) :
    Activity ε (Stage × Option Build) := do
  Activity.info ("Creating build for " ++ root.toString)
  let found ← Build.probe root settings showProgress
  Activity.info ("Build for " ++ root.toString ++ ": " ++ found.1.tag)
  pure found

theorem emits_setUp {ε : Type} (root : Path) (settings : Option Settings) (showProgress : Bool) :
    Emits Event.IsQuiet (fun _ => True) (setUp root settings showProgress : Activity ε _) := by
  refine (Emits.log (Event.isQuiet_info (by simp))).bind_last (fun _ _ => trivial) fun _ => ?_
  exact (Build.emits_probe _ _ _).bind_noCall fun found =>
    (Emits.log (by simp [Event.IsNoCall])).bind fun _ => .pure _

section Get

variable {ε : Type} {host : Host} {j : Journal} {r : Registry} {root : Path}
  {settings : Option Settings}

theorem perform_get_of_known (hd : ¬ Adrift host root) {entry : Entry}
    (he : r.entries.get? (Path.absolute host.cwd root) = some entry) :
    (get root settings : Session ε _).perform r host j = ((.ok entry.build, r), j) := by
  simp [get, Registry.entry, Session.perform_bind, perform_absolute_of_not_adrift hd, he]

theorem perform_get_of_unknown (hd : ¬ Adrift host root)
    (he : r.entries.get? (Path.absolute host.cwd root) = none) :
    (get root settings : Session ε _).perform r host j =
      match (setUp root settings r.showProgress : Activity ε _).perform host j with
      | (.ok found, j₁) => ((.ok found.2, r.store (Path.absolute host.cwd root) found), j₁)
      | (.error e, j₁) => ((.error e, r), j₁) := by
  simp only [get, Registry.entry, setUp, Session.perform_bind, Session.perform_lift,
    perform_absolute_of_not_adrift hd, Session.perform_registry, he, perform_bind, perform_info]
  rcases hp : (Build.probe root settings r.showProgress : Activity ε _).perform host
    (j ++ [.logged .info ("Creating build for " ++ root.toString)]) with ⟨e | found, j₁⟩
  · simp only [hp]
  · simp only [hp, Session.perform_update, Session.perform_pure, perform_pure]

theorem heeds_get (host : Host) (j : Journal) (r : Registry) (root : Path)
    (settings : Option Settings) :
    Heeds host j (((get root settings : Session ε _).perform r host j).1.1,
      ((get root settings : Session ε _).perform r host j).2) := by
  have hsilent {result : Except (Halt ε) (Option Build)}
      (h : ∀ text, result ≠ .error (.interrupted text)) : Heeds host j (result, j) :=
    (Ends.silent (P := Event.IsQuiet) (Q := fun _ => True) h).heeds
  by_cases hd : Adrift host root
  · rw [(Threads.perform_of_adrift hd).1]
    exact hsilent (by simp)
  · cases he : r.entries.get? (Path.absolute host.cwd root) with
    | some entry =>
      rw [perform_get_of_known hd he]
      exact hsilent (by simp)
    | none =>
      have hheeds := (emits_setUp root settings r.showProgress (ε := ε) host j).heeds
      rw [perform_get_of_unknown hd he]
      generalize (setUp root settings r.showProgress : Activity ε _).perform host j = run at hheeds
      rcases run with ⟨e | found, j₁⟩
      · exact hheeds.of_result fun text he => by rw [Except.error.inj he]
      · exact hheeds.of_result (by simp)

/-- That nothing is left of a call for the build of a tree that came to nothing. -/
structure NothingLeft (host : Host) (r r' : Registry) (root : Path) (settings : Option Settings) :
    Prop where
  same : r' = r
  /-- whoever asks for the tree next sets it up -/
  next : ∀ (ε : Type) (host' : Host) (j : Journal) (root' : Path) (settings' : Option Settings),
    ¬ Adrift host' root' → Path.absolute host'.cwd root' = Path.absolute host.cwd root →
    (get root' settings' : Session ε _).perform r' host' j =
      match (setUp root' settings' r'.showProgress : Activity ε _).perform host' j with
      | (.ok found, j₁) => ((.ok found.2, r'.store (Path.absolute host.cwd root) found), j₁)
      | (.error e, j₁) => ((.error e, r'), j₁)
  /-- a thread that makes the call leaves no lock taken -/
  unlocked : ∀ (τ : Type) [DecidableEq τ] (s : Threads τ) (t : τ), s.Quiet → s.registry = r →
    ∃ s', s.Performs t (.get root settings) (Path.absolute host.cwd root) s' ∧ s'.registry = r'

theorem nothingLeft_of_interrupted {text : String} {r' : Registry} {j' : Journal}
    (h : (get root settings : Session ε _).perform r host j =
      ((.error (.interrupted text), r'), j')) : NothingLeft host r r' root settings := by
  have hd : ¬ Adrift host root := by
    intro hd
    simp [(Threads.perform_of_adrift hd).1] at h
  have hnone : r.entries.get? (Path.absolute host.cwd root) = none := by
    cases he : r.entries.get? (Path.absolute host.cwd root) with
    | some entry => simp [perform_get_of_known hd he] at h
    | none => rfl
  obtain rfl : r = r' := by
    rw [perform_get_of_unknown hd hnone] at h
    rcases hrun : (setUp root settings r.showProgress : Activity ε _).perform host j with
      ⟨e | found, j₁⟩ <;> simp_all
  refine ⟨rfl, fun ε' host' j' root' settings' hd' hkey => ?_, fun τ _ s t hq hs => ?_⟩
  · rw [← hkey]
    exact perform_get_of_unknown hd' (hkey ▸ hnone)
  · subst hs
    obtain ⟨s', hperforms, hr, -⟩ := hq.get_session (t := t) hd h
    exact ⟨s', hperforms, hr⟩

end Get

namespace Threads

/-- That a thread which is interrupted while it sets up a tree gives the tree back as it took it. -/
structure GivesBack {τ : Type} [DecidableEq τ] (s : Threads τ) (t : τ) (key : Path) (lock : Nat) :
    Prop where
  /-- the interrupt itself changes nothing -/
  raised : ∀ root settings s', s.phase t = .probing root settings key lock → Step t s s' →
    s'.phase t = .leaving .raised key lock → s'.registry = s.registry
  /-- after it, the lock is given back, and a thread that waits for it sets up the tree -/
  released : s.phase t = .leaving .raised key lock → (∃ s', Step t s s') ∧ ∀ s', Step t s s' →
    s'.registry = s.registry ∧ s'.registry.entries.get? key = none ∧ s'.holder lock = none ∧
      ∀ u root settings lock', s'.phase u = .waiting (.get root settings) key lock' →
        lock' = lock ∧ SetsUpNext s' u key

theorem Reachable.givesBack {τ : Type} [DecidableEq τ] {s : Threads τ} (hs : Reachable s) (t : τ)
    (key : Path) (lock : Nat) : GivesBack s t key lock where
  raised root settings s' hp h hp' := by
    cases h with
    | raise => rfl
    | _ => simp_all
  released ht := by
    obtain ⟨hl, hr⟩ := hs.locked_and_recorded
    exact ⟨⟨_, .release _ _ _ ht⟩, fun s' h => hr.retry hl ht h⟩

end Threads
end Registry
end MachTree
