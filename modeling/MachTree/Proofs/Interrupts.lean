import MachTree.Proofs.Registry.Interrupts
import MachTree.Proofs.Tool.Run

/-! Interrupts of whatever is done with builds.  An interrupt may come at any call, and whoever made
the call, it goes through to whoever asked: it is never taken for a failure of the call, which would
be told as a stage or logged as a failed compile. -/
namespace MachTree

open Activity

/-- That interrupts stop everything on a host and leave nothing behind. -/
structure InterruptsStop (host : Host) : Prop where
  probe : ∀ (ε : Type) (j : Journal) (root : Path) (given : Option Settings) (showProgress : Bool),
    Heeds host j ((Build.probe root given showProgress : Activity ε _).perform host j)
  create : ∀ (ε : Type) (j : Journal) (root : Path) (given : Option Settings)
    (showProgress : Bool),
    Heeds host j ((Build.create root given showProgress : Activity ε _).perform host j)
  testCompile : ∀ (ε : Type) (j : Journal) (b : Build) (source : Path),
    Heeds host j ((b.testCompile source : Activity ε Unit).perform host j)
  get : ∀ (ε : Type) (j j' : Journal) (r r' : Registry) (root : Path) (given : Option Settings)
    (result : Except (Halt ε) (Option Build)),
    (Registry.get root given : Registry.Session ε _).perform r host j = ((result, r'), j') →
    Heeds host j (result, j') ∧ ∀ text, result = .error (.interrupted text) →
      Registry.NothingLeft host r r' root given
  /-- threads that share a registry do not keep each other from a tree either -/
  threads : ∀ (τ : Type) [DecidableEq τ] (s : Registry.Threads τ) (t : τ) (key : Path)
    (lock : Nat), s.Reachable → s.GivesBack t key lock
  /-- a run of the tool prints nothing, and shows the interrupt last of all -/
  run : ∀ (time : String) (args : List String) (finish : Tool.Finish) (before after : Journal)
    (call : Call) (text : String), Tool.run time host args = .ok finish →
    finish.journal = before ++ .called call :: after →
    host.runner before.calls call = .interrupted text →
    finish.exitCode = 130 ∧ finish.journal.printedText = "" ∧
      after = Tool.complain Console.interruptLines ∧ ∀ e ∈ before, e.IsQuiet

/-- Wherever an interrupt comes, it ends all that is going on. -/
theorem interrupts_stop_all (host : Host) : InterruptsStop host where
  probe _ j root given showProgress := (Build.emits_probe root given showProgress host j).heeds
  create _ j root given showProgress := (Build.emits_create root given showProgress host j).heeds
  testCompile _ j b source := (b.emits_testCompile source host j).heeds
  get ε j j' r r' root given result h := by
    have hheeds := Registry.heeds_get (ε := ε) host j r root given
    rw [h] at hheeds
    refine ⟨hheeds, ?_⟩
    rintro text rfl
    exact Registry.nothingLeft_of_interrupted h
  threads _ _ _ t key lock hs := hs.givesBack t key lock
  run _ _ _ _ _ _ _ h hj hr := Tool.run_of_interrupted h hj hr

end MachTree
