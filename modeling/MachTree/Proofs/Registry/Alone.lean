import Mathlib.Logic.Relation
import MachTree.Proofs.Activity
import MachTree.Proofs.Registry.Threads

/-! A call with no other thread in between.  What the machine comes to is then what the call itself
comes to: the same answer, and the same registry after it. -/
namespace MachTree
namespace Registry

namespace Session

variable {ε α β : Type} {r : Registry} {host : Host} {j : Journal}

theorem perform_bind (x : Session ε α) (f : α → Session ε β) :
    (x >>= f).perform r host j =
      match x.perform r host j with
      | ((.ok a, r₁), j₁) => (f a).perform r₁ host j₁
      | ((.error e, r₁), j₁) => ((.error e, r₁), j₁) := by
  have h : (x >>= f).perform r host j =
      (ExceptT.bindCont f (x.perform r host j).1.1 (x.perform r host j).1.2 host)
        (x.perform r host j).2 := rfl
  rw [h]
  rcases x.perform r host j with ⟨⟨_ | _, _⟩, _⟩ <;> rfl

@[simp] theorem perform_pure (a : α) :
    (pure a : Session ε α).perform r host j = ((.ok a, r), j) := rfl

@[simp] theorem perform_lift (x : Activity ε α) :
    (lift x).perform r host j = (((x.perform host j).1, r), (x.perform host j).2) := rfl

@[simp] theorem perform_registry : (registry : Session ε Registry).perform r host j =
    ((.ok r, r), j) := rfl

@[simp] theorem perform_update (f : Registry → Registry) :
    (update f : Session ε Unit).perform r host j = ((.ok (), f r), j) := rfl

end Session

namespace Threads

open Relation

variable {τ : Type} {s s' : Threads τ} {t : τ} {p : Phase} {lock : Nat}

structure Quiet (s : Threads τ) : Prop where
  phase : ∀ t, s.phase t = .idle
  master : s.master = none
  holder : ∀ lock, s.holder lock = none

/-- One thread alone is in a call and has one lock. -/
structure Busy (s : Threads τ) (t : τ) (p : Phase) (lock : Nat) : Prop where
  phase : s.phase t = p
  others : ∀ u, u ≠ t → s.phase u = .idle
  master : s.master = none
  holder : ∀ l, l ≠ lock → s.holder l = none

theorem Quiet.start (showProgress : Bool) : Quiet (start showProgress : Threads τ) :=
  ⟨fun _ => rfl, rfl, fun _ => rfl⟩

theorem Busy.note (hb : Busy s t p lock) (marks : List (Mark τ)) : Busy (s.note marks) t p lock :=
  ⟨hb.phase, hb.others, hb.master, hb.holder⟩

theorem Busy.setRegistry (hb : Busy s t p lock) (r : Registry) :
    Busy (s.setRegistry r) t p lock :=
  ⟨hb.phase, hb.others, hb.master, hb.holder⟩

variable [DecidableEq τ]

/-- One thread makes a call from its start to its end. -/
structure Performs (s : Threads τ) (t : τ) (request : Request) (key : Path) (s' : Threads τ) :
    Prop where
  steps : ReflTransGen (Step t) (s.go t (request.start key)) s'
  quiet : Quiet s'

def SomeStep (s s' : Threads τ) : Prop := ∃ t, Step t s s'

theorem Reachable.run (hs : Reachable s) (h : ReflTransGen SomeStep s s') : Reachable s' := by
  induction h with
  | refl => exact hs
  | tail _ hstep ih =>
    obtain ⟨t, hstep⟩ := hstep
    exact ih.step hstep

theorem run_of_steps (h : ReflTransGen (Step t) s s') : ReflTransGen SomeStep s s' :=
  ReflTransGen.mono (fun _ _ hstep => ⟨t, hstep⟩) s s' h

theorem Performs.reachable {request : Request} (cwd : Path) (hs : Reachable s) (hq : Quiet s)
    (h : Performs s t request (Path.absolute cwd request.root) s') : Reachable s' :=
  (hs.step (.call request cwd (hq.phase t))).run (run_of_steps h.steps)

theorem Busy.go (hb : Busy s t p lock) (q : Phase) : Busy (s.go t q) t q lock where
  phase := by simp
  others u hu := by simp [hu, hb.others u hu]
  master := hb.master
  holder := hb.holder

variable {key : Path} {s₀ : Threads τ}

/-- A thread comes to wait for the lock of a tree, which is made if need be. -/
structure Waits (s : Threads τ) (t : τ) (task : Task) (key : Path) (lock : Nat) (s' : Threads τ) :
    Prop where
  steps : ReflTransGen (Step t) (s.go t (.calling task key)) s'
  phase : s'.phase = Function.update s.phase t (.waiting task key lock)
  locks : s'.locks.get? key = some lock
  kept : ∀ l, s.locks.get? key = some l → l = lock
  master : s'.master = none
  holder : s'.holder = s.holder
  registry : s'.registry = s.registry
  history : s'.history = s.history

/-- Whatever other threads do, a thread need not stop for them before it waits, as long as none of
them has the master lock. -/
theorem exists_waits (t : τ) (task : Task) (key : Path) (hm : s.master = none) :
    ∃ lock s', Waits s t task key lock s' := by
  have hcall : ReflTransGen (Step t) (s.go t (.calling task key)) _ := .refl
  have henter := hcall.tail (.enter task key (by simp) hm)
  cases hl : s.locks.get? key with
  | none =>
    have hmissing := henter.tail (.missing task key (by simp) hl)
    have hcreate := hmissing.tail (.create task key (by simp))
    have hfetch := hcreate.tail (.fetch task key s.lockCount (by simp) (by simp))
    have hexit := hfetch.tail (.exit task key s.lockCount (by simp))
    refine ⟨s.lockCount, _, hexit, ?_, ?_, ?_, ?_, ?_, ?_, ?_⟩ <;> simp [hl]
  | some lock =>
    have hpresent := henter.tail (.present task key lock (by simp) hl)
    have hfetch := hpresent.tail (.fetch task key lock (by simp) hl)
    have hexit := hfetch.tail (.exit task key lock (by simp))
    refine ⟨lock, _, hexit, ?_, ?_, ?_, ?_, ?_, ?_, ?_⟩ <;> simp [hl]

theorem Busy.acquire {task : Task} (hb : Busy s t (.waiting task key lock) lock)
    (hfree : s.holder lock = none) : ∃ s', Step t s s' ∧
      Busy s' t (.holding task key lock) lock ∧ s'.locks = s.locks ∧
      s'.registry = s.registry ∧ s'.history = s.history := by
  refine ⟨_, .acquire task key lock hb.phase hfree, ⟨?_, ?_, ?_, ?_⟩, rfl, rfl, rfl⟩
  · simp
  · intro u hu
    simp [hu, hb.others u hu]
  · exact hb.master
  · intro l hl
    simp [hl, hb.holder l hl]

theorem Waits.busy {task : Task} (hw : Waits s t task key lock s') (hq : Quiet s) :
    Busy s' t (.waiting task key lock) lock where
  phase := by simp [hw.phase]
  others u hu := by simp [hw.phase, hu, hq.phase u]
  master := hw.master
  holder l _ := by rw [hw.holder, hq.holder]

/-- A thread comes to have the lock of a tree. -/
theorem Quiet.hold (hq : Quiet s) (t : τ) (task : Task) (key : Path) :
    ∃ s' lock, ReflTransGen (Step t) (s.go t (.calling task key)) s' ∧
      Busy s' t (.holding task key lock) lock ∧ s'.registry = s.registry ∧
      s'.history = s.history := by
  obtain ⟨lock, s₁, hw⟩ := exists_waits t task key hq.master
  obtain ⟨s', hstep, hb, -, hr, hh⟩ := (hw.busy hq).acquire (by rw [hw.holder, hq.holder])
  exact ⟨s', lock, hw.steps.tail hstep, hb, hr.trans hw.registry, hh.trans hw.history⟩

theorem Busy.release {answer : Answer} (hb : Busy s t (.leaving answer key lock) lock) :
    ∃ s', Step t s s' ∧ Quiet s' ∧ s'.registry = s.registry ∧
      s'.history = s.history ++ answer.marks t key := by
  refine ⟨_, .release _ _ _ hb.phase, ⟨?_, hb.master, ?_⟩, rfl, rfl⟩
  · intro u
    by_cases hu : u = t
    · simp [hu]
    · simp [hu, hb.others u hu]
  · intro l
    by_cases hl : l = lock
    · simp [hl]
    · simp [hl, hb.holder l hl]

/-- A thread that has the lock of a tree that is not known sets it up, and gives the lock back. -/
theorem Busy.setUp {root : Path} {settings : Option Settings} (found : Stage × Option Build)
    (hb : Busy s t (.holding (.get root settings) key lock) lock)
    (he : s.registry.entries.get? key = none) :
    ∃ s', ReflTransGen (Step t) s s' ∧ Quiet s' ∧ s'.registry = s.registry.store key found ∧
      s'.history = s.history ++
        [.probed t key found, .stored t key found, .returned t key found.2] := by
  have hprobe := ReflTransGen.single (Step.probe root settings key lock hb.phase he)
  have hfinish := hprobe.tail (.finish root settings key lock found (hb.go _).phase)
  have hb₁ := ((hb.go (.probing root settings key lock)).go (.storing found key lock)).note
    [.probed t key found]
  have hstore := hfinish.tail (.store found key lock hb₁.phase)
  have hb₂ := ((hb₁.go (.leaving (.build found.2) key lock)).setRegistry
    (s.registry.store key found)).note [.stored t key found]
  obtain ⟨s', hstep, hquiet, hr, hh⟩ := hb₂.release
  exact ⟨s', hstore.tail hstep, hquiet, hr, hh.trans (by simp [Answer.marks])⟩

variable (t : τ) (root : Path) (settings : Option Settings)

theorem Quiet.get_known (hq : Quiet s) (key : Path) (entry : Entry)
    (he : s.registry.entries.get? key = some entry) :
    ∃ s', Performs s t (.get root settings) key s' ∧ s'.registry = s.registry ∧
      s'.history = s.history ++ [.returned t key entry.build] := by
  obtain ⟨s₁, lock, hrun, hb, hr, hh⟩ := hq.hold t (.get root settings) key
  have hfind := hrun.tail (.find root settings key lock entry hb.phase (by rw [hr, he]))
  obtain ⟨s', hstep, hquiet, hr', hh'⟩ := (hb.go _).release
  exact ⟨s', ⟨hfind.tail hstep, hquiet⟩, hr'.trans hr, by rw [hh']; simp [hh, Answer.marks]⟩

theorem Quiet.get_new (hq : Quiet s) (key : Path) (found : Stage × Option Build)
    (he : s.registry.entries.get? key = none) :
    ∃ s', Performs s t (.get root settings) key s' ∧
      s'.registry = s.registry.store key found ∧
      s'.history = s.history ++
        [.probed t key found, .stored t key found, .returned t key found.2] := by
  obtain ⟨s₁, lock, hrun, hb, hr, hh⟩ := hq.hold t (.get root settings) key
  obtain ⟨s', hsteps, hquiet, hr', hh'⟩ := hb.setUp found (by rw [hr, he])
  exact ⟨s', ⟨hrun.trans hsteps, hquiet⟩, by rw [hr', hr], by rw [hh', hh]⟩

theorem Quiet.get_raised (hq : Quiet s) (he : s.registry.entries.get? key = none) :
    ∃ s', Performs s t (.get root settings) key s' ∧ s'.registry = s.registry ∧
      s'.history = s.history := by
  obtain ⟨s₁, lock, hrun, hb, hr, hh⟩ := hq.hold t (.get root settings) key
  have hprobe := hrun.tail (.probe root settings key lock hb.phase (by rw [hr, he]))
  have hraise := hprobe.tail (.raise root settings key lock (hb.go _).phase)
  obtain ⟨s', hstep, hquiet, hr', hh'⟩ :=
    ((hb.go (.probing root settings key lock)).go (.leaving .raised key lock)).release
  exact ⟨s', ⟨hraise.tail hstep, hquiet⟩, hr'.trans hr, by rw [hh']; simp [hh, Answer.marks]⟩

theorem Quiet.forget (key : Path) (hq : Quiet s) :
    ∃ s', Performs s t (.forget root) key s' ∧ s'.registry = s.registry.without key ∧
      s'.history = s.history ++ [.forgot t key] := by
  obtain ⟨s₁, lock, hrun, hb, hr, hh⟩ := hq.hold t .forget key
  have hforget := hrun.tail (.forget key lock hb.phase)
  have hb₁ := ((hb.go (.leaving .forgotten key lock)).setRegistry
    (s₁.registry.without key)).note [.forgot t key]
  obtain ⟨s', hstep, hquiet, hr', hh'⟩ := hb₁.release
  refine ⟨s', ⟨hforget.tail hstep, hquiet⟩, hr'.trans ?_, hh'.trans ?_⟩
  · simp [hr]
  · simp [hh, Answer.marks]

theorem Quiet.stage (key : Path) (hq : Quiet s) :
    ∃ s', Performs s t (.stage root) key s' ∧ s'.registry = s.registry ∧
      s'.history = s.history ++ [.told t key (s.registry.stageOf key)] := by
  have hcall : ReflTransGen (Step t) (s.go t (.asking key)) _ := .refl
  have hask := hcall.tail (.ask key (by simp) hq.master)
  have hread := hask.tail (.read key (by simp))
  have hleave := hread.tail (.leave (by simp))
  refine ⟨_, ⟨hleave, ?_, rfl, hq.holder⟩, rfl, rfl⟩
  intro u
  by_cases hu : u = t
  · simp [hu]
  · simp [hu, hq.phase u]

variable {ε : Type} {host : Host} {j j' : Journal} {r : Registry} {t root settings}

/-- A call for a build does to the registry what a lone thread does, and ends as it does. -/
theorem Quiet.get_session (hq : Quiet s) (hd : ¬ Activity.Adrift host root)
    {result : Except (Halt ε) (Option Build)}
    (h : (Registry.get root settings).perform s.registry host j = ((result, r), j')) :
    ∃ s', Performs s t (.get root settings) (Path.absolute host.cwd root) s' ∧
      s'.registry = r ∧ ∀ b, result = .ok b →
        ∃ marks, s'.history = marks ++ [.returned t (Path.absolute host.cwd root) b] := by
  simp only [Registry.get, entry, Session.perform_bind, Session.perform_lift,
    Activity.perform_absolute_of_not_adrift hd, Session.perform_registry] at h
  cases he : s.registry.entries.get? (Path.absolute host.cwd root) with
  | some entry =>
    obtain ⟨s', hrun, hr, hh⟩ := hq.get_known t root settings _ entry he
    simp only [he, Session.perform_pure, Prod.mk.injEq] at h
    obtain ⟨⟨rfl, rfl⟩, -⟩ := h
    refine ⟨s', hrun, hr, ?_⟩
    intro b hb
    obtain rfl : entry.build = b := by simpa using hb
    exact ⟨_, hh⟩
  | none =>
    simp only [he, Session.perform_bind, Session.perform_lift, Activity.info,
      Activity.perform_log] at h
    rcases hp : (Build.probe root settings s.registry.showProgress : Activity ε _).perform host
      (j ++ [.logged .info ("Creating build for " ++ root.toString)]) with ⟨e | found, j₁⟩
    · obtain ⟨s', hrun, hr, -⟩ := hq.get_raised t root settings he
      simp only [hp, Prod.mk.injEq] at h
      obtain ⟨⟨rfl, rfl⟩, -⟩ := h
      exact ⟨s', hrun, hr, by simp⟩
    · obtain ⟨s', hrun, hr, hh⟩ := hq.get_new t root settings _ found he
      simp only [hp, Session.perform_update, Session.perform_pure, Prod.mk.injEq] at h
      obtain ⟨⟨rfl, rfl⟩, -⟩ := h
      refine ⟨s', hrun, hr, ?_⟩
      intro b hb
      obtain rfl : found.2 = b := by simpa using hb
      refine ⟨s.history ++ [.probed t (Path.absolute host.cwd root) found,
        .stored t (Path.absolute host.cwd root) found], ?_⟩
      rw [hh, List.append_assoc]
      rfl

theorem Quiet.forget_session (hq : Quiet s) (hd : ¬ Activity.Adrift host root)
    {result : Except (Halt ε) Unit}
    (h : (Registry.forget root).perform s.registry host j = ((result, r), j')) :
    result = .ok () ∧ ∃ s', Performs s t (.forget root) (Path.absolute host.cwd root) s' ∧
      s'.registry = r := by
  obtain ⟨s', hrun, hr, -⟩ := hq.forget t root (Path.absolute host.cwd root)
  simp only [Registry.forget, Session.perform_bind, Session.perform_lift,
    Activity.perform_absolute_of_not_adrift hd, Session.perform_update, Prod.mk.injEq] at h
  obtain ⟨⟨rfl, rfl⟩, -⟩ := h
  exact ⟨rfl, s', hrun, hr⟩

theorem Quiet.stage_session (hq : Quiet s) (hd : ¬ Activity.Adrift host root)
    {result : Except (Halt ε) Stage}
    (h : (Registry.stage root).perform s.registry host j = ((result, r), j')) :
    ∃ stage, result = .ok stage ∧
      ∃ s', Performs s t (.stage root) (Path.absolute host.cwd root) s' ∧ s'.registry = r ∧
        s'.history = s.history ++ [.told t (Path.absolute host.cwd root) stage] := by
  obtain ⟨s', hrun, hr, hh⟩ := hq.stage t root (Path.absolute host.cwd root)
  simp only [Registry.stage, Session.perform_bind, Session.perform_lift,
    Activity.perform_absolute_of_not_adrift hd, Session.perform_registry, Session.perform_pure,
    Prod.mk.injEq] at h
  obtain ⟨⟨rfl, rfl⟩, -⟩ := h
  exact ⟨_, rfl, s', hrun, hr, hh⟩

/-- A call for a tree whose absolute path cannot be told never starts. -/
theorem perform_of_adrift (hd : Activity.Adrift host root) :
    (Registry.get root settings : Session ε _).perform r host j =
        ((.error (.fault .noCurrentDirectory), r), j) ∧
      (Registry.forget root : Session ε _).perform r host j =
        ((.error (.fault .noCurrentDirectory), r), j) ∧
      (Registry.stage root : Session ε _).perform r host j =
        ((.error (.fault .noCurrentDirectory), r), j) := by
  simp [Registry.get, entry, Registry.forget, Registry.stage, Session.perform_bind,
    Activity.perform_absolute_of_adrift hd]

end Threads
end Registry
end MachTree
