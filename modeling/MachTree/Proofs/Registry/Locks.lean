import MachTree.Proofs.Registry.Threads

/-! Locks that threads have.  The master lock keeps a tree from being given two locks, and its one
lock keeps two threads from working on a tree at a time. -/
namespace MachTree
namespace Registry

@[simp] theorem Request.chosen?_start (request : Request) (key : Path) :
    (request.start key).chosen? = none := by
  cases request <;> rfl

@[simp] theorem Request.inside?_start (request : Request) (key : Path) :
    (request.start key).inside? = none := by
  cases request <;> rfl

theorem Phase.chosen?_of_inside? {p : Phase} {key : Path} {lock : Nat}
    (h : p.inside? = some (key, lock)) : p.chosen? = some (key, lock) := by
  cases p <;> simp_all [inside?, chosen?]

namespace Threads

variable {τ : Type} {s s' : Threads τ} {t u : τ} {key : Path} {lock : Nat}

/-- Every thread that should have a lock has it, and the lock of a tree is one and the same for
all. -/
structure Locked (s : Threads τ) : Prop where
  master : ∀ t, (s.phase t).InMaster → s.master = some t
  creating : ∀ t task key, s.phase t = .creating task key → s.locks.get? key = none
  chosen : ∀ t key lock, (s.phase t).chosen? = some (key, lock) → s.locks.get? key = some lock
  inside : ∀ t key lock, (s.phase t).inside? = some (key, lock) → s.holder lock = some t

theorem Locked.start (showProgress : Bool) : Locked (start showProgress : Threads τ) := by
  constructor <;> intros <;> simp_all [Threads.start, Phase.InMaster, Phase.chosen?, Phase.inside?]

/-- Two threads that have the lock of one tree are one. -/
theorem Locked.unique (hs : Locked s) {lock' : Nat} (ht : (s.phase t).inside? = some (key, lock))
    (hu : (s.phase u).inside? = some (key, lock')) : t = u := by
  have hlock := hs.chosen t key lock (Phase.chosen?_of_inside? ht)
  have hlock' := hs.chosen u key lock' (Phase.chosen?_of_inside? hu)
  have he : lock = lock' := Option.some.inj (hlock.symm.trans hlock')
  subst he
  have hholder := hs.inside t key lock ht
  have hholder' := hs.inside u key lock hu
  exact Option.some.inj (hholder.symm.trans hholder')

variable [DecidableEq τ]

theorem Step.phase_of_ne (h : Step t s s') (hu : u ≠ t) : s'.phase u = s.phase u := by
  cases h <;> simp [hu]

theorem Locked.master_step (hs : Locked s) (h : Step t s s') :
    ∀ u, (s'.phase u).InMaster → s'.master = some u := by
  intro u hu
  have hmu := hs.master u
  have hmt := hs.master t
  by_cases hut : u = t
  · subst hut
    cases h with
    | call request cwd hp => cases request <;> simp [Request.start, Phase.InMaster] at hu
    | _ => simp_all [Phase.InMaster]
  · rw [h.phase_of_ne hut] at hu
    cases h <;> simp_all [Phase.InMaster]

theorem Locked.locks_step (hs : Locked s) (key : Path) (lock : Nat) (h : Step t s s')
    (hl : s.locks.get? key = some lock) : s'.locks.get? key = some lock := by
  cases h with
  | @create task key' hp =>
    have hnone := hs.creating t task key' hp
    have hne : key ≠ key' := by rintro rfl; simp_all
    simp [hne, hl]
  | _ => exact hl

theorem Locked.creating_step (hs : Locked s) (h : Step t s s') :
    ∀ u task key, s'.phase u = .creating task key → s'.locks.get? key = none := by
  intro u task key hu
  by_cases hut : u = t
  · subst hut
    cases h with
    | call request cwd hp => cases request <;> simp [Request.start] at hu
    | _ => simp_all
  · -- the thread has the master lock, so no other thread is making a lock
    have hp := h.phase_of_ne hut
    rw [hp] at hu
    have hmu := hs.master u
    have hmt := hs.master t
    have hc := hs.creating u task key hu
    cases h <;> simp_all [Phase.InMaster]

theorem Locked.chosen_step (hs : Locked s) (h : Step t s s') :
    ∀ u key lock, (s'.phase u).chosen? = some (key, lock) → s'.locks.get? key = some lock := by
  intro u key lock hu
  by_cases hut : u = t
  · subst hut
    have hc := hs.chosen u key lock
    have hl := hs.locks_step key lock h
    cases h with
    | call request cwd hp => simp at hu
    | _ => simp_all [Phase.chosen?]
  · rw [h.phase_of_ne hut] at hu
    exact hs.locks_step key lock h (hs.chosen u key lock hu)

theorem Locked.holder_step (hs : Locked s) (h : Step t s s') (hut : u ≠ t)
    (hl : s.holder lock = some u) : s'.holder lock = some u := by
  cases h with
  | @acquire task key' lock' hp hfree =>
    have hne : lock ≠ lock' := by rintro rfl; simp [hfree] at hl
    simp [hne, hl]
  | @release answer key' lock' hp =>
    have ht := hs.inside t key' lock' (by simp [hp, Phase.inside?])
    have hne : lock ≠ lock' := by
      rintro rfl
      exact hut (Option.some.inj (hl.symm.trans ht))
    simp [hne, hl]
  | _ => exact hl

theorem Locked.inside_step (hs : Locked s) (h : Step t s s') :
    ∀ u key lock, (s'.phase u).inside? = some (key, lock) → s'.holder lock = some u := by
  intro u key lock hu
  by_cases hut : u = t
  · subst hut
    have hi := hs.inside u key lock
    cases h with
    | call request cwd hp => simp at hu
    | _ => simp_all [Phase.inside?]
  · rw [h.phase_of_ne hut] at hu
    exact hs.holder_step h hut (hs.inside u key lock hu)

theorem Locked.step (hs : Locked s) (h : Step t s s') : Locked s' where
  master := hs.master_step h
  creating := hs.creating_step h
  chosen := hs.chosen_step h
  inside := hs.inside_step h

end Threads
end Registry
end MachTree
