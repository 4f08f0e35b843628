import MachTree.Table

/-! Checks that are made one after the other.  They pass when each of them passes; otherwise the
first that fails is the one that is reported. -/
namespace MachTree

variable {α ε : Type} {f : α → Except ε Unit} {l : List α}

theorem forM_eq_ok : l.forM f = .ok () ↔ ∀ a ∈ l, f a = .ok () := by
  induction l with
  | nil => simp [pure, Except.pure]
  | cons a l ih =>
    rw [List.forM_eq_forM] at ih
    rw [List.forM_eq_forM, List.forM_cons, List.forall_mem_cons, ← ih]
    cases ha : f a <;> simp [bind, Except.bind]

theorem forM_eq_error {e : ε} : l.forM f = .error e ↔
    ∃ before a after, l = before ++ a :: after ∧ (∀ b ∈ before, f b = .ok ()) ∧ f a = .error e := by
  induction l with
  | nil => simp [pure, Except.pure]
  | cons a l ih =>
    rw [List.forM_eq_forM] at ih
    rw [List.forM_eq_forM, List.forM_cons]
    cases ha : f a with
    | error e' =>
      simp only [bind, Except.bind, Except.error.injEq]
      constructor
      · rintro rfl
        exact ⟨[], a, l, rfl, by simp, ha⟩
      · rintro ⟨_ | ⟨b, before⟩, c, after, hl, hbefore, hc⟩
        · obtain ⟨rfl, -⟩ := List.cons.inj hl
          exact Except.error.inj (ha.symm.trans hc)
        · obtain ⟨rfl, -⟩ := List.cons.inj hl
          cases ha.symm.trans (hbefore a (by simp))
    | ok u =>
      simp only [bind, Except.bind, ih]
      constructor
      · rintro ⟨before, c, after, rfl, hbefore, hc⟩
        exact ⟨a :: before, c, after, rfl, List.forall_mem_cons.mpr ⟨ha, hbefore⟩, hc⟩
      · rintro ⟨_ | ⟨b, before⟩, c, after, hl, hbefore, hc⟩
        · obtain ⟨rfl, -⟩ := List.cons.inj hl
          cases ha.symm.trans hc
        · obtain ⟨-, rfl⟩ := List.cons.inj hl
          exact ⟨before, c, after, rfl, (List.forall_mem_cons.mp hbefore).2, hc⟩

end MachTree
