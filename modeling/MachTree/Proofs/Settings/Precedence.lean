import Mathlib.Data.List.Basic
import MachTree.Proofs.Path.Below
import MachTree.Proofs.Settings.Validation

/-! Which section answers for a path: the sections that hold for it are asked in one order, the
deepest directory first.  A path has other answers than a directory above it only where a section
holds for less than the whole directory. -/
namespace MachTree
namespace Settings

variable {s : Settings} {ini : Ini} {sects : List String} {sect option : String}

theorem goesBefore_trans (a b c : Nat × String) (hab : goesBefore a b = true)
    (hbc : goesBefore b c = true) : goesBefore a c = true := by
  simp only [goesBefore, Bool.or_eq_true, Bool.and_eq_true, Bool.not_eq_true', beq_iff_eq,
    decide_eq_true_eq, decide_eq_false_iff_not, String.not_lt] at hab hbc ⊢
  rcases hab with h | ⟨h, h'⟩ <;> rcases hbc with k | ⟨k, k'⟩
  · exact .inl (by omega)
  · exact .inl (by omega)
  · exact .inl (by omega)
  · exact .inr ⟨h.trans k, String.le_trans k' h'⟩

theorem goesBefore_total (a b : Nat × String) : (goesBefore a b || goesBefore b a) = true := by
  simp only [goesBefore, Bool.or_eq_true, Bool.and_eq_true, Bool.not_eq_true', beq_iff_eq,
    decide_eq_true_eq, decide_eq_false_iff_not, String.not_lt]
  rcases Nat.lt_trichotomy a.1 b.1 with h | h | h
  · exact .inr (.inl h)
  · exact (String.le_total b.2 a.2).elim (fun hs => .inl (.inr ⟨h, hs⟩))
      fun hs => .inr (.inr ⟨h.symm, hs⟩)
  · exact .inl (.inl h)

theorem goesBefore_antisymm {a b : Nat × String} (hab : goesBefore a b = true)
    (hba : goesBefore b a = true) : a = b := by
  simp only [goesBefore, Bool.or_eq_true, Bool.and_eq_true, Bool.not_eq_true', beq_iff_eq,
    decide_eq_true_eq, decide_eq_false_iff_not, String.not_lt] at hab hba
  rcases hab with h | ⟨h, h'⟩ <;> rcases hba with k | ⟨k, k'⟩
  · omega
  · omega
  · omega
  · exact Prod.ext h (String.le_antisymm k' h')

theorem filter_mergeSort (p : Nat × String → Bool) (scopes : List (Nat × String)) :
    (scopes.mergeSort goesBefore).filter p = (scopes.filter p).mergeSort goesBefore := by
  refine List.Perm.eq_of_pairwise (fun a b _ _ => goesBefore_antisymm)
    ((List.pairwise_mergeSort goesBefore_trans goesBefore_total _).filter _)
    (List.pairwise_mergeSort goesBefore_trans goesBefore_total _) ?_
  exact ((List.mergeSort_perm _ _).filter p).trans (List.mergeSort_perm _ _).symm

theorem scope?_of_isWithin {path dir : Path} {scope : Nat × String}
    (hpath : path.isWithin dir = true) (h : s.scope? dir sect = some scope) :
    s.scope? path sect = some scope := by
  rw [scope?, Option.bind_eq_some_iff] at h ⊢
  obtain ⟨own, hown, h⟩ := h
  refine ⟨own, hown, ?_⟩
  split at h
  · rename_i hdir
    rwa [if_pos (Path.isWithin_trans hpath hdir)]
  · cases h

theorem scope?_baseSection (s : Settings) (path : Path) : s.scope? path baseSection = none := by
  have hbase : directoryText? baseSection = none := by decide
  simp [scope?, directory?, hbase]

/-- The sections that hold for a directory are those among the sections for a path below it that
hold for the whole directory, in the same order. -/
theorem sectionsFor_of_isWithin {path dir : Path} (h : path.isWithin dir = true) :
    s.sectionsFor (some dir) = (s.sectionsFor (some path)).filter fun sect =>
      sect == baseSection || (s.scope? dir sect).isSome := by
  have hscopes : s.ini.sectionNames.filterMap (s.scope? dir) =
      (s.ini.sectionNames.filterMap (s.scope? path)).filter
        ((fun sect => sect == baseSection || (s.scope? dir sect).isSome) ∘ Prod.snd) := by
    rw [List.filter_filterMap]
    refine List.filterMap_congr fun sect _ => ?_
    cases hdir : s.scope? dir sect with
    | some scope =>
      rw [scope?_of_isWithin h hdir]
      simp [Option.filter, snd_of_scope? hdir, hdir]
    | none =>
      cases hpath : s.scope? path sect with
      | none => rfl
      | some scope =>
        have hne : sect ≠ baseSection := by
          rintro rfl
          simp [scope?_baseSection] at hpath
        simp [Option.filter, snd_of_scope? hpath, hdir, hne]
  rw [sectionsFor, sectionsFor, List.filter_append, List.filter_map, filter_mergeSort, ← hscopes]
  split <;> simp

theorem firstCommand_filter {p : String → Bool}
    (h : ∀ sect ∈ sects, p sect = false → sectionCommand ini sect option = .ok none) :
    firstCommand ini option (sects.filter p) = firstCommand ini option sects := by
  induction sects with
  | nil => rfl
  | cons sect sects ih =>
    have hrest := ih fun t ht => h t (List.mem_cons_of_mem _ ht)
    cases hp : p sect with
    | true => simp only [List.filter_cons_of_pos hp, firstCommand, hrest]
    | false =>
      have hnone := h sect (by simp) hp
      rw [List.filter_cons_of_neg (by simp [hp]), hrest]
      simp [firstCommand, hnone]

/-- A path has the command of a directory above it, unless a section that does not hold for the
whole directory gives one. -/
theorem command?_of_isWithin {path dir : Path} (hwithin : path.isWithin dir = true)
    (h : ∀ sect ∈ s.ini.sectionNames, (s.scope? path sect).isSome = true →
      s.scope? dir sect = none → sectionCommand s.ini sect option = .ok none) :
    s.command? option (some path) = s.command? option (some dir) := by
  rw [command?, command?, sectionsFor_of_isWithin hwithin, firstCommand_filter]
  intro sect hsect hp
  simp only [Bool.or_eq_false_iff, beq_eq_false_iff_ne, Option.isSome_eq_false_iff,
    Option.isNone_iff_eq_none] at hp
  rcases mem_sectionsFor.mp hsect with ⟨hname, hscope⟩ | ⟨rfl, -⟩
  · exact h sect hname hscope hp.2
  · exact absurd rfl hp.1

end Settings
end MachTree
