import Mathlib.Data.List.Induction
import MachTree.Proofs.Path.Rebase

/-! Paths name by name, with ways up among the names.  One more name is one more name of the normal
form, and one more way up leads to the directory above it; so whatever is not left again by a way up
is above the end of the path. -/
namespace MachTree
namespace Path

variable {p dir : Path} {anchor : Anchor} {names front : List Component}

theorem anchor_ne_relative (hp : p.isAbsolute = true) : p.anchor ≠ .relative := by
  simpa [isAbsolute] using hp

theorem parents_concat (anchor : Anchor) (names : List Component) (c : Component) :
    parents ⟨anchor, names ++ [c]⟩ = ⟨anchor, names⟩ :: parents ⟨anchor, names⟩ := by
  have hlength : (names ++ [c]).length = names.length + 1 := by simp
  rw [parents, hlength, List.range_succ_eq_map, List.map_cons, List.map_map]
  congr 1
  · simp
  · refine List.map_congr_left fun k hk => ?_
    have hk : names.length - 1 - k ≤ names.length := by omega
    simp only [Function.comp, mk.injEq, true_and]
    rw [show (names.length + 1) - 1 - (k + 1) = names.length - 1 - k by omega,
      List.take_append_of_le_length hk]

theorem liesIn_iff_prefix :
    p.LiesIn dir ↔ p.anchor = dir.anchor ∧ dir.normal.parts <+: p.normal.parts := by
  rw [liesIn_iff]
  constructor
  · rintro ⟨names, h⟩
    exact ⟨h.anchor, names, h.parts.symm⟩
  · rintro ⟨hanchor, names, hnames⟩
    exact ⟨names, liesAt_iff.mpr ⟨hanchor, hnames.symm⟩⟩

theorem normal_concat {c : Component} (hc : c ≠ Component.up) :
    (normal ⟨anchor, names ++ [c]⟩).parts = (normal ⟨anchor, names⟩).parts ++ [c] :=
  (liesAt_append ⟨anchor, names⟩ (by simpa using Ne.symm hc)).parts

section Absolute

variable (hanchor : anchor ≠ .relative)
include hanchor

theorem normal_up :
    normal ⟨anchor, names ++ [Component.up]⟩ = (normal ⟨anchor, names⟩).parent := by
  have habs : (⟨anchor, names⟩ : Path).isAbsolute = true := by simpa [isAbsolute] using hanchor
  have hup := up_not_mem_normal habs
  have hclimb (read : List Component) (h : Component.up ∉ read) :
      climb true read Component.up = read.tail := by
    cases read with
    | nil => rfl
    | cons top below =>
      have htop : top ≠ Component.up := fun he => h (by simp [he])
      simp [climb, htop]
  show Path.mk anchor ((names ++ [Component.up]).foldl (climb _) []).reverse =
    ⟨anchor, ((names.foldl (climb _) []).reverse).dropLast⟩
  rw [normal, habs, List.mem_reverse] at hup
  rw [show (⟨anchor, names ++ [Component.up]⟩ : Path).isAbsolute = true from habs, habs,
    List.foldl_append, List.dropLast_reverse]
  exact congrArg (fun read => Path.mk anchor read.reverse) (hclimb _ hup)

theorem normal_sublist (names : List Component) :
    (normal ⟨anchor, names⟩).parts.Sublist names := by
  induction names using List.reverseRecOn with
  | nil => exact List.Sublist.slnil
  | append_singleton names c ih =>
    by_cases hc : c = Component.up
    · rw [hc, normal_up hanchor]
      exact ((List.dropLast_sublist _).trans ih).trans (List.sublist_append_left _ _)
    · rw [normal_concat hc]
      exact ih.append_right [c]

/-- What is passed on a path is above its end, or it is left again by a way up. -/
theorem prefix_or_left (h : front <+: names) :
    (normal ⟨anchor, front⟩).parts <+: (normal ⟨anchor, names⟩).parts ∨
      ∃ left, left ++ [Component.up] <+: names ∧
        normal ⟨anchor, left⟩ = normal ⟨anchor, front⟩ := by
  -- from the end back: only a way up can take away the last name that is passed
  induction names using List.reverseRecOn with
  | nil =>
    rw [List.prefix_nil.mp h]
    exact .inl (List.prefix_refl _)
  | append_singleton names c ih =>
    rcases List.prefix_concat_iff.mp h with rfl | hfront
    · exact .inl (List.prefix_refl _)
    rcases ih hfront with habove | ⟨left, hleft, heq⟩
    · by_cases hc : c = Component.up
      · subst hc
        obtain ⟨more, hmore⟩ := habove
        rcases List.eq_nil_or_concat more with rfl | ⟨more, last, rfl⟩
        · rw [List.append_nil] at hmore
          exact .inr ⟨names, List.prefix_refl _, congrArg (Path.mk anchor) hmore.symm⟩
        · left
          rw [normal_up hanchor, parent, ← hmore, List.concat_eq_append, ← List.append_assoc,
            List.dropLast_concat]
          exact List.prefix_append _ _
      · left
        rw [normal_concat hc]
        exact habove.trans (List.prefix_append _ _)
    · exact .inr ⟨left, hleft.trans (List.prefix_append _ _), heq⟩

end Absolute

end Path
end MachTree
