import MachTree.Path.Basic

/-! The text of a path has the whole path in it: read back, it gives the same anchor and the same
components in the same spelling. -/
namespace MachTree

theorem Component.exists_cons (c : Component) : ∃ a more, c.val.toList = a :: more ∧ a ≠ '/' := by
  obtain ⟨hne, -, hslash⟩ := c.property
  cases h : c.val.toList with
  | nil => exact absurd (String.toList_eq_nil_iff.mp h) hne
  | cons a more =>
    refine ⟨a, more, rfl, ?_⟩
    rintro rfl
    exact hslash (by simp [h])

namespace Path

variable {parts : List Component}

theorem components_cons_slash (cs : List Char) : components ('/' :: cs) = components cs := by
  simp [components, Text.splitOn, Component.ofString?, IsComponent]

theorem components_joinWith (hne : parts ≠ []) :
    components (Text.joinWith '/' (parts.map fun c => c.val.toList)) = parts := by
  have hslash : ∀ piece ∈ parts.map fun c => c.val.toList, '/' ∉ piece := by
    intro piece hpiece
    obtain ⟨c, -, rfl⟩ := List.mem_map.mp hpiece
    exact c.property.2.2
  rw [components, Text.splitOn_joinWith (mt List.map_eq_nil_iff.mp hne) hslash, List.filterMap_map]
  have hread : (fun piece => Component.ofString? (String.ofList piece)) ∘
      (fun c : Component => c.val.toList) = some := by
    funext c
    simp
  rw [hread, List.filterMap_some]

theorem joinWith_eq_cons (hne : parts ≠ []) :
    ∃ a more, Text.joinWith '/' (parts.map fun c => c.val.toList) = a :: more ∧ a ≠ '/' := by
  cases parts with
  | nil => exact absurd rfl hne
  | cons c parts =>
    obtain ⟨a, more, hc, ha⟩ := c.exists_cons
    cases parts with
    | nil => exact ⟨a, more, hc, ha⟩
    | cons d parts => exact ⟨a, _, by simp only [List.map_cons, Text.joinWith, hc]; rfl, ha⟩

theorem ofText_text_append (anchor : Anchor) {a : Char} {more : List Char} (ha : a ≠ '/') :
    Anchor.ofText (anchor.text ++ a :: more) = anchor := by
  cases anchor <;> simp [Anchor.text, Anchor.ofText, ha]

theorem components_text_append (anchor : Anchor) (cs : List Char) :
    components (anchor.text ++ cs) = components cs := by
  cases anchor <;> simp [Anchor.text, components_cons_slash]

@[simp] theorem ofString_toString (p : Path) : ofString p.toString = p := by
  obtain ⟨anchor, parts⟩ := p
  have hread : ofString (toString ⟨anchor, parts⟩) =
      ⟨Anchor.ofText (text ⟨anchor, parts⟩), components (text ⟨anchor, parts⟩)⟩ := by
    simp [ofString, toString]
  rw [hread]
  by_cases hne : parts = []
  · subst hne
    cases anchor <;> decide
  · obtain ⟨a, more, hjoin, ha⟩ := joinWith_eq_cons hne
    have htext : text ⟨anchor, parts⟩ =
        anchor.text ++ Text.joinWith '/' (parts.map fun c => c.val.toList) := by
      simp [text, hne]
    rw [htext, components_text_append, components_joinWith hne, hjoin,
      ofText_text_append anchor ha]

theorem toString_injective {p q : Path} (h : p.toString = q.toString) : p = q := by
  rw [← p.ofString_toString, h, q.ofString_toString]

theorem text_eq_of_isAbsolute {p : Path} (hp : p.isAbsolute = true) :
    p.text = p.anchor.text ++ Text.joinWith '/' (p.parts.map fun c => c.val.toList) := by
  have hne : p.anchor ≠ .relative := by simpa [isAbsolute] using hp
  exact if_neg fun h => hne h.1

/-- No path is written as nothing: the text of the relative path without components is a dot. -/
theorem toString_ne_empty (p : Path) : p.toString ≠ "" := by
  intro h
  have hread := p.ofString_toString
  rw [h] at hread
  subst hread
  exact absurd h (by decide)

end Path
end MachTree
