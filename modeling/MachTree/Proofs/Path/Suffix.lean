import MachTree.Proofs.Path.Text
import Mathlib.Data.List.TakeWhile

/-! Names in a directory, and their suffixes.  A component names one place below a directory.  The
suffix of a name is what stands from its last dot on, and a path with another suffix is the place
beside it that has this suffix on the same stem. -/
namespace MachTree
namespace Path

variable {p : Path} {stem tail : List Char}

theorem ofString_component (c : Component) : ofString c.val = ⟨.relative, [c]⟩ := by
  have htext : toString ⟨.relative, [c]⟩ = c.val := by
    simp [toString, text, Anchor.text, Text.joinWith]
  rw [← htext, ofString_toString]

theorem child_component (dir : Path) (c : Component) :
    dir.child c.val = ⟨dir.anchor, dir.parts ++ [c]⟩ := by
  rw [child, ofString_component]
  rfl

theorem parent_child_component (dir : Path) (c : Component) : (dir.child c.val).parent = dir := by
  rw [child_component, parent, List.dropLast_concat]

theorem name_child_component (dir : Path) (c : Component) : (dir.child c.val).name = c.val := by
  rw [child_component, name, List.getLast?_concat]
  rfl

theorem exists_component_of_name (hp : p.name ≠ "") : ∃ c : Component, c.val = p.name := by
  rcases List.eq_nil_or_concat p.parts with hnil | ⟨front, c, hparts⟩
  · exact absurd (by simp [Path.name, hnil]) hp
  · exact ⟨c, by simp [Path.name, hparts]⟩

theorem splitSuffix_append (hstem : stem ≠ []) (htail : tail ≠ []) (hdot : '.' ∉ tail) :
    splitSuffix (stem ++ '.' :: tail) = (stem, '.' :: tail) := by
  have hreverse : (stem ++ '.' :: tail).reverse = tail.reverse ++ '.' :: stem.reverse := by simp
  have htake : (tail.reverse ++ '.' :: stem.reverse).takeWhile (· ≠ '.') = tail.reverse := by
    rw [List.takeWhile_append_of_pos]
    · simp
    · intro c hc
      have hne : c ≠ '.' := fun h => hdot (by rw [← h]; exact List.mem_reverse.mp hc)
      simpa using hne
  have hdrop : (tail.reverse ++ '.' :: stem.reverse).drop (tail.reverse.length + 1) =
      stem.reverse := by
    rw [List.drop_length_add_append]
    rfl
  simp only [splitSuffix, hreverse, htake, hdrop]
  simp [hstem, htail]

/-- That a text is a dot and more, with no other dot and no slash in it. -/
def IsSuffix (suffix : String) : Prop :=
  ∃ tail, suffix.toList = '.' :: tail ∧ tail ≠ [] ∧ '.' ∉ tail ∧ '/' ∉ tail

section Named

variable {stem suffix other : String} (hstem : stem ≠ "") (hsuffix : IsSuffix suffix)
  (hp : p.name = stem ++ suffix)
include hstem hsuffix hp

theorem splitSuffix_name : splitSuffix p.name.toList = (stem.toList, suffix.toList) := by
  obtain ⟨tail, htext, htail, hdot, -⟩ := hsuffix
  have hne : stem.toList ≠ [] := fun h => hstem (by simpa using h)
  rw [hp, String.toList_append, htext, splitSuffix_append hne htail hdot]

theorem suffix_eq : p.suffix = suffix := by
  rw [Path.suffix, splitSuffix_name hstem hsuffix hp, String.ofList_toList]

omit hsuffix in
theorem isComponent_withSuffix (hother : IsSuffix other) : IsComponent (stem ++ other) := by
  obtain ⟨tail, htext, htail, -, hslash⟩ := hother
  have hne : p.name ≠ "" := by
    rw [hp]
    exact fun h => hstem (String.append_eq_empty_iff.mp h).1
  obtain ⟨c, hc⟩ := exists_component_of_name hne
  have hname : '/' ∉ stem.toList ++ suffix.toList := by
    rw [← String.toList_append, ← hp, ← hc]
    exact c.property.2.2
  refine ⟨fun h => hstem (String.append_eq_empty_iff.mp h).1, fun h => ?_, ?_⟩
  · have hlength := congrArg (fun s : String => s.toList.length) h
    have hpos : stem.toList.length ≠ 0 := by simpa using hstem
    simp only [String.toList_append, htext, List.length_append, List.length_cons] at hlength
    have hone : ".".toList.length = 1 := rfl
    omega
  · rw [String.toList_append, htext]
    simp only [List.mem_append, List.mem_cons, not_or] at hname ⊢
    exact ⟨hname.1, by decide, hslash⟩

theorem withSuffix_eq (hother : IsSuffix other) :
    p.withSuffix other = p.parent.child (stem ++ other) := by
  have hcomponent := isComponent_withSuffix hstem hp hother
  have hread : Component.ofString? (stem ++ other) = some ⟨stem ++ other, hcomponent⟩ :=
    Component.ofString?_val ⟨stem ++ other, hcomponent⟩
  rw [withSuffix, splitSuffix_name hstem hsuffix hp, String.ofList_toList, hread]
  exact (child_component p.parent ⟨stem ++ other, hcomponent⟩).symm

end Named

end Path
end MachTree
