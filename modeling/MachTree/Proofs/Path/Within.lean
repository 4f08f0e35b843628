import MachTree.Path.Within
import MachTree.Proofs.Path.Text

/-! Paths below a directory.  Only normal forms count, and an absolute path is below no relative
directory. -/
namespace MachTree
namespace Path

theorem normal_append (p q : Path) : (p.normal ++ q).normal = (p ++ q).normal := by
  by_cases hq : q.isAbsolute = true
  · rw [append_of_isAbsolute hq, append_of_isAbsolute hq]
  · have happend (r : Path) : r ++ q = ⟨r.anchor, r.parts ++ q.parts⟩ := if_neg hq
    have hread := foldl_climb_of_isClimbed (isClimbed_foldl p.parts (isClimbed_nil p.isAbsolute))
    rw [happend, happend]
    show Path.mk p.anchor
        ((p.normal.parts ++ q.parts).foldl (climb p.isAbsolute) []).reverse =
      Path.mk p.anchor ((p.parts ++ q.parts).foldl (climb p.isAbsolute) []).reverse
    rw [List.foldl_append, List.foldl_append]
    show Path.mk p.anchor (q.parts.foldl (climb p.isAbsolute)
      ((p.parts.foldl (climb p.isAbsolute) []).reverse.foldl (climb p.isAbsolute) [])).reverse = _
    rw [hread]

theorem isAbsolute_append (p q : Path) : (p ++ q).isAbsolute = (p.isAbsolute || q.isAbsolute) := by
  by_cases hq : q.isAbsolute = true
  · simp [append_of_isAbsolute hq, hq]
  · have happend : p ++ q = ⟨p.anchor, p.parts ++ q.parts⟩ := if_neg hq
    simp [happend, isAbsolute, show q.anchor = .relative by simpa [isAbsolute] using hq]

variable {p dir dir' : Path}

theorem isWithin_congr (h : dir.normal = dir'.normal) : p.isWithin dir = p.isWithin dir' := by
  rw [isWithin, isWithin, h]

theorem isWithin_normal (p dir : Path) : p.normal.isWithin dir = p.isWithin dir := by
  rw [isWithin, isWithin, normal_normal]

theorem text_of_isAbsolute (h : p.isAbsolute = true) : ∃ more, p.text = '/' :: more := by
  obtain ⟨anchor, parts⟩ := p
  cases anchor with
  | relative => simp [isAbsolute] at h
  | root => exact ⟨_, rfl⟩
  | doubleRoot => exact ⟨_, rfl⟩

theorem text_of_not_isAbsolute (h : p.isAbsolute = false) :
    ∃ a more, p.text = a :: more ∧ a ≠ '/' := by
  obtain ⟨anchor, parts⟩ := p
  obtain rfl : anchor = .relative := by simpa [isAbsolute] using h
  by_cases hne : parts = []
  · exact ⟨'.', [], by simp [text, hne], by decide⟩
  · obtain ⟨a, more, hjoin, ha⟩ := joinWith_eq_cons hne
    refine ⟨a, more, ?_, ha⟩
    rw [text, if_neg (by simp [hne]), hjoin]
    rfl

/-- A text that does not start with a slash keeps its first character without the slashes at its
end. -/
theorem exists_stem {a : Char} (ha : a ≠ '/') (more : List Char) :
    ∃ rest, ((a :: more).reverse.dropWhile (· = '/')).reverse = a :: rest := by
  rw [List.reverse_cons, List.dropWhile_append]
  split
  · exact ⟨[], by simp [ha]⟩
  · exact ⟨_, by rw [List.reverse_append]; rfl⟩

theorem isWithin_eq_false (hp : p.isAbsolute = true) (hdir : dir.isAbsolute = false) :
    p.isWithin dir = false := by
  obtain ⟨more, hkey⟩ := text_of_isAbsolute (p.isAbsolute_normal.trans hp)
  obtain ⟨a, rest, hroot, ha⟩ := text_of_not_isAbsolute (dir.isAbsolute_normal.trans hdir)
  obtain ⟨stem, hstem⟩ := exists_stem ha rest
  have hne : (a == '/') = false := by simpa using ha
  rw [isWithin, hkey, hroot]
  simp only [hstem, List.cons_append, List.isPrefixOf, hne, Bool.false_and, Bool.or_false]
  simp [Ne.symm ha]

end Path
end MachTree
