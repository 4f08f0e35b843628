import MachTree.Proofs.Path.Below

/-! Paths below a directory, name by name.  For paths that start with one slash the test on normal
texts asks whether the names of the directory are the first names of the path; and of two
directories above one path the deeper one has the longer text. -/
namespace MachTree

theorem Text.splitOn_append_cons (sep : Char) (cs rest : List Char) :
    splitOn sep (cs ++ sep :: rest) = splitOn sep cs ++ splitOn sep rest := by
  induction cs with
  | nil => simp [splitOn]
  | cons c cs ih =>
    by_cases hc : c = sep
    · simp [splitOn, hc, ih]
    · obtain ⟨piece, more, hpieces⟩ := List.exists_cons_of_ne_nil (splitOn_ne_nil sep cs)
      simp [splitOn, hc, ih, hpieces]

namespace Path

variable {p dir dir' : Path}

theorem components_append_slash (cs rest : List Char) :
    components (cs ++ '/' :: rest) = components cs ++ components rest := by
  rw [components, Text.splitOn_append_cons, List.filterMap_append]
  rfl

theorem components_slashes {slashes : List Char} (h : ∀ c ∈ slashes, c = '/') :
    components slashes = [] := by
  induction slashes with
  | nil => decide
  | cons c slashes ih =>
    obtain rfl : c = '/' := h c (by simp)
    rw [components_cons_slash, ih fun d hd => h d (by simp [hd])]

theorem components_stem (cs : List Char) : components (stem cs) = components cs := by
  obtain ⟨slashes, hcs, hslashes⟩ := eq_stem_append cs
  cases slashes with
  | nil => rw [List.append_nil] at hcs; rw [← hcs]
  | cons c slashes =>
    obtain rfl : c = '/' := hslashes c (by simp)
    have hnone := components_slashes fun d hd => hslashes d (List.mem_cons_of_mem _ hd)
    conv => rhs; rw [hcs, components_append_slash, hnone, List.append_nil]

theorem components_text (p : Path) : components p.text = p.parts := by
  have hread := congrArg Path.parts p.ofString_toString
  simpa [ofString, toString] using hread

theorem parts_of_isWithin (h : p.isWithin dir = true) : dir.normal.parts <+: p.normal.parts := by
  rw [← components_text p.normal, ← components_text dir.normal]
  rcases isWithin_iff.mp h with htext | ⟨rest, hrest⟩
  · simp [htext]
  · rw [List.append_assoc] at hrest
    rw [← hrest, ← components_stem dir.normal.text]
    exact ⟨components rest, (components_append_slash _ _).symm⟩

theorem isWithin_iff_parts (hp : p.anchor = .root) (hdir : dir.anchor = .root) :
    p.isWithin dir = true ↔ dir.normal.parts <+: p.normal.parts := by
  refine ⟨parts_of_isWithin, fun h => isWithin_of_names ?_ ?_ h⟩
  · simp [isAbsolute, hdir]
  · exact hp.trans hdir.symm

theorem text_of_root (hp : p.anchor = .root) :
    p.text = '/' :: Text.joinWith '/' (p.parts.map fun c => c.val.toList) := by
  rw [text_eq_of_isAbsolute (by simp [isAbsolute, hp]), hp]
  rfl

theorem length_joinWith_lt {front more : List Component} (hmore : more ≠ []) :
    (Text.joinWith '/' (front.map fun c => c.val.toList)).length <
      (Text.joinWith '/' ((front ++ more).map fun c => c.val.toList)).length := by
  by_cases hfront : front = []
  · obtain ⟨c, rest, hjoin, -⟩ := joinWith_eq_cons hmore
    subst hfront
    rw [List.nil_append, hjoin]
    simp [Text.joinWith]
  · rw [joinWith_append hfront hmore, List.length_append, List.length_cons]
    omega

theorem length_text_lt (hdir : dir.anchor = .root) (hdir' : dir'.anchor = .root)
    (h : dir.parts <+: dir'.parts) (hne : dir.parts ≠ dir'.parts) :
    dir.text.length < dir'.text.length := by
  obtain ⟨more, hmore⟩ := h
  have hnil : more ≠ [] := by
    rintro rfl
    exact hne (by rw [← hmore, List.append_nil])
  rw [text_of_root hdir, text_of_root hdir', ← hmore, List.length_cons, List.length_cons]
  exact Nat.succ_lt_succ (length_joinWith_lt hnil)

/-- Of two directories above one path, the longer text belongs to the one with more names. -/
theorem length_text_lt_iff (hdir : dir.anchor = .root) (hdir' : dir'.anchor = .root)
    (h : dir.parts <+: p.parts) (h' : dir'.parts <+: p.parts) :
    dir.text.length < dir'.text.length ↔ dir.parts.length < dir'.parts.length := by
  by_cases heq : dir.parts = dir'.parts
  · have htext : dir.text = dir'.text := by rw [text_of_root hdir, text_of_root hdir', heq]
    simp [htext, heq]
  rcases List.prefix_or_prefix_of_prefix h h' with hle | hle
  · have hlt : dir.parts.length < dir'.parts.length :=
      Nat.lt_of_le_of_ne hle.length_le fun hlen => heq (hle.eq_of_length hlen)
    exact iff_of_true (length_text_lt hdir hdir' hle heq) hlt
  · have hlt := length_text_lt hdir' hdir hle (Ne.symm heq)
    have hlen := hle.length_le
    exact iff_of_false (by omega) (by omega)

theorem length_text_eq_iff (hdir : dir.anchor = .root) (hdir' : dir'.anchor = .root)
    (h : dir.parts <+: p.parts) (h' : dir'.parts <+: p.parts) :
    dir.text.length = dir'.text.length ↔ dir = dir' := by
  refine ⟨fun hlen => ?_, fun heq => by rw [heq]⟩
  have hlt := length_text_lt_iff hdir hdir' h h'
  have hgt := length_text_lt_iff hdir' hdir h' h
  have hparts : dir.parts = dir'.parts :=
    (List.prefix_of_prefix_length_le h h' (by omega)).eq_of_length (by omega)
  cases dir
  cases dir'
  simp_all

end Path
end MachTree
