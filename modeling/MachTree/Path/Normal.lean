import MachTree.Path.Basic

/-! The normal form of a path, in which a component and a `..` after it have gone, and in which two
paths are compared.  It is found on the text alone and asks no file system. -/
namespace MachTree
namespace Path

/-- Takes one more component onto the reversed components read so far.  Above the root there is
only the root; a relative path keeps the `..` at its start. -/
def climb (rooted : Bool) (read : List Component) (c : Component) : List Component :=
  if c = Component.up then
    match read with
    | [] => if rooted then [] else [c]
    | top :: below => if top = Component.up then c :: top :: below else below
  else c :: read

def normal (p : Path) : Path := ⟨p.anchor, (p.parts.foldl (climb p.isAbsolute) []).reverse⟩

def absolute (cwd p : Path) : Path := (cwd ++ p).normal

/-- Normal components: none is `..`, save at the start of a relative path. -/
def IsClimbed (rooted : Bool) (read : List Component) : Prop :=
  if rooted then Component.up ∉ read
  else ∃ names ups, read = names ++ ups ∧ Component.up ∉ names ∧ ∀ c ∈ ups, c = Component.up

theorem isClimbed_climb {rooted : Bool} {read : List Component} (h : IsClimbed rooted read)
    (c : Component) : IsClimbed rooted (climb rooted read c) := by
  cases rooted with
  | true =>
    simp only [IsClimbed, if_true] at h ⊢
    unfold climb
    split
    · cases read with
      | nil => simp
      | cons top below =>
        simp only [List.mem_cons, not_or] at h
        simp [Ne.symm h.1, h.2]
    · rename_i hc
      simp [Ne.symm hc, h]
  | false =>
    simp only [IsClimbed, Bool.false_eq_true, if_false] at h ⊢
    obtain ⟨names, ups, rfl, hn, hu⟩ := h
    unfold climb
    split
    · rename_i hc
      cases names with
      | nil =>
        cases ups with
        | nil => exact ⟨[], [c], by simp, by simp, by simp [hc]⟩
        | cons u us =>
          have hu' : u = Component.up := hu u (by simp)
          exact ⟨[], c :: u :: us, by simp [hu'], by simp, by
            intro x hx
            rcases List.mem_cons.mp hx with rfl | hx
            · exact hc
            · exact hu x hx⟩
      | cons n ns =>
        simp only [List.mem_cons, not_or] at hn
        exact ⟨ns, ups, by simp [Ne.symm hn.1], hn.2, hu⟩
    · rename_i hc
      exact ⟨c :: names, ups, by simp, by simp [Ne.symm hc, hn], hu⟩

theorem isClimbed_foldl {rooted : Bool} (parts : List Component) {read : List Component}
    (h : IsClimbed rooted read) : IsClimbed rooted (parts.foldl (climb rooted) read) := by
  induction parts generalizing read with
  | nil => exact h
  | cons c parts ih => exact ih (isClimbed_climb h c)

theorem isClimbed_nil (rooted : Bool) : IsClimbed rooted [] := by
  cases rooted
  · exact ⟨[], [], by simp⟩
  · simp [IsClimbed]

theorem foldl_climb_of_isClimbed {rooted : Bool} {read : List Component}
    (h : IsClimbed rooted read) : read.reverse.foldl (climb rooted) [] = read := by
  induction read with
  | nil => rfl
  | cons c read ih =>
    have hread : IsClimbed rooted read := by
      cases rooted with
      | true =>
        simp only [IsClimbed, if_true, List.mem_cons, not_or] at h ⊢
        exact h.2
      | false =>
        simp only [IsClimbed, Bool.false_eq_true, if_false] at h ⊢
        obtain ⟨names, ups, he, hn, hu⟩ := h
        cases names with
        | nil =>
          cases ups with
          | nil => simp at he
          | cons u us =>
            simp only [List.nil_append, List.cons.injEq] at he
            exact ⟨[], us, by simp [he.2], by simp, fun x hx => hu x (by simp [hx])⟩
        | cons n ns =>
          simp only [List.cons_append, List.cons.injEq] at he
          simp only [List.mem_cons, not_or] at hn
          exact ⟨ns, ups, he.2, hn.2, hu⟩
    rw [List.reverse_cons, List.foldl_append, ih hread]
    show climb rooted read c = c :: read
    unfold climb
    split
    · rename_i hc
      subst hc
      cases rooted with
      | true => simp [IsClimbed] at h
      | false =>
        simp only [IsClimbed, Bool.false_eq_true, if_false] at h
        obtain ⟨names, ups, he, hn, hu⟩ := h
        cases names with
        | nil =>
          cases ups with
          | nil => simp at he
          | cons u us =>
            simp only [List.nil_append, List.cons.injEq] at he
            obtain ⟨_, rfl⟩ := he
            cases read with
            | nil => simp
            | cons top below => simp [hu top (by simp)]
        | cons n ns =>
          simp only [List.cons_append, List.cons.injEq] at he
          exact absurd (by simp [he.1]) hn
    · rfl

@[simp] theorem isAbsolute_normal (p : Path) : p.normal.isAbsolute = p.isAbsolute := rfl

@[simp] theorem normal_normal (p : Path) : p.normal.normal = p.normal := by
  have h := foldl_climb_of_isClimbed (isClimbed_foldl p.parts (isClimbed_nil p.isAbsolute))
  show Path.mk p.anchor ((p.normal.parts.foldl (climb p.isAbsolute) []).reverse) = p.normal
  show Path.mk p.anchor
    ((((p.parts.foldl (climb p.isAbsolute) []).reverse).foldl (climb p.isAbsolute) []).reverse) = _
  rw [h]
  rfl

end Path

def normalized (s : String) : String := (Path.ofString s).normal.toString

end MachTree
