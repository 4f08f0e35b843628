import MachTree.Proofs.Path.Names
import MachTree.Proofs.Path.Normalization

/-! Paths moved from one root to another.  What lies in the old root is moved to where the same
names lead from the new one; nothing is lost on the way, so a move can be taken back and be gone on
with.  For paths that start with one slash, to lie in a directory is to be below it by the test on
texts. -/
namespace MachTree
namespace Path

variable {p q dir newRoot moved : Path} {names names' : List Component}

/-- That a path is where names lead to from a directory. -/
def LiesAt (p dir : Path) (names : List Component) : Prop :=
  p.normal = ⟨dir.anchor, dir.normal.parts ++ names⟩

/-- That a path is a directory itself or has the directory among those above it. -/
def LiesIn (p dir : Path) : Prop := dir.normal = p.normal ∨ dir.normal ∈ p.normal.parents

theorem mem_parents :
    q ∈ p.parents ↔ q.anchor = p.anchor ∧ q.parts <+: p.parts ∧ q.parts ≠ p.parts := by
  simp only [parents, List.mem_map, List.mem_range]
  constructor
  · rintro ⟨k, hk, rfl⟩
    refine ⟨rfl, List.take_prefix _ _, fun h => ?_⟩
    have hlength := congrArg List.length h
    simp only [List.length_take] at hlength
    omega
  · obtain ⟨anchor, parts⟩ := q
    rintro ⟨rfl, hstart, hne⟩
    have hlt : parts.length < p.parts.length :=
      Nat.lt_of_le_of_ne hstart.length_le fun h => hne (hstart.eq_of_length h)
    refine ⟨p.parts.length - 1 - parts.length, by omega, ?_⟩
    have hk : p.parts.length - 1 - (p.parts.length - 1 - parts.length) = parts.length := by omega
    rw [hk, ← List.prefix_iff_eq_take.mp hstart]

theorem liesAt_iff :
    p.LiesAt dir names ↔ p.anchor = dir.anchor ∧ p.normal.parts = dir.normal.parts ++ names := by
  have hnormal : p.normal = ⟨p.anchor, p.normal.parts⟩ := rfl
  rw [LiesAt, hnormal, mk.injEq]

theorem LiesAt.anchor (h : p.LiesAt dir names) : p.anchor = dir.anchor := (liesAt_iff.mp h).1

theorem LiesAt.parts (h : p.LiesAt dir names) : p.normal.parts = dir.normal.parts ++ names :=
  (liesAt_iff.mp h).2

theorem LiesAt.normal_eq_iff (hp : p.LiesAt dir names) (hq : q.LiesAt dir names') :
    p.normal = q.normal ↔ names = names' := by
  rw [hp, hq]
  simp

theorem liesIn_iff : p.LiesIn dir ↔ ∃ names, p.LiesAt dir names := by
  constructor
  · rintro (h | h)
    · exact ⟨[], by rw [LiesAt, List.append_nil, ← h]; rfl⟩
    · obtain ⟨hanchor, ⟨names, hnames⟩, -⟩ := mem_parents.mp h
      exact ⟨names, liesAt_iff.mpr ⟨hanchor.symm, hnames.symm⟩⟩
  · rintro ⟨names, h⟩
    by_cases hnames : names = []
    · subst hnames
      left
      rw [h, List.append_nil]
      rfl
    · exact .inr (mem_parents.mpr
        ⟨h.anchor.symm, ⟨names, h.parts.symm⟩, by simp [h.parts, hnames]⟩)

theorem append_names (dir : Path) (names : List Component) :
    dir ++ ⟨.relative, names⟩ = ⟨dir.anchor, dir.parts ++ names⟩ := rfl

/-- What is moved is moved to where the names that lead to it lead from the new root. -/
theorem rebase_eq_ok_iff : p.rebase dir newRoot = .ok moved ↔
    ∃ names, p.LiesAt dir names ∧ moved = newRoot ++ ⟨.relative, names⟩ := by
  rw [rebase, relativeTo]
  constructor
  · intro h
    split at h
    · rename_i hbelow
      obtain ⟨names, hnames⟩ := List.isPrefixOf_iff_prefix.mp hbelow.2
      rw [← hnames, List.drop_left] at h
      exact ⟨names, liesAt_iff.mpr ⟨hbelow.1, hnames.symm⟩, (Except.ok.inj h).symm⟩
    · cases h
  · rintro ⟨names, h, rfl⟩
    have hbelow : p.normal.anchor = dir.normal.anchor ∧
        dir.normal.parts.isPrefixOf p.normal.parts = true :=
      ⟨h.anchor, List.isPrefixOf_iff_prefix.mpr ⟨names, h.parts.symm⟩⟩
    rw [if_pos hbelow, h.parts, List.drop_left]
    rfl

theorem exists_rebase_iff (newRoot : Path) :
    (∃ moved, p.rebase dir newRoot = .ok moved) ↔ p.LiesIn dir := by
  simp only [rebase_eq_ok_iff, liesIn_iff]
  constructor
  · rintro ⟨moved, names, h, -⟩
    exact ⟨names, h⟩
  · rintro ⟨names, h⟩
    exact ⟨_, names, h, rfl⟩

theorem foldl_climb_of_not_mem (rooted : Bool) (read : List Component)
    (hup : Component.up ∉ names) :
    names.foldl (climb rooted) read = names.reverse ++ read := by
  induction names generalizing read with
  | nil => rfl
  | cons c names ih =>
    simp only [List.mem_cons, not_or] at hup
    have hc : climb rooted read c = c :: read := if_neg (Ne.symm hup.1)
    rw [List.foldl_cons, hc, ih _ hup.2, List.reverse_cons, List.append_assoc]
    rfl

theorem liesAt_append (dir : Path) (hup : Component.up ∉ names) :
    (dir ++ ⟨.relative, names⟩ : Path).LiesAt dir names := by
  rw [LiesAt, append_names]
  show Path.mk dir.anchor ((dir.parts ++ names).foldl (climb dir.isAbsolute) []).reverse = _
  rw [List.foldl_append, foldl_climb_of_not_mem _ _ hup, List.reverse_append,
    List.reverse_reverse]
  rfl

section Moved

variable (hdir : dir.isAbsolute = true)
include hdir

theorem LiesAt.up_not_mem (h : p.LiesAt dir names) : Component.up ∉ names := by
  have hp : p.isAbsolute = true := by simpa [isAbsolute, h.anchor] using hdir
  have hup := up_not_mem_normal hp
  rw [h.parts] at hup
  exact fun hm => hup (List.mem_append_right _ hm)

/-- A move takes nothing away: the same names lead to the path and to where it is moved. -/
theorem liesAt_of_rebase (h : p.rebase dir newRoot = .ok moved) :
    ∃ names, p.LiesAt dir names ∧ moved.LiesAt newRoot names := by
  obtain ⟨names, hp, rfl⟩ := rebase_eq_ok_iff.mp h
  exact ⟨names, hp, liesAt_append newRoot (hp.up_not_mem hdir)⟩

theorem rebase_rebase (h : p.rebase dir newRoot = .ok moved) (third : Path) :
    moved.rebase newRoot third = p.rebase dir third := by
  obtain ⟨names, hp, hmoved⟩ := liesAt_of_rebase hdir h
  have hthird : p.rebase dir third = .ok (third ++ ⟨.relative, names⟩) :=
    rebase_eq_ok_iff.mpr ⟨names, hp, rfl⟩
  rw [hthird]
  exact rebase_eq_ok_iff.mpr ⟨names, hmoved, rfl⟩

theorem rebase_back (h : p.rebase dir newRoot = .ok moved) :
    ∃ back, moved.rebase newRoot dir = .ok back ∧ back.normal = p.normal := by
  obtain ⟨names, hp, -⟩ := rebase_eq_ok_iff.mp h
  refine ⟨dir ++ ⟨.relative, names⟩, ?_, ?_⟩
  · rw [rebase_rebase hdir h]
    exact rebase_eq_ok_iff.mpr ⟨names, hp, rfl⟩
  · exact ((liesAt_append dir (hp.up_not_mem hdir)).normal_eq_iff hp).mpr rfl

end Moved

theorem rebase_eq_iff {moved' : Path} (h : p.rebase dir newRoot = .ok moved)
    (h' : q.rebase dir newRoot = .ok moved') : moved = moved' ↔ p.normal = q.normal := by
  obtain ⟨names, hp, rfl⟩ := rebase_eq_ok_iff.mp h
  obtain ⟨names', hq, rfl⟩ := rebase_eq_ok_iff.mp h'
  rw [hp.normal_eq_iff hq, append_names, append_names]
  simp

theorem LiesIn.refl (p : Path) : p.LiesIn p := .inl rfl

theorem LiesIn.trans (h : p.LiesIn q) (h' : q.LiesIn dir) : p.LiesIn dir := by
  obtain ⟨names, hp⟩ := liesIn_iff.mp h
  obtain ⟨names', hq⟩ := liesIn_iff.mp h'
  refine liesIn_iff.mpr ⟨names' ++ names, ?_⟩
  exact liesAt_iff.mpr
    ⟨hp.anchor.trans hq.anchor, by rw [hp.parts, hq.parts, List.append_assoc]⟩

theorem LiesIn.antisymm (h : p.LiesIn q) (h' : q.LiesIn p) : p.normal = q.normal := by
  obtain ⟨names, hp⟩ := liesIn_iff.mp h
  obtain ⟨names', hq⟩ := liesIn_iff.mp h'
  have hlength := congrArg List.length (hp.parts.trans (congrArg (· ++ names) hq.parts))
  simp only [List.length_append] at hlength
  have hnames : names = [] := List.eq_nil_of_length_eq_zero (by omega)
  rw [hp, hnames, List.append_nil]
  rfl

/-- With one slash at the start of both, the test on texts tells what lies in a directory. -/
theorem isWithin_iff_liesIn (hp : p.anchor = .root) (hdir : dir.anchor = .root) :
    p.isWithin dir = true ↔ p.LiesIn dir := by
  rw [isWithin_iff_parts hp hdir, liesIn_iff]
  constructor
  · rintro ⟨names, hnames⟩
    exact ⟨names, liesAt_iff.mpr ⟨hp.trans hdir.symm, hnames.symm⟩⟩
  · rintro ⟨names, h⟩
    exact ⟨names, h.parts.symm⟩

/-- That a text starts at the root: with one slash, or with three and more, which mean one. -/
def IsRooted (s : String) : Prop := Anchor.ofText s.toList = .root

instance (s : String) : Decidable (IsRooted s) := by unfold IsRooted; infer_instance

theorem isWithin_ofString_iff {s t : String} (hs : IsRooted s) (ht : IsRooted t) :
    (ofString s).isWithin (ofString t) = true ↔ (ofString s).LiesIn (ofString t) :=
  isWithin_iff_liesIn hs ht

/-- Of paths that start at the root, in any spelling, the test on texts tells which lie in a
directory, and these are the paths that can be moved from it, wherever they are moved to.  Each
path is below itself, what is below one that is below a third is below the third, and two that are
below each other have one normal form. -/
theorem isWithin_iff_rebase {p q r : String} (hp : IsRooted p) (hq : IsRooted q)
    (hr : IsRooted r) :
    ((ofString p).isWithin (ofString q) = true ↔ (ofString p).LiesIn (ofString q)) ∧
    (∀ newRoot, (ofString p).isWithin (ofString q) = true ↔
      ∃ moved, (ofString p).rebase (ofString q) newRoot = .ok moved) ∧
    (ofString p).isWithin (ofString p) = true ∧
    ((ofString p).isWithin (ofString q) = true → (ofString q).isWithin (ofString r) = true →
      (ofString p).isWithin (ofString r) = true) ∧
    ((ofString p).isWithin (ofString q) = true → (ofString q).isWithin (ofString p) = true →
      normalText p = normalText q) := by
  refine ⟨isWithin_ofString_iff hp hq, fun newRoot => ?_, ?_, ?_, ?_⟩
  · rw [isWithin_ofString_iff hp hq, exists_rebase_iff]
  · exact (isWithin_ofString_iff hp hp).mpr (.refl _)
  · intro h h'
    rw [isWithin_ofString_iff hp hq] at h
    rw [isWithin_ofString_iff hq hr] at h'
    exact (isWithin_ofString_iff hp hr).mpr (h.trans h')
  · intro h h'
    rw [isWithin_ofString_iff hp hq] at h
    rw [isWithin_ofString_iff hq hp] at h'
    rw [← normalized_eq, ← normalized_eq, normalized, normalized, h.antisymm h']

/-- A directory in two spellings, in the directory of a third. -/
theorem isWithin_iff_rebase_spellings :
    (∃ moved, (ofString "/src/dom/").rebase (ofString "///src/./dom/x/..") (ofString "obj") =
      .ok moved) ∧
    (ofString "/src/dom/").isWithin (ofString "/src//a/../") = true ∧
    normalText "/src/dom/" = normalText "///src/./dom/x/.." := by
  have h : (ofString "/src/dom/").isWithin (ofString "///src/./dom/x/..") = true := by
    decide +kernel
  have h' : (ofString "///src/./dom/x/..").isWithin (ofString "/src/dom/") = true := by
    decide +kernel
  have hup : (ofString "///src/./dom/x/..").isWithin (ofString "/src//a/../") = true := by
    decide +kernel
  obtain ⟨-, hmove, -, htrans, hsame⟩ := isWithin_iff_rebase (p := "/src/dom/")
    (q := "///src/./dom/x/..") (r := "/src//a/../") (by decide) (by decide) (by decide)
  exact ⟨(hmove _).mp h, htrans h hup, hsame h h'⟩

end Path
end MachTree
