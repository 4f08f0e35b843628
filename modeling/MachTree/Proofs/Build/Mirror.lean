import MachTree.Proofs.Build.Accumulation
import MachTree.Proofs.Path.Rebase
import MachTree.Proofs.Path.Suffix

/-! Where the fragments of a tree are.  The object directory mirrors the tree: each directory of the
tree has its fragment where the same names lead from the object directory, and no other fragment is
ever looked at. -/
namespace MachTree
namespace Build

open Activity

variable {b : Build} {platform : Platform} {host : Host} {j : Journal}
  {source source' fragment fragment' dir : Path}

/-- What comes of looking for the fragment of a source. -/
def Locates (b : Build) (host : Host) (j : Journal) (source : Path) (found : Option Path) : Prop :=
  ((b.locateFragment source : Activity Empty _).perform host j).1 = .ok found

/-- That a fragment is the one of a directory in the tree: it has a fragment's name, and the names
that lead to the directory from the tree lead to it from the object directory.  So the directory of
the fragment is moved back to the directory in the tree, and moved on as that directory is moved. -/
structure IsFragmentOf (b : Build) (platform : Platform) (dir fragment : Path) : Prop where
  named : fragment = fragment.parent.child directoryFragment
  mirrored : ∃ names, dir.LiesAt b.srcdir names ∧
    fragment.parent.LiesAt (b.objectDir platform) names
  back : ∃ back, fragment.parent.rebase (b.objectDir platform) b.srcdir = .ok back ∧
    back.normal = dir.normal
  onwards : ∀ third, fragment.parent.rebase (b.objectDir platform) third =
    dir.rebase b.srcdir third

theorem parent_child_directoryFragment (dir : Path) :
    (dir.child directoryFragment).parent = dir :=
  Path.parent_child_component dir ⟨_, isComponent_directoryFragment⟩

theorem fragmentOf_eq_ok_iff : b.fragmentOf platform source = .ok fragment ↔
    source.parent.rebase b.srcdir (b.objectDir platform) = .ok fragment.parent ∧
      fragment = fragment.parent.child directoryFragment := by
  rw [fragmentOf]
  cases source.parent.rebase b.srcdir (b.objectDir platform) with
  | error e => simp [Except.map]
  | ok moved =>
    simp only [Except.map, Except.ok.injEq]
    constructor
    · rintro rfl
      rw [parent_child_directoryFragment]
      exact ⟨rfl, rfl⟩
    · rintro ⟨rfl, h⟩
      exact h.symm

theorem locates_some_iff :
    b.Locates host j source (some fragment) ↔ b.fragmentOf host.platform source = .ok fragment := by
  cases hf : b.fragmentOf host.platform source with
  | error e =>
    obtain ⟨j', hlocate⟩ := perform_locateFragment_of_error Empty j hf
    simp [Locates, hlocate]
  | ok found =>
    rw [Locates, perform_locateFragment Empty hf]
    simp

theorem exists_locates (b : Build) (host : Host) (j : Journal) (source : Path) :
    ∃ found, b.Locates host j source found := by
  cases hf : b.fragmentOf host.platform source with
  | error e =>
    obtain ⟨j', hlocate⟩ := perform_locateFragment_of_error Empty j hf
    exact ⟨none, by rw [Locates, hlocate]⟩
  | ok fragment => exact ⟨some fragment, locates_some_iff.mpr hf⟩

theorem exists_fragmentOf_iff :
    (∃ fragment, b.fragmentOf platform source = .ok fragment) ↔ source.parent.LiesIn b.srcdir := by
  rw [← Path.exists_rebase_iff (b.objectDir platform)]
  simp only [fragmentOf_eq_ok_iff]
  constructor
  · rintro ⟨fragment, h, -⟩
    exact ⟨_, h⟩
  · rintro ⟨dir, h⟩
    exact ⟨dir.child directoryFragment, by rwa [parent_child_directoryFragment],
      by rw [parent_child_directoryFragment]⟩

theorem isFragmentOf_of_fragmentOf (hsrcdir : b.srcdir.isAbsolute = true)
    (h : b.fragmentOf platform source = .ok fragment) :
    b.IsFragmentOf platform source.parent fragment := by
  obtain ⟨hmoved, hnamed⟩ := fragmentOf_eq_ok_iff.mp h
  exact ⟨hnamed, Path.liesAt_of_rebase hsrcdir hmoved, Path.rebase_back hsrcdir hmoved,
    Path.rebase_rebase hsrcdir hmoved⟩

theorem fragmentOf_eq_iff (h : b.fragmentOf platform source = .ok fragment)
    (h' : b.fragmentOf platform source' = .ok fragment') :
    fragment = fragment' ↔ source.parent.normal = source'.parent.normal := by
  obtain ⟨hmoved, hnamed⟩ := fragmentOf_eq_ok_iff.mp h
  obtain ⟨hmoved', hnamed'⟩ := fragmentOf_eq_ok_iff.mp h'
  rw [← Path.rebase_eq_iff hmoved hmoved']
  constructor
  · rintro rfl
    rfl
  · intro hparent
    rw [hnamed, hnamed', hparent]

/-- A source has a fragment just when its directory is in the tree.  The fragment is then the one of
this directory, and sources in other directories have other fragments. -/
theorem locateFragment_mirrors (hsrcdir : b.srcdir.isAbsolute = true) (host : Host) (j : Journal)
    (source : Path) :
    ((∃ fragment, b.Locates host j source (some fragment)) ↔ source.parent.LiesIn b.srcdir) ∧
    (b.Locates host j source none ↔ ¬ source.parent.LiesIn b.srcdir) ∧
    ∀ fragment, b.Locates host j source (some fragment) →
      b.IsFragmentOf host.platform source.parent fragment ∧
      ∀ source' fragment', b.Locates host j source' (some fragment') →
        (fragment = fragment' ↔ source.parent.normal = source'.parent.normal) := by
  have hsome : (∃ fragment, b.Locates host j source (some fragment)) ↔
      source.parent.LiesIn b.srcdir := by
    simp only [locates_some_iff, exists_fragmentOf_iff]
  refine ⟨hsome, ?_, fun fragment h => ?_⟩
  · obtain ⟨found, hfound⟩ := exists_locates b host j source
    rw [← hsome]
    constructor
    · rintro hnone ⟨fragment, h⟩
      cases Except.ok.inj (hnone.symm.trans h)
    · intro hno
      cases found with
      | none => exact hfound
      | some fragment => exact absurd ⟨fragment, hfound⟩ hno
  · rw [locates_some_iff] at h
    refine ⟨isFragmentOf_of_fragmentOf hsrcdir h, fun source' fragment' h' => ?_⟩
    exact fragmentOf_eq_iff h (locates_some_iff.mp h')

def climbingBuild : Build :=
  { mixedBuild with
    srcdir := .ofString "/a/../src"
    environment := { mixedBuild.environment with topobjdir := "/obj/x/.." } }

/-- Two spellings of a directory in the tree, and one that leads out of it. -/
theorem locateFragment_mirrors_climbing :
    climbingBuild.IsFragmentOf .generic (.ofString "/src/dom/b/..")
      (.ofString "/obj/x/../dom/backend.mk") ∧
    (Path.ofString "/src/dom/b/..").normal = (Path.ofString "/src//dom/").normal ∧
    climbingBuild.Locates mixedHost [] (.ofString "/src/dom/../../srcs/E.cpp") none := by
  have hsource : climbingBuild.Locates mixedHost [] (.ofString "/src/dom/b/../E.cpp")
      (some (.ofString "/obj/x/../dom/backend.mk")) := rfl
  have hsource' : climbingBuild.Locates mixedHost [] (.ofString "/src//dom/E.c")
      (some (.ofString "/obj/x/../dom/backend.mk")) := rfl
  obtain ⟨-, -, hmirrors⟩ := locateFragment_mirrors (b := climbingBuild) rfl mixedHost []
    (.ofString "/src/dom/b/../E.cpp")
  obtain ⟨hfragment, hsame⟩ := hmirrors _ hsource
  exact ⟨hfragment, (hsame _ _ hsource').mp rfl, rfl⟩

end Build
end MachTree
