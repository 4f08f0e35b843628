import Mathlib.Data.List.Find
import MachTree.Proofs.Build.Attempt
import MachTree.Proofs.Files.Walkable
import MachTree.Root

/-! The search for the root around a place.  It goes up the path as it is written, and not as its
normal form leads: where the path has ways up in it, the search passes directories that are not
around the place, and it passes a directory that is around the place without seeing it if the path
cannot be followed there.  A path that has none of this is searched as its normal form would be. -/
namespace MachTree
namespace Root

open Activity Build

variable {ε : Type} {host : Host} {j : Journal} {p dir : Path}

instance (host : Host) (dir : Path) : Decidable (HasMach host dir) :=
  inferInstanceAs (Decidable (host.files.isFile host.cwd (dir.child machFile) = .ok true))

/-- The first of a path and those above it, as it is written, that has a mach. -/
def around? (host : Host) (p : Path) : Option Path :=
  (p :: p.parents).find? fun dir => HasMach host dir

/-- That each directory that a path leaves again by a way up is there, and has a mach only if the
path ends in it. -/
def Tidy (host : Host) (p : Path) : Prop :=
  ∀ left, left ++ [Component.up] <+: p.parts →
    host.files.isDirectory host.cwd (Path.normal ⟨p.anchor, left⟩) = .ok true ∧
      (HasMach host (Path.normal ⟨p.anchor, left⟩) → p.LiesIn ⟨p.anchor, left⟩)

/-- That no name is too long to be asked for: the host can tell of a path whether it leads to a
directory, and of it and those above it whether they have a mach. -/
structure Answered (host : Host) (p : Path) : Prop where
  directory : ∃ b, host.files.isDirectory host.cwd p = .ok b
  mach : ∀ dir ∈ p :: p.parents, ∃ b, host.files.isFile host.cwd (dir.child machFile) = .ok b

theorem around?_of_hasMach (h : HasMach host p) : around? host p = some p := by
  simp [around?, h]

theorem around?_concat {anchor : Anchor} {names : List Component} {c : Component}
    (h : ¬ HasMach host ⟨anchor, names ++ [c]⟩) :
    around? host ⟨anchor, names ++ [c]⟩ = around? host ⟨anchor, names⟩ := by
  rw [around?, List.find?_cons_of_neg (by simpa using h), Path.parents_concat]
  rfl

theorem around?_parent (h : HasMach host p → p.parts = []) :
    around? host p.parent = around? host p := by
  obtain ⟨anchor, parts⟩ := p
  rcases List.eq_nil_or_concat parts with rfl | ⟨names, c, rfl⟩
  · rfl
  · rw [List.concat_eq_append] at h ⊢
    rw [around?_concat fun hm => by simpa using h hm, Path.parent, List.dropLast_concat]

theorem perform_firstWithMach {dirs : List Path}
    (h : ∀ dir ∈ dirs, ∃ b, host.files.isFile host.cwd (dir.child machFile) = .ok b)
    (j : Journal) : (firstWithMach dirs : Activity ε (Option Path)).perform host j =
      (.ok (dirs.find? fun dir => HasMach host dir), j) := by
  induction dirs with
  | nil => rfl
  | cons dir dirs ih =>
    obtain ⟨b, hb⟩ := h dir (by simp)
    rw [firstWithMach, perform_bind_of_ok (perform_isFile_eq_ok.mpr ⟨hb, rfl⟩)]
    cases b with
    | true =>
      have hyes : HasMach host dir := hb
      rw [if_pos rfl, perform_pure, List.find?_cons_of_pos (by simpa using hyes)]
    | false =>
      have hno : ¬ HasMach host dir := by simp [HasMach, hb]
      rw [if_neg Bool.false_ne_true, ih fun d hd => h d (by simp [hd]),
        List.find?_cons_of_neg (by simpa using hno)]

def machName : Component := ⟨machFile, by decide⟩

theorem hasMach_iff (hlinks : host.files.root.LinkFree) (hp : p.isAbsolute = true)
    (hknown : ∃ b, host.files.isFile host.cwd (p.child machFile) = .ok b) :
    HasMach host p ↔ host.files.Walkable host.cwd p ∧ HasMach host p.normal :=
  Files.isFile_child_iff (c := machName) hlinks hp (by decide) hknown

theorem tidy_of_concat {anchor : Anchor} {names : List Component} {c : Component}
    (hanchor : anchor ≠ .relative) (htidy : Tidy host ⟨anchor, names ++ [c]⟩)
    (h : ¬ HasMach host (Path.normal ⟨anchor, names ++ [c]⟩)) : Tidy host ⟨anchor, names⟩ := by
  intro left hleft
  obtain ⟨hdir, hmach⟩ := htidy left (hleft.trans (List.prefix_append _ _))
  refine ⟨hdir, fun hm => Path.liesIn_iff_prefix.mpr ⟨rfl, ?_⟩⟩
  have habove := (Path.liesIn_iff_prefix.mp (hmach hm)).2
  by_cases hc : c = Component.up
  · rw [hc, Path.normal_up hanchor] at habove
    exact habove.trans (List.dropLast_prefix _)
  · rw [Path.normal_concat hc] at habove
    refine (List.prefix_concat_iff.mp habove).resolve_left fun hend => h ?_
    rwa [show Path.normal ⟨anchor, names ++ [c]⟩ = Path.normal ⟨anchor, left⟩ from
      congrArg (Path.mk anchor) ((Path.normal_concat hc).trans hend.symm)]

section Tidy

variable {anchor : Anchor} {names : List Component} (hlinks : host.files.root.LinkFree)
  (hanchor : anchor ≠ .relative) (htidy : Tidy host ⟨anchor, names⟩)
include hlinks hanchor htidy

/-- A path can be followed to its mach if every directory that it leaves again is there. -/
theorem hasMach_of_tidy
    (hknown : ∃ b, host.files.isFile host.cwd ((Path.mk anchor names).child machFile) = .ok b)
    (h : HasMach host (Path.normal ⟨anchor, names⟩)) : HasMach host ⟨anchor, names⟩ := by
  have habs : (⟨anchor, names⟩ : Path).isAbsolute = true := by
    simpa [Path.isAbsolute] using hanchor
  refine (hasMach_iff hlinks habs hknown).mpr ⟨fun front hfront => ?_, h⟩
  rcases Path.prefix_or_left hanchor hfront with habove | ⟨left, hleft, heq⟩
  · have hnormal := (hasMach_iff (p := Path.normal ⟨anchor, names⟩) hlinks habs ⟨true, h⟩).mp h
    have hdir : host.files.isDirectory host.cwd (Path.normal ⟨anchor, front⟩).normal = .ok true :=
      hnormal.1 _ habove
    rwa [Path.normal_normal] at hdir
  · have hdir := (htidy left hleft).1
    rwa [heq] at hdir

theorem map_normal_around?
    (hknown : ∀ dir ∈ Path.mk anchor names :: Path.parents ⟨anchor, names⟩,
      ∃ b, host.files.isFile host.cwd (dir.child machFile) = .ok b) :
    (around? host ⟨anchor, names⟩).map Path.normal =
      around? host (Path.normal ⟨anchor, names⟩) := by
  induction names using List.reverseRecOn with
  | nil =>
    have hnormal : Path.normal ⟨anchor, []⟩ = ⟨anchor, []⟩ := rfl
    by_cases h : HasMach host ⟨anchor, []⟩
    · rw [hnormal, around?_of_hasMach h, Option.map_some, hnormal]
    · simp [hnormal, around?, h, Path.parents]
  | append_singleton names c ih =>
    have habs : (⟨anchor, names ++ [c]⟩ : Path).isAbsolute = true := by
      simpa [Path.isAbsolute] using hanchor
    rw [Path.parents_concat, List.forall_mem_cons] at hknown
    obtain ⟨hend, habove⟩ := hknown
    -- a mach where the path ends is found by both searches, and without one both go on above
    by_cases h : HasMach host (Path.normal ⟨anchor, names ++ [c]⟩)
    · rw [around?_of_hasMach h, around?_of_hasMach (hasMach_of_tidy hlinks hanchor htidy hend h)]
      rfl
    have hno : ¬ HasMach host ⟨anchor, names ++ [c]⟩ :=
      fun hm => h ((hasMach_iff hlinks habs hend).mp hm).2
    rw [around?_concat hno, ih (tidy_of_concat hanchor htidy h) habove]
    by_cases hc : c = Component.up
    · -- what the way up leaves has no mach, so the search of its normal form may start above it
      subst hc
      rw [Path.normal_up hanchor]
      refine (around?_parent fun hm => ?_).symm
      have hwithin : (Path.normal ⟨anchor, names⟩).parts <+:
          (Path.normal ⟨anchor, names ++ [Component.up]⟩).parts :=
        (Path.liesIn_iff_prefix.mp ((htidy names (List.prefix_refl _)).2 hm)).2
      rw [Path.normal_up hanchor] at hwithin
      have hle := hwithin.length_le
      rw [Path.parent, List.length_dropLast] at hle
      exact List.eq_nil_of_length_eq_zero (by omega)
    · have hnormal : Path.normal ⟨anchor, names ++ [c]⟩ =
          ⟨anchor, (Path.normal ⟨anchor, names⟩).parts ++ [c]⟩ :=
        congrArg (Path.mk anchor) (Path.normal_concat hc)
      rw [hnormal] at h ⊢
      rw [around?_concat h]
      rfl

end Tidy

def searchFrom (origin : Path) : Activity NotFound Path := do
  let own := if ← isDirectory origin then [origin] else []
  match ← firstWithMach (own ++ origin.parents) with
  | some dir => pure dir
  | none => fail ⟨origin⟩

theorem perform_detect {start : Path} (hhere : ¬ Adrift host start) (j : Journal) :
    (detect start).perform host j = (searchFrom (host.cwd ++ start)).perform host j := by
  cases habs : start.isAbsolute with
  | true =>
    rw [detect, habs, if_pos rfl, Path.append_of_isAbsolute habs]
    rfl
  | false =>
    have hcwd : host.cwd.isRemoved = false := by simpa [Adrift, habs] using hhere
    rw [detect, habs, if_neg Bool.false_ne_true, perform_bind_of_ok (perform_currentDirectory hcwd)]
    rfl

theorem isAbsolute_child (hp : p.isAbsolute = true) : (p.child machFile).isAbsolute = true := by
  rwa [show machFile = machName.val from rfl, Path.child_component]

theorem fits_of_child (hp : p.isAbsolute = true) (hfits : Files.Fits (p.child machFile)) :
    Files.Fits p := by
  rw [show machFile = machName.val from rfl, Path.child_component] at hfits
  exact hfits.of_sublist (Path.anchor_ne_relative hp) (List.sublist_append_left _ _)

theorem isAbsolute_of_mem (hp : p.isAbsolute = true) (h : dir ∈ p :: p.parents) :
    dir.isAbsolute = true := by
  rcases List.mem_cons.mp h with rfl | h
  · exact hp
  · simpa [Path.isAbsolute, (Path.mem_parents.mp h).1] using hp

section Found

variable (hlinks : host.files.root.LinkFree) (hp : p.isAbsolute = true)
include hlinks hp

theorem not_hasMach_of_isDirectory (h : host.files.isDirectory host.cwd p = .ok false) :
    ¬ HasMach host p := by
  intro hmach
  have hfits : Files.Fits p :=
    fits_of_child hp (Files.fits_of_leadsTo hlinks (isAbsolute_child hp) hmach)
  have hdir := (Files.isDirectory_iff_walkable hlinks hp hfits host.cwd).mpr
    ((hasMach_iff hlinks hp ⟨true, hmach⟩).mp hmach).1
  simp [h] at hdir

theorem perform_searchFrom (hanswered : Answered host p) (j : Journal) :
    (searchFrom p).perform host j = ((around? host p).elim (.error (.failed ⟨p⟩)) .ok, j) := by
  obtain ⟨own, hown⟩ := hanswered.directory
  have hdirectory : (isDirectory p : Activity NotFound Bool).perform host j = (.ok own, j) := by
    rw [perform_isDirectory, hown]
  have hasked : ∀ dir ∈ (if own then [p] else []) ++ p.parents, dir ∈ p :: p.parents := by
    cases own <;> simp +contextual
  have hfirst := perform_firstWithMach (ε := NotFound)
    (fun dir h => hanswered.mach dir (hasked dir h)) j
  have hfind : ((if own then [p] else []) ++ p.parents).find? (fun dir => HasMach host dir) =
      around? host p := by
    cases own with
    | true => rfl
    | false =>
      have hno := not_hasMach_of_isDirectory hlinks hp hown
      rw [around?, List.find?_cons_of_neg (by simpa using hno)]
      rfl
  rw [hfind] at hfirst
  rw [searchFrom, perform_bind_of_ok hdirectory, perform_bind_of_ok hfirst]
  cases around? host p with
  | none => rw [perform_fail]; rfl
  | some dir => rw [perform_pure]; rfl

end Found

section Fits

variable (hp : p.isAbsolute = true) (hfits : Files.Fits (p.child machFile))
include hp hfits

theorem isAbsolute_and_fits_of_mem (h : dir ∈ p :: p.parents) :
    dir.isAbsolute = true ∧ Files.Fits (dir.child machFile) := by
  obtain ⟨anchor, names⟩ := p
  obtain ⟨rfl, habove⟩ : dir.anchor = anchor ∧ dir.parts <+: names := by
    rcases List.mem_cons.mp h with rfl | h
    · exact ⟨rfl, List.prefix_refl _⟩
    · exact ⟨(Path.mem_parents.mp h).1, (Path.mem_parents.mp h).2.1⟩
  rw [show machFile = machName.val from rfl, Path.child_component] at hfits ⊢
  exact ⟨hp, hfits.of_sublist (Path.anchor_ne_relative hp) (habove.sublist.append_right _)⟩

variable (hlinks : host.files.root.LinkFree)
include hlinks

theorem answered_of_fits : Answered host p where
  directory := Files.exists_isDirectory hlinks hp (fits_of_child hp hfits) host.cwd
  mach dir hdir := by
    obtain ⟨habs, hshort⟩ := isAbsolute_and_fits_of_mem hp hfits hdir
    exact ⟨_, Files.isFile_child_eq (c := machName) hlinks habs (by decide) hshort host.cwd⟩

theorem hasMach_iff_descend? : HasMach host p ↔
    ((host.files.descend? p.parts).bind fun here => Files.Trail.step host.files here machName).any
      (fun u => Files.Node.isFile u.node) := by
  have hnull : Component.hasNull machName = false := by decide
  have hfile := Files.isFile_child_eq (c := machName) hlinks hp (by decide) hfits host.cwd
  rw [hnull, Bool.not_false, Bool.true_and] at hfile
  rw [HasMach, show machFile = machName.val from rfl, hfile, Except.ok.injEq]

theorem around?_eq : around? host p = (p :: p.parents).find? fun dir =>
    ((host.files.descend? dir.parts).bind fun here => Files.Trail.step host.files here machName).any
      fun u => Files.Node.isFile u.node := by
  refine List.find?_congr fun dir hdir => ?_
  obtain ⟨habs, hshort⟩ := isAbsolute_and_fits_of_mem hp hfits hdir
  simp only [hasMach_iff_descend? habs hshort hlinks, Bool.decide_eq_true]

end Fits

/-- Without a root that is given, the search goes up the start as it is written: it ends at the
first path with a mach, and it fails if there is none.  In a tree without links, a path has a mach
where it can be followed and its normal form has one.  From a tidy start the search ends at the
nearest directory with a mach, of the place that the start names and those above it. -/
theorem find_around (start : Path) (hlinks : host.files.root.LinkFree)
    (hcwd : host.cwd.isAbsolute = true) (hhere : ¬ Adrift host start)
    (hanswered : Answered host (host.cwd ++ start)) (j : Journal) :
    let origin := host.cwd ++ start
    (find start none).perform host j =
      ((around? host origin).elim (.error (.failed ⟨origin⟩)) .ok, j) ∧
    (∀ dir ∈ origin :: origin.parents,
      HasMach host dir ↔ host.files.Walkable host.cwd dir ∧ HasMach host dir.normal) ∧
    (Tidy host origin →
      (around? host origin).map Path.normal = around? host (Path.absolute host.cwd start)) := by
  intro origin
  have habs : origin.isAbsolute = true := by simp [origin, Path.isAbsolute_append, hcwd]
  refine ⟨?_, fun dir hdir => ?_, fun htidy => ?_⟩
  · exact (perform_detect hhere j).trans (perform_searchFrom hlinks habs hanswered j)
  · exact hasMach_iff hlinks (isAbsolute_of_mem habs hdir) (hanswered.mach dir hdir)
  · exact map_normal_around? hlinks (Path.anchor_ne_relative habs) htidy hanswered.mach

/-- A tree with a mach in it and another one in a directory below. -/
def nestedHost : Host :=
  { files := ⟨.mk .directory [(machName, .mk (.file [] true) []),
      (⟨"a", by decide⟩, .mk .directory
        [(⟨"b", by decide⟩, .mk .directory [(machName, .mk (.file [] true) [])]),
          (⟨"c", by decide⟩, .mk .directory []), (⟨"d", by decide⟩, .mk .directory [])])]⟩
    cwd := .ofString "/a"
    runner := fun _ _ => .finished 1 [] [] }

theorem linkFree_nestedHost : nestedHost.files.root.LinkFree := by
  have hfile : (Files.Tree.mk (.file [] true) []).LinkFree := .mk (by simp) (by simp)
  have hempty : (Files.Tree.mk .directory []).LinkFree := .mk (by simp) (by simp)
  refine .mk (by simp) (List.forall_mem_cons.mpr ⟨hfile, List.forall_mem_singleton.mpr ?_⟩)
  refine .mk (by simp) (List.forall_mem_cons.mpr ⟨?_, by simpa using hempty⟩)
  exact .mk (by simp) (by simpa using hfile)

theorem tidy_nestedHost : Tidy nestedHost (.ofString "/a/c/../d/E.cpp") := by
  rintro left ⟨rest, hrest⟩
  -- the only way up is the third component
  have hthird : ∀ k < 5,
      (Path.ofString "/a/c/../d/E.cpp").parts[k]? = some Component.up → k = 2 := by
    decide
  have hlength : left.length = 2 := by
    have hall := congrArg List.length hrest
    rw [show (Path.ofString "/a/c/../d/E.cpp").parts.length = 5 by decide] at hall
    simp only [List.length_append, List.length_singleton] at hall
    exact hthird _ (by omega) (by rw [← hrest]; simp)
  have hleft : left = (Path.ofString "/a/c").parts := by
    have htake := congrArg (List.take 2) hrest
    rw [List.append_assoc, ← hlength, List.take_left, hlength] at htake
    rw [htake]
    decide
  subst hleft
  have hfits : Files.Fits ((Path.ofString "/a/c").child machFile) := by decide
  refine ⟨?_, fun hmach => absurd hmach ?_⟩
  · exact (Files.isDirectory_eq (by decide) linkFree_nestedHost (fits_of_child rfl hfits) _).trans
      (by decide)
  · exact mt (hasMach_iff_descend? (p := .ofString "/a/c") rfl hfits linkFree_nestedHost).mp
      (by decide)

theorem find_around_nested :
    (find (.ofString "c/../d/E.cpp") none).perform nestedHost [] = (.ok (.ofString "/"), []) ∧
    around? nestedHost (.ofString "/a/d/E.cpp") = some (.ofString "/") ∧
    (find (.ofString "b/../c") none).perform nestedHost [] = (.ok (.ofString "/a/b"), []) ∧
    around? nestedHost (.ofString "/a/c") = some (.ofString "/") := by
  have hfound : around? nestedHost (.ofString "/a/c/../d/E.cpp") = some (.ofString "/") := by
    rw [around?_eq rfl (by decide) linkFree_nestedHost]
    decide
  have hastray : around? nestedHost (.ofString "/a/b/../c") = some (.ofString "/a/b") := by
    rw [around?_eq rfl (by decide) linkFree_nestedHost]
    decide
  have hnearest : around? nestedHost (.ofString "/a/c") = some (.ofString "/") := by
    rw [around?_eq rfl (by decide) linkFree_nestedHost]
    decide
  have hhere (start : Path) : ¬ Adrift nestedHost start :=
    fun h => absurd h.2 (by decide)
  obtain ⟨htidy, -, hplace⟩ := find_around (.ofString "c/../d/E.cpp") linkFree_nestedHost rfl
    (hhere _) (answered_of_fits rfl (by decide) linkFree_nestedHost) []
  obtain ⟨huntidy, -, -⟩ := find_around (.ofString "b/../c") linkFree_nestedHost rfl
    (hhere _) (answered_of_fits rfl (by decide) linkFree_nestedHost) []
  refine ⟨?_, ?_, ?_, hnearest⟩
  · refine htidy.trans ?_
    rw [show nestedHost.cwd ++ .ofString "c/../d/E.cpp" = .ofString "/a/c/../d/E.cpp" by decide,
      hfound]
    rfl
  · have hnormal : Path.absolute nestedHost.cwd (.ofString "c/../d/E.cpp") =
        .ofString "/a/d/E.cpp" := by
      decide
    rw [← hnormal, ← hplace tidy_nestedHost]
    exact congrArg (Option.map Path.normal) hfound
  · refine huntidy.trans ?_
    rw [show nestedHost.cwd ++ .ofString "b/../c" = .ofString "/a/b/../c" by decide, hastray]
    rfl

end Root
end MachTree
