import MachTree.Proofs.Files.Lookup
import MachTree.Proofs.Path.Within
import Mathlib.Data.List.TakeWhile

/-! Directories inside directories.  What is below a directory is below every directory that this
one is below, and a path whose names start with those of a directory is below it. -/
namespace MachTree
namespace Path

def stem (cs : List Char) : List Char := (cs.reverse.dropWhile (· = '/')).reverse

theorem eq_stem_append (cs : List Char) :
    ∃ slashes, cs = stem cs ++ slashes ∧ ∀ c ∈ slashes, c = '/' := by
  refine ⟨(cs.reverse.takeWhile (· = '/')).reverse, ?_, fun c hc => ?_⟩
  · rw [stem, ← List.reverse_append, List.takeWhile_append_dropWhile, List.reverse_reverse]
  · simpa using List.mem_takeWhile_imp (List.mem_reverse.mp hc)

theorem stem_ne_concat (cs front : List Char) : stem cs ≠ front ++ ['/'] := by
  intro h
  have hdrop : cs.reverse.dropWhile (· = '/') = '/' :: front.reverse := by
    simpa [stem] using congrArg List.reverse h
  have hhead := List.head?_dropWhile_not (· = '/') cs.reverse
  rw [hdrop] at hhead
  simp at hhead

theorem prefix_stem_slash {outer inner : List Char} (h : stem outer ++ ['/'] <+: inner) :
    stem outer ++ ['/'] <+: stem inner ++ ['/'] := by
  obtain ⟨slashes, hinner, hslashes⟩ := eq_stem_append inner
  obtain ⟨rest, hrest⟩ := h
  rw [hinner] at hrest
  rcases List.append_eq_append_iff.mp hrest with ⟨more, hmore, -⟩ | ⟨front, hfront, hfrest⟩
  · exact ⟨more ++ ['/'], by rw [hmore, List.append_assoc, List.append_assoc, List.append_assoc]⟩
  · rcases List.eq_nil_or_concat front with rfl | ⟨init, last, rfl⟩
    · rw [List.append_nil] at hfront
      exact absurd hfront.symm (stem_ne_concat _ _)
    · rw [List.concat_eq_append, ← List.append_assoc] at hfront
      obtain ⟨hstem, -⟩ := List.append_inj' hfront rfl
      rcases List.eq_nil_or_concat init with rfl | ⟨front, slash, rfl⟩
      · have hsame : stem outer = stem inner := by simpa using hstem
        exact ⟨[], by rw [hsame, List.append_nil]⟩
      · obtain rfl : slash = '/' := hslashes slash (by simp [hfrest])
        rw [List.concat_eq_append, ← List.append_assoc] at hstem
        exact absurd hstem (stem_ne_concat _ _)

theorem prefix_stem_slash_of_append (cs rest : List Char) :
    stem cs ++ ['/'] <+: cs ++ '/' :: rest := by
  obtain ⟨slashes, hcs, hslashes⟩ := eq_stem_append cs
  cases slashes with
  | nil =>
    rw [List.append_nil] at hcs
    exact ⟨rest, by rw [← hcs]; simp⟩
  | cons slash slashes =>
    obtain rfl : slash = '/' := hslashes slash (by simp)
    refine ⟨slashes ++ '/' :: rest, ?_⟩
    calc stem cs ++ ['/'] ++ (slashes ++ '/' :: rest)
      _ = (stem cs ++ '/' :: slashes) ++ '/' :: rest := by simp
      _ = cs ++ '/' :: rest := by rw [← hcs]

variable {p q dir : Path}

theorem isWithin_iff : p.isWithin dir = true ↔
    p.normal.text = dir.normal.text ∨ stem dir.normal.text ++ ['/'] <+: p.normal.text := by
  rw [isWithin, Bool.or_eq_true, beq_iff_eq, List.isPrefixOf_iff_prefix]
  rfl

theorem isWithin_trans (h : p.isWithin q = true) (h' : q.isWithin dir = true) :
    p.isWithin dir = true := by
  rw [isWithin_iff] at h h' ⊢
  rcases h with h | h
  · rwa [h]
  · rcases h' with h' | h'
    · rw [← h']
      exact .inr h
    · exact .inr ((prefix_stem_slash h').trans h)

theorem joinWith_append {front more : List Component} (hfront : front ≠ []) (hmore : more ≠ []) :
    Text.joinWith '/' ((front ++ more).map fun c => c.val.toList) =
      Text.joinWith '/' (front.map fun c => c.val.toList) ++
        '/' :: Text.joinWith '/' (more.map fun c => c.val.toList) := by
  induction front with
  | nil => exact absurd rfl hfront
  | cons c front ih =>
    cases front with
    | nil =>
      obtain ⟨d, more, rfl⟩ := List.exists_cons_of_ne_nil hmore
      rfl
    | cons d front =>
      show _ ++ '/' :: Text.joinWith '/' ((d :: front ++ more).map fun c => c.val.toList) = _
      rw [ih (by simp)]
      simp [Text.joinWith]

theorem isWithin_of_names (hdir : dir.isAbsolute = true)
    (hanchor : p.normal.anchor = dir.normal.anchor) (h : dir.normal.parts <+: p.normal.parts) :
    p.isWithin dir = true := by
  obtain ⟨more, hmore⟩ := h
  have hroot : dir.normal.isAbsolute = true := dir.isAbsolute_normal.trans hdir
  have hpath : p.normal.isAbsolute = true := by rwa [isAbsolute, hanchor]
  rw [isWithin_iff, text_eq_of_isAbsolute hpath, text_eq_of_isAbsolute hroot, hanchor, ← hmore]
  by_cases hnil : more = []
  · subst hnil
    exact .inl (by rw [List.append_nil])
  by_cases hparts : dir.normal.parts = []
  · rw [hparts]
    right
    cases ha : dir.normal.anchor with
    | relative => simp [isAbsolute, ha] at hroot
    | root => exact ⟨_, rfl⟩
    | doubleRoot => exact ⟨_, rfl⟩
  · right
    rw [joinWith_append hparts hnil, ← List.append_assoc]
    exact prefix_stem_slash_of_append _ _

theorem up_not_mem_normal (hp : p.isAbsolute = true) : Component.up ∉ p.normal.parts := by
  have hclimbed := isClimbed_foldl p.parts (isClimbed_nil p.isAbsolute)
  rw [hp] at hclimbed
  rw [normal, hp, List.mem_reverse]
  simpa [IsClimbed] using hclimbed

theorem normal_parent (hp : p.isAbsolute = true) (hnormal : p.normal = p) :
    p.parent.normal = p.parent := by
  have hup := up_not_mem_normal hp
  rw [hnormal] at hup
  exact normal_of_not_mem hp fun h => hup (List.dropLast_subset _ h)

theorem isWithin_parent (hp : p.isAbsolute = true) (hnormal : p.normal = p) :
    p.isWithin p.parent = true := by
  refine isWithin_of_names hp ?_ ?_ <;> rw [normal_parent hp hnormal, hnormal]
  · rfl
  · exact List.dropLast_prefix _

theorem names_of_rebase {newRoot moved : Path} (h : p.rebase dir newRoot = .ok moved) :
    p.normal.anchor = dir.normal.anchor ∧ dir.normal.parts <+: p.normal.parts := by
  rw [rebase, relativeTo] at h
  split at h
  · rename_i hbelow
    exact ⟨hbelow.1, List.isPrefixOf_iff_prefix.mp hbelow.2⟩
  · cases h

theorem isWithin_of_rebase {newRoot moved : Path} (hdir : dir.isAbsolute = true)
    (h : p.rebase dir newRoot = .ok moved) : p.isWithin dir = true :=
  isWithin_of_names hdir (names_of_rebase h).1 (names_of_rebase h).2

end Path
end MachTree
