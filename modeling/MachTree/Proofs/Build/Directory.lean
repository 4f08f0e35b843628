import MachTree.Proofs.Build.Mirror
import MachTree.Proofs.Files.Walkable

/-! Sources of one directory.  What a source resolves to depends on its directory and its language
alone.  A header has the language of the C file beside it if there is one, and resolves as that
file; any other header resolves as the C++ sources of the directory, unless the name of the C file
is one that no file can have. -/
namespace MachTree
namespace Build

open Activity

variable {b : Build} {platform : Platform} {host : Host} {j : Journal}
  {source source' header impl : Path} {language : Option Language} {stem : String}

def SameDirectory (host : Host) (source source' : Path) : Prop :=
  (Path.absolute host.cwd source).parent = (Path.absolute host.cwd source').parent

theorem fragmentOf_congr (h : source.parent = source'.parent) :
    b.fragmentOf platform source = b.fragmentOf platform source' := by
  rw [fragmentOf, fragmentOf, h]

theorem resolve_congr (hdir : SameDirectory host source source')
    (h : HasLanguage host j source language) (h' : HasLanguage host j source' language) :
    ((b.resolve source).perform host j).1 = ((b.resolve source').perform host j).1 := by
  cases language with
  | none => rw [resolve_of_no_language h, resolve_of_no_language h']
  | some T =>
    have hsame : b.fragmentOf host.platform (Path.absolute host.cwd source) =
        b.fragmentOf host.platform (Path.absolute host.cwd source') := fragmentOf_congr hdir
    cases hf : b.fragmentOf host.platform (Path.absolute host.cwd source) with
    | error e => rw [resolve_of_outside h hf, resolve_of_outside h' (hsame.symm.trans hf)]
    | ok fragment =>
      have hf' := hsame.symm.trans hf
      by_cases hn : Fragment.TooLong host fragment
      · rw [resolve_of_tooLong h hf hn, resolve_of_tooLong h' hf' hn]
      · rw [resolve_of_not_tooLong h hf hn, resolve_of_not_tooLong h' hf' hn]

/-- A source whose language is known resolves to a configuration or to none, or its flags cannot be
cut into words; the only other end is that of a fragment with a name that no file can have. -/
theorem resolve_eq_error (h : HasLanguage host j source language) {e : Halt Shell.SplitError}
    (he : ((b.resolve source).perform host j).1 = .error e) :
    (∃ unsplit, e = .failed unsplit) ∨
      ∃ fragment, b.fragmentOf host.platform (Path.absolute host.cwd source) = .ok fragment ∧
        Fragment.TooLong host fragment ∧ e = .fault (.nameTooLong fragment) := by
  cases language with
  | none =>
    rw [resolve_of_no_language h] at he
    cases he
  | some T =>
    cases hf : b.fragmentOf host.platform (Path.absolute host.cwd source) with
    | error outside =>
      rw [resolve_of_outside h hf] at he
      cases he
    | ok fragment =>
      by_cases hn : Fragment.TooLong host fragment
      · rw [resolve_of_tooLong h hf hn] at he
        exact .inr ⟨fragment, rfl, hn, (Except.error.inj he).symm⟩
      · rw [resolve_of_not_tooLong h hf hn] at he
        rcases hflags : (Fragment.assignmentsIn? host j fragment (flagsVariable T)).bind
          flagsAfter? with _ | flags
        · simp [hflags, resolved] at he
        · cases hw : Shell.words flags with
          | ok args => simp [hflags, resolved, hw] at he
          | error unsplit =>
            simp only [hflags, resolved, hw] at he
            exact .inl ⟨unsplit, (Except.error.inj he).symm⟩

/-- That the place of a source can be told and that it is a header with a stem. -/
structure IsHeader (host : Host) (header : Path) (stem : String) : Prop where
  placed : ¬ Adrift host header
  stemmed : stem ≠ ""
  named : (Path.absolute host.cwd header).name = stem ++ ".h"

/-- The place of the C file beside a header. -/
def cPath (host : Host) (header : Path) (stem : String) : Path :=
  (Path.absolute host.cwd header).parent.child (stem ++ ".c")

/-- That a source is the C file beside a header, or would be. -/
structure IsBeside (host : Host) (header : Path) (stem : String) (impl : Path) : Prop where
  placed : ¬ Adrift host impl
  at_place : Path.absolute host.cwd impl = cPath host header stem

theorem isSuffix_h : Path.IsSuffix ".h" := ⟨['h'], rfl, by decide, by decide, by decide⟩

theorem isSuffix_c : Path.IsSuffix ".c" := ⟨['c'], rfl, by decide, by decide, by decide⟩

namespace IsHeader

variable (hheader : IsHeader host header stem)
include hheader

theorem suffix_eq : (Path.absolute host.cwd header).suffix = ".h" :=
  Path.suffix_eq hheader.stemmed isSuffix_h hheader.named

theorem withSuffix_eq :
    (Path.absolute host.cwd header).withSuffix ".c" = cPath host header stem :=
  Path.withSuffix_eq hheader.stemmed isSuffix_h hheader.named isSuffix_c

theorem isComponent : IsComponent (stem ++ ".c") :=
  Path.isComponent_withSuffix hheader.stemmed hheader.named isSuffix_c

theorem parent_cPath : (cPath host header stem).parent = (Path.absolute host.cwd header).parent :=
  Path.parent_child_component _ ⟨_, hheader.isComponent⟩

theorem name_cPath : (cPath host header stem).name = stem ++ ".c" :=
  Path.name_child_component _ ⟨_, hheader.isComponent⟩

theorem suffix_cPath : (cPath host header stem).suffix = ".c" :=
  Path.suffix_eq hheader.stemmed isSuffix_c hheader.name_cPath

theorem perform_language? (ε : Type) (j : Journal) :
    (language? (Path.absolute host.cwd header) : Activity ε _).perform host j =
      match host.files.isFile host.cwd (cPath host header stem) with
      | .ok true => (.ok (some .c), j)
      | .ok false => (.ok (some .cpp), j)
      | .error _ => (.error (.fault (.nameTooLong (cPath host header stem))), j) := by
  rw [language?, if_pos hheader.suffix_eq, hheader.withSuffix_eq, hheader.suffix_eq,
    perform_bind, perform_isFile]
  rcases hfile : host.files.isFile host.cwd (cPath host header stem) with n | isFile
  · simp only
    rw [Files.leadsTo_error hfile]
  · cases isFile <;> rfl

theorem resolve_of_isFile (himpl : IsBeside host header stem impl)
    (hfile : host.files.isFile host.cwd (cPath host header stem) = .ok true) :
    ((b.resolve header).perform host j).1 = ((b.resolve impl).perform host j).1 := by
  have hlanguage : HasLanguage host j impl (some .c) := by
    refine hasLanguage_of_suffix j himpl.placed ?_ ?_ <;>
      rw [himpl.at_place, hheader.suffix_cPath] <;> decide
  refine resolve_congr ?_ ⟨hheader.placed, ?_⟩ hlanguage
  · rw [SameDirectory, himpl.at_place, hheader.parent_cPath]
  · rw [hheader.perform_language?, hfile]

theorem resolve_of_tooLong {n : Files.NameTooLong}
    (hfile : host.files.isFile host.cwd (cPath host header stem) = .error n) :
    ((b.resolve header).perform host j).1 =
      .error (.fault (.nameTooLong (cPath host header stem))) := by
  have hlanguage := hheader.perform_language? Shell.SplitError j
  rw [hfile] at hlanguage
  rw [resolve_eq_recipe? hheader.placed, recipe?, perform_bind_of_error hlanguage]
  rfl

theorem cPath_ne_fragment {fragment : Path} (h : b.fragmentOf platform source = .ok fragment) :
    cPath host header stem ≠ fragment := by
  rintro rfl
  have hnamed := congrArg Path.name (fragmentOf_eq_ok_iff.mp h).2
  have hname : stem ++ ".c" = directoryFragment := by
    rw [← hheader.name_cPath, hnamed]
    exact Path.name_child_component _ ⟨_, isComponent_directoryFragment⟩
  have hlast := congrArg (fun s : String => s.toList.getLast?) hname
  simp [directoryFragment] at hlast

/-- A header without a C file beside it resolves as the C++ sources of its directory, unless the
C file has a name that no file can have. -/
theorem resolve_eq_iff
    (hfile : host.files.isFile host.cwd (cPath host header stem) ≠ .ok true)
    (hdir : SameDirectory host header source) (h : HasLanguage host j source (some .cpp)) :
    ((b.resolve header).perform host j).1 = ((b.resolve source).perform host j).1 ↔
      host.files.isFile host.cwd (cPath host header stem) = .ok false := by
  constructor
  · intro hsame
    rcases hlong : host.files.isFile host.cwd (cPath host header stem) with n | isFile
    · rw [hheader.resolve_of_tooLong hlong] at hsame
      rcases resolve_eq_error h hsame.symm with ⟨unsplit, he⟩ | ⟨fragment, hf, -, he⟩
      · cases he
      · have hplace := Fault.nameTooLong.inj (Halt.fault.inj he)
        exact absurd hplace (hheader.cPath_ne_fragment hf)
    · cases isFile with
      | true => exact absurd hlong hfile
      | false => rfl
  · intro hno
    refine resolve_congr hdir ⟨hheader.placed, ?_⟩ h
    rw [hheader.perform_language?, hno]

end IsHeader

/-- Sources of one directory and one language resolve to the same: to a configuration, to none, or
to flags that cannot be cut into words, and to a fault only where the fragment of the directory has
a name that no file can have.  A header with a C file beside it resolves as that file.  Without one
it resolves as the C++ sources of the directory, unless the C file has a name that no file can have;
then the header does not resolve, and they do not end as it does. -/
theorem resolve_by_directory (b : Build) (host : Host) (j : Journal) :
    (∀ source source' language, SameDirectory host source source' →
      HasLanguage host j source language → HasLanguage host j source' language →
      ((b.resolve source).perform host j).1 = ((b.resolve source').perform host j).1 ∧
      ∀ e, ((b.resolve source).perform host j).1 = .error e →
        (∃ unsplit, e = .failed unsplit) ∨
          ∃ fragment, b.fragmentOf host.platform (Path.absolute host.cwd source) = .ok fragment ∧
            Fragment.TooLong host fragment ∧ e = .fault (.nameTooLong fragment)) ∧
    ∀ header stem, IsHeader host header stem →
      (host.files.isFile host.cwd (cPath host header stem) = .ok true →
        ∀ impl, IsBeside host header stem impl →
          ((b.resolve header).perform host j).1 = ((b.resolve impl).perform host j).1) ∧
      (host.files.isFile host.cwd (cPath host header stem) ≠ .ok true →
        ∀ source, SameDirectory host header source → HasLanguage host j source (some .cpp) →
          (((b.resolve header).perform host j).1 = ((b.resolve source).perform host j).1 ↔
            host.files.isFile host.cwd (cPath host header stem) = .ok false)) := by
  refine ⟨fun source source' language hdir h h' => ?_, fun header stem hheader => ⟨?_, ?_⟩⟩
  · exact ⟨resolve_congr hdir h h', fun e he => resolve_eq_error h he⟩
  · exact fun hfile impl himpl => hheader.resolve_of_isFile himpl hfile
  · exact fun hfile source hdir h => hheader.resolve_eq_iff hfile hdir h

theorem isComponent_obj : IsComponent "obj" := by decide

/-- A tree with one C file, seen from its root. -/
def pairedHost : Host :=
  { mixedHost with
    files := ⟨.mk .directory
      [(⟨"obj", isComponent_obj⟩, .mk .directory
        [(⟨"backend.mk", isComponent_directoryFragment⟩,
          .mk (.file (mixedFragment.toList.map fun c => c.toNat.toUInt8) false) [])]),
        (⟨"src", by decide⟩, .mk .directory
          [(⟨"E.c", by decide⟩, .mk (.file [] false) [])])]⟩
    cwd := .ofString "/src" }

theorem not_adrift_pairedHost (source : Path) : ¬ Adrift pairedHost source := by
  have hcwd : pairedHost.cwd.isRemoved = false := by decide
  simp [Adrift, hcwd]

theorem linkFree_pairedHost : pairedHost.files.root.LinkFree := by
  have hfile (bytes : List UInt8) : (Files.Tree.mk (.file bytes false) []).LinkFree :=
    .mk (by simp) (by simp)
  have hobj : (Files.Tree.mk .directory [(⟨"backend.mk", isComponent_directoryFragment⟩,
      .mk (.file (mixedFragment.toList.map fun c => c.toNat.toUInt8) false) [])]).LinkFree :=
    .mk (by simp) (by simpa using hfile _)
  have hsrc : (Files.Tree.mk .directory
      [(⟨"E.c", by decide⟩, .mk (.file [] false) [])]).LinkFree :=
    .mk (by simp) (by simpa using hfile _)
  exact .mk (by simp) (by simpa using ⟨hobj, hsrc⟩)

/-- One header with a C file beside it, and one without. -/
theorem resolve_by_directory_headers :
    ((mixedBuild.resolve (.ofString "E.h")).perform pairedHost []).1 =
      ((mixedBuild.resolve (.ofString "/src/dom/../E.c")).perform pairedHost []).1 ∧
    ((mixedBuild.resolve (.ofString "./F.h")).perform pairedHost []).1 =
      ((mixedBuild.resolve (.ofString "/src/G.cpp")).perform pairedHost []).1 := by
  obtain ⟨-, hheaders⟩ := resolve_by_directory mixedBuild pairedHost []
  have hpaired : IsHeader pairedHost (.ofString "E.h") "E" :=
    ⟨not_adrift_pairedHost _, by decide, by decide⟩
  have halone : IsHeader pairedHost (.ofString "./F.h") "F" :=
    ⟨not_adrift_pairedHost _, by decide, by decide⟩
  have himpl : IsBeside pairedHost (.ofString "E.h") "E" (.ofString "/src/dom/../E.c") :=
    ⟨not_adrift_pairedHost _, by decide⟩
  have hcpp : HasLanguage pairedHost [] (.ofString "/src/G.cpp") (some .cpp) :=
    hasLanguage_of_suffix [] (not_adrift_pairedHost _) (by decide) (by decide)
  have hpath : cPath pairedHost (.ofString "E.h") "E" = .ofString "/src/E.c" := by decide
  have hpath' : cPath pairedHost (.ofString "./F.h") "F" =
      ⟨.root, [⟨"src", by decide⟩] ++ [⟨"F.c", by decide⟩]⟩ := by decide
  have hfile : pairedHost.files.isFile pairedHost.cwd
      (cPath pairedHost (.ofString "E.h") "E") = .ok true := by
    rw [hpath]
    exact Files.isFile_of_reach? (u := .mk (.file [] false) []) (by decide) rfl
      (by simp [Files.Tree.node]) _
  have hno : pairedHost.files.isFile pairedHost.cwd
      (cPath pairedHost (.ofString "./F.h") "F") = .ok false := by
    rw [hpath']
    exact Files.leadsTo_concat (by decide) linkFree_pairedHost (by decide) (by decide) _ _
  have hdir : SameDirectory pairedHost (.ofString "./F.h") (.ofString "/src/G.cpp") := rfl
  refine ⟨(hheaders _ _ hpaired).1 hfile _ himpl, ?_⟩
  exact ((hheaders _ _ halone).2 (by rw [hno]; decide) _ hdir hcpp).mpr hno

end Build
end MachTree
