import MachTree.Proofs.Build.Recipe
import MachTree.Proofs.Flags
import MachTree.Proofs.Fragment.Accumulation

/-! Flags that a fragment accumulates.  A file is compiled as if the flags of each line had been
given on their own, one line after the other. -/
namespace MachTree

namespace Flags

/-- Lists of arguments are read one after the other, unless one before the last ends with a flag
that waits for its operand. -/
theorem apply_flatten {dialect : Dialect} {lists : List (List String)}
    (h : ∀ args ∈ lists.dropLast, dialect.awaits args = false) (config : CompileConfig) :
    apply dialect lists.flatten config =
      lists.foldl (fun config args => apply dialect args config) config := by
  induction lists generalizing config with
  | nil => rfl
  | cons args lists ih =>
    cases lists with
    | nil => simp
    | cons next lists =>
      have hargs : dialect.awaits args = false := h args (by simp)
      rw [List.flatten_cons, apply_append hargs, ih fun more hmore => h more (by simp [hmore])]
      rfl

end Flags

namespace Build

variable {b : Build} {host : Host} {j : Journal} {source fragment : Path} {language : Language}
  {lines : List (List Char)} {v : String} {vs : List String}

/-- How a directory's arguments are read by the compiler of a language. -/
def dialectOf (b : Build) (platform : Platform) (language : Language) (fragment : Path) :
    Flags.Dialect :=
  (b.compilerOf language).dialect platform (some fragment.parent)

/-- The flags that a fragment accumulates for a language mean what they mean when they are applied
one line after the other. -/
theorem resolve_accumulation {split : String → List String}
    (hlanguage : HasLanguage host j source (some language))
    (hfragment : b.fragmentOf host.platform (Path.absolute host.cwd source) = .ok fragment)
    (hread : Fragment.linesOf? host j fragment = some lines)
    (hlines : lines.filter (Fragment.assigns (flagsVariable language)) =
      (Fragment.accumulation (flagsVariable language) v vs).map Fragment.Assignment.line)
    (htrimmed : ∀ u ∈ v :: vs, trimmed u = u)
    (hwords : ∀ u ∈ v :: vs, Shell.words u = .ok (split u))
    (hne : ∃ u ∈ v :: vs, u ≠ "")
    (hawaits : ∀ u ∈ (v :: vs).dropLast,
      (b.dialectOf host.platform language fragment).awaits (split u) = false) :
    ((b.resolve source).perform host j).1 =
      .ok (some (((v :: vs).map split).foldl
        (fun config args =>
          Flags.apply (b.dialectOf host.platform language fragment) args config)
        (b.compilerOf language).baseline)) := by
  have hname : Fragment.IsName (flagsVariable language) := by cases language <;> decide
  have hassigned := Fragment.assignmentsTo_of_filter hname htrimmed hlines
  obtain ⟨flags, hflags, hne', hsplit⟩ :=
    Fragment.valueAfter_accumulation (flagsVariable language) hwords hne
  have hafter : flagsAfter? (Fragment.assignmentsTo (flagsVariable language) lines) =
      some flags := by
    rw [hassigned, flagsAfter?, hflags]
    simp [Option.filter, hne']
  have hwait : ∀ args ∈ ((v :: vs).map split).dropLast,
      (b.dialectOf host.platform language fragment).awaits args = false := by
    intro args hargs
    rw [← List.map_dropLast] at hargs
    obtain ⟨u, hu, rfl⟩ := List.mem_map.mp hargs
    exact hawaits u hu
  rw [resolve_of_linesOf? hlanguage hfragment hread, hafter]
  simp only [resolved, hsplit]
  rw [configure, Compiler.resolve, List.flatMap_def]
  exact congrArg (fun config => Except.ok (some config)) (Flags.apply_flatten hwait _)

theorem isComponent_directoryFragment : IsComponent directoryFragment := by decide

/-- A fragment in which the flags of two languages stand between each other. -/
def mixedFragment : String :=
  "COMPUTED_CXXFLAGS = \nCOMPUTED_CFLAGS = -DC\n" ++
    "COMPUTED_CXXFLAGS += -DA='x y'\nCOMPUTED_CXXFLAGS += -I../i\n"

def mixedHost : Host :=
  { files := ⟨.mk .directory [(⟨"obj", by decide⟩, .mk .directory
      [(⟨"backend.mk", isComponent_directoryFragment⟩,
        .mk (.file (mixedFragment.toList.map fun c => c.toNat.toUInt8) false) [])])]⟩
    runner := fun _ _ => .refused "" }

def mixedBuild : Build :=
  let compiler (language : Language) : Compiler :=
    { srcdir := .ofString "/src", command := ["clang"], language, family := .clang
      baseline := { standard := language.standard, mode := "clang-x64" } }
  { mach := { srcdir := .ofString "/src", command := ["/src/mach"] }
    srcdir := .ofString "/src"
    environment := { mozconfig := ⟨[], [], [], ""⟩, topobjdir := "/obj", topsrcdir := "/src" }
    cCompiler := compiler .c
    cppCompiler := compiler .cpp
    showProgress := false }

def mixedWords (value : String) : List String := (Shell.words value).toOption.getD []

theorem resolve_accumulation_mixed :
    ((mixedBuild.resolve (.ofString "/src/E.cpp")).perform mixedHost []).1 =
      .ok (some ((["", "-DA='x y'", "-I../i"].map mixedWords).foldl
        (fun config args =>
          Flags.apply (mixedBuild.dialectOf .generic .cpp (.ofString "/obj/backend.mk")) args
            config)
        (mixedBuild.compilerOf .cpp).baseline)) := by
  have hread : Fragment.linesOf? mixedHost [] (.ofString "/obj/backend.mk") =
      some (Text.lines mixedFragment.toList) :=
    Fragment.linesOf?_of_reach? [] rfl (by decide) rfl (Utf8.decode_ascii (by decide +kernel))
  have hlines : (Text.lines mixedFragment.toList).filter
      (Fragment.assigns (flagsVariable .cpp)) =
        (Fragment.accumulation (flagsVariable .cpp) "" ["-DA='x y'", "-I../i"]).map
          Fragment.Assignment.line := by
    decide +kernel
  have hwords : ∀ u ∈ ["", "-DA='x y'", "-I../i"],
      Shell.words u = .ok (mixedWords u) := by
    simp only [List.forall_mem_cons]
    exact ⟨rfl, rfl, rfl, by simp⟩
  exact resolve_accumulation ⟨fun h => absurd h.1 (by decide), rfl⟩ rfl hread hlines
    (by decide +kernel) hwords (by decide) (by decide +kernel)

end Build
end MachTree
