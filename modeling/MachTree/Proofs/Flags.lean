import MachTree.Flags
import MachTree.Proofs.Path.Text

/-! How arguments are read.  Two lists of arguments one after the other are read like the first and
then the second, unless the first ends with a flag that waits for its operand; and the flags that
write a definition or a directory are read as what they were written for. -/
namespace MachTree

theorem Define.parse_append {key : List Char} (h : '=' ∉ key) (value : List Char) :
    Define.parse ['='] (key ++ '=' :: value) = ⟨String.ofList key, String.ofList value⟩ := by
  have hcut : Text.splitAt? ['='] (key ++ '=' :: value) = some (key, value) :=
    Text.splitAt?_append h [] value
  rw [Define.parse, hcut]

/-- A path is read off its own text, save where texts stand for drives. -/
theorem Platform.path_toString {platform : Platform} (hp : platform ≠ .windows) (p : Path) :
    platform.path p.toString = p := by
  cases platform with
  | windows => exact absurd rfl hp
  | generic => exact Path.ofString_toString p
  | macOS => exact Path.ofString_toString p

namespace Flags

variable {dialect : Dialect} {config : CompileConfig} {arg : String} {rest : List String}

theorem apply_define {d : Define} (h : dialect.meaning arg = .define d) :
    apply dialect (arg :: rest) config = apply dialect rest (config.addDefine d) := by
  rw [apply.eq_def]
  simp only [h]

theorem apply_include {p : Path} (h : dialect.meaning arg = .include p) :
    apply dialect (arg :: rest) config = apply dialect rest (config.addInclude p) := by
  rw [apply.eq_def]
  simp only [h]

theorem apply_nothing (h : dialect.meaning arg = .nothing) :
    apply dialect (arg :: rest) config = apply dialect rest config := by
  rw [apply.eq_def]
  simp only [h]

theorem apply_forced (h : dialect.meaning arg = .forced) (operand : String) :
    apply dialect (arg :: operand :: rest) config =
      apply dialect rest (config.addForcedInclude (dialect.resolve (Path.ofString operand))) := by
  rw [apply.eq_def]
  simp only [h]

theorem apply_compilerPath (dialect : Dialect) (args : List String) (config : CompileConfig) :
    (apply dialect args config).compilerPath = config.compilerPath := by
  fun_induction apply dialect args config with
  | case1 config => rfl
  | case2 config arg rest d _ ih => exact ih
  | case3 config arg rest p _ ih => exact ih
  | case4 config arg rest _ ih => exact ih
  | case5 config arg _ => rfl
  | case6 config arg _ operand rest ih => exact ih

/-- Whether a list of arguments ends with the flag of a forced include, so that the next argument
would be the operand. -/
def Dialect.awaits (dialect : Dialect) : List String → Bool
  | [] => false
  | arg :: rest =>
    match dialect.meaning arg with
    | .forced =>
      match rest with
      | [] => true
      | _ :: rest => dialect.awaits rest
    | _ => dialect.awaits rest

theorem awaits_eq (arg : String) (rest : List String) :
    dialect.awaits (arg :: rest) =
      match dialect.meaning arg with
      | .forced => rest.isEmpty || dialect.awaits rest.tail
      | _ => dialect.awaits rest := by
  rw [Dialect.awaits.eq_def]
  cases h : dialect.meaning arg <;> cases rest <;> simp [h]

theorem apply_append {args : List String} (h : dialect.awaits args = false) (rest : List String) :
    apply dialect (args ++ rest) config = apply dialect rest (apply dialect args config) := by
  fun_induction apply dialect args config with
  | case1 => rfl
  | case2 arg args config d hd ih =>
    rw [awaits_eq, hd] at h
    rw [List.cons_append, apply_define hd, ih h]
  | case3 arg args config p hp ih =>
    rw [awaits_eq, hp] at h
    rw [List.cons_append, apply_include hp, ih h]
  | case4 arg args config hn ih =>
    rw [awaits_eq, hn] at h
    rw [List.cons_append, apply_nothing hn, ih h]
  | case5 arg config hf =>
    rw [awaits_eq, hf] at h
    simp at h
  | case6 arg config hf operand args ih =>
    rw [awaits_eq, hf] at h
    rw [List.cons_append, List.cons_append, apply_forced hf, ih (by simpa using h)]

theorem meaning_define {d : Define} (h : '=' ∉ d.key.toList) :
    dialect.meaning d.flag = .define d := by
  have htext : d.flag.toList = '-' :: 'D' :: (d.key.toList ++ '=' :: d.value.toList) := by
    simp [Define.flag, Define.text]
  rw [Dialect.meaning, htext]
  simp [Define.parse_append h]

theorem apply_defines {ds : List Define} (h : ∀ d ∈ ds, '=' ∉ d.key.toList)
    (rest : List String) :
    apply dialect (ds.map Define.flag ++ rest) config =
      apply dialect rest
        { config with defines := config.defines.insertAll (ds.map fun d => (d.key, d.value)) } := by
  induction ds generalizing config with
  | nil => rfl
  | cons d ds ih =>
    rw [List.map_cons, List.cons_append, apply_define (meaning_define (h d (by simp))),
      ih fun e he => h e (by simp [he])]
    rfl

theorem meaning_of_ne {letter : Char} {more : List Char} (harg : arg.toList = '-' :: letter :: more)
    (hD : letter ≠ 'D') (hI : letter ≠ 'I') (hne : arg ≠ dialect.forcedFlag) :
    dialect.meaning arg = .nothing := by
  rw [Dialect.meaning, harg]
  simp [hD, hI, hne]

theorem apply_passedOver {args : List String} (h : ∀ arg ∈ args, dialect.meaning arg = .nothing)
    (rest : List String) : apply dialect (args ++ rest) config = apply dialect rest config := by
  induction args with
  | nil => rfl
  | cons arg args ih =>
    rw [List.cons_append, apply_nothing (h arg (by simp)), ih fun a ha => h a (by simp [ha])]

section Here

variable (hbase : dialect.baseDir = none)
include hbase

theorem resolve_eq (p : Path) : dialect.resolve p = p := by
  rw [Dialect.resolve, hbase]

theorem meaning_include (hp : dialect.platform ≠ .windows) (p : Path) :
    dialect.meaning ("-I" ++ p.toString) = .include p := by
  have htext : ("-I" ++ p.toString).toList = '-' :: 'I' :: p.toString.toList := by simp
  rw [Dialect.meaning, htext]
  simp [p.toString_ne_empty, resolve_eq hbase, Platform.path_toString hp]

theorem apply_includes (hp : dialect.platform ≠ .windows) (ps : List Path) (rest : List String) :
    apply dialect (ps.map (fun p => "-I" ++ p.toString) ++ rest) config =
      apply dialect rest { config with includes := config.includes.insertAll ps } := by
  induction ps generalizing config with
  | nil => rfl
  | cons p ps ih =>
    rw [List.map_cons, List.cons_append, apply_include (meaning_include hbase hp p), ih]
    rfl

theorem apply_forcedIncludes (hforced : dialect.meaning dialect.forcedFlag = .forced)
    (ps : List Path) :
    apply dialect (ps.flatMap fun p => [dialect.forcedFlag, p.toString]) config =
      { config with forcedIncludes := config.forcedIncludes.insertAll ps } := by
  induction ps generalizing config with
  | nil => rfl
  | cons p ps ih =>
    rw [List.flatMap_cons, List.cons_append, List.cons_append, List.nil_append,
      apply_forced hforced, Path.ofString_toString, resolve_eq hbase, ih]
    rfl

end Here

end Flags
end MachTree
