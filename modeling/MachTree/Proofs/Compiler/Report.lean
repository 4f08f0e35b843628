import MachTree.Compiler.Discovery

/-! What a report does to the configuration that it is read into: whether it defines any macro, and
what it leaves as it is. -/
namespace MachTree
namespace CompilerReport

def DefinesMacro (line : String) : Prop := defineMarker <+: line.toList

instance (line : String) : Decidable (DefinesMacro line) := by
  unfold DefinesMacro
  infer_instance

theorem after?_eq_none {marker line : List Char} :
    after? marker line = none ↔ ¬ marker <+: line := by
  simp [after?, List.isPrefixOf_iff_prefix]

theorem after?_isSome {marker line : List Char} {rest : List Char}
    (h : after? marker line = some rest) : marker <+: line := by
  by_cases hp : marker <+: line
  · exact hp
  · rw [after?_eq_none.mpr hp] at h
    cases h

theorem defineMarker_eq : defineMarker = ['#', 'd', 'e', 'f', 'i', 'n', 'e', ' '] := by decide

theorem includeMarker_eq : includeMarker = ['#', 'i', 'n', 'c', 'l', 'u', 'd', 'e', ' '] := by
  decide

theorem not_definesMacro_of_space {line : String} (h : line.toList.head? = some ' ') :
    ¬ DefinesMacro line := by
  intro hd
  rw [DefinesMacro, defineMarker_eq] at hd
  obtain ⟨rest, he⟩ := hd
  rw [← he] at h
  simp at h

theorem not_definesMacro_of_include {line : String} (h : includeMarker <+: line.toList) :
    ¬ DefinesMacro line := by
  intro hd
  rw [DefinesMacro, defineMarker_eq] at hd
  rw [includeMarker_eq] at h
  obtain ⟨rest, he⟩ := h
  obtain ⟨rest', he'⟩ := hd
  have hsame := he'.trans he.symm
  simp at hsame

theorem isEmpty_insert (t : Table String String) (k v : String) :
    (t.insert k v).isEmpty = false := by
  cases he : t.entries with
  | nil => simp [Table.isEmpty, Table.insert, Table.put, he]
  | cons e es => by_cases hk : e.1 = k <;> simp [Table.isEmpty, Table.insert, Table.put, he, hk]

theorem addDirectory_keeps (config : CompileConfig) (block : Block) (entry : List Char) :
    (addDirectory config block entry).defines = config.defines ∧
      (addDirectory config block entry).compilerPath = config.compilerPath := by
  rw [addDirectory]
  cases before? frameworkMarker entry with
  | some dir => exact ⟨rfl, rfl⟩
  | none => by_cases hb : block = .system <;> simp [hb, CompileConfig.addSysInclude,
      CompileConfig.addInclude]

namespace Reader

theorem feed_compilerPath (r : Reader) (line : String) :
    (r.feed line).config.compilerPath = r.config.compilerPath := by
  rw [feed]
  split
  · exact (addDirectory_keeps _ _ _).2
  · rw [readHeader]
    cases after? includeMarker line.toList with
    | some rest => rfl
    | none => cases after? defineMarker line.toList <;> rfl

theorem feed_defines_isEmpty (r : Reader) (line : String) :
    (r.feed line).config.defines.isEmpty = true ↔
      r.config.defines.isEmpty = true ∧ ¬ DefinesMacro line := by
  rw [feed]
  split
  · rename_i hblock
    rw [(addDirectory_keeps _ _ _).1]
    simp [not_definesMacro_of_space hblock.2]
  · rw [readHeader]
    cases hi : after? includeMarker line.toList with
    | some rest => simp [not_definesMacro_of_include (after?_isSome hi)]
    | none =>
      cases hd : after? defineMarker line.toList with
      | some rest =>
        have hdefines : DefinesMacro line := after?_isSome hd
        simp [CompileConfig.addDefine, isEmpty_insert, hdefines]
      | none =>
        have hdefines : ¬ DefinesMacro line := after?_eq_none.mp hd
        simp [hdefines]

theorem feedAll_compilerPath (r : Reader) (lines : List String) :
    (r.feedAll lines).config.compilerPath = r.config.compilerPath := by
  induction lines generalizing r with
  | nil => rfl
  | cons line lines ih => exact (ih (r.feed line)).trans (r.feed_compilerPath line)

theorem feedAll_defines_isEmpty (r : Reader) (lines : List String) :
    (r.feedAll lines).config.defines.isEmpty = true ↔
      r.config.defines.isEmpty = true ∧ ∀ line ∈ lines, ¬ DefinesMacro line := by
  induction lines generalizing r with
  | nil => simp [feedAll]
  | cons line lines ih =>
    have hstep := ih (r.feed line)
    rw [r.feed_defines_isEmpty line] at hstep
    simpa [feedAll, and_assoc] using hstep

end Reader
end CompilerReport

namespace Compiler

def overrideName (override : Option (List String)) : String := (override.bind List.head?).getD ""

theorem usable_read_eq_false (output : List String) (language : Language) (family : Family)
    (override : Option (List String)) (sdk : Option Path) :
    usable (CompilerReport.read output (initialConfig language family override sdk)) = false ↔
      (∀ line ∈ output, ¬ CompilerReport.DefinesMacro line) ∧ overrideName override = "" := by
  have hpath := CompilerReport.Reader.feedAll_compilerPath
    ⟨initialConfig language family override sdk, .outside⟩ output
  have hdefines := CompilerReport.Reader.feedAll_defines_isEmpty
    ⟨initialConfig language family override sdk, .outside⟩ output
  have hname : ((override.bind List.head?).filter fun c => c ≠ "").isSome = false ↔
      overrideName override = "" := by
    rw [overrideName]
    cases override.bind List.head? with
    | none => simp
    | some name => by_cases hn : name = "" <;> simp [Option.filter, hn]
  have hempty : (initialConfig language family override sdk).defines.isEmpty = true := rfl
  simp only [usable, CompilerReport.read, CompileConfig.compiler?, hpath, Bool.or_eq_false_iff,
    Bool.not_eq_false', hdefines, hempty, true_and]
  exact and_congr_right fun _ => hname

end Compiler
end MachTree
