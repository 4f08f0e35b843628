import MachTree.Compiler.Basic
import MachTree.Proofs.Flags

/-! The command of a test compile against the configuration that it is written for.  The arguments
between the fixed flags and the source, read as a directory's arguments are read, give the user's
part of the configuration again. -/
namespace MachTree
namespace Compiler

open Flags

variable {dialect : Dialect}

theorem defines_of_defineList (config : CompileConfig) :
    (config.defineList.map fun d => (d.key, d.value)) = config.defines.entries := by
  rw [CompileConfig.defineList, List.map_map]
  exact List.map_id _

/-- A directory of the system or of frameworks is named within the flag, which no forced include
starts with. -/
theorem meaning_foundDirectory (hforced : dialect.forcedFlag = "-include") (p : Path) :
    dialect.meaning ("-isystem" ++ p.toString) = .nothing ∧
      dialect.meaning ("-iframework" ++ p.toString) = .nothing := by
  have hsystem : ("-isystem" ++ p.toString).toList =
      '-' :: 'i' :: ("system".toList ++ p.toString.toList) := by simp
  have hframework : ("-iframework" ++ p.toString).toList =
      '-' :: 'i' :: ("framework".toList ++ p.toString.toList) := by simp
  have hne {s : String} (h : s.toList ≠ "-include".toList) : s ≠ dialect.forcedFlag := by
    rw [hforced]
    exact fun he => h (congrArg String.toList he)
  exact ⟨meaning_of_ne hsystem (by decide) (by decide) (hne (by simp)),
    meaning_of_ne hframework (by decide) (by decide) (hne (by simp))⟩

/-- The arguments that a configuration is written as are read as the definitions, the user's
directories and the forced includes, each in order. -/
theorem apply_configArguments {config : CompileConfig} (hbase : dialect.baseDir = none)
    (hforced : dialect.forcedFlag = "-include") (hp : dialect.platform ≠ .windows)
    (hkeys : ∀ key ∈ config.defines.keys, '=' ∉ key.toList) (e : CompileConfig) :
    apply dialect (configArguments config) e =
      { e with
        includes := e.includes.insertAll config.includes.paths
        forcedIncludes := e.forcedIncludes.insertAll config.forcedIncludes.paths
        defines := e.defines.insertAll config.defines.entries } := by
  have hsystem : ∀ arg ∈ config.sysIncludes.paths.map (fun p => "-isystem" ++ p.toString),
      dialect.meaning arg = .nothing := by
    intro arg harg
    obtain ⟨p, -, rfl⟩ := List.mem_map.mp harg
    exact (meaning_foundDirectory hforced p).1
  have hframework : ∀ arg ∈ config.frameworks.paths.map (fun p => "-iframework" ++ p.toString),
      dialect.meaning arg = .nothing := by
    intro arg harg
    obtain ⟨p, -, rfl⟩ := List.mem_map.mp harg
    exact (meaning_foundDirectory hforced p).2
  have hdefines : ∀ d ∈ config.defineList, '=' ∉ d.key.toList := by
    intro d hd
    obtain ⟨entry, hentry, rfl⟩ := List.mem_map.mp hd
    exact hkeys entry.1 (List.mem_map_of_mem hentry)
  have hflag : dialect.meaning dialect.forcedFlag = .forced := by
    rw [hforced]
    simp [Dialect.meaning, hforced]
  have hwritten : configArguments config =
      config.sysIncludes.paths.map (fun p => "-isystem" ++ p.toString) ++
      (config.frameworks.paths.map (fun p => "-iframework" ++ p.toString) ++
      (config.defineList.map Define.flag ++
      (config.includes.paths.map (fun p => "-I" ++ p.toString) ++
      config.forcedIncludes.paths.flatMap fun p => [dialect.forcedFlag, p.toString]))) := by
    simp [configArguments, hforced, Family.forcedFlag]
  -- what the compiler found itself is passed over, and each kind of the rest comes to its own table
  rw [hwritten, apply_passedOver hsystem, apply_passedOver hframework, apply_defines hdefines,
    apply_includes hbase hp, apply_forcedIncludes hbase hflag, defines_of_defineList]

/-- A test compile's command has, after the fixed flags and before the source, arguments that are
read as the user's part of the configuration: nothing of it is lost, added or spelled anew. -/
theorem compileCommand_decodes (c : Compiler) (source : Path) {config : CompileConfig}
    {platform : Platform} (hp : platform ≠ .windows)
    (hkeys : ∀ key ∈ config.defines.keys, '=' ∉ key.toList) (e : CompileConfig) :
    ∃ args : List String,
      c.compileCommand config source = (c.commandFor (some source)).map (fun command =>
        command ++ sdkArguments (config.sdkPath.or c.baseline.sdkPath) ++ fixedArguments ++ args ++
          [source.toString]) ∧
      apply { platform, forcedFlag := "-include", baseDir := none } args
          { e with includes := ∅, forcedIncludes := ∅, defines := ∅ } =
        { e with
          includes := config.includes
          forcedIncludes := config.forcedIncludes
          defines := config.defines } := by
  refine ⟨configArguments config, rfl, ?_⟩
  rw [apply_configArguments rfl rfl hp hkeys]
  have hincludes : (∅ : PathSet).insertAll config.includes.paths = config.includes :=
    PathSet.ofList_paths _
  have hforcedIncludes : (∅ : PathSet).insertAll config.forcedIncludes.paths =
      config.forcedIncludes := PathSet.ofList_paths _
  have hdefines : (∅ : Table String String).insertAll config.defines.entries = config.defines :=
    Table.ofList_entries _
  simp only [hincludes, hforcedIncludes, hdefines]

/-- Paths that look like flags, one with a space and one that climbs, and definitions without a name
or with signs and spaces in the value. -/
theorem compileCommand_decodes_awkward :
    let config : CompileConfig :=
      { standard := "c++14", mode := "clang-x64"
        includes := .ofList [.ofString "-include", .ofString "/obj/../a b", .ofString "//n/-Dx=1"]
        sysIncludes := .ofList [.ofString "/usr/include", .ofString "-Iz"]
        frameworks := .ofList [.ofString "nclude"]
        forcedIncludes := .ofList [.ofString "-I/config.h", .ofString "-include"]
        defines := .ofList [("STR", "\"a = b\""), ("", ""), ("-I", "1")] }
    let c : Compiler :=
      { srcdir := .ofString "/src", command := ["clang++"], language := .cpp, family := .clang
        baseline := { standard := "c++14", mode := "clang-x64" } }
    (Platform.macOS ≠ .windows ∧ ∀ key ∈ config.defines.keys, '=' ∉ key.toList) ∧
      ∃ args : List String,
        c.compileCommand config (.ofString "/src/a.cpp") =
          (c.commandFor (some (.ofString "/src/a.cpp"))).map (fun command =>
            command ++ sdkArguments (config.sdkPath.or c.baseline.sdkPath) ++ fixedArguments ++
              args ++ [(Path.ofString "/src/a.cpp").toString]) ∧
        apply { platform := .macOS, forcedFlag := "-include", baseDir := none } args
            { standard := "c99", mode := "clang-x64" } =
          { standard := "c99", mode := "clang-x64"
            includes := config.includes
            forcedIncludes := config.forcedIncludes
            defines := config.defines } := by
  intro config c
  have hkeys : ∀ key ∈ config.defines.keys, '=' ∉ key.toList := by decide
  exact ⟨⟨by decide, hkeys⟩,
    compileCommand_decodes c _ (by decide) hkeys { standard := "c99", mode := "clang-x64" }⟩

end Compiler
end MachTree
