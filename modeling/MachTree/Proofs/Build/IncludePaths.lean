import MachTree.Proofs.PathSet
import MachTree.Tool.Basic

/-! Lists of include directories that are put together from other lists.  However often the sets
are merged on the way, the outcome is one list: of the directories that share a normal form the
first, and they stand in the order in which they first came. -/
namespace MachTree

variable {texts before after : List String} {t : String}

theorem firsts_sublist (texts : List String) : (firsts texts).Sublist texts := by
  induction texts using List.reverseRecOn with
  | nil => exact .refl _
  | append_singleton texts p ih =>
    rw [firsts_concat]
    split
    · exact ih.trans (List.sublist_append_left ..)
    · exact ih.append (.refl _)

theorem nodup_map_firsts (texts : List String) : ((firsts texts).map normalText).Nodup := by
  induction texts using List.reverseRecOn with
  | nil => exact List.nodup_nil
  | append_singleton texts p ih =>
    rw [firsts_concat]
    split
    · exact ih
    · rename_i hp
      rw [List.map_append]
      refine List.nodup_append.mpr ⟨ih, by simp, ?_⟩
      rintro key hkey _ hmem rfl
      rw [List.map_singleton, List.mem_singleton] at hmem
      exact hp (hmem ▸ (mem_map_firsts texts key).mp hkey)

theorem firsts_prefix (texts more : List String) : firsts texts <+: firsts (texts ++ more) := by
  induction more using List.reverseRecOn with
  | nil => simp
  | append_singleton more p ih =>
    rw [← List.append_assoc, firsts_concat]
    split
    · exact ih
    · exact ih.trans (List.prefix_append ..)

/-- A text that is the first with its normal form comes right after those that came before. -/
theorem firsts_split (after : List String) (hnew : normalText t ∉ before.map normalText) :
    ∃ later, firsts (before ++ t :: after) = firsts before ++ t :: later := by
  obtain ⟨later, hlater⟩ := firsts_prefix (before ++ [t]) after
  refine ⟨later, ?_⟩
  rw [firsts_concat, if_neg hnew] at hlater
  simpa using hlater.symm

/-- That a list holds each of some directories once up to normalization, at its earliest position
and in its earliest spelling, and holds nothing else. -/
structure Aggregates (contributing listed : List String) : Prop where
  eq_firsts : listed = firsts contributing
  /-- what is first with its normal form stands right after what came before it -/
  position : ∀ before t after, contributing = before ++ t :: after →
    normalText t ∉ before.map normalText → ∃ later, listed = firsts before ++ t :: later
  kept : ∀ t ∈ contributing, ∃ s ∈ listed, normalText s = normalText t
  once : (listed.map normalText).Nodup
  sublist : listed.Sublist contributing

theorem aggregates_firsts (texts : List String) : Aggregates texts (firsts texts) where
  eq_firsts := rfl
  position := by
    rintro before t after rfl hnew
    exact firsts_split after hnew
  kept := fun t ht => List.mem_map.mp
    ((mem_map_firsts texts (normalText t)).mpr (List.mem_map_of_mem ht))
  once := nodup_map_firsts texts
  sublist := firsts_sublist texts

namespace PathSet

variable {s t : PathSet} {texts more : List String} {ps : List Path}

theorem Holds.union (h : s.Holds texts) (ht : t.Holds more) : (s ∪ t).Holds (texts ++ more) :=
  h.insertAll_paths ht

theorem holds_ofList (ps : List Path) : (ofList ps).Holds (ps.map Path.toString) :=
  holds_empty.insertAll_toString ps

theorem Holds.aggregates (h : s.Holds texts)
    (hpaths : ∀ p ∈ texts, (Path.ofString p).toString = p) : Aggregates texts s.toStrings := by
  have hlisted : s.toStrings = firsts texts := by
    rw [h.toStrings]
    refine (List.map_congr_left fun p hp => ?_).trans (List.map_id _)
    exact hpaths p ((firsts_sublist texts).subset hp)
  rw [hlisted]
  exact aggregates_firsts texts

theorem toString_ofString_of_mem {p : String} (h : p ∈ ps.map Path.toString) :
    (Path.ofString p).toString = p := by
  obtain ⟨q, -, rfl⟩ := List.mem_map.mp h
  rw [Path.ofString_toString]

end PathSet

def Compiler.baselineDirectories (c : Compiler) : List Path :=
  c.baseline.sysIncludes.paths ++ c.baseline.frameworks.paths ++ c.baseline.includes.paths

def Build.contributing (b : Build) (platform : Platform) : List Path :=
  b.srcdir :: Build.headerDirectories.map (b.objectDir platform).child ++
    b.cCompiler.baselineDirectories ++ b.cppCompiler.baselineDirectories

/-- The directories that the files of a configuration search, the user's before the system's. -/
def CompileConfig.contributing (config : CompileConfig) : List Path :=
  config.includes.paths ++ config.sysIncludes.paths

theorem Compiler.includePaths_holds (c : Compiler) :
    c.includePaths.Holds (c.baselineDirectories.map Path.toString) := by
  rw [baselineDirectories, List.map_append, List.map_append]
  exact (c.baseline.sysIncludes.holds_toStrings.union c.baseline.frameworks.holds_toStrings).union
    c.baseline.includes.holds_toStrings

theorem Build.includePaths_holds (b : Build) (platform : Platform) :
    (b.includePaths platform).Holds ((b.contributing platform).map Path.toString) := by
  have htree := (PathSet.holds_ofList [b.srcdir]).insertAll_toString
    (headerDirectories.map (b.objectDir platform).child)
  rw [contributing, List.map_append, List.map_append]
  exact (htree.union b.cCompiler.includePaths_holds).union b.cppCompiler.includePaths_holds

theorem CompileConfig.searchPath_holds (config : CompileConfig) :
    config.searchPath.Holds (config.contributing.map Path.toString) := by
  rw [contributing, List.map_append]
  exact config.includes.holds_toStrings.union config.sysIncludes.holds_toStrings

/-- The include directories of a build are the source tree, the header places of the object
directory and what the C compiler and then the C++ compiler bring along; those that an editor is
told for a file are the file's own and then the system's.  Whatever the overlaps, each of these
directories is there once up to normalization, where it first comes and as it is first spelled. -/
theorem Build.includePaths_aggregate :
    (∀ (b : Build) (platform : Platform),
      Aggregates ((b.contributing platform).map Path.toString)
        (b.includePaths platform).toStrings) ∧
    ∀ config : CompileConfig, ∃ listed,
      (Tool.configJson config).get "includePath" = .strings listed ∧
      Aggregates (config.contributing.map Path.toString) listed := by
  refine ⟨fun b platform => ?_, fun config => ⟨config.searchPath.toStrings, rfl, ?_⟩⟩
  · exact (b.includePaths_holds platform).aggregates fun _ => PathSet.toString_ofString_of_mem
  · exact config.searchPath_holds.aggregates fun _ => PathSet.toString_ofString_of_mem

end MachTree
