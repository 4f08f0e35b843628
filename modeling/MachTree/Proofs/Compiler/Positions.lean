import MachTree.Proofs.Compiler.Report
import MachTree.Proofs.PathSet
import MachTree.Proofs.Table
import Mathlib.Data.List.TakeWhile

/-! What the lines of a compiler's report stand for, told from where they stand.  An indented line
is a directory of the list that the nearest line before it without indent opens, if that line opens
one; a line that defines a macro does so wherever it stands.  Reading a report line by line, with
the list that is open as its only memory, comes to the same. -/
namespace MachTree
namespace CompilerReport

/-- The kinds of directories that a report tells of. -/
inductive Kind
  | user
  | system
  | framework
deriving DecidableEq

def directoriesOf (config : CompileConfig) : Kind → PathSet
  | .user => config.includes
  | .system => config.sysIncludes
  | .framework => config.frameworks

def IsIndented (line : String) : Prop := line.toList.head? = some ' '

instance : DecidablePred IsIndented := fun line =>
  inferInstanceAs (Decidable (line.toList.head? = some ' '))

/-- The list that a line opens. -/
def Block.opened (line : String) : Block :=
  if includeMarker ++ ['<'] <+: line.toList then .system
  else if includeMarker <+: line.toList then .user
  else .outside

/-- The list that is open after some lines: the last one that is not indented tells. -/
def Block.after (lines : List String) : Block :=
  ((lines.filter fun line => ¬ IsIndented line).getLast?.map opened).getD .outside

def entryOf (block : Block) (entry : List Char) : Kind × List Char :=
  if frameworkMarker <:+ entry then
    (.framework, entry.take (entry.length - frameworkMarker.length))
  else (if block = .system then .system else .user, entry)

/-- The directory that a line stands for where a list is open. -/
def directory? (block : Block) (line : String) : Option (Kind × List Char) :=
  if IsIndented line ∧ block ≠ .outside then some (entryOf block (Text.trim line.toList)) else none

def ofKind? (kind : Kind) (dir : Kind × List Char) : Option String :=
  if dir.1 = kind then some (String.ofList dir.2) else none

/-- The directory of a kind that one of the lines stands for after the lines before it. -/
def directoryAt? (kind : Kind) (lines : List String) (n : Nat) : Option String :=
  lines[n]?.bind fun line => (directory? (Block.after (lines.take n)) line).bind (ofKind? kind)

/-- The directories of a kind that the lines of a report stand for, in the order of the lines. -/
def directories (kind : Kind) (lines : List String) : List String :=
  (List.range lines.length).filterMap (directoryAt? kind lines)

/-- The macro that a line defines: its name reaches up to the first space, and without a space its
value is one. -/
def definition? (line : String) : Option Define :=
  if DefinesMacro line then
    let text := Text.trim (line.toList.drop defineMarker.length)
    some ⟨String.ofList (text.takeWhile (· ≠ ' ')),
      if ' ' ∈ text then String.ofList (text.dropWhile (· ≠ ' ')).tail else "1"⟩
  else none

/-- The macros that the lines of a report define, in the order of the lines. -/
def definitions (lines : List String) : List Define := lines.filterMap definition?

def withFound (config found : CompileConfig) : CompileConfig :=
  { config with
    includes := found.includes
    sysIncludes := found.sysIncludes
    frameworks := found.frameworks
    defines := found.defines }

theorem Block.after_concat (lines : List String) (line : String) :
    Block.after (lines ++ [line]) =
      if IsIndented line then Block.after lines else Block.opened line := by
  by_cases h : IsIndented line <;> simp [Block.after, List.filter_append, h]

theorem directoryAt?_concat (kind : Kind) (lines : List String) (line : String) {n : Nat}
    (hn : n < lines.length) :
    directoryAt? kind (lines ++ [line]) n = directoryAt? kind lines n := by
  rw [directoryAt?, directoryAt?, List.getElem?_append_left hn,
    List.take_append_of_le_length (Nat.le_of_lt hn)]

theorem directories_concat (kind : Kind) (lines : List String) (line : String) :
    directories kind (lines ++ [line]) = directories kind lines ++
      ((directory? (Block.after lines) line).bind (ofKind? kind)).toList := by
  have hbefore : (List.range lines.length).filterMap (directoryAt? kind (lines ++ [line])) =
      directories kind lines :=
    List.filterMap_congr fun n hn => directoryAt?_concat kind lines line (List.mem_range.mp hn)
  have hlast : directoryAt? kind (lines ++ [line]) lines.length =
      (directory? (Block.after lines) line).bind (ofKind? kind) := by
    rw [directoryAt?, List.getElem?_concat_length, List.take_left]
    rfl
  rw [directories, List.length_append, List.length_singleton, List.range_succ,
    List.filterMap_append, hbefore, List.filterMap_cons, hlast, List.filterMap_nil]
  cases (directory? (Block.after lines) line).bind (ofKind? kind) <;> rfl

theorem definitions_concat (lines : List String) (line : String) :
    definitions (lines ++ [line]) = definitions lines ++ (definition? line).toList := by
  rw [definitions, List.filterMap_append, List.filterMap_cons, List.filterMap_nil]
  cases definition? line <;> rfl

theorem after?_eq (marker line : List Char) :
    after? marker line = if marker <+: line then some (line.drop marker.length) else none := by
  simp only [after?, List.isPrefixOf_iff_prefix]

theorem before?_eq (marker line : List Char) :
    before? marker line =
      if marker <:+ line then some (line.take (line.length - marker.length)) else none := by
  rw [before?, after?_eq]
  by_cases h : marker <:+ line
  · rw [if_pos (List.reverse_prefix.mpr h), if_pos h]
    simp [List.drop_reverse]
  · rw [if_neg (mt List.reverse_prefix.mp h), if_neg h]
    rfl

theorem directoriesOf_addDirectory (config : CompileConfig) (block : Block) (entry : List Char)
    (kind : Kind) :
    directoriesOf (addDirectory config block entry) kind =
      (directoriesOf config kind).insertAll
        ((ofKind? kind (entryOf block entry)).toList.map Path.ofString) := by
  rw [addDirectory, before?_eq, entryOf]
  by_cases hframework : frameworkMarker <:+ entry
  · rw [if_pos hframework, if_pos hframework]
    cases kind <;> rfl
  · rw [if_neg hframework, if_neg hframework]
    by_cases hblock : block = .system <;> cases kind <;> simp [hblock] <;> rfl

theorem parse_space (text : List Char) :
    Define.parse [' '] text = ⟨String.ofList (text.takeWhile (· ≠ ' ')),
      if ' ' ∈ text then String.ofList (text.dropWhile (· ≠ ' ')).tail else "1"⟩ := by
  by_cases h : ' ' ∈ text
  · obtain ⟨before, after, rfl, hbefore⟩ := List.eq_append_cons_of_mem h
    have hname : ∀ c ∈ before, decide (c ≠ ' ') = true := by
      intro c hc
      simpa using fun he : c = ' ' => hbefore (he ▸ hc)
    have hcut : Text.splitAt? [' '] (before ++ ' ' :: after) = some (before, after) :=
      Text.splitAt?_append hbefore [] after
    rw [Define.parse, hcut, if_pos h, List.takeWhile_append_of_pos hname,
      List.dropWhile_append_of_pos hname]
    simp
  · have hcut : Text.splitAt? [' '] text = none := by
      refine Option.eq_none_iff_forall_ne_some.mpr fun found hfound => h ?_
      rw [Text.eq_append_of_splitAt? hfound]
      simp
    have hname : ∀ c ∈ text, decide (c ≠ ' ') = true := by
      intro c hc
      simpa using fun he : c = ' ' => h (he ▸ hc)
    rw [Define.parse, hcut, if_neg h, List.takeWhile_eq_self_iff.mpr hname]

theorem definition?_eq (line : String) : definition? line =
    (after? defineMarker line.toList).map fun rest => Define.parse [' '] (Text.trim rest) := by
  rw [definition?, after?_eq]
  by_cases h : DefinesMacro line
  · have hprefix : defineMarker <+: line.toList := h
    rw [if_pos h, if_pos hprefix, Option.map_some, parse_space]
  · have hprefix : ¬ defineMarker <+: line.toList := h
    rw [if_neg h, if_neg hprefix, Option.map_none]

namespace Reader

variable (r : Reader) (line : String)

theorem opened_of_isIndented {line : String} (h : IsIndented line) :
    Block.opened line = .outside := by
  have hmarker : ¬ includeMarker <+: line.toList := by
    rintro ⟨rest, he⟩
    rw [IsIndented, ← he, includeMarker_eq] at h
    simp at h
  have hsystem : ¬ includeMarker ++ ['<'] <+: line.toList :=
    fun hp => hmarker ((List.prefix_append _ _).trans hp)
  rw [Block.opened, if_neg hsystem, if_neg hmarker]

theorem feed_of_open (hr : r.block ≠ .outside) (h : IsIndented line) : r.feed line =
    { r with config := addDirectory r.config r.block (Text.trim line.toList) } := if_pos ⟨hr, h⟩

theorem after?_includeMarker (line : String) :
    (after? includeMarker line.toList).map
        (fun rest => if rest.head? = some '<' then Block.system else .user) =
      if includeMarker <+: line.toList then some (Block.opened line) else none := by
  rw [after?_eq]
  by_cases h : includeMarker <+: line.toList
  · obtain ⟨rest, he⟩ := h
    have hsystem : includeMarker ++ ['<'] <+: line.toList ↔ rest.head? = some '<' := by
      rw [← he, List.prefix_append_right_inj, List.singleton_prefix_iff_head?_eq_some]
    have hmarker : includeMarker <+: line.toList := ⟨rest, he⟩
    rw [if_pos hmarker, if_pos hmarker, Block.opened, if_pos hmarker]
    simp only [hsystem]
    rw [← he, List.drop_left, Option.map_some]
  · rw [if_neg h, if_neg h]
    rfl

theorem feed_of_not_open (h : ¬ (r.block ≠ .outside ∧ IsIndented line)) : r.feed line =
    ⟨((definition? line).map r.config.addDefine).getD r.config, Block.opened line⟩ := by
  have hfeed : r.feed line = readHeader r.config line.toList := if_neg h
  have hblock := after?_includeMarker line
  rw [hfeed, readHeader, definition?_eq]
  cases hi : after? includeMarker line.toList with
  | some rest =>
    have hmarker := after?_isSome hi
    have hnone : after? defineMarker line.toList = none :=
      after?_eq_none.mpr (not_definesMacro_of_include hmarker)
    rw [hi, if_pos hmarker, Option.map_some] at hblock
    simp [hnone, ← Option.some.inj hblock]
  | none =>
    have hmarker := after?_eq_none.mp hi
    have hsystem : ¬ includeMarker ++ ['<'] <+: line.toList :=
      fun hp => hmarker ((List.prefix_append _ _).trans hp)
    rw [Block.opened, if_neg hsystem, if_neg hmarker]
    cases after? defineMarker line.toList <;> rfl

theorem feed_block :
    (r.feed line).block = if IsIndented line then r.block else Block.opened line := by
  by_cases hopen : r.block ≠ .outside ∧ IsIndented line
  · rw [r.feed_of_open line hopen.1 hopen.2, if_pos hopen.2]
  · rw [r.feed_of_not_open line hopen]
    by_cases hi : IsIndented line
    · rw [if_pos hi, opened_of_isIndented hi]
      exact (Decidable.not_not.mp fun hr => hopen ⟨hr, hi⟩).symm
    · rw [if_neg hi]

theorem feed_directories (kind : Kind) :
    directoriesOf (r.feed line).config kind = (directoriesOf r.config kind).insertAll
      (((directory? r.block line).bind (ofKind? kind)).toList.map Path.ofString) := by
  by_cases hopen : r.block ≠ .outside ∧ IsIndented line
  · rw [r.feed_of_open line hopen.1 hopen.2, directory?, if_pos hopen.symm, Option.bind_some]
    exact directoriesOf_addDirectory _ _ _ _
  · rw [r.feed_of_not_open line hopen, directory?, if_neg (mt And.symm hopen)]
    cases definition? line <;> cases kind <;> rfl

theorem feed_defines : (r.feed line).config.defines =
    r.config.defines.insertAll ((definition? line).toList.map fun d => (d.key, d.value)) := by
  by_cases hopen : r.block ≠ .outside ∧ IsIndented line
  · have hnone : definition? line = none := if_neg (not_definesMacro_of_space hopen.2)
    rw [r.feed_of_open line hopen.1 hopen.2, (addDirectory_keeps _ _ _).1, hnone]
    rfl
  · rw [r.feed_of_not_open line hopen]
    cases definition? line <;> rfl

/-- A line changes nothing but directories and macros. -/
theorem withFound_feed : withFound r.config (r.feed line).config = (r.feed line).config := by
  by_cases hopen : r.block ≠ .outside ∧ IsIndented line
  · rw [r.feed_of_open line hopen.1 hopen.2, addDirectory]
    cases before? frameworkMarker (Text.trim line.toList) with
    | some dir => rfl
    | none => by_cases hblock : r.block = .system <;> simp [hblock] <;> rfl
  · rw [r.feed_of_not_open line hopen]
    cases definition? line <;> rfl

theorem feedAll_concat (lines : List String) :
    r.feedAll (lines ++ [line]) = (r.feedAll lines).feed line := by
  rw [feedAll, List.foldl_append]
  rfl

end Reader

section Report

variable (config : CompileConfig) (lines : List String)

theorem feedAll_block : (Reader.feedAll ⟨config, .outside⟩ lines).block = Block.after lines := by
  induction lines using List.reverseRecOn with
  | nil => rfl
  | append_singleton lines line ih =>
    rw [Reader.feedAll_concat, Reader.feed_block, ih, Block.after_concat]

theorem feedAll_directories (kind : Kind) :
    directoriesOf (Reader.feedAll ⟨config, .outside⟩ lines).config kind =
      (directoriesOf config kind).insertAll ((directories kind lines).map Path.ofString) := by
  induction lines using List.reverseRecOn with
  | nil => rfl
  | append_singleton lines line ih =>
    rw [Reader.feedAll_concat, Reader.feed_directories, ih, feedAll_block, directories_concat,
      List.map_append, PathSet.insertAll_append]

theorem feedAll_defines : (Reader.feedAll ⟨config, .outside⟩ lines).config.defines =
    config.defines.insertAll ((definitions lines).map fun d => (d.key, d.value)) := by
  induction lines using List.reverseRecOn with
  | nil => rfl
  | append_singleton lines line ih =>
    rw [Reader.feedAll_concat, Reader.feed_defines, ih, definitions_concat, List.map_append,
      Table.insertAll_append]

theorem withFound_feedAll : withFound config (Reader.feedAll ⟨config, .outside⟩ lines).config =
    (Reader.feedAll ⟨config, .outside⟩ lines).config := by
  induction lines using List.reverseRecOn with
  | nil => rfl
  | append_singleton lines line ih =>
    rw [Reader.feedAll_concat]
    generalize Reader.feedAll ⟨config, .outside⟩ lines = r at ih
    have hline := r.withFound_feed line
    rw [← ih] at hline
    exact hline

/-- Reading a report comes to what its lines stand for.  The directories of each kind are those
that were there and then those of the report, in the order of the lines, each in its first spelling.
A macro has the value that is given last, and macros stand in the order in which they first came.
Nothing else changes, and after every line the list that is open is told by the lines so far. -/
theorem read_positions :
    (∀ kind, (directoriesOf (read lines config) kind).paths =
      (firsts ((directoriesOf config kind).toStrings ++ directories kind lines)).map
        Path.ofString) ∧
    (∀ name, (read lines config).defines.get? name =
      (((definitions lines).filter fun d => d.key = name).getLast?.map Define.value).or
        (config.defines.get? name)) ∧
    (read lines config).defines.keys =
      (config.defines.keys ++ (definitions lines).map Define.key).eraseDups ∧
    withFound config (read lines config) = read lines config ∧
    ∀ n, (Reader.feedAll ⟨config, .outside⟩ (lines.take n)).block = Block.after (lines.take n) := by
  refine ⟨fun kind => ?_, fun name => ?_, ?_, withFound_feedAll config lines,
    fun n => feedAll_block config (lines.take n)⟩
  · rw [read, feedAll_directories]
    exact (PathSet.holds_toStrings _).insertAll _
  · rw [read, feedAll_defines, Table.get?_insertAll, List.filter_map, List.getLast?_map,
      Option.map_map]
    rfl
  · rw [read, feedAll_defines, Table.keys_insertAll, List.map_map]
    rfl

example : directories .system ["#include \"...\" search starts here:", " /a",
    "#include <...> search starts here:", " /usr/include", " /L (framework directory)",
    "End of search list.", " /b"] = ["/usr/include"] := by decide

end Report

end CompilerReport
end MachTree
