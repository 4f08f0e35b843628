import MachTree.Proofs.Path.Names
import MachTree.Proofs.Settings.Precedence
import MachTree.Proofs.Shell.Words
import MachTree.Proofs.Table

/-! Which section decides over a command.  Of the sections for the directories above a path, those
that leave the command blank are passed over, and of the others the one for the deepest directory
decides; the base section decides where none of them does.  The order in which the sections stand in
the text is of no account. -/
namespace MachTree
namespace Settings

variable {s : Settings} {ini ini' : Ini} {sect option value : String} {path dir dir' : Path}

/-- The value that a section gives for an option, unless it is blank. -/
def value? (ini : Ini) (sect option : String) : Option String :=
  ((ini.get? sect option).map trimmed).filter fun value => value ≠ ""

/-- What a value comes to when it is cut into words. -/
def cut (option sect value : String) : Except Error (Option (List String)) :=
  match Shell.words value with
  | .ok ws => .ok (some ws)
  | .error reason => .error (.command option sect reason)

/-- That a section is for a directory which a path is, or is below, name by name in normal form. -/
structure AppliesTo (s : Settings) (path : Path) (sect : String) (dir : Path) : Prop where
  named : sect ∈ s.ini.sectionNames
  directory : s.directory? sect = some dir
  above : dir.normal.parts <+: path.normal.parts

/-- That a section decides over an option for a path, with the value it gives. -/
inductive Decides (s : Settings) (option : String) (path : Path) : String → String → Prop
  /-- the other sections for the path that give a value are for directories less deep, or for the
  same one with a name that is no greater -/
  | directory {sect value : String} {dir : Path} : s.AppliesTo path sect dir →
      value? s.ini sect option = some value →
      (∀ other dir', s.AppliesTo path other dir' → (value? s.ini other option).isSome = true →
        dir'.normal.parts.length < dir.normal.parts.length ∨
          dir'.normal = dir.normal ∧ other ≤ sect) →
      Decides s option path sect value
  /-- no section for the path gives a value -/
  | base {value : String} : value? s.ini baseSection option = some value →
      (∀ other dir, s.AppliesTo path other dir → value? s.ini other option = none) →
      Decides s option path baseSection value

/-- That no section for a path gives a value for an option, and the base section neither. -/
def IsBlank (s : Settings) (option : String) (path : Path) : Prop :=
  (∀ sect dir, s.AppliesTo path sect dir → value? s.ini sect option = none) ∧
    value? s.ini baseSection option = none

theorem value?_of_get? {given : String} (h : ini.get? sect option = some given) :
    value? ini sect option = if trimmed given = "" then none else some (trimmed given) := by
  rw [value?, h, Option.map_some]
  by_cases hblank : trimmed given = "" <;> simp [Option.filter, hblank]

theorem sectionCommand_eq (ini : Ini) (sect option : String) :
    sectionCommand ini sect option =
      match value? ini sect option with
      | none => .ok none
      | some value => cut option sect value := by
  cases hget : ini.get? sect option with
  | none =>
    have hblank : trimmed ((none : Option String).getD "") = "" := by decide
    have hnone : value? ini sect option = none := by rw [value?, hget]; rfl
    simp only [sectionCommand, hget, hblank, if_pos, hnone]
  | some given =>
    rw [value?_of_get? hget]
    by_cases hblank : trimmed given = ""
    · simp only [sectionCommand, hget, Option.getD_some, hblank, if_pos]
    · cases hcut : Shell.words (trimmed given) <;>
        simp only [sectionCommand, hget, Option.getD_some, if_neg hblank, cut, hcut]

theorem value?_eq_some_iff : value? ini sect option = some value ↔
    ∃ given, ini.get? sect option = some given ∧ trimmed given ≠ "" ∧ value = trimmed given := by
  constructor
  · intro h
    obtain ⟨hmap, hne⟩ := Option.filter_eq_some_iff.mp h
    obtain ⟨given, hget, rfl⟩ := Option.map_eq_some_iff.mp hmap
    exact ⟨given, hget, by simpa using hne, rfl⟩
  · rintro ⟨given, hget, hne, rfl⟩
    rw [value?_of_get? hget, if_neg hne]

/-- The section that is asked, with its value, if it gives one. -/
def valued? (ini : Ini) (option sect : String) : Option (String × String) :=
  (value? ini sect option).map fun value => (sect, value)

theorem firstCommand_eq (ini : Ini) (option : String) (sects : List String) :
    firstCommand ini option sects =
      match sects.findSome? (valued? ini option) with
      | none => .ok none
      | some (sect, value) => cut option sect value := by
  induction sects with
  | nil => rfl
  | cons sect sects ih =>
    rw [firstCommand, sectionCommand_eq, List.findSome?_cons, valued?]
    cases hv : value? ini sect option with
    | none => exact ih
    | some value =>
      obtain ⟨given, -, hne, rfl⟩ := value?_eq_some_iff.mp hv
      have hwords := Shell.words_trimmed_ne_nil hne
      cases hcut : Shell.words (trimmed given) with
      | error e => simp only [Option.map_some, cut, hcut]
      | ok ws =>
        obtain ⟨word, more, rfl⟩ := List.exists_cons_of_ne_nil fun hnil => hwords (hnil ▸ hcut)
        simp only [Option.map_some, cut, hcut]

theorem valued?_eq_some_iff {asked : String} :
    valued? ini option asked = some (sect, value) ↔
      asked = sect ∧ value? ini sect option = some value := by
  rw [valued?, Option.map_eq_some_iff]
  constructor
  · rintro ⟨value, hv, he⟩
    obtain ⟨rfl, rfl⟩ := Prod.mk.inj he
    exact ⟨rfl, hv⟩
  · rintro ⟨rfl, hv⟩
    exact ⟨value, hv, rfl⟩

theorem value?_of_not_hasSection (h : ini.hasSection sect = false) :
    value? ini sect option = none := by
  have hnone : ini.sections.get? sect = none := by
    simpa [Ini.hasSection, Table.contains] using h
  rw [value?, Ini.get?, hnone]
  rfl

/-- In a list with an order, what is found first goes before all else that could be found. -/
theorem findSome?_eq_some_iff_of_pairwise {α β : Type} {le : α → α → Bool} {l : List α}
    {f : α → Option β} {b : β} (hrefl : ∀ x, le x x = true)
    (hanti : ∀ x y, le x y = true → le y x = true → x = y)
    (hl : l.Pairwise fun x y => le x y = true) :
    l.findSome? f = some b ↔
      ∃ x ∈ l, f x = some b ∧ ∀ y ∈ l, (f y).isSome = true → le x y = true := by
  constructor
  · intro h
    obtain ⟨before, x, after, rfl, hx, hnone⟩ := List.findSome?_eq_some_iff.mp h
    refine ⟨x, by simp, hx, fun y hy hsome => ?_⟩
    rcases List.mem_append.mp hy with hy | hy
    · simp [hnone y hy] at hsome
    · rcases List.mem_cons.mp hy with rfl | hy
      · exact hrefl y
      · exact List.rel_of_pairwise_cons (List.pairwise_append.mp hl).2.1 hy
  · rintro ⟨x, hmem, hx, hfirst⟩
    obtain ⟨before, after, rfl, hbefore⟩ := List.eq_append_cons_of_mem hmem
    refine List.findSome?_eq_some_iff.mpr ⟨before, x, after, rfl, hx, fun y hy => ?_⟩
    cases hfy : f y with
    | none => rfl
    | some c =>
      -- each would have to stand before the other, so they are one
      have hxy := hfirst y (List.mem_append_left _ hy) (by rw [hfy]; rfl)
      have hyx := (List.pairwise_append.mp hl).2.2 y hy x (by simp)
      exact absurd (hanti y x hyx hxy ▸ hy) hbefore

/-- That nothing that is compared starts with exactly two slashes, or is relative. -/
structure Rooted (s : Settings) (path : Path) : Prop where
  root : s.root.anchor = .root
  path : path.anchor = .root
  directories : ∀ sect ∈ s.ini.sectionNames, ∀ dir ∈ s.directory? sect, dir.anchor ≠ .doubleRoot

/-- The sections that hold for a path, deepest directory first. -/
def scopesFor (s : Settings) (path : Path) : List (Nat × String) :=
  (s.ini.sectionNames.filterMap (s.scope? path)).mergeSort goesBefore

theorem pairwise_scopesFor (s : Settings) (path : Path) :
    (s.scopesFor path).Pairwise fun a b => goesBefore a b = true :=
  List.pairwise_mergeSort goesBefore_trans goesBefore_total _

theorem findSome?_sectionsFor (s : Settings) (option : String) (path : Path) :
    (s.sectionsFor (some path)).findSome? (valued? s.ini option) =
      ((s.scopesFor path).findSome? (valued? s.ini option ∘ Prod.snd)).or
        (valued? s.ini option baseSection) := by
  have hsections : s.sectionsFor (some path) = (s.scopesFor path).map Prod.snd ++
      if s.ini.hasSection baseSection then [baseSection] else [] := rfl
  rw [hsections, List.findSome?_append, List.findSome?_map]
  cases hbase : s.ini.hasSection baseSection with
  | true => simp
  | false => simp [valued?, value?_of_not_hasSection hbase]

section Rooted

variable (h : s.Rooted path)
include h

theorem Rooted.anchor (hname : sect ∈ s.ini.sectionNames) (hdir : s.directory? sect = some dir) :
    dir.anchor = .root := by
  obtain ⟨text, -, rfl⟩ := Option.map_eq_some_iff.mp hdir
  have habsolute : (s.root.child (trimmed text)).isAbsolute = true := by
    rw [Path.child, Path.isAbsolute_append, Path.isAbsolute, h.root]
    rfl
  have hdouble := h.directories sect hname _ hdir
  cases hanchor : (s.root.child (trimmed text)).anchor with
  | relative => simp [Path.isAbsolute, hanchor] at habsolute
  | root => rfl
  | doubleRoot => exact absurd hanchor hdouble

theorem Rooted.mem_scopesFor {scope : Nat × String} :
    scope ∈ s.scopesFor path ↔
      ∃ dir, s.AppliesTo path scope.2 dir ∧ scope.1 = dir.normal.text.length := by
  rw [scopesFor, List.mem_mergeSort, List.mem_filterMap]
  constructor
  · rintro ⟨sect, hname, hscope⟩
    obtain ⟨dir, hdir, hwithin⟩ := Option.bind_eq_some_iff.mp hscope
    split at hwithin
    · rename_i hbelow
      obtain rfl := Option.some.inj hwithin
      exact ⟨dir, ⟨hname, hdir, (Path.isWithin_iff_parts h.path (h.anchor hname hdir)).mp hbelow⟩,
        rfl⟩
    · cases hwithin
  · rintro ⟨dir, ⟨hname, hdir, habove⟩, hlen⟩
    refine ⟨scope.2, hname, Option.bind_eq_some_iff.mpr ⟨dir, hdir, ?_⟩⟩
    rw [if_pos ((Path.isWithin_iff_parts h.path (h.anchor hname hdir)).mpr habove), ← hlen]

theorem Rooted.goesBefore_iff {other : String} (ha : s.AppliesTo path sect dir)
    (hb : s.AppliesTo path other dir') :
    goesBefore (dir.normal.text.length, sect) (dir'.normal.text.length, other) = true ↔
      dir'.normal.parts.length < dir.normal.parts.length ∨
        dir'.normal = dir.normal ∧ other ≤ sect := by
  have hanchor := h.anchor ha.named ha.directory
  have hanchor' := h.anchor hb.named hb.directory
  have hroot : dir.normal.anchor = .root := hanchor
  have hroot' : dir'.normal.anchor = .root := hanchor'
  simp only [goesBefore, Bool.or_eq_true, Bool.and_eq_true, Bool.not_eq_true', beq_iff_eq,
    decide_eq_true_eq, decide_eq_false_iff_not, String.not_lt, gt_iff_lt]
  rw [Path.length_text_lt_iff hroot' hroot hb.above ha.above,
    Path.length_text_eq_iff hroot hroot' ha.above hb.above, eq_comm]

theorem Rooted.mem_scopesFor_of_appliesTo (ha : s.AppliesTo path sect dir) :
    (dir.normal.text.length, sect) ∈ s.scopesFor path :=
  h.mem_scopesFor.mpr ⟨dir, ha, rfl⟩

theorem Rooted.exists_of_mem_scopesFor {scope : Nat × String} (hscope : scope ∈ s.scopesFor path) :
    ∃ dir, s.AppliesTo path scope.2 dir ∧ scope = (dir.normal.text.length, scope.2) := by
  obtain ⟨dir, hdir, hlen⟩ := h.mem_scopesFor.mp hscope
  exact ⟨dir, hdir, Prod.ext hlen rfl⟩

theorem Rooted.findSome?_eq_none_iff :
    (s.scopesFor path).findSome? (valued? s.ini option ∘ Prod.snd) = none ↔
      ∀ other dir, s.AppliesTo path other dir → value? s.ini other option = none := by
  simp only [List.findSome?_eq_none_iff, Function.comp_apply, valued?, Option.map_eq_none_iff]
  constructor
  · intro hall other dir hother
    exact hall _ (h.mem_scopesFor_of_appliesTo hother)
  · intro hall scope hscope
    obtain ⟨dir, hother, -⟩ := h.exists_of_mem_scopesFor hscope
    exact hall _ dir hother

theorem Rooted.findSome?_eq_some_iff :
    (s.scopesFor path).findSome? (valued? s.ini option ∘ Prod.snd) = some (sect, value) ↔
      ∃ dir, s.AppliesTo path sect dir ∧ value? s.ini sect option = some value ∧
        ∀ other dir', s.AppliesTo path other dir' → (value? s.ini other option).isSome = true →
          dir'.normal.parts.length < dir.normal.parts.length ∨
            dir'.normal = dir.normal ∧ other ≤ sect := by
  have hgives (other : String) : (valued? s.ini option other).isSome = true ↔
      (value? s.ini other option).isSome = true := by simp [valued?]
  rw [findSome?_eq_some_iff_of_pairwise (fun a => by simpa using goesBefore_total a a)
    (fun a b => goesBefore_antisymm) (pairwise_scopesFor s path)]
  simp only [Function.comp_apply, valued?_eq_some_iff, hgives]
  constructor
  · rintro ⟨scope, hscope, ⟨rfl, hvalue⟩, hfirst⟩
    obtain ⟨dir, hdir, heq⟩ := h.exists_of_mem_scopesFor hscope
    refine ⟨dir, hdir, hvalue, fun other dir' hother hsome => ?_⟩
    have hgoes := hfirst _ (h.mem_scopesFor_of_appliesTo hother) hsome
    rw [heq] at hgoes
    exact (h.goesBefore_iff hdir hother).mp hgoes
  · rintro ⟨dir, hdir, hvalue, hfirst⟩
    refine ⟨_, h.mem_scopesFor_of_appliesTo hdir, ⟨rfl, hvalue⟩, fun scope hscope hsome => ?_⟩
    obtain ⟨dir', hother, heq⟩ := h.exists_of_mem_scopesFor hscope
    rw [heq]
    exact (h.goesBefore_iff hdir hother).mpr (hfirst _ dir' hother hsome)

/-- The section that decides is the first of those asked that gives a value. -/
theorem Rooted.decides_iff : s.Decides option path sect value ↔
    (s.sectionsFor (some path)).findSome? (valued? s.ini option) = some (sect, value) := by
  rw [findSome?_sectionsFor, Option.or_eq_some_iff, h.findSome?_eq_some_iff,
    h.findSome?_eq_none_iff, valued?_eq_some_iff]
  constructor
  · rintro (⟨hdir, hvalue, hfirst⟩ | ⟨hvalue, hall⟩)
    · exact .inl ⟨_, hdir, hvalue, hfirst⟩
    · exact .inr ⟨hall, rfl, hvalue⟩
  · rintro (⟨dir, hdir, hvalue, hfirst⟩ | ⟨hall, rfl, hvalue⟩)
    · exact .directory hdir hvalue hfirst
    · exact .base hvalue hall

theorem Rooted.isBlank_iff : s.IsBlank option path ↔
    (s.sectionsFor (some path)).findSome? (valued? s.ini option) = none := by
  rw [findSome?_sectionsFor, Option.or_eq_none_iff, h.findSome?_eq_none_iff, valued?,
    Option.map_eq_none_iff, IsBlank]

end Rooted

theorem mergeSort_eq_of_perm {scopes scopes' : List (Nat × String)} (h : scopes.Perm scopes') :
    scopes.mergeSort goesBefore = scopes'.mergeSort goesBefore :=
  List.Perm.eq_of_pairwise (fun _ _ _ _ => goesBefore_antisymm)
    (List.pairwise_mergeSort goesBefore_trans goesBefore_total _)
    (List.pairwise_mergeSort goesBefore_trans goesBefore_total _)
    ((List.mergeSort_perm _ _).trans (h.trans (List.mergeSort_perm _ _).symm))

theorem firstCommand_congr (h : ∀ sect, ini.get? sect option = ini'.get? sect option)
    (sects : List String) : firstCommand ini option sects = firstCommand ini' option sects := by
  have hcommand (sect : String) :
      sectionCommand ini sect option = sectionCommand ini' sect option := by
    rw [sectionCommand, sectionCommand, h]
  induction sects with
  | nil => rfl
  | cons sect sects ih => rw [firstCommand, firstCommand, hcommand, ih]

section Order

variable {sections : Table String Ini.Options}

theorem sectionsFor_of_perm (h : sections.entries.Perm s.ini.sections.entries)
    (path : Option Path) :
    ({ s with ini := { s.ini with sections } } : Settings).sectionsFor path =
      s.sectionsFor path := by
  have hnames : sections.keys.Perm s.ini.sections.keys := h.map Prod.fst
  have hbase : sections.contains baseSection = s.ini.sections.contains baseSection := by
    rw [Table.contains, Table.contains, Table.get?_of_perm h]
  cases path with
  | none =>
    simp only [sectionsFor, Ini.hasSection, hbase]
    rfl
  | some path =>
    have hscopes := mergeSort_eq_of_perm (hnames.filterMap (s.scope? path))
    simp only [sectionsFor, Ini.hasSection, hbase, Ini.sectionNames]
    rw [← hscopes]
    rfl

/-- The order in which the sections stand does not change any command. -/
theorem command?_of_perm (h : sections.entries.Perm s.ini.sections.entries) (option : String)
    (path : Option Path) :
    ({ s with ini := { s.ini with sections } } : Settings).command? option path =
      s.command? option path := by
  rw [command?, command?, sectionsFor_of_perm h]
  refine firstCommand_congr (fun sect => ?_) _
  rw [Ini.get?, Ini.get?, Table.get?_of_perm h]

end Order

theorem cut_ne_none (option sect value : String) : cut option sect value ≠ .ok none := by
  rw [cut]
  cases Shell.words value <;> simp

/-- The command for a path is the value of the one section that decides, cut into words, and there
is none just when all sections for the path leave it blank.  In whatever order the sections stand in
the text, the command is the same. -/
theorem command?_precedence (h : s.Rooted path) (key : Key) :
    (∀ sect value, s.Decides key.option path sect value →
      s.command? key.option (some path) = cut key.option sect value) ∧
    ((∃ sect value, s.Decides key.option path sect value) ∨ s.IsBlank key.option path) ∧
    (s.command? key.option (some path) = .ok none ↔ s.IsBlank key.option path) ∧
    ∀ sections, sections.entries.Perm s.ini.sections.entries →
      ({ s with ini := { s.ini with sections } } : Settings).command? key.option (some path) =
        s.command? key.option (some path) := by
  have hdecides (sect value : String) (hd : s.Decides key.option path sect value) :
      s.command? key.option (some path) = cut key.option sect value := by
    rw [command?, firstCommand_eq, h.decides_iff.mp hd]
  refine ⟨hdecides, ?_, ?_, fun sections hperm => command?_of_perm hperm _ _⟩
  · cases hfirst : (s.sectionsFor (some path)).findSome? (valued? s.ini key.option) with
    | none => exact .inr (h.isBlank_iff.mpr hfirst)
    | some first => exact .inl ⟨first.1, first.2, h.decides_iff.mpr hfirst⟩
  · rw [h.isBlank_iff, command?, firstCommand_eq]
    split
    · simp [*]
    · simp [*, cut_ne_none]

/-- Two spellings of one directory, a blank section below it, and one for another directory. -/
def nested : Settings where
  root := Path.ofString "/src"
  ini := { sections := Table.ofList [
    ("mozcpp", Table.ofList [("mach", "./mach")]),
    ("mozcpp: dom/./base/.. ", Table.ofList [("mach", "outer mach")]),
    ("mozcpp:dom/base/canvas", Table.ofList [("mach", "never")]),
    ("mozcpp:dom", Table.ofList [("mach", "\nmach --dom")]),
    ("mozcpp:/src/dom/base", Table.ofList [("mach", " ")])] }

theorem rooted_nested : nested.Rooted (Path.ofString "/src/dom/base/E.cpp") := ⟨rfl, rfl, by decide⟩

theorem scopesFor_nested : nested.scopesFor (Path.ofString "/src/dom/base/E.cpp") =
    [(13, "mozcpp:/src/dom/base"), (8, "mozcpp:dom"), (8, "mozcpp: dom/./base/.. ")] := by
  have hscopes : nested.ini.sectionNames.filterMap
      (nested.scope? (Path.ofString "/src/dom/base/E.cpp")) =
        [(8, "mozcpp: dom/./base/.. "), (8, "mozcpp:dom"), (13, "mozcpp:/src/dom/base")] := by
    decide
  rw [scopesFor, hscopes, mergeSort_eq_of_perm (List.reverse_perm _).symm]
  exact List.mergeSort_of_pairwise (by decide)

/-- The section of the deepest directory is blank, so the greater name of the two next decides. -/
theorem command?_precedence_nested :
    nested.Rooted (Path.ofString "/src/dom/base/E.cpp") ∧
    nested.Decides Key.mach.option (Path.ofString "/src/dom/base/E.cpp") "mozcpp:dom" "mach --dom" ∧
    nested.command? Key.mach.option (some (Path.ofString "/src/dom/base/E.cpp")) =
      .ok (some ["mach", "--dom"]) := by
  have hdecides : nested.Decides Key.mach.option (Path.ofString "/src/dom/base/E.cpp") "mozcpp:dom"
      "mach --dom" := by
    rw [rooted_nested.decides_iff, findSome?_sectionsFor, scopesFor_nested]
    decide
  exact ⟨rooted_nested, hdecides,
    ((command?_precedence rooted_nested .mach).1 _ _ hdecides).trans (by decide)⟩

end Settings
end MachTree
