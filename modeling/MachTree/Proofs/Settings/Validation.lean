import MachTree.Proofs.Checks
import MachTree.Proofs.Settings.Load

/-! Settings that have been checked.  A check cuts the commands of all sections into words, so no
command that is looked up later can fail; and what is read from a file has been checked. -/
namespace MachTree
namespace Settings

variable {s : Settings} {ini : Ini} {sects : List String} {sect option : String}

theorem mem_keys (key : Key) : key ∈ keys := by
  rcases key with _ | (_ | _) <;> decide

theorem validate_eq_ok_iff : s.validate = .ok () ↔
    ∀ sect ∈ s.ini.sectionNames, givesCommands sect = true →
      ∀ key : Key, ∃ command, sectionCommand s.ini sect key.option = .ok command := by
  have hcut (sect : String) (key : Key) :
      (sectionCommand s.ini sect key.option).map (fun _ => ()) = .ok () ↔
        ∃ command, sectionCommand s.ini sect key.option = .ok command := by
    cases sectionCommand s.ini sect key.option <;> simp [Except.map]
  simp only [validate, forM_eq_ok, List.mem_filter, and_imp, hcut]
  exact forall₃_congr fun sect _ _ => ⟨fun h key => h key (mem_keys key), fun h key _ => h key⟩

section Load

variable {host : Host} {j j' : Journal} {root : Path}

theorem validate_of_check (h : (check root ini).perform host j = (.ok s, j')) :
    s.validate = .ok () := by
  rw [perform_check] at h
  cases hv : ({ root, ini } : Settings).validate with
  | error e => simp [hv] at h
  | ok =>
    obtain ⟨rfl, -⟩ : { root, ini } = s ∧ j = j' := by simpa [hv] using h
    exact hv

theorem validate_of_load {file : Option Path}
    (h : (load root file).perform host j = (.ok s, j')) : s.validate = .ok () := by
  rw [load, Activity.perform_bind_eq_ok] at h
  obtain ⟨isFile, j₁, -, h⟩ := h
  cases isFile with
  | false =>
    have h : (check root {}).perform host j₁ = (.ok s, j') := h
    exact validate_of_check h
  | true =>
    rw [if_pos rfl, Activity.perform_bind_eq_ok] at h
    obtain ⟨bytes, j₂, -, h⟩ := h
    rcases hb : ofBytes (.file (filePath root file)) bytes with (reason | reason) | ini
    · simp only [hb] at h
      cases h
    · simp only [hb] at h
      cases h
    · simp only [hb] at h
      have h : (check root ini).perform host j₂ = (.ok s, j') := h
      exact validate_of_check h

end Load

theorem exists_firstCommand (h : ∀ sect ∈ sects, ∃ c, sectionCommand ini sect option = .ok c) :
    ∃ c, firstCommand ini option sects = .ok c := by
  induction sects with
  | nil => exact ⟨none, rfl⟩
  | cons sect sects ih =>
    obtain ⟨c, hc⟩ := h sect (by simp)
    have hrest := ih fun t ht => h t (List.mem_cons_of_mem _ ht)
    rcases c with _ | (_ | ⟨word, more⟩) <;> simp [firstCommand, hc, hrest]

theorem firstCommand_ne_nil (ini : Ini) (option : String) (sects : List String) :
    firstCommand ini option sects ≠ .ok (some []) := by
  induction sects with
  | nil => simp [firstCommand]
  | cons sect sects ih =>
    rcases hc : sectionCommand ini sect option with e | (_ | (_ | ⟨word, more⟩)) <;>
      simp [firstCommand, hc, ih]

theorem command?_ne_nil (s : Settings) (option : String) (path : Option Path) :
    s.command? option path ≠ .ok (some []) := firstCommand_ne_nil _ _ _

theorem snd_of_scope? {path : Path} {scope : Nat × String}
    (h : s.scope? path sect = some scope) : scope.2 = sect := by
  rw [scope?, Option.bind_eq_some_iff] at h
  obtain ⟨dir, -, h⟩ := h
  split at h
  · rw [← Option.some.inj h]
  · cases h

theorem mem_sectionsFor {path : Path} : sect ∈ s.sectionsFor (some path) ↔
    (sect ∈ s.ini.sectionNames ∧ (s.scope? path sect).isSome = true) ∨
      (sect = baseSection ∧ s.ini.hasSection baseSection = true) := by
  simp only [sectionsFor, List.mem_append, List.mem_map, List.mem_mergeSort, List.mem_filterMap]
  refine or_congr ⟨?_, ?_⟩ ?_
  · rintro ⟨scope, ⟨name, hname, hscope⟩, rfl⟩
    rw [snd_of_scope? hscope]
    exact ⟨hname, by rw [hscope]; rfl⟩
  · rintro ⟨hname, hscope⟩
    obtain ⟨scope, hscope⟩ := Option.isSome_iff_exists.mp hscope
    exact ⟨scope, ⟨sect, hname, hscope⟩, snd_of_scope? hscope⟩
  · split <;> simp_all

theorem givesCommands_of_scope? {path : Path} (h : (s.scope? path sect).isSome = true) :
    givesCommands sect = true := by
  cases hd : directoryText? sect with
  | none => simp [scope?, directory?, hd] at h
  | some text => simp [givesCommands, hd]

theorem mem_sectionNames_of_hasSection (h : ini.hasSection sect = true) :
    sect ∈ ini.sectionNames := by
  rw [Ini.hasSection, Table.contains, Table.get?, Option.isSome_map, List.find?_isSome] at h
  obtain ⟨entry, hmem, hkey⟩ := h
  exact List.mem_map.mpr ⟨entry, hmem, by simpa using hkey⟩

theorem exists_command?_of_validate (h : s.validate = .ok ()) (key : Key) (path : Path) :
    ∃ command, s.command? key.option (some path) = .ok command := by
  refine exists_firstCommand fun sect hsect => ?_
  rw [validate_eq_ok_iff] at h
  rcases mem_sectionsFor.mp hsect with ⟨hname, hscope⟩ | ⟨rfl, hbase⟩
  · exact h sect hname (givesCommands_of_scope? hscope) key
  · exact h baseSection (mem_sectionNames_of_hasSection hbase) rfl key

end Settings
end MachTree
