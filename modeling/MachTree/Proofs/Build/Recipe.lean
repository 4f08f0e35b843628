import MachTree.Proofs.Build.Compilers
import MachTree.Proofs.Build.TestCompile
import MachTree.Proofs.Files.Lookup
import MachTree.Proofs.Fragment.Value

/-! What a source resolves to.  Of all the files only the fragment of the source's directory counts,
and of the fragment only the flags of the source's language. -/
namespace MachTree

open Activity

variable {host : Host} {j : Journal}

theorem Files.leadsTo_error {files : Files} {cwd p : Path} {kind : Node → Bool} {n : NameTooLong}
    (h : files.leadsTo cwd p kind = .error n) : n.path = p := by
  rw [leadsTo] at h
  by_cases hnull : p.hasNull = true
  · simp [hnull] at h
  · simp only [hnull, Bool.false_eq_true, if_false] at h
    split at h
    · cases h
    · obtain rfl := Except.error.inj h
      rfl
    · cases h

namespace Fragment

variable {path : Path} {lines : List (List Char)}

def linesOf? (host : Host) (j : Journal) (path : Path) : Option (List (List Char)) :=
  match host.files.isFile host.cwd path with
  | .ok true => (Utf8.decode (bytesAt host j path)).toOption.map Text.lines
  | _ => none

def assignmentsIn? (host : Host) (j : Journal) (path : Path) (key : String) :
    Option (List Assignment) :=
  (linesOf? host j path).map (assignmentsTo key)

/-- That the path of a fragment has a name in it that no file can have. -/
def TooLong (host : Host) (path : Path) : Prop :=
  ∃ n, host.files.isFile host.cwd path = .error n

theorem reads_of_linesOf? (h : linesOf? host j path = some lines) :
    Reads host j path (lines.foldl applyLine ∅) := by
  rw [linesOf?] at h
  split at h
  · rename_i hfile
    obtain ⟨cs, hcs, rfl⟩ := Option.map_eq_some_iff.mp h
    refine ⟨hfile, cs, ?_, by rw [parse, Text.lines_unifyNewlines]⟩
    cases hd : Utf8.decode (bytesAt host j path) with
    | ok cs' =>
      rw [hd] at hcs
      exact congrArg Except.ok (Option.some.inj hcs)
    | error reason =>
      rw [hd] at hcs
      cases hcs
  · cases h

theorem unreadable_of_linesOf? (h : linesOf? host j path = none) (hn : ¬ TooLong host path) :
    Unreadable host j path := by
  rw [linesOf?] at h
  rcases hfile : host.files.isFile host.cwd path with n | isFile
  · exact absurd ⟨n, hfile⟩ hn
  · cases isFile with
    | false => exact .missing hfile
    | true =>
      cases hd : Utf8.decode (bytesAt host j path) with
      | ok cs => simp [hfile, hd, Except.toOption] at h
      | error reason => exact .undecodable hfile hd

theorem perform_load_of_linesOf? (h : linesOf? host j path = some lines) :
    (load path ∅).perform host j = (.ok (lines.foldl applyLine ∅), j ++ [note path]) :=
  perform_load_of_reads (reads_of_linesOf? h)

theorem perform_load_of_unreadable (h : linesOf? host j path = none) (hn : ¬ TooLong host path) :
    ∃ e, (load path ∅).perform host j = (.error (.failed e), j ++ [note path]) := by
  have hrun := loadRun_perform host j path
  generalize (load path ∅).perform host j = run at hrun
  obtain ⟨r, j'⟩ := run
  cases hrun with
  | name hfile => exact absurd ⟨_, hfile⟩ hn
  | unreadable hu => exact ⟨_, rfl⟩
  | reads hr => exact absurd (unreadable_of_linesOf? h hn) hr.not_unreadable

theorem perform_load_of_tooLong (h : TooLong host path) :
    (load path ∅).perform host j = (.error (.fault (.nameTooLong path)), j ++ [note path]) := by
  obtain ⟨n, hn⟩ := h
  obtain rfl := Files.leadsTo_error hn
  exact perform_load_of_error hn

theorem linesOf?_of_reach? {bytes : List UInt8} {executable : Bool}
    {branches : List (Component × Files.Tree)} {cs : List Char} (j : Journal)
    (hlog : host.log = none) (hp : path.IsPlain)
    (hfile : host.files.root.reach? path.parts = some (.mk (.file bytes executable) branches))
    (hcs : Utf8.decode bytes = .ok cs) : linesOf? host j path = some (Text.lines cs) := by
  have hisFile : host.files.isFile host.cwd path = .ok true :=
    Files.isFile_of_reach? hp hfile (by simp [Files.Tree.node]) _
  have hbytes : bytesAt host j path = bytes := by
    rw [bytesAt, Host.filesAfter, hlog, Files.read?_of_reach? hp hfile]
    rfl
  rw [linesOf?, hisFile, hbytes, hcs]
  rfl

end Fragment

namespace Build

variable {b : Build} {source fragment : Path} {language : Language} {lines : List (List Char)}

theorem perform_directoryVariables_of_linesOf? (ε : Type) (source : Path)
    (h : Fragment.linesOf? host j fragment = some lines) :
    (directoryVariables source fragment : Activity ε _).perform host j =
      (.ok (some (lines.foldl Fragment.applyLine ∅)), j ++ [Fragment.note fragment]) := by
  rw [directoryVariables, perform_handle,
    perform_bind_of_ok (Fragment.perform_load_of_linesOf? h)]
  rfl

theorem perform_directoryVariables_of_unreadable (ε : Type) (source : Path)
    (h : Fragment.linesOf? host j fragment = none) (hn : ¬ Fragment.TooLong host fragment) :
    ∃ j', (directoryVariables source fragment : Activity ε _).perform host j = (.ok none, j') := by
  obtain ⟨e, he⟩ := Fragment.perform_load_of_unreadable h hn
  rw [directoryVariables, perform_handle, perform_bind_of_error he]
  exact ⟨_, rfl⟩

theorem perform_directoryVariables_of_tooLong (ε : Type) (source : Path)
    (h : Fragment.TooLong host fragment) :
    (directoryVariables source fragment : Activity ε _).perform host j =
      (.error (.fault (.nameTooLong fragment)), j ++ [Fragment.note fragment]) := by
  rw [directoryVariables, perform_handle,
    perform_bind_of_error (Fragment.perform_load_of_tooLong h)]

/-- The flags that assignments to their variable come to, unless they are empty. -/
def flagsAfter? (as : List Fragment.Assignment) : Option String :=
  (Fragment.valueAfter none as).filter fun s => s ≠ ""

theorem filled?_foldl_applyLine (name : String) (lines : List (List Char)) :
    filled? (lines.foldl Fragment.applyLine ∅) name =
      flagsAfter? (Fragment.assignmentsTo name lines) := by
  rw [filled?, Fragment.get?_foldl_applyLine]
  rfl

/-- What the flags of a language in a fragment resolve to. -/
def resolved (b : Build) (platform : Platform) (language : Language) (fragment : Path) :
    Option String → Except (Halt Shell.SplitError) (Option CompileConfig)
  | none => .ok none
  | some flags =>
    match Shell.words flags with
    | .ok args => .ok (some (b.configure platform { language, args, objdir := fragment.parent }))
    | .error e => .error (.failed e)

/-- Flags give a configuration or cannot be cut into words; reading them is never a fault. -/
theorem resolved_ne_fault (platform : Platform) (fragment : Path) (flags : Option String)
    (f : Fault) : b.resolved platform language fragment flags ≠ .error (.fault f) := by
  cases flags with
  | none => simp [resolved]
  | some flags => cases hw : Shell.words flags <;> simp [resolved, hw]

/-- That the place of a source can be told, and the language of what is there. -/
structure HasLanguage (host : Host) (j : Journal) (source : Path) (language : Option Language) :
    Prop where
  placed : ¬ Adrift host source
  typed : (language? (Path.absolute host.cwd source) : Activity Shell.SplitError _).perform
    host j = (.ok language, j)

theorem hasLanguage_of_suffix (j : Journal) {language : Option Language}
    (hd : ¬ Adrift host source) (hheader : (Path.absolute host.cwd source).suffix ≠ ".h")
    (hsuffix : languageOfSuffix? (Path.absolute host.cwd source).suffix = language) :
    HasLanguage host j source language := by
  refine ⟨hd, ?_⟩
  rw [language?, if_neg hheader, hsuffix]
  rfl

theorem resolve_eq_recipe? (hd : ¬ Adrift host source) :
    ((b.resolve source).perform host j).1 =
      ((b.recipe? (Path.absolute host.cwd source)).perform host j).1.map
        (Option.map (b.configure host.platform)) := by
  rw [resolve, perform_bind_of_ok (perform_absolute_of_not_adrift hd),
    perform_bind_of_ok perform_host, perform_bind]
  rcases (b.recipe? (Path.absolute host.cwd source)).perform host j with ⟨e | r, j'⟩ <;> rfl

theorem resolve_of_no_language (h : HasLanguage host j source none) :
    ((b.resolve source).perform host j).1 = .ok none := by
  rw [resolve_eq_recipe? h.placed, recipe?, perform_bind_of_ok h.typed]
  rfl

theorem perform_locateFragment (ε : Type) (hf : b.fragmentOf host.platform source = .ok fragment) :
    (b.locateFragment source : Activity ε _).perform host j = (.ok (some fragment), j) := by
  rw [locateFragment, perform_bind_of_ok perform_host, hf]
  rfl

theorem perform_locateFragment_of_error (ε : Type) (j : Journal) {e : Path.NotBelow}
    (hf : b.fragmentOf host.platform source = .error e) :
    ∃ j', (b.locateFragment source : Activity ε _).perform host j = (.ok none, j') := by
  rw [locateFragment, perform_bind_of_ok perform_host, hf]
  exact ⟨_, rfl⟩

section Typed

variable (h : HasLanguage host j source (some language))
include h

theorem resolve_of_outside {e : Path.NotBelow}
    (hf : b.fragmentOf host.platform (Path.absolute host.cwd source) = .error e) :
    ((b.resolve source).perform host j).1 = .ok none := by
  obtain ⟨j', hlocate⟩ := perform_locateFragment_of_error Shell.SplitError j hf
  rw [resolve_eq_recipe? h.placed, recipe?, perform_bind_of_ok h.typed]
  simp only [perform_bind_of_ok hlocate]
  rfl

variable (hf : b.fragmentOf host.platform (Path.absolute host.cwd source) = .ok fragment)
include hf

theorem resolve_of_linesOf? (hlines : Fragment.linesOf? host j fragment = some lines) :
    ((b.resolve source).perform host j).1 =
      b.resolved host.platform language fragment
        (flagsAfter? (Fragment.assignmentsTo (flagsVariable language) lines)) := by
  rw [resolve_eq_recipe? h.placed, recipe?, perform_bind_of_ok h.typed]
  simp only [perform_bind_of_ok (perform_locateFragment _ hf),
    perform_bind_of_ok (perform_directoryVariables_of_linesOf? _ _ hlines),
    filled?_foldl_applyLine]
  cases flagsAfter? (Fragment.assignmentsTo (flagsVariable language) lines) with
  | none => rfl
  | some flags =>
    cases hw : Shell.words flags with
    | error e =>
      simp only [hw, perform_bind_of_error (perform_ofExcept_error id e), resolved]
      rfl
    | ok args =>
      simp only [hw, perform_bind_of_ok (perform_ofExcept_ok id args), resolved]
      rfl

theorem resolve_of_unreadable (hno : Fragment.linesOf? host j fragment = none)
    (hn : ¬ Fragment.TooLong host fragment) : ((b.resolve source).perform host j).1 = .ok none := by
  obtain ⟨j', hvars⟩ := perform_directoryVariables_of_unreadable Shell.SplitError
    (Path.absolute host.cwd source) hno hn
  rw [resolve_eq_recipe? h.placed, recipe?, perform_bind_of_ok h.typed]
  simp only [perform_bind_of_ok (perform_locateFragment _ hf), perform_bind_of_ok hvars]
  rfl

/-- All that counts for a source is what the flags of its language are assigned in its fragment. -/
theorem resolve_of_not_tooLong (hn : ¬ Fragment.TooLong host fragment) :
    ((b.resolve source).perform host j).1 =
      b.resolved host.platform language fragment
        ((Fragment.assignmentsIn? host j fragment (flagsVariable language)).bind flagsAfter?) := by
  rw [Fragment.assignmentsIn?]
  cases hlines : Fragment.linesOf? host j fragment with
  | none => exact resolve_of_unreadable h hf hlines hn
  | some lines => exact resolve_of_linesOf? h hf hlines

/-- A name that no file can have is not taken for a fragment that cannot be read. -/
theorem resolve_of_tooLong (hn : Fragment.TooLong host fragment) :
    ((b.resolve source).perform host j).1 = .error (.fault (.nameTooLong fragment)) := by
  rw [resolve_eq_recipe? h.placed, recipe?, perform_bind_of_ok h.typed]
  simp only [perform_bind_of_ok (perform_locateFragment _ hf),
    perform_bind_of_error (perform_directoryVariables_of_tooLong _ _ hn)]
  rfl

end Typed

end Build
end MachTree
