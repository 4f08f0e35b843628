import MachTree.Compiler.Family
import MachTree.Proofs.Flags.Meaning
import MachTree.Proofs.Path.Names
import MachTree.Proofs.Path.Normalization

/-! The place that an operand names under one flag and under another.  A path attached to the flag
of a directory and the same path after the flag of a forced include are one place, for all families,
platforms and base directories, save that a drive in the spelling of build tools is read by the
first flag alone. -/
namespace MachTree
namespace Platform

variable {text rest : List Char} {d : Char}

/-- A text for what is below a drive: the drive stands like a directory at the root, and the text
ends there or goes on after a slash.  A newline may be last in a text that ends. -/
inductive OnDrive : List Char → Char → List Char → Prop
  | bare {d : Char} (hd : d.isAlpha = true) : OnDrive ['/', d] d []
  | line {d : Char} (hd : d.isAlpha = true) : OnDrive ['/', d, '\n'] d ['\n']
  | below {d : Char} (hd : d.isAlpha = true) (rest : List Char) :
    OnDrive ('/' :: d :: '/' :: rest) d rest

theorem OnDrive.isAlpha (h : OnDrive text d rest) : d.isAlpha = true := by
  cases h with
  | bare hd | line hd | below hd => exact hd

theorem withDrive_of_onDrive (h : OnDrive text d rest) :
    withDrive text = d :: ':' :: '/' :: rest := by
  cases h with
  | bare hd | line hd | below hd => simp [withDrive, hd]

theorem withDrive_eq_self (h : ¬ ∃ d rest, OnDrive text d rest) : withDrive text = text := by
  unfold withDrive
  split
  · rename_i d rest
    split
    · rename_i hd
      split
      · exact absurd ⟨d, _, .bare hd⟩ h
      · exact absurd ⟨d, _, .below hd _⟩ h
      · exact absurd ⟨d, _, .line hd⟩ h
      · rfl
    · rfl
  · rfl

end Platform

namespace Flags

open Platform (OnDrive)

variable {dialect : Dialect} {platform : Platform} {text rest : List Char} {d : Char}

theorem parts_place (dialect : Dialect) (h : Anchor.ofText text = .relative) :
    ∃ front, (dialect.place text).parts = front ++ Path.components text := by
  have hread : Path.ofString (String.ofList text) = ⟨.relative, Path.components text⟩ := by
    rw [Path.ofString, String.toList_ofList, h]
  rw [Dialect.place, hread]
  cases dialect.baseDir with
  | none => exact ⟨[], rfl⟩
  | some dir => exact ⟨dir.parts, rfl⟩

theorem place_of_absolute (dialect : Dialect) (h : Anchor.ofText text ≠ .relative) :
    dialect.place text = Path.ofString (String.ofList text) := by
  have habs : (Path.ofString (String.ofList text)).isAbsolute = true := by
    simpa [Path.isAbsolute, Path.ofString] using h
  rw [Dialect.place]
  cases dialect.baseDir with
  | none => rfl
  | some dir => exact if_pos habs

theorem ne_of_isAlpha {c : Char} (hd : d.isAlpha = true) (hc : c.isAlpha = false) : d ≠ c := by
  rintro rfl
  rw [hd] at hc
  cases hc

theorem ofText_of_onDrive (h : OnDrive text d rest) : Anchor.ofText text = .root := by
  cases h with
  | bare hd | line hd | below hd => simp [Anchor.ofText, ne_of_isAlpha hd (c := '/') (by decide)]

section Names

variable (hd : d.isAlpha = true) (more : List Char) (hmore : '/' ∉ more)
include hd hmore

theorem components_of_letter :
    ∃ c : Component, c.chars = d :: more ∧ Path.components (d :: more) = [c] := by
  have hslash : '/' ∉ d :: more := by
    simp [(ne_of_isAlpha hd (c := '/') (by decide)).symm, hmore]
  have hkept : ¬ (d :: more = [] ∨ d :: more = ['.']) := by
    simp [ne_of_isAlpha hd (c := '.') (by decide)]
  obtain ⟨c, hc, hchars⟩ := Component.ofString?_of_kept hslash hkept
  refine ⟨c, hchars, ?_⟩
  rw [Path.components, Text.splitOn_of_not_mem hslash, List.filterMap_cons, hc, List.filterMap_nil]

theorem components_of_letter_below (rest : List Char) :
    ∃ c : Component, c.chars = d :: more ∧
      Path.components (d :: more ++ '/' :: rest) = c :: Path.components rest := by
  obtain ⟨c, hchars, hc⟩ := components_of_letter hd more hmore
  exact ⟨c, hchars, by rw [Path.components_append_slash, hc]; rfl⟩

end Names

/-- As a directory a drive is one name before the names below it.  A newline that is last is a name
below the drive, and as a directory it is of the drive's own name. -/
theorem components_of_onDrive (h : OnDrive text d rest) :
    (∃ c : Component, c.chars = [d] ∧ Path.components text = c :: Path.components rest) ∨
      (Path.components text).length = (Path.components rest).length := by
  cases h with
  | bare hd =>
    obtain ⟨c, hchars, hc⟩ := components_of_letter hd [] (by simp)
    exact .inl ⟨c, hchars, (Path.components_cons_slash [d]).trans hc⟩
  | line hd =>
    obtain ⟨c, -, hc⟩ := components_of_letter hd ['\n'] (by simp)
    have hline : (Path.components ['\n']).length = 1 := by decide
    exact .inr (by rw [Path.components_cons_slash, hc, hline]; rfl)
  | below hd =>
    obtain ⟨c, hchars, hc⟩ := components_of_letter_below hd [] (by simp) rest
    exact .inl ⟨c, hchars, (Path.components_cons_slash _).trans hc⟩

theorem place_drive_ne (dialect : Dialect) (h : OnDrive text d rest) :
    dialect.place (d :: ':' :: '/' :: rest) ≠ dialect.place text := by
  intro heq
  have hd : d.isAlpha = true := h.isAlpha
  obtain ⟨drive, hdrive, hbelow⟩ := components_of_letter_below hd [':'] (by simp) rest
  have hrelative : Anchor.ofText ([d, ':'] ++ '/' :: rest) = .relative := by
    simp [Anchor.ofText, ne_of_isAlpha hd (c := '/') (by decide)]
  obtain ⟨front, hfront⟩ := parts_place dialect hrelative
  rw [hbelow] at hfront
  have hroot : Anchor.ofText text ≠ .relative := by simp [ofText_of_onDrive h]
  have hparts : (dialect.place text).parts = Path.components text := by
    rw [place_of_absolute dialect hroot, Path.ofString, String.toList_ofList]
  rw [List.cons_append, List.cons_append, List.nil_append, heq, hparts] at hfront
  -- the names below the drive come last in both, so that what is before them would be the same
  rcases components_of_onDrive h with ⟨c, hc, htext⟩ | hlength
  · rw [htext, ← List.nil_append (c :: _)] at hfront
    obtain ⟨-, hsame⟩ := List.append_inj' hfront rfl
    have hname : c = drive := (List.cons.inj hsame).1
    rw [hname, hdrive] at hc
    simp at hc
  · have hlong := congrArg List.length hfront
    rw [List.length_append, List.length_cons] at hlong
    omega

theorem resolve_path_of_onDrive (dialect : Dialect) {operand : String}
    (h : OnDrive operand.toList d rest) :
    dialect.resolve (Platform.windows.path operand) = dialect.place (d :: ':' :: '/' :: rest) := by
  rw [Platform.path, Platform.withDrive_of_onDrive h, resolve_ofString]

theorem resolve_path_of_not_onDrive (dialect : Dialect) {operand : String}
    (h : ¬ (platform = .windows ∧ ∃ d rest, OnDrive operand.toList d rest)) :
    dialect.resolve (platform.path operand) = dialect.place operand.toList := by
  rw [← resolve_ofString, String.ofList_toList]
  by_cases hw : platform = .windows
  · have hdrive : ¬ ∃ d rest, OnDrive operand.toList d rest := fun hon => h ⟨hw, hon⟩
    rw [hw, Platform.path, Platform.withDrive_eq_self hdrive, String.ofList_toList]
  · rw [path_of_ne_windows hw]

theorem meaning_directory (dialect : Dialect) {flag operand : String} (hflag : flag ∈ ["-I", "/I"])
    (hne : operand ≠ "") :
    dialect.meaning (flag ++ operand) =
      .include (dialect.resolve (dialect.platform.path operand)) := by
  have htext : ∃ lead, (flag ++ operand).toList = lead :: 'I' :: operand.toList ∧
      (lead = '-' ∨ lead = '/') := by
    rw [String.toList_append]
    rcases List.mem_pair.mp hflag with rfl | rfl
    · exact ⟨'-', rfl, .inl rfl⟩
    · exact ⟨'/', rfl, .inr rfl⟩
  obtain ⟨lead, htext, hlead⟩ := htext
  have hstart : ¬ (lead ≠ '-' ∧ lead ≠ '/') := by tauto
  rw [Dialect.meaning, htext]
  simp [hstart, hne]

theorem forcedFlag_cases (family : Compiler.Family) :
    family.forcedFlag = "-include" ∨ family.forcedFlag = "-FI" := by
  cases family with
  | clang => exact .inl rfl
  | clangCl | msvc => exact .inr rfl

theorem meaning_forcedFlag (hflag : dialect.forcedFlag = "-include" ∨ dialect.forcedFlag = "-FI") :
    dialect.meaning dialect.forcedFlag = .forced := by
  obtain ⟨letter, more, hforced, hD, hI⟩ := forcedFlag_toList hflag
  rw [Dialect.meaning, hforced]
  simp [hD, hI]

/-- An operand names one place as a directory, attached to either flag, and one as the header after
the family's flag, wherever these arguments stand among others.  The header is the text as it is,
below the base directory if it is relative, and so is the directory, save where platforms have
drives: what is on a drive lies below the drive as a directory, and below a directory of the root
as a header. -/
theorem places_of_operand (platform : Platform) (family : Compiler.Family) (baseDir : Option Path)
    {operand : String} (hne : operand ≠ "") :
    let dialect : Dialect := { platform, forcedFlag := family.forcedFlag, baseDir }
    ∃ directory header : Path,
      (∀ flag ∈ ["-I", "/I"], ∀ front rest config, dialect.awaits front = false →
        apply dialect (front ++ (flag ++ operand) :: rest) config =
          apply dialect rest ((apply dialect front config).addInclude directory)) ∧
      (∀ front rest config, dialect.awaits front = false →
        apply dialect (front ++ family.forcedFlag :: operand :: rest) config =
          apply dialect rest ((apply dialect front config).addForcedInclude header)) ∧
      header = dialect.place operand.toList ∧
      (directory = header ↔ ¬ (platform = .windows ∧ ∃ d rest, OnDrive operand.toList d rest)) ∧
      ∀ d rest, platform = .windows → OnDrive operand.toList d rest →
        directory = dialect.place (d :: ':' :: '/' :: rest) := by
  intro dialect
  have hheader : dialect.resolve (Path.ofString operand) = dialect.place operand.toList := by
    rw [← resolve_ofString, String.ofList_toList]
  refine ⟨dialect.resolve (platform.path operand), dialect.resolve (Path.ofString operand),
    fun flag hflag front rest config hfront => ?_, fun front rest config hfront => ?_, hheader,
    ?_, fun d rest hw hon => ?_⟩
  · rw [apply_append hfront, apply_include (meaning_directory dialect hflag hne)]
  · rw [apply_append hfront, apply_forced (meaning_forcedFlag (forcedFlag_cases family))]
  · rw [hheader]
    constructor
    · rintro heq ⟨rfl, d, rest, hon⟩
      rw [resolve_path_of_onDrive dialect hon] at heq
      exact place_drive_ne dialect hon heq
    · exact resolve_path_of_not_onDrive dialect
  · rw [hw, resolve_path_of_onDrive dialect hon]

/-- A header on a drive, named as a directory and as a header. -/
theorem places_of_operand_drive :
    let dialect : Dialect := { platform := .windows, forcedFlag := "-FI", baseDir := none }
    let config : CompileConfig := { standard := "c++14", mode := "clang-x64" }
    "/c/obj/mozilla-config.h" ≠ "" ∧
    (apply dialect ["-I/c/obj/mozilla-config.h"] config).includes.toStrings =
      ["c:/obj/mozilla-config.h"] ∧
    (apply dialect ["-FI", "/c/obj/mozilla-config.h"] config).forcedIncludes.toStrings =
      ["/c/obj/mozilla-config.h"] := by
  intro dialect config
  have hne : "/c/obj/mozilla-config.h" ≠ "" := by decide
  obtain ⟨directory, header, hdirectory, hheader, hplain, -, hdrive⟩ :=
    places_of_operand .windows .clangCl none hne
  have hon : OnDrive "/c/obj/mozilla-config.h".toList 'c' "obj/mozilla-config.h".toList :=
    .below (by decide) _
  have hdirectoryPlace : directory = dialect.place "c:/obj/mozilla-config.h".toList :=
    hdrive _ _ rfl hon
  have hheaderPlace : header = dialect.place "/c/obj/mozilla-config.h".toList := hplain
  refine ⟨hne, ?_, ?_⟩
  · have hadded : apply dialect ["-I/c/obj/mozilla-config.h"] config =
        config.addInclude directory := hdirectory "-I" (by simp) [] [] config rfl
    rw [hadded, hdirectoryPlace]
    decide +kernel
  · have hadded : apply dialect ["-FI", "/c/obj/mozilla-config.h"] config =
        config.addForcedInclude header := hheader [] [] config rfl
    rw [hadded, hheaderPlace]
    decide +kernel

end Flags
end MachTree
