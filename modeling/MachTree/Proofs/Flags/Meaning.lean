import MachTree.Proofs.Flags.Operands

/-! What arguments stand for, told from their own texts.  A definition or a directory is attached to
a dash or a slash and one letter; a forced include is the operand of its flag.  What a list of
arguments stands for is what reading it makes of a configuration, and an argument that stands for
nothing may come in or go wherever no operand depends on it. -/
namespace MachTree

/-- The definition that a text gives: a name, and after the first equals sign a value, which is one
where there is no such sign. -/
def Define.ofText (text : List Char) : Define :=
  if '=' ∈ text then
    ⟨String.ofList (text.takeWhile (· ≠ '=')), String.ofList (text.dropWhile (· ≠ '=')).tail⟩
  else ⟨String.ofList text, "1"⟩

theorem Text.splitAt?_eq_none {c : Char} {text : List Char} (h : c ∉ text) (token : List Char) :
    splitAt? (c :: token) text = none := by
  cases hs : splitAt? (c :: token) text with
  | none => rfl
  | some sides =>
    obtain ⟨before, after⟩ := sides
    refine absurd ?_ h
    rw [eq_append_of_splitAt? hs]
    simp

theorem Define.parse_eq_ofText (text : List Char) : parse ['='] text = ofText text := by
  by_cases h : '=' ∈ text
  · obtain ⟨name, value, rfl, hname⟩ := List.eq_append_cons_of_mem h
    have hkept : ∀ c ∈ name, decide (c ≠ '=') = true :=
      fun c hc => decide_eq_true fun he => hname (he ▸ hc)
    rw [parse_append hname, ofText, if_pos h, List.takeWhile_append_of_pos hkept,
      List.dropWhile_append_of_pos hkept]
    simp
  · rw [ofText, if_neg h, parse, Text.splitAt?_eq_none h]

namespace Flags

variable {dialect : Dialect} {letter : Char} {arg : String}

/-- What is attached to a flag of a letter: all that follows a dash or a slash and the letter, if
there is more. -/
def attached? (letter : Char) (arg : String) : Option (List Char) :=
  if (['-', letter] <+: arg.toList ∨ ['/', letter] <+: arg.toList) ∧ 2 < arg.length then
    some (arg.toList.drop 2)
  else none

theorem attached?_cons_cons {lead c : Char} {rest : List Char}
    (harg : arg.toList = lead :: c :: rest) (letter : Char) :
    attached? letter arg =
      if (lead = '-' ∨ lead = '/') ∧ c = letter ∧ rest ≠ [] then some rest else none := by
  have hlength : arg.length = rest.length + 2 := by
    rw [← String.length_toList, harg]
    rfl
  have hcond : ((['-', letter] <+: arg.toList ∨ ['/', letter] <+: arg.toList) ∧ 2 < arg.length) ↔
      ((lead = '-' ∨ lead = '/') ∧ c = letter ∧ rest ≠ []) := by
    rw [harg, hlength]
    have hrest : 2 < rest.length + 2 ↔ rest ≠ [] := by
      rw [← List.length_pos_iff]
      omega
    simp only [List.cons_prefix_cons, List.nil_prefix, and_true, hrest, eq_comm (a := letter)]
    tauto
  rw [attached?]
  simp only [hcond]
  rw [harg]
  rfl

theorem attached?_of_length_lt (h : arg.length < 2) (letter : Char) : attached? letter arg = none :=
  if_neg fun hlong => by omega

theorem attached?_of_ne {text : List Char} (h : attached? letter arg = some text) {other : Char}
    (hne : other ≠ letter) : attached? other arg = none := by
  have hletter (c : Char) (hc : ['-', c] <+: arg.toList ∨ ['/', c] <+: arg.toList) :
      arg.toList[1]? = some c := by
    rcases hc with ⟨rest, hrest⟩ | ⟨rest, hrest⟩ <;> simp [← hrest]
  have hflag := (Option.ite_none_right_eq_some.mp h).1.1
  refine if_neg fun hother => hne ?_
  exact Option.some.inj ((hletter other hother.1).symm.trans (hletter letter hflag))

/-- A path as seen from the base directory, if there is one and the path is relative. -/
def Dialect.place (dialect : Dialect) (text : List Char) : Path :=
  let p := Path.ofString (String.ofList text)
  match dialect.baseDir with
  | some dir => if p.isAbsolute then p else ⟨dir.anchor, dir.parts ++ p.parts⟩
  | none => p

theorem resolve_ofString (dialect : Dialect) (text : List Char) :
    dialect.resolve (Path.ofString (String.ofList text)) = dialect.place text := by
  rw [Dialect.resolve, Dialect.place]
  cases dialect.baseDir <;> rfl

theorem path_of_ne_windows {platform : Platform} (h : platform ≠ .windows) (s : String) :
    platform.path s = Path.ofString s := by
  cases platform with
  | windows => exact absurd rfl h
  | generic => rfl
  | macOS => rfl

/-- What an argument says, told from its text. -/
def Dialect.said (dialect : Dialect) (arg : String) : Meaning :=
  if arg = dialect.forcedFlag then .forced
  else match attached? 'D' arg, attached? 'I' arg with
    | some text, _ => .define (Define.ofText text)
    | none, some text => .include (dialect.place text)
    | none, none => .nothing

section Said

variable (hplatform : dialect.platform ≠ .windows)
  (hflag : dialect.forcedFlag = "-include" ∨ dialect.forcedFlag = "-FI")
include hflag

theorem forcedFlag_toList : ∃ letter rest,
    dialect.forcedFlag.toList = '-' :: letter :: rest ∧ letter ≠ 'D' ∧ letter ≠ 'I' := by
  rcases hflag with h | h
  · exact ⟨'i', "nclude".toList, by rw [h]; decide, by decide, by decide⟩
  · exact ⟨'F', "I".toList, by rw [h]; decide, by decide, by decide⟩

theorem attached?_forcedFlag (h : letter = 'D' ∨ letter = 'I') :
    attached? letter dialect.forcedFlag = none := by
  obtain ⟨c, more, hforced, hD, hI⟩ := forcedFlag_toList hflag
  rw [attached?_cons_cons hforced, if_neg]
  rintro ⟨-, rfl, -⟩
  exact h.elim hD hI

include hplatform

theorem meaning_eq_said (arg : String) : dialect.meaning arg = dialect.said arg := by
  obtain ⟨letter, more, hforced, hD, hI⟩ := forcedFlag_toList hflag
  rw [Dialect.said, Dialect.meaning]
  rcases harg : arg.toList with _ | ⟨lead, _ | ⟨c, rest⟩⟩
  case nil | cons.nil =>
    have hshort : arg.length < 2 := by simp [← String.length_toList, harg]
    have hne : arg ≠ dialect.forcedFlag := by
      rintro rfl
      simp [hforced] at harg
    simp [attached?_of_length_lt hshort, hne]
  case cons.cons =>
    rw [attached?_cons_cons harg, attached?_cons_cons harg]
    have hforcedFlag (h : arg = dialect.forcedFlag) : lead = '-' ∧ c = letter := by
      rw [h, hforced, List.cons.injEq, List.cons.injEq] at harg
      exact ⟨harg.1.symm, harg.2.1.symm⟩
    by_cases hlead : lead = '-' ∨ lead = '/'
    · have hstart : ¬ (lead ≠ '-' ∧ lead ≠ '/') := by tauto
      by_cases hcD : c = 'D'
      · have hne : arg ≠ dialect.forcedFlag := fun h => hD (hcD ▸ (hforcedFlag h).2.symm)
        by_cases hrest : rest = [] <;>
          simp [hlead, hstart, hcD, hrest, hne, Define.parse_eq_ofText]
      · by_cases hcI : c = 'I'
        · have hne : arg ≠ dialect.forcedFlag := fun h => hI (hcI ▸ (hforcedFlag h).2.symm)
          by_cases hrest : rest = [] <;>
            simp [hlead, hstart, hcI, hrest, hne, path_of_ne_windows hplatform, resolve_ofString]
        · simp [hstart, hcD, hcI]
    · have hstart : lead ≠ '-' ∧ lead ≠ '/' := by tauto
      have hne : arg ≠ dialect.forcedFlag := fun h => hstart.1 (hforcedFlag h).1
      simp [hstart, hne]

theorem takesOperand_eq : dialect.takesOperand = (· == dialect.forcedFlag) := by
  funext arg
  rw [Dialect.takesOperand, meaning_eq_said hplatform hflag, Dialect.said]
  by_cases harg : arg = dialect.forcedFlag
  · simp [harg]
  · cases attached? 'D' arg <;> cases attached? 'I' arg <;> simp [harg]

theorem defined?_eq (arg : String) :
    dialect.defined? arg = (attached? 'D' arg).map Define.ofText := by
  rw [Dialect.defined?, meaning_eq_said hplatform hflag, Dialect.said]
  by_cases harg : arg = dialect.forcedFlag
  · simp [harg, attached?_forcedFlag hflag]
  · cases attached? 'D' arg <;> cases attached? 'I' arg <;> simp [harg]

theorem added?_eq (arg : String) :
    dialect.added? arg = (attached? 'I' arg).map dialect.place := by
  rw [Dialect.added?, meaning_eq_said hplatform hflag, Dialect.said]
  by_cases harg : arg = dialect.forcedFlag
  · simp [harg, attached?_forcedFlag hflag]
  · cases hD : attached? 'D' arg with
    | none => cases attached? 'I' arg <;> simp [harg]
    | some text =>
      have hI : attached? 'I' arg = none := attached?_of_ne hD (by decide)
      simp [harg, hI]

end Said

/-- What is attached to the flags of a letter, where they are no operands. -/
def attachments (flag : String) (letter : Char) (args : List String) : List (List Char) :=
  (nonOperands (· == flag) args).filterMap (attached? letter)

theorem isOperand_append {takes : String → Bool} {front : List String} {n : Nat}
    (h : n ≤ front.length) (rest : List String) :
    isOperand takes (front ++ rest) n = isOperand takes front n := by
  induction n with
  | zero => rfl
  | succ n ih => rw [isOperand, ih (by omega), List.getElem?_append_left (by omega), ← isOperand]

/-- The argument behind a list is an operand just when the list ends with a flag that waits. -/
theorem isOperand_length (dialect : Dialect) (front : List String) :
    isOperand dialect.takesOperand front front.length = dialect.awaits front := by
  fun_induction Dialect.awaits dialect front with
  | case1 => rfl
  | case2 arg hf => simp [isOperand, takesOperand_eq_true_iff.mpr hf]
  | case3 arg hf operand rest ih =>
    rw [← ih]
    exact isOperand_cons_cons (takesOperand_eq_true_iff.mpr hf) operand rest rest.length
  | case4 arg rest hf ih =>
    rw [← ih]
    have htakes : dialect.takesOperand arg = false := by
      simpa using mt takesOperand_eq_true_iff.mp hf
    exact isOperand_cons htakes rest rest.length

section Lists

variable (hplatform : dialect.platform ≠ .windows)
  (hflag : dialect.forcedFlag = "-include" ∨ dialect.forcedFlag = "-FI")
include hplatform hflag

theorem definitions_eq (args : List String) :
    dialect.definitions args = (attachments dialect.forcedFlag 'D' args).map Define.ofText := by
  rw [Dialect.definitions, takesOperand_eq hplatform hflag,
    funext (defined?_eq hplatform hflag), attachments, List.map_filterMap]

theorem directories_eq (args : List String) :
    dialect.directories args = (attachments dialect.forcedFlag 'I' args).map dialect.place := by
  rw [Dialect.directories, takesOperand_eq hplatform hflag, funext (added?_eq hplatform hflag),
    attachments, List.map_filterMap]

theorem headers_eq (args : List String) :
    dialect.headers args =
      (operands (· == dialect.forcedFlag) args).map fun operand =>
        dialect.place operand.toList := by
  rw [Dialect.headers, takesOperand_eq hplatform hflag]
  refine List.map_congr_left fun operand _ => ?_
  rw [← resolve_ofString, String.ofList_toList]

/-- An argument that stands for nothing may come in or go where it is no operand and the argument
after it is none either. -/
theorem apply_insert {front : List String} (hD : attached? 'D' arg = none)
    (hI : attached? 'I' arg = none) (rest : List String)
    (harg : isOperand (· == dialect.forcedFlag) (front ++ arg :: rest) front.length = false)
    (hnext : rest = [] ∨
      isOperand (· == dialect.forcedFlag) (front ++ arg :: rest) (front.length + 1) = false)
    (config : CompileConfig) :
    apply dialect (front ++ arg :: rest) config = apply dialect (front ++ rest) config := by
  have hawaits : dialect.awaits front = false := by
    rw [← isOperand_length, takesOperand_eq hplatform hflag,
      ← isOperand_append (Nat.le_refl _), harg]
  rw [apply_append hawaits, apply_append hawaits]
  by_cases hforced : arg = dialect.forcedFlag
  · -- it would take the next argument for its operand, so it has to be the last one
    have hend : rest = [] := by
      refine hnext.resolve_right fun hfree => ?_
      rw [isOperand, harg, List.getElem?_append_right (Nat.le_refl _)] at hfree
      simp [hforced] at hfree
    have hmeaning : dialect.meaning arg = .forced := by
      rw [meaning_eq_said hplatform hflag, Dialect.said, if_pos hforced]
    rw [hend, apply.eq_def]
    simp only [hmeaning]
    rfl
  · have hmeaning : dialect.meaning arg = .nothing := by
      rw [meaning_eq_said hplatform hflag, Dialect.said, if_neg hforced, hD, hI]
    rw [apply_nothing hmeaning]

end Lists

/-- Applying arguments comes to what they stand for by their places and texts.  A macro has the
value of the last definition of its name, and macros stand in the order in which they first came.
The user's directories and the forced includes are those that were there and then those of the
arguments, each in its first spelling, a relative one below the base directory; a forced include is
an operand, so that a flag at the end gives none.  Nothing else changes, and an argument that has
nothing attached to it may come in or go wherever neither it nor the next one is an operand. -/
theorem apply_by_position (hplatform : dialect.platform ≠ .windows)
    (hflag : dialect.forcedFlag = "-include" ∨ dialect.forcedFlag = "-FI")
    (args : List String) (config : CompileConfig) :
    let macros := (attachments dialect.forcedFlag 'D' args).map Define.ofText
    let directories := (attachments dialect.forcedFlag 'I' args).map dialect.place
    let headers := (operands (· == dialect.forcedFlag) args).map fun operand =>
      dialect.place operand.toList
    let after := apply dialect args config
    (∀ name, after.defines.get? name =
      ((macros.filter fun d => d.key = name).getLast?.map Define.value).or
        (config.defines.get? name)) ∧
    after.defines.keys = (config.defines.keys ++ macros.map Define.key).eraseDups ∧
    after.includes.paths =
      (firsts (config.includes.toStrings ++ directories.map Path.toString)).map Path.ofString ∧
    after.forcedIncludes.paths =
      (firsts (config.forcedIncludes.toStrings ++ headers.map Path.toString)).map
        Path.ofString ∧
    after = { config with
      defines := after.defines
      includes := after.includes
      forcedIncludes := after.forcedIncludes } ∧
    ∀ front arg rest, attached? 'D' arg = none → attached? 'I' arg = none →
      isOperand (· == dialect.forcedFlag) (front ++ arg :: rest) front.length = false →
      (rest = [] ∨ isOperand (· == dialect.forcedFlag) (front ++ arg :: rest)
        (front.length + 1) = false) →
      apply dialect (front ++ arg :: rest) config = apply dialect (front ++ rest) config := by
  intro macros directories headers after
  have hafter : after = extend config macros directories headers := by
    show apply dialect args config = _
    rw [apply_eq_extend, definitions_eq hplatform hflag, directories_eq hplatform hflag,
      headers_eq hplatform hflag]
  rw [hafter]
  refine ⟨fun name => ?_, ?_, PathSet.paths_insertAll_eq_firsts _ _,
    PathSet.paths_insertAll_eq_firsts _ _, rfl, fun front arg rest hD hI harg hnext =>
    apply_insert hplatform hflag hD hI rest harg hnext config⟩
  · rw [extend, Table.get?_insertAll, List.filter_map, List.getLast?_map, Option.map_map]
    rfl
  · rw [extend, Table.keys_insertAll, List.map_map]
    rfl

/-- Flags that are operands, a flag at the end, and definitions and directories that come again. -/
theorem apply_by_position_operands :
    let dialect : Dialect :=
      { platform := .macOS, forcedFlag := "-include", baseDir := some (.ofString "/obj/d") }
    let config : CompileConfig :=
      { standard := "c++14", mode := "clang-x64"
        includes := .ofList [.ofString "/obj/./x/../d/inc"]
        defines := .ofList [("B", "0"), ("X", "9")] }
    let args := ["-include", "-include", "-DX", "-include", "-DY=2", "/DX=a=b", "-DZ", "-D", "-I",
      "-Iinc", "/I/abs", "-I../../abs/.", "-FI", "-include"]
    (dialect.platform ≠ .windows ∧
      (dialect.forcedFlag = "-include" ∨ dialect.forcedFlag = "-FI")) ∧
    (apply dialect args config).defines.get? "X" = some "a=b" ∧
    (apply dialect args config).defines.keys = ["B", "X", "Z"] ∧
    (apply dialect args config).includes.paths =
      [.ofString "/obj/x/../d/inc", .ofString "/abs"] ∧
    (apply dialect args config).forcedIncludes.paths =
      [.ofString "/obj/d/-include", .ofString "/obj/d/-DY=2"] ∧
    apply dialect ["-include", "-DX", "-O2", "-DX"] config =
      apply dialect ["-include", "-DX", "-DX"] config := by
  intro dialect config args
  have hplatform : dialect.platform ≠ .windows := by decide
  obtain ⟨hvalue, hkeys, hincludes, hheaders, -, hinsert⟩ :=
    apply_by_position hplatform (.inl rfl) args config
  refine ⟨⟨hplatform, .inl rfl⟩, ?_, ?_, ?_, ?_, ?_⟩
  · rw [hvalue]
    decide +kernel
  · rw [hkeys]
    decide +kernel
  · rw [hincludes]
    decide +kernel
  · rw [hheaders]
    decide +kernel
  · exact hinsert ["-include", "-DX"] "-O2" ["-DX"] (by decide) (by decide) (by decide)
      (.inr (by decide))

end Flags
end MachTree
