import MachTree.Fragment

/-! The value that a fragment gives to a variable.  Only the lines that assign it count, in their
order; and a line that is written for an assignment is read as that assignment. -/
namespace MachTree

theorem Text.trim_eq_self {cs : List Char} (h : ∀ c ∈ cs, isBlank c = false) : trim cs = cs := by
  rw [trim, dropBlank_eq_self fun c hc => h c (List.mem_of_mem_head? hc),
    trimRight_eq_self fun c hc => h c (List.mem_of_mem_getLast? hc)]

theorem Text.length_le_of_append_eq {c : Char} {xs ys zs ws : List Char} (h : c ∉ xs)
    (he : xs ++ ys = zs ++ c :: ws) : xs.length ≤ zs.length := by
  rcases List.append_eq_append_iff.mp he with ⟨as, rfl, -⟩ | ⟨bs, rfl, hbs⟩
  · simp
  · cases bs with
    | nil => simp
    | cons b bs =>
      obtain ⟨rfl, -⟩ := List.cons.inj hbs
      exact absurd (by simp) h

namespace Fragment

variable {key : String} {lines : List (List Char)}

def assignmentsTo (key : String) (lines : List (List Char)) : List Assignment :=
  (lines.filterMap assignment?).filter fun a => a.key = key

def valueAfter (previous : Option String) (as : List Assignment) : Option String :=
  as.foldl (fun previous a => some (a.result previous)) previous

theorem assignmentsTo_cons (line : List Char) :
    assignmentsTo key (line :: lines) =
      match assignment? line with
      | some a => if a.key = key then a :: assignmentsTo key lines else assignmentsTo key lines
      | none => assignmentsTo key lines := by
  rw [assignmentsTo, List.filterMap_cons]
  cases assignment? line with
  | none => rfl
  | some a => by_cases ha : a.key = key <;> simp [assignmentsTo, ha]

/-- What lines do to a variable is what its own assignments do to it. -/
theorem get?_foldl_applyLine (key : String) (lines : List (List Char)) (vars : Variables) :
    (lines.foldl applyLine vars).get? key =
      valueAfter (vars.get? key) (assignmentsTo key lines) := by
  induction lines generalizing vars with
  | nil => rfl
  | cons line lines ih =>
    rw [List.foldl_cons, ih, assignmentsTo_cons, applyLine]
    cases ha : assignment? line with
    | none => rfl
    | some a =>
      by_cases hkey : a.key = key
      · subst hkey
        simp [Assignment.apply, valueAfter]
      · simp [Assignment.apply, hkey, Ne.symm hkey]

def assigns (key : String) (line : List Char) : Bool :=
  (assignment? line).any fun a => a.key = key

theorem assignmentsTo_eq_filter (key : String) (lines : List (List Char)) :
    assignmentsTo key lines = (lines.filter (assigns key)).filterMap assignment? := by
  induction lines with
  | nil => rfl
  | cons line lines ih =>
    rw [assignmentsTo_cons, List.filter_cons, ih]
    cases ha : assignment? line with
    | none => simp [assigns, ha]
    | some a => by_cases hkey : a.key = key <;> simp [assigns, ha, hkey]

def Mode.token : Mode → List Char
  | .set => setToken
  | .append => appendToken

def Assignment.line (a : Assignment) : List Char :=
  a.key.toList ++ a.mode.token ++ a.value.toList

/-- A name of a variable has no white space in it. -/
def IsName (key : String) : Prop := key ≠ "" ∧ ∀ c ∈ key.toList, Text.isBlank c = false

instance (key : String) : Decidable (IsName key) :=
  decidable_of_iff (key ≠ "" ∧ key.toList.all fun c => !Text.isBlank c) (by simp [IsName])

theorem IsName.space_not_mem (h : IsName key) : ' ' ∉ key.toList := by
  intro hspace
  exact absurd (h.2 ' ' hspace) (by decide)

theorem assign_of_trimmed (mode : Mode) {value : String} (hkey : IsName key)
    (hvalue : trimmed value = value) :
    assign mode (key.toList, value.toList) = ⟨key, value, mode⟩ := by
  have htrimmed : String.ofList (Text.trim value.toList) = value := hvalue
  simp [assign, Text.trim_eq_self hkey.2, htrimmed]

/-- Neither token is found in a line before the place that is behind the variable's name. -/
theorem length_le_of_splitAt? {token more before after rest : List Char} (hkey : IsName key)
    (htoken : token = ' ' :: more)
    (h : Text.splitAt? token (key.toList ++ rest) = some (before, after)) :
    key.toList.length ≤ before.length := by
  subst htoken
  have hcut : key.toList ++ rest = before ++ ' ' :: (more ++ after) := by
    simpa using Text.eq_append_of_splitAt? h
  exact Text.length_le_of_append_eq hkey.space_not_mem hcut

theorem assignment?_of_set {value : String} (hkey : IsName key) (hvalue : trimmed value = value) :
    assignment? (⟨key, value, .set⟩ : Assignment).line = some ⟨key, value, .set⟩ := by
  have hne : key.toList ≠ [] := by simpa using hkey.1
  have hline : (⟨key, value, .set⟩ : Assignment).line =
      key.toList ++ ' ' :: (['=', ' '] ++ value.toList) := by
    simp [Assignment.line, Mode.token, setToken]
  have hset : Text.splitAt? setToken (key.toList ++ ' ' :: (['=', ' '] ++ value.toList)) =
      some (key.toList, value.toList) := Text.splitAt?_append hkey.space_not_mem _ _
  have hassign := assign_of_trimmed .set hkey hvalue
  rw [hline, assignment?, hset]
  cases ha : sides? appendToken (key.toList ++ ' ' :: (['=', ' '] ++ value.toList)) with
  | none => simp [hne, hassign]
  | some added =>
    obtain ⟨before, after⟩ := added
    have hlength := length_le_of_splitAt? hkey rfl (Option.filter_eq_some_iff.mp ha).1
    simp [Nat.not_lt.mpr hlength, hne, hassign]

theorem assignment?_of_append {value : String} (hkey : IsName key)
    (hvalue : trimmed value = value) :
    assignment? (⟨key, value, .append⟩ : Assignment).line = some ⟨key, value, .append⟩ := by
  have hne : key.toList ≠ [] := by simpa using hkey.1
  have hline : (⟨key, value, .append⟩ : Assignment).line =
      key.toList ++ ' ' :: (['+', '=', ' '] ++ value.toList) := by
    simp [Assignment.line, Mode.token, appendToken]
  have hadd : sides? appendToken (key.toList ++ ' ' :: (['+', '=', ' '] ++ value.toList)) =
      some (key.toList, value.toList) := by
    have hcut : Text.splitAt? appendToken (key.toList ++ ' ' :: (['+', '=', ' '] ++ value.toList)) =
        some (key.toList, value.toList) := Text.splitAt?_append hkey.space_not_mem _ _
    rw [sides?, hcut]
    simp [hne]
  have hassign := assign_of_trimmed .append hkey hvalue
  rw [hline, assignment?, hadd]
  cases hs : Text.splitAt? setToken (key.toList ++ ' ' :: (['+', '=', ' '] ++ value.toList)) with
  | none => simp [hassign]
  | some given =>
    obtain ⟨before, after⟩ := given
    have hlength := length_le_of_splitAt? hkey rfl hs
    -- right behind the name stands the other token
    have hlt : key.toList.length < before.length := by
      refine Nat.lt_of_le_of_ne hlength fun he => ?_
      have happend := Text.eq_append_of_splitAt? hs
      rw [List.append_assoc] at happend
      have htail := (List.append_inj happend he).2
      simp [setToken] at htail
    simp [hlt, hassign]

theorem assignment?_line {a : Assignment} (hkey : IsName a.key)
    (hvalue : trimmed a.value = a.value) :
    assignment? a.line = some a := by
  obtain ⟨key, value, mode⟩ := a
  cases mode with
  | set => exact assignment?_of_set hkey hvalue
  | append => exact assignment?_of_append hkey hvalue

end Fragment
end MachTree
