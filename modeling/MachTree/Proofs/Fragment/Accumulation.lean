import Mathlib.Data.List.Basic
import MachTree.Proofs.Fragment.Value
import MachTree.Proofs.Shell.Words

/-! Values that are added to a variable line by line.  Cut into words, what has come together is the
words of the values one after the other. -/
namespace MachTree
namespace Fragment

variable {lines : List (List Char)}

/-- The assignments that set a variable to a value and then add others to it. -/
def accumulation (key v : String) (vs : List String) : List Assignment :=
  ⟨key, v, .set⟩ :: vs.map fun u => ⟨key, u, .append⟩

/-- Adding to an empty value keeps no space before what is added; the words are the same. -/
theorem words_result (key : String) {previous value : String} {xs ys : List String}
    (hp : Shell.words previous = .ok xs) (hv : Shell.words value = .ok ys) :
    Shell.words ((⟨key, value, .append⟩ : Assignment).result (some previous)) =
      .ok (xs ++ ys) := by
  by_cases he : previous = ""
  · subst he
    obtain rfl : [] = xs := Except.ok.inj hp
    simpa [Assignment.result] using hv
  · simpa [Assignment.result, he] using Shell.words_append_space hp hv

theorem result_eq_empty {key previous value : String} :
    (⟨key, value, .append⟩ : Assignment).result (some previous) = "" ↔
      previous = "" ∧ value = "" := by
  by_cases he : previous = ""
  · simp [Assignment.result, he]
  · simp [Assignment.result, he]

theorem valueAfter_appends (key : String) {previous : String} {vs : List String}
    {xs : List String} {split : String → List String} (hp : Shell.words previous = .ok xs)
    (hvs : ∀ u ∈ vs, Shell.words u = .ok (split u)) :
    ∃ value, valueAfter (some previous) (vs.map fun u => ⟨key, u, .append⟩) = some value ∧
      Shell.words value = .ok (xs ++ vs.flatMap split) ∧
      (value = "" ↔ previous = "" ∧ ∀ u ∈ vs, u = "") := by
  induction vs generalizing previous xs with
  | nil => exact ⟨previous, rfl, by simpa using hp, by simp⟩
  | cons u vs ih =>
    have hu := words_result key hp (hvs u (by simp))
    obtain ⟨value, hvalue, hwords, hempty⟩ := ih hu fun w hw => hvs w (by simp [hw])
    refine ⟨value, hvalue, by simpa using hwords, ?_⟩
    rw [hempty, result_eq_empty]
    simp [and_assoc]

/-- The lines of an accumulation are read as such, whatever lines about other variables stand
between them. -/
theorem assignmentsTo_of_filter {key v : String} {vs : List String} (hkey : IsName key)
    (htrimmed : ∀ u ∈ v :: vs, trimmed u = u)
    (hlines : lines.filter (assigns key) = (accumulation key v vs).map Assignment.line) :
    assignmentsTo key lines = accumulation key v vs := by
  have hread : ∀ a ∈ accumulation key v vs, assignment? a.line = some a := by
    intro a ha
    rcases List.mem_cons.mp ha with rfl | ha
    · exact assignment?_line hkey (htrimmed v (by simp))
    · obtain ⟨u, hu, rfl⟩ := List.mem_map.mp ha
      exact assignment?_line hkey (htrimmed u (by simp [hu]))
  rw [assignmentsTo_eq_filter, hlines, List.filterMap_map]
  calc (accumulation key v vs).filterMap (assignment? ∘ Assignment.line)
      = (accumulation key v vs).filterMap some := List.filterMap_congr hread
    _ = accumulation key v vs := List.filterMap_some

theorem valueAfter_accumulation (key : String) {v : String} {vs : List String}
    {split : String → List String} (hsplit : ∀ u ∈ v :: vs, Shell.words u = .ok (split u))
    (hne : ∃ u ∈ v :: vs, u ≠ "") :
    ∃ value, valueAfter none (accumulation key v vs) = some value ∧ value ≠ "" ∧
      Shell.words value = .ok ((v :: vs).flatMap split) := by
  obtain ⟨value, hvalue, hwords, hempty⟩ :=
    valueAfter_appends key (hsplit v (by simp)) fun u hu => hsplit u (List.mem_cons_of_mem v hu)
  refine ⟨value, hvalue, ?_, by simpa using hwords⟩
  intro he
  obtain ⟨u, hu, hu'⟩ := hne
  obtain ⟨hv, hvs⟩ := hempty.mp he
  rcases List.mem_cons.mp hu with rfl | hu
  · exact hu' hv
  · exact hu' (hvs u hu)

end Fragment
end MachTree
