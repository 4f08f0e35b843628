import Mathlib.Data.List.Induction
import MachTree.Proofs.Registry.Threads

/-! What the history of a registry says of a tree: what setting it up has come to since it was last
forgotten, and what stands for it. -/
namespace MachTree
namespace Registry

namespace Mark

variable {τ : Type} {key : Path}

/-- The results of setting up a tree since it was last forgotten, with one more mark. -/
def tally (key : Path) (found : List (Stage × Option Build)) : Mark τ → List (Stage × Option Build)
  | probed _ k new => if k = key then found ++ [new] else found
  | forgot _ k => if k = key then [] else found
  | _ => found

/-- What is stored for a tree, with one more mark. -/
def settle (key : Path) (found : Option (Stage × Option Build)) :
    Mark τ → Option (Stage × Option Build)
  | stored _ k new => if k = key then some new else found
  | forgot _ k => if k = key then none else found
  | _ => found

/-- Whether a mark says that something has happened to a tree. -/
def Touches (key : Path) : Mark τ → Prop
  | probed _ k _ | stored _ k _ | forgot _ k => k = key
  | _ => False

theorem tally_of_not_touches {m : Mark τ} (h : ¬ m.Touches key)
    (found : List (Stage × Option Build)) : m.tally key found = found := by
  cases m <;> simp_all [Touches, tally]

theorem settle_of_not_touches {m : Mark τ} (h : ¬ m.Touches key)
    (found : Option (Stage × Option Build)) : m.settle key found = found := by
  cases m <;> simp_all [Touches, settle]

end Mark

section History

variable {τ : Type} {key : Path} {h h₁ h₂ : List (Mark τ)}

/-- The results of setting up a tree since it was last forgotten. -/
def setUps (key : Path) (h : List (Mark τ)) : List (Stage × Option Build) :=
  h.foldl (Mark.tally key) []

/-- What was stored last for a tree, unless it has been forgotten. -/
def standing (key : Path) (h : List (Mark τ)) : Option (Stage × Option Build) :=
  h.foldl (Mark.settle key) none

@[simp] theorem setUps_append_singleton (m : Mark τ) :
    setUps key (h ++ [m]) = m.tally key (setUps key h) := by
  simp [setUps, List.foldl_append]

@[simp] theorem standing_append_singleton (m : Mark τ) :
    standing key (h ++ [m]) = m.settle key (standing key h) := by
  simp [standing, List.foldl_append]

def Mark.Allowed (before : List (Mark τ)) : Mark τ → Prop
  | probed _ key _ => setUps key before = []
  | returned _ key b => ∃ stage, setUps key before = [(stage, b)]
  | told _ key stage => stage = ((standing key before).map Prod.fst).getD .unattempted
  | _ => True

/-- A history in which every mark is as it has to be. -/
def Lawful (h : List (Mark τ)) : Prop :=
  ∀ before m after, h = before ++ m :: after → m.Allowed before

theorem lawful_nil : Lawful ([] : List (Mark τ)) := by
  intro before m after h
  simp at h

theorem Lawful.append_singleton {m : Mark τ} (hh : Lawful h) (hm : m.Allowed h) :
    Lawful (h ++ [m]) := by
  intro before n after he
  rcases List.eq_nil_or_concat after with rfl | ⟨after, last, rfl⟩
  · obtain ⟨rfl, rfl⟩ : h = before ∧ m = n := by simpa using he
    exact hm
  · have he' : h ++ [m] = (before ++ n :: after) ++ [last] := by simpa using he
    exact hh before n after (List.append_inj_left' he' rfl)

theorem Lawful.left (hh : Lawful (h₁ ++ h₂)) : Lawful h₁ := by
  intro before m after he
  exact hh before m (after ++ h₂) (by simp [he])

def Mark.probed? (key : Path) : Mark τ → Option (Stage × Option Build)
  | probed _ k found => if k = key then some found else none
  | _ => none

/-- Whether a history has only just come to where a tree is forgotten, or to its start. -/
def Fresh (key : Path) (h : List (Mark τ)) : Prop :=
  h = [] ∨ ∃ before t, h = before ++ [.forgot t key]

theorem Fresh.setUps_eq (hf : Fresh key h) : setUps key h = [] := by
  rcases hf with rfl | ⟨before, t, rfl⟩
  · rfl
  · simp [Mark.tally]

theorem setUps_append (hn : ∀ t, .forgot t key ∉ h₂) :
    setUps key (h₁ ++ h₂) = setUps key h₁ ++ h₂.filterMap (Mark.probed? key) := by
  induction h₂ using List.reverseRecOn with
  | nil => simp
  | append_singleton h₂ m ih =>
    have hn' : ∀ t, .forgot t key ∉ h₂ := fun t hm => hn t (List.mem_append_left _ hm)
    have hm : ∀ t, m ≠ .forgot t key := by
      rintro t rfl
      exact hn t (by simp)
    rw [← List.append_assoc, setUps_append_singleton, ih hn', List.filterMap_append]
    cases m with
    | probed t k found => by_cases hk : k = key <;> simp [Mark.tally, Mark.probed?, hk]
    | forgot t k =>
      have hk : k ≠ key := by
        rintro rfl
        exact hm t rfl
      simp [Mark.tally, Mark.probed?, hk]
    | _ => simp [Mark.tally, Mark.probed?]

theorem Lawful.setUps_length_le (hh : Lawful h) : (setUps key h).length ≤ 1 := by
  induction h using List.reverseRecOn with
  | nil => simp [setUps]
  | append_singleton h m ih =>
    have hle := ih hh.left
    have hm := hh h m [] rfl
    rw [setUps_append_singleton]
    cases m with
    | probed t k found =>
      by_cases hk : k = key
      · subst hk
        have hnil : setUps k h = [] := hm
        simp [Mark.tally, hnil]
      · simpa [Mark.tally, hk] using hle
    | forgot t k => by_cases hk : k = key <;> simp [Mark.tally, hk, hle]
    | _ => exact hle

/-- What stands for a tree was stored for it, and nothing has happened to it since. -/
theorem exists_of_standing {found : Stage × Option Build} (hs : standing key h = some found) :
    ∃ before t after, h = before ++ .stored t key found :: after ∧
      (∀ u other, .stored u key other ∉ after) ∧ ∀ u, .forgot u key ∉ after := by
  -- from the last mark back to the first that tells what stands
  induction h using List.reverseRecOn with
  | nil => simp [standing] at hs
  | append_singleton h m ih =>
    rw [standing_append_singleton] at hs
    by_cases hm : ∃ t, m = .stored t key found
    · obtain ⟨t, rfl⟩ := hm
      exact ⟨h, t, [], by simp⟩
    · have hold : standing key h = some found := by
        cases m with
        | stored t k new =>
          by_cases hk : k = key
          · subst hk
            have hnew : new = found := by simpa [Mark.settle] using hs
            exact absurd ⟨t, by rw [hnew]⟩ hm
          · simpa [Mark.settle, hk] using hs
        | forgot t k => by_cases hk : k = key <;> simp_all [Mark.settle]
        | _ => exact hs
      obtain ⟨before, t, after, he, hstored, hforgot⟩ := ih hold
      refine ⟨before, t, after ++ [m], by simp [he], ?_, ?_⟩
      · rintro u other hmem
        rcases List.mem_append.mp hmem with hmem | hmem
        · exact hstored u other hmem
        · obtain rfl := List.mem_singleton.mp hmem
          have hnew : other = found := by simpa [Mark.settle] using hs
          exact hm ⟨u, by rw [hnew]⟩
      · rintro u hmem
        rcases List.mem_append.mp hmem with hmem | hmem
        · exact hforgot u hmem
        · obtain rfl := List.mem_singleton.mp hmem
          simp [Mark.settle] at hs

theorem forgot_of_standing_eq_none (hs : standing key h = none) {before after : List (Mark τ)}
    {t : τ} {found : Stage × Option Build} (he : h = before ++ .stored t key found :: after) :
    ∃ u, .forgot u key ∈ after := by
  induction after using List.reverseRecOn generalizing h with
  | nil => simp [he, Mark.settle] at hs
  | append_singleton after m ih =>
    have he' : h = (before ++ .stored t key found :: after) ++ [m] := by simp [he]
    by_cases hm : ∃ u, m = .forgot u key
    · obtain ⟨u, rfl⟩ := hm
      exact ⟨u, by simp⟩
    · have hold : standing key (before ++ .stored t key found :: after) = none := by
        rw [he', standing_append_singleton] at hs
        cases m with
        | stored u k new => by_cases hk : k = key <;> simp_all [Mark.settle]
        | forgot u k => by_cases hk : k = key <;> simp_all [Mark.settle]
        | _ => exact hs
      obtain ⟨u, hu⟩ := ih hold rfl
      exact ⟨u, List.mem_append_left _ hu⟩

end History
end Registry
end MachTree
