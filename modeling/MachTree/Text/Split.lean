/-! Text cut at separators: at every occurrence of a character, or at the first occurrence of a
longer token. -/
namespace MachTree
namespace Text

/-- The pieces of a text between the separators, one more than there are separators. -/
def splitOn (sep : Char) : List Char → List (List Char)
  | [] => [[]]
  | c :: rest =>
    if c = sep then [] :: splitOn sep rest
    else match splitOn sep rest with
      | [] => [[c]]
      | piece :: more => (c :: piece) :: more

def joinWith (sep : Char) : List (List Char) → List Char
  | [] => []
  | [piece] => piece
  | piece :: more => piece ++ sep :: joinWith sep more

theorem splitOn_ne_nil (sep : Char) (cs : List Char) : splitOn sep cs ≠ [] := by
  cases cs with
  | nil => simp [splitOn]
  | cons c rest =>
    simp only [splitOn]
    split
    · simp
    · split <;> simp

theorem not_mem_of_mem_splitOn {sep : Char} {cs piece : List Char} (h : piece ∈ splitOn sep cs) :
    sep ∉ piece := by
  induction cs generalizing piece with
  | nil => simp_all [splitOn]
  | cons c rest ih =>
    simp only [splitOn] at h
    split at h
    · rcases List.mem_cons.mp h with rfl | h
      · simp
      · exact ih h
    · rename_i hc
      split at h
      · rcases List.mem_singleton.mp h with rfl
        simpa using Ne.symm hc
      · rename_i first more he
        rcases List.mem_cons.mp h with rfl | h
        · have : sep ∉ first := ih (by simp [he])
          simp [this, Ne.symm hc]
        · exact ih (by simp [he, h])

theorem joinWith_splitOn (sep : Char) (cs : List Char) : joinWith sep (splitOn sep cs) = cs := by
  induction cs with
  | nil => rfl
  | cons c rest ih =>
    simp only [splitOn]
    cases hs : splitOn sep rest with
    | nil => exact absurd hs (splitOn_ne_nil sep rest)
    | cons piece more =>
      rw [hs] at ih
      by_cases hc : c = sep
      · subst hc
        simp [joinWith, ih]
      · cases more with
        | nil => simp_all [joinWith]
        | cons second more => simp_all [joinWith]

theorem splitOn_append {sep : Char} {piece : List Char} (h : sep ∉ piece) (rest : List Char) :
    splitOn sep (piece ++ sep :: rest) = piece :: splitOn sep rest := by
  induction piece with
  | nil => simp [splitOn]
  | cons c piece ih =>
    simp only [List.mem_cons, not_or] at h
    simp [splitOn, Ne.symm h.1, ih h.2]

theorem splitOn_of_not_mem {sep : Char} {piece : List Char} (h : sep ∉ piece) :
    splitOn sep piece = [piece] := by
  induction piece with
  | nil => rfl
  | cons c piece ih =>
    simp only [List.mem_cons, not_or] at h
    simp [splitOn, Ne.symm h.1, ih h.2]

theorem splitOn_joinWith {sep : Char} {pieces : List (List Char)} (hne : pieces ≠ [])
    (h : ∀ piece ∈ pieces, sep ∉ piece) : splitOn sep (joinWith sep pieces) = pieces := by
  induction pieces with
  | nil => exact absurd rfl hne
  | cons piece more ih =>
    have hpiece : sep ∉ piece := h piece (by simp)
    cases more with
    | nil => exact splitOn_of_not_mem hpiece
    | cons second more =>
      rw [joinWith, splitOn_append hpiece, ih (by simp) fun p hp => h p (by simp [hp])]
      simp

/-- The text before and after the first occurrence of a token. -/
def splitAt? (token : List Char) : List Char → Option (List Char × List Char)
  | [] => if token = [] then some ([], []) else none
  | c :: rest =>
    if token.isPrefixOf (c :: rest) then some ([], (c :: rest).drop token.length)
    else (splitAt? token rest).map fun r => (c :: r.1, r.2)

theorem eq_append_of_splitAt? {token cs before after : List Char}
    (h : splitAt? token cs = some (before, after)) : cs = before ++ token ++ after := by
  induction cs generalizing before with
  | nil =>
    simp only [splitAt?] at h
    split at h <;> simp_all
  | cons c rest ih =>
    simp only [splitAt?] at h
    split at h
    · rename_i hp
      obtain ⟨more, hmore⟩ := List.isPrefixOf_iff_prefix.mp hp
      simp only [Option.some.injEq, Prod.mk.injEq] at h
      obtain ⟨rfl, rfl⟩ := h
      rw [← hmore]
      simp
    · obtain ⟨⟨b, a⟩, hr, he⟩ := Option.map_eq_some_iff.mp h
      simp only [Prod.mk.injEq] at he
      obtain ⟨rfl, rfl⟩ := he
      simp [ih hr]

/-- A token is found where it stands, if its first character stands nowhere before. -/
theorem splitAt?_append {c : Char} {before : List Char} (h : c ∉ before)
    (token after : List Char) :
    splitAt? (c :: token) (before ++ c :: (token ++ after)) = some (before, after) := by
  induction before with
  | nil => simp [splitAt?, List.isPrefixOf_iff_prefix]
  | cons b before ih =>
    simp only [List.mem_cons, not_or] at h
    simp [splitAt?, h.1, ih h.2]

end Text
end MachTree
