import MachTree.Path.Normal
import MachTree.Proofs.Path.Text

/-! The normal form of a path, read off its text piece by piece.  A piece between slashes is left
out where it is empty or a single dot, and `..` takes the piece before it away.  The pieces that
are kept are the components that the path is climbed with, so that it is the same whether a text or
the path that is read from it is brought into normal form. -/
namespace MachTree
namespace Text

def upwards : List Char := ['.', '.']

/-- Takes one more piece onto the reversed pieces kept so far. -/
def keepPiece (rooted : Bool) (kept : List (List Char)) (piece : List Char) : List (List Char) :=
  if piece = [] ∨ piece = ['.'] then kept
  else if piece ≠ upwards ∨ (rooted = false ∧ kept = []) ∨ kept.head? = some upwards then
    piece :: kept
  else kept.tail

/-- The normal form of a text with slashes; where nothing is left there is a dot. -/
def normalPath (cs : List Char) : List Char :=
  let start := (Anchor.ofText cs).text
  let pieces := ((splitOn '/' cs).foldl (keepPiece (start ≠ [])) []).reverse
  if start = [] ∧ pieces = [] then ['.'] else start ++ joinWith '/' pieces

end Text

def normalText (s : String) : String := String.ofList (Text.normalPath s.toList)

namespace Component

def chars (c : Component) : List Char := c.val.toList

theorem chars_up : up.chars = Text.upwards := rfl

theorem chars_eq_upwards_iff {c : Component} : c.chars = Text.upwards ↔ c = up := by
  rw [← chars_up, chars, chars, String.toList_inj, Subtype.ext_iff]

variable {piece : List Char}

theorem ofString?_of_left_out (h : piece = [] ∨ piece = ['.']) :
    ofString? (String.ofList piece) = none := by
  rcases h with rfl | rfl <;> decide

theorem ofString?_of_kept (hslash : '/' ∉ piece) (h : ¬ (piece = [] ∨ piece = ['.'])) :
    ∃ c, ofString? (String.ofList piece) = some c ∧ c.chars = piece := by
  have hpiece : IsComponent (String.ofList piece) := by
    refine ⟨fun he => h (.inl ?_), fun he => h (.inr ?_), by simpa using hslash⟩
    · simpa using congrArg String.toList he
    · simpa using congrArg String.toList he
  exact ⟨⟨_, hpiece⟩, by rw [ofString?, dif_pos hpiece], by simp [chars]⟩

end Component

namespace Path

open Component (chars)

theorem keepPiece_eq_climb (rooted : Bool) (read : List Component) (c : Component) :
    Text.keepPiece rooted (read.map chars) c.chars = (climb rooted read c).map chars := by
  have hkept : ¬ (c.chars = [] ∨ c.chars = ['.']) := by
    rintro (h | h)
    · exact c.property.1 (by simpa [chars] using h)
    · exact c.property.2.1 (by simpa [chars] using congrArg String.ofList h)
  rw [Text.keepPiece, if_neg hkept]
  by_cases hup : c = Component.up
  · subst hup
    cases read with
    | nil => cases rooted <;> simp [climb, Component.chars_up]
    | cons top below =>
      by_cases htop : top = Component.up <;>
        simp [climb, Component.chars_up, Component.chars_eq_upwards_iff, htop]
  · simp [climb, Component.chars_eq_upwards_iff, hup]

theorem foldl_keepPiece (rooted : Bool) {pieces : List (List Char)}
    (hslash : ∀ piece ∈ pieces, '/' ∉ piece) (read : List Component) :
    pieces.foldl (Text.keepPiece rooted) (read.map chars) =
      ((pieces.filterMap fun piece => Component.ofString? (String.ofList piece)).foldl
        (climb rooted) read).map chars := by
  induction pieces generalizing read with
  | nil => rfl
  | cons piece pieces ih =>
    have hrest := ih fun p hp => hslash p (List.mem_cons_of_mem _ hp)
    rw [List.foldl_cons, List.filterMap_cons]
    by_cases hout : piece = [] ∨ piece = ['.']
    · rw [Text.keepPiece, if_pos hout, hrest, Component.ofString?_of_left_out hout]
    · obtain ⟨c, hc, rfl⟩ := Component.ofString?_of_kept (hslash piece (by simp)) hout
      rw [keepPiece_eq_climb, hrest, hc, List.foldl_cons]

theorem text_eq_nil_iff {anchor : Anchor} : anchor.text = [] ↔ anchor = .relative := by
  cases anchor <;> simp [Anchor.text]

theorem text_normal_ofString (s : String) :
    (ofString s).normal.text = Text.normalPath s.toList := by
  have hrooted : (ofString s).isAbsolute = decide ((Anchor.ofText s.toList).text ≠ []) :=
    decide_eq_decide.mpr (not_congr text_eq_nil_iff).symm
  have hslash (piece : List Char) (h : piece ∈ Text.splitOn '/' s.toList) : '/' ∉ piece :=
    Text.not_mem_of_mem_splitOn h
  have hpieces := foldl_keepPiece (ofString s).isAbsolute hslash []
  rw [List.map_nil] at hpieces
  rw [Text.normalPath, ← hrooted, hpieces]
  simp only [text, normal, ofString, components, text_eq_nil_iff, List.reverse_eq_nil_iff,
    List.map_eq_nil_iff, ← List.map_reverse]
  rfl

end Path

theorem normalized_eq (s : String) : normalized s = normalText s := by
  rw [normalized, normalText, Path.toString, Path.text_normal_ofString]

theorem normalized_eq_iff {s t : String} :
    normalized s = normalized t ↔ (Path.ofString s).normal = (Path.ofString t).normal :=
  ⟨Path.toString_injective, congrArg Path.toString⟩

end MachTree
