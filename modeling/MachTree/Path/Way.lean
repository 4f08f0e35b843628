import MachTree.Path.Basic

/-! Ways: a text with slashes step by step, with nothing left out.  A path forgets the slashes and
dots that carry no meaning in it; on a way they still ask for a directory. -/
namespace MachTree

inductive Step
  /-- what stands between two slashes, or after the last -/
  | nothing
  | stay
  | up
  | enter (name : Component)
deriving DecidableEq

namespace Step

def ofText (cs : List Char) : Step :=
  match Component.ofString? (String.ofList cs) with
  | some c => if c = Component.up then .up else .enter c
  | none => if cs = [] then .nothing else .stay

def text : Step → List Char
  | .nothing => []
  | .stay => ['.']
  | .up => ['.', '.']
  | .enter c => c.val.toList

theorem text_ofText {cs : List Char} (h : '/' ∉ cs) : (ofText cs).text = cs := by
  unfold ofText
  split
  · rename_i c hc
    have hval : c.val = String.ofList cs := by
      simp only [Component.ofString?] at hc
      split at hc
      · simpa using (congrArg Subtype.val (Option.some.inj hc)).symm
      · simp at hc
    split
    · rename_i hup
      have : String.ofList cs = ".." := by rw [← hval, hup]; rfl
      have : cs = "..".toList := by rw [← this]; simp
      simp [text, this]
    · simp [text, hval]
  · rename_i hc
    have hnot : ¬ IsComponent (String.ofList cs) := by
      intro hi
      simp [Component.ofString?, hi] at hc
    split
    · rename_i he
      simp [text, he]
    · rename_i he
      have hdot : String.ofList cs = "." := by
        refine Decidable.byContradiction fun hd => hnot ⟨fun he' => he ?_, hd, by simpa using h⟩
        have : cs = "".toList := by rw [← he']; simp
        simpa using this
      have : cs = ".".toList := by rw [← hdot]; simp
      simp [text, this]

end Step

abbrev Way := List Step

namespace Way

def ofText (cs : List Char) : Way := (Text.splitOn '/' cs).map Step.ofText

def text (w : Way) : List Char := Text.joinWith '/' (w.map Step.text)

theorem text_ofText (cs : List Char) : (ofText cs).text = cs := by
  have h : (ofText cs).map Step.text = Text.splitOn '/' cs := by
    unfold ofText
    rw [List.map_map]
    conv => rhs; rw [← List.map_id (Text.splitOn '/' cs)]
    exact List.map_congr_left fun piece hp =>
      Step.text_ofText (Text.not_mem_of_mem_splitOn hp)
  rw [text, h, Text.joinWith_splitOn]

def toPath (w : Way) : Path := Path.ofString (String.ofList w.text)

end Way

def startsAtRoot (cs : List Char) : Bool := cs.head? = some '/'

end MachTree
