import MachTree.Proofs.Path.Names
import MachTree.Proofs.Path.Normalization

/-! Normal forms are stable.  A text may be brought into normal form or be read as a path before its
normal form is asked for, and so may a directory before a text is joined to it; only behind a bare
root does the slash between them make another root.  The normal form of an absolute path is its
slashes and then names. -/
namespace MachTree

/-- A piece that a normal form keeps and that does not lead up. -/
def Text.IsName (piece : List Char) : Prop :=
  piece ≠ [] ∧ piece ≠ ['.'] ∧ piece ≠ upwards ∧ '/' ∉ piece

theorem Component.isName_chars {c : Component} (hc : c ≠ up) : Text.IsName c.chars := by
  obtain ⟨hne, hdot, hslash⟩ := c.property
  refine ⟨fun h => hne ?_, fun h => hdot ?_, fun h => hc (chars_eq_upwards_iff.mp h), hslash⟩
  · exact String.toList_eq_nil_iff.mp h
  · simpa [chars] using congrArg String.ofList h

theorem Anchor.ofText_eq_relative_iff {cs : List Char} :
    ofText cs = .relative ↔ cs.head? ≠ some '/' := by
  unfold ofText
  split
  · simp
  · simp
  · simp
  · rename_i hslash
    exact iff_of_true rfl fun h => (List.head?_eq_some_iff.mp h).elim hslash

theorem Anchor.ofText_two_slashes {cs : List Char} (h : cs.head? ≠ some '/') :
    ofText ('/' :: '/' :: cs) = .doubleRoot := by
  cases cs with
  | nil => rfl
  | cons c cs =>
    have hc : c ≠ '/' := by simpa using h
    simp [ofText, hc]

namespace Path

/-- A root with nothing below it. -/
def IsBare (p : Path) : Prop := p.isAbsolute = true ∧ p.parts = []

instance (p : Path) : Decidable p.IsBare := by unfold IsBare; infer_instance

variable {p : Path} {q : String}

theorem isBare_iff : p.IsBare ↔ p.toString = "/" ∨ p.toString = "//" := by
  constructor
  · obtain ⟨anchor, parts⟩ := p
    rintro ⟨habs, rfl⟩
    cases anchor with
    | relative => simp [isAbsolute] at habs
    | root => exact .inl rfl
    | doubleRoot => exact .inr rfl
  · rintro (h | h) <;> rw [← p.ofString_toString, h] <;> decide

/-- What is written behind a path does not change where it starts, save behind a bare root. -/
theorem ofText_append_of_not_isBare (hp : ¬ p.IsBare) (rest : List Char) :
    Anchor.ofText (p.text ++ rest) = p.anchor := by
  obtain ⟨anchor, parts⟩ := p
  by_cases hne : parts = []
  · have hanchor : anchor = .relative := by
      by_contra hanchor
      exact hp ⟨by simpa [isAbsolute] using hanchor, hne⟩
    subst hne hanchor
    rfl
  · obtain ⟨a, more, hjoin, ha⟩ := joinWith_eq_cons hne
    rw [text, if_neg (by simp [hne]), hjoin, List.append_assoc, List.cons_append,
      ofText_text_append anchor ha]

theorem toList_append_slash (p : Path) (q : String) :
    (p.toString ++ "/" ++ q).toList = p.text ++ '/' :: q.toList := by
  simp [toString]

section Relative

variable (hq : q.toList.head? ≠ some '/')
include hq

theorem child_eq (p : Path) : p.child q = ⟨p.anchor, p.parts ++ components q.toList⟩ := by
  have hrelative : (ofString q).anchor = .relative := Anchor.ofText_eq_relative_iff.mpr hq
  exact if_neg (by simp [isAbsolute, hrelative])

theorem ofString_append_slash (hp : ¬ p.IsBare) :
    ofString (p.toString ++ "/" ++ q) = p.child q := by
  rw [child_eq hq, ofString, toList_append_slash, components_append_slash, components_text,
    ofText_append_of_not_isBare hp]

/-- Behind a bare root one slash becomes two, and two become three, which mean one. -/
theorem anchor_append_slash (hp : p.IsBare) :
    (ofString (p.toString ++ "/" ++ q)).anchor ≠ p.anchor := by
  obtain ⟨anchor, parts⟩ := p
  obtain ⟨habs, rfl⟩ := hp
  rw [ofString, toList_append_slash]
  cases anchor with
  | relative => simp [isAbsolute] at habs
  | root =>
    show Anchor.ofText ('/' :: '/' :: q.toList) ≠ .root
    rw [Anchor.ofText_two_slashes hq]
    decide
  | doubleRoot =>
    show Anchor.ofText ('/' :: '/' :: '/' :: q.toList) ≠ .doubleRoot
    simp [Anchor.ofText]

theorem normal_append_slash_iff (p : Path) :
    (p.child q).normal = (ofString (p.normal.toString ++ "/" ++ q)).normal ↔ ¬ p.normal.IsBare := by
  constructor
  · -- the two paths would start at one root
    intro h hbare
    have hanchor : (p.child q).anchor = (ofString (p.normal.toString ++ "/" ++ q)).anchor :=
      congrArg (fun r => r.anchor) h
    rw [child_eq hq] at hanchor
    exact anchor_append_slash hq hbare hanchor.symm
  · intro hbare
    rw [ofString_append_slash hq hbare]
    exact (normal_append p (ofString q)).symm

end Relative

theorem exists_names (hp : p.isAbsolute = true) :
    ∃ names, p.normal.text = p.anchor.text ++ Text.joinWith '/' names ∧
      ∀ name ∈ names, Text.IsName name := by
  refine ⟨p.normal.parts.map Component.chars, text_eq_of_isAbsolute (p := p.normal) hp, ?_⟩
  intro name hname
  obtain ⟨c, hc, rfl⟩ := List.mem_map.mp hname
  have hup : c ≠ Component.up := fun h => up_not_mem_normal hp (h ▸ hc)
  exact Component.isName_chars hup

end Path

/-- The normal form of a text is what its pieces make of it, and nothing that is done to a text
before it is compared changes it: neither a normal form taken before nor reading the text as a path.
A text that does not start with a slash is joined to a directory or to its normal form alike, just
when that is no bare root.  The normal form of an absolute path is its own one or two slashes and
then names with slashes between them. -/
theorem normalized_stable :
    (∀ p : String, normalized p = normalText p ∧
      normalized (normalized p) = normalized p ∧
      normalized (Path.ofString p).toString = normalized p) ∧
    (∀ d q : String, q.toList.head? ≠ some '/' →
      (normalized ((Path.ofString d).child q).toString = normalized (normalized d ++ "/" ++ q) ↔
        normalized d ≠ "/" ∧ normalized d ≠ "//")) ∧
    ∀ p : String, p.toList.head? = some '/' →
      ∃ names, (normalized p).toList = (Anchor.ofText p.toList).text ++ Text.joinWith '/' names ∧
        ∀ name ∈ names, Text.IsName name := by
  refine ⟨fun p => ⟨normalized_eq p, ?_, ?_⟩, fun d q hq => ?_, fun p hp => ?_⟩
  · rw [normalized_eq_iff, normalized, Path.ofString_toString, Path.normal_normal]
  · rw [normalized_eq_iff, Path.ofString_toString]
  · have hbare : ¬ (Path.ofString d).normal.IsBare ↔ normalized d ≠ "/" ∧ normalized d ≠ "//" := by
      rw [Path.isBare_iff, not_or]
      rfl
    rw [normalized_eq_iff, Path.ofString_toString, ← hbare]
    exact Path.normal_append_slash_iff hq (Path.ofString d)
  · have habs : (Path.ofString p).isAbsolute = true := decide_eq_true fun hrelative =>
      Anchor.ofText_eq_relative_iff.mp hrelative hp
    obtain ⟨names, htext, hnames⟩ := Path.exists_names habs
    refine ⟨names, ?_, hnames⟩
    rw [normalized, Path.toString, String.toList_ofList, htext]
    rfl

/-- Joined to a bare root, a text stays below it; behind a slash more it is below the other one. -/
example : normalized ((Path.ofString "/").child "a/..//b").toString = "/b" ∧
    normalized (normalized "/" ++ "/" ++ "a/..//b") = "//b" := by decide +kernel

end MachTree
