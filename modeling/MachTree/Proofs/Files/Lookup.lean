import MachTree.Files.Resolve

/-! Paths that meet no link.  Where the names of a path lead through directories alone, the path
leads to what the tree holds there, and it is its own form without links. -/
namespace MachTree

def Component.step (c : Component) : Step := if c = Component.up then .up else .enter c

@[simp] theorem Component.step_up : Component.up.step = .up := if_pos rfl

theorem Component.step_of_ne {c : Component} (h : c ≠ Component.up) : c.step = .enter c := if_neg h

namespace Way

theorem ofText_cons_slash (cs : List Char) : ofText ('/' :: cs) = .nothing :: ofText cs := by
  rw [ofText, ← List.nil_append ('/' :: cs), Text.splitOn_append List.not_mem_nil]
  rfl

theorem ofText_joinWith_step {parts : List Component} (hne : parts ≠ []) :
    ofText (Text.joinWith '/' (parts.map fun c => c.val.toList)) = parts.map Component.step := by
  have hslash : ∀ piece ∈ parts.map fun c => c.val.toList, '/' ∉ piece := by
    intro piece hpiece
    obtain ⟨c, -, rfl⟩ := List.mem_map.mp hpiece
    exact c.property.2.2
  have hstep : ∀ c ∈ parts, Step.ofText c.val.toList = Component.step c := by
    intro c _
    simp [Step.ofText, Component.step]
  rw [ofText, Text.splitOn_joinWith (mt List.map_eq_nil_iff.mp hne) hslash, List.map_map]
  exact List.map_congr_left hstep

theorem ofText_joinWith {parts : List Component} (hne : parts ≠ []) (hup : Component.up ∉ parts) :
    ofText (Text.joinWith '/' (parts.map fun c => c.val.toList)) = parts.map Step.enter := by
  rw [ofText_joinWith_step hne]
  exact List.map_congr_left fun c hc =>
    Component.step_of_ne fun he => hup (he ▸ hc)

end Way

namespace Path

variable {p : Path}

theorem normal_of_not_mem (hp : p.isAbsolute = true) (hup : Component.up ∉ p.parts) :
    p.normal = p := by
  have hread : IsClimbed true p.parts.reverse := by simpa [IsClimbed] using hup
  have hfold := foldl_climb_of_isClimbed hread
  rw [List.reverse_reverse] at hfold
  rw [normal, hp, hfold, List.reverse_reverse]

theorem absolute_of_not_mem (cwd : Path) (hp : p.isAbsolute = true)
    (hup : Component.up ∉ p.parts) : absolute cwd p = p := by
  rw [absolute, append_of_isAbsolute hp, normal_of_not_mem hp hup]

/-- That a path can be followed name by name from the root. -/
def IsPlain (p : Path) : Prop :=
  p.anchor = .root ∧ p.parts ≠ [] ∧ Component.up ∉ p.parts ∧ p.hasNull = false ∧
    Files.isTooLong p.text = false ∧ ∀ c ∈ p.parts, Files.Component.isTooLong c = false

instance (p : Path) : Decidable p.IsPlain := by unfold IsPlain; infer_instance

namespace IsPlain

theorem isAbsolute (h : p.IsPlain) : p.isAbsolute = true := by
  simp [Path.isAbsolute, h.1]

theorem absolute_eq (h : p.IsPlain) (cwd : Path) : Path.absolute cwd p = p :=
  absolute_of_not_mem cwd h.isAbsolute h.2.2.1

theorem text_eq (h : p.IsPlain) :
    p.text = '/' :: Text.joinWith '/' (p.parts.map fun c => c.val.toList) := by
  simp [Path.text, h.1, Anchor.text]

theorem way_eq (h : p.IsPlain) : Way.ofText p.text = .nothing :: p.parts.map Step.enter := by
  rw [h.text_eq, Way.ofText_cons_slash, Way.ofText_joinWith h.2.1 h.2.2.1]

end IsPlain

end Path

namespace Files

variable {t : Files} {u v : Tree} {names : List Component} {p cwd : Path}

/-- The part of a tree that names lead to, through directories alone. -/
def Tree.reach? (u : Tree) : List Component → Option Tree
  | [] => some u
  | c :: rest =>
    (u.child? c).bind fun v =>
      if rest = [] ∨ v.node = .directory then v.reach? rest else none

theorem Tree.reach?_cons {c : Component} {rest : List Component}
    (h : u.reach? (c :: rest) = some v) :
    ∃ w, u.child? c = some w ∧ (rest = [] ∨ w.node = .directory) ∧ w.reach? rest = some v := by
  obtain ⟨w, hw, hrest⟩ := Option.bind_eq_some_iff.mp h
  by_cases hgo : rest = [] ∨ w.node = .directory
  · exact ⟨w, hw, hgo, by simpa [hgo] using hrest⟩
  · simp [hgo] at hrest

theorem placeOf_of_not_mem {parts : List Component} (h : Component.up ∉ parts) (cwd : Path) :
    placeOf cwd ⟨.root, parts⟩ = parts := by
  rw [placeOf, Path.absolute_of_not_mem cwd rfl h]

theorem Tree.at?_of_reach? (h : u.reach? names = some v) : u.at? names = some v := by
  induction names generalizing u with
  | nil => exact h
  | cons c rest ih =>
    obtain ⟨w, hw, -, hrest⟩ := Tree.reach?_cons h
    simpa [Tree.at?, hw] using ih hrest

theorem Tree.directory_of_reach? {front rest : List Component}
    (h : u.reach? (front ++ rest) = some v) (hfront : front ≠ []) (hrest : rest ≠ []) :
    ∃ w, u.at? front = some w ∧ w.node = .directory := by
  induction front generalizing u with
  | nil => exact absurd rfl hfront
  | cons c front ih =>
    obtain ⟨w, hw, hgo, hmore⟩ := Tree.reach?_cons h
    have hdir : w.node = .directory := hgo.resolve_left (by simp [hrest])
    by_cases hnil : front = []
    · subst hnil
      exact ⟨w, by simp [Tree.at?, hw], hdir⟩
    · obtain ⟨x, hx, hx'⟩ := ih hmore hnil
      exact ⟨x, by simpa [Tree.at?, hw] using hx, hx'⟩

theorem walk_enter_of_directory {w : Tree} {c : Component} {here : Trail} (links : Nat) (way : Way)
    (hc : Component.isTooLong c = false) (hstep : Trail.step t here c = some w)
    (hnode : w.node = .directory) :
    t.walk links here (.enter c :: way) = t.walk links ((c, w) :: here) way := by
  obtain ⟨node, branches⟩ := w
  obtain rfl : node = .directory := hnode
  rw [walk]
  simp only [hc, Bool.false_eq_true, if_false, hstep]

theorem walk_of_reach? (links : Nat) (here : Trail)
    (hshort : ∀ c ∈ names, Component.isTooLong c = false)
    (h : (Trail.tree t here).reach? names = some u) (hlink : ∀ target, u.node ≠ .link target) :
    ∃ there, t.walk links here (names.map Step.enter) = .ok there ∧
      there.location = here.location ++ names := by
  induction names generalizing here with
  | nil => exact ⟨here, by rw [List.map_nil, walk], by simp⟩
  | cons c rest ih =>
    obtain ⟨w, hw, hgo, hrest⟩ := Tree.reach?_cons h
    have hstep : Trail.step t here c = some w := hw
    have hc : Component.isTooLong c = false := hshort c (by simp)
    have hlocation : Trail.location ((c, w) :: here) = here.location ++ [c] := by
      simp [Trail.location]
    obtain ⟨there, hthere, hplace⟩ :=
      ih ((c, w) :: here) (fun d hd => hshort d (by simp [hd])) hrest
    refine ⟨there, ?_, by rw [hplace, hlocation]; simp⟩
    rcases hgo with rfl | hdir
    · obtain ⟨node, branches⟩ := w
      obtain rfl : Tree.mk node branches = u := Option.some.inj hrest
      rw [← hthere, List.map_cons, walk]
      simp only [hc, Bool.false_eq_true, if_false, hstep]
      cases node with
      | link target => exact absurd rfl (hlink target)
      | directory => rfl
      | file bytes executable => simp [walk]
      | device => simp [walk]
    · rw [List.map_cons, walk_enter_of_directory links _ hc hstep hdir, hthere]

theorem follow_of_no_link (depth : Nat) (met : Met) (here : List Component)
    (hnull : ∀ c ∈ names, c.hasNull = false)
    (hlink : ∀ front rest, names = front ++ rest → front ≠ [] →
      t.linkAt? cwd ⟨.root, here ++ front⟩ = none) :
    t.follow cwd depth met ⟨.root, here⟩ (names.map Step.enter) =
      (.ok ⟨.root, here ++ names⟩, met) := by
  induction names generalizing here with
  | nil => rw [List.map_nil, follow, List.append_nil]
  | cons c rest ih =>
    have hc : c.hasNull = false := hnull c (by simp)
    have hnext : t.linkAt? cwd ⟨.root, here ++ [c]⟩ = none := hlink [c] rest rfl (by simp)
    have hmore := ih (here ++ [c]) (fun d hd => hnull d (by simp [hd]))
      fun front more he hfront => by simpa using hlink (c :: front) more (by simp [he]) (by simp)
    rw [List.map_cons, follow]
    simp only [hc, Bool.false_eq_true, if_false, hnext]
    simpa using hmore

section Plain

variable (hp : p.IsPlain) (h : t.root.reach? p.parts = some u)
  (hlink : ∀ target, u.node ≠ .link target)
include hp h

theorem node?_of_reach? : t.node? p.parts = some u.node := by
  rw [node?, if_neg hp.2.1, Tree.at?_of_reach? h]
  rfl

include hlink

/-- A plain path leads to what its names lead to. -/
theorem stat_of_reach? (cwd : Path) : t.stat cwd p = .ok u.node := by
  have hne : p.text ≠ [] := by simp [hp.text_eq]
  have hroot : startsAtRoot p.text = true := by simp [startsAtRoot, hp.text_eq]
  obtain ⟨there, hwalk, hplace⟩ := walk_of_reach? maxLinks [] hp.2.2.2.2.2 h hlink
  have hlocate : t.locate cwd p = .ok p.parts := by
    rw [locate, locateText, if_neg hne, if_neg (by simp [hp.2.2.2.2.1]), hroot, hp.way_eq]
    simp only [if_true]
    rw [walk, hwalk]
    exact congrArg Except.ok hplace
  simp [stat, hlocate, node?_of_reach? hp h]

theorem isFile_of_reach? (cwd : Path) : t.isFile cwd p = .ok (Node.isFile u.node) := by
  simp [isFile, leadsTo, hp.2.2.2.1, stat_of_reach? hp h hlink cwd]

theorem linkAt?_of_reach? {front rest : List Component} (hparts : p.parts = front ++ rest)
    (hfront : front ≠ []) : t.linkAt? cwd ⟨.root, front⟩ = none := by
  have hup : Component.up ∉ front := fun hm => hp.2.2.1 (by simp [hparts, hm])
  have hnode : ∀ target, t.node? front ≠ some (.link target) := by
    intro target he
    by_cases hrest : rest = []
    · rw [hrest, List.append_nil] at hparts
      rw [← hparts, node?_of_reach? hp h] at he
      exact hlink target (Option.some.inj he)
    · obtain ⟨w, hw, hdir⟩ := Tree.directory_of_reach? (hparts ▸ h) hfront hrest
      simp [node?, hfront, hw, hdir] at he
  rw [linkAt?, placeOf_of_not_mem hup]
  cases isTooLong (Path.text ⟨.root, front⟩) with
  | true => rfl
  | false =>
    rw [if_neg (by simp)]
    split
    · exact absurd ‹_› (hnode _)
    · rfl

theorem resolve_of_reach? (cwd : Path) : t.resolve cwd p = .ok p := by
  have hpath : (⟨.root, [] ++ p.parts⟩ : Path) = p := by
    rw [List.nil_append, ← hp.1]
  have hnull : ∀ c ∈ p.parts, c.hasNull = false := by simpa [Path.hasNull] using hp.2.2.2.1
  have hno : ∀ front rest, p.parts = front ++ rest → front ≠ [] →
      t.linkAt? cwd ⟨.root, [] ++ front⟩ = none :=
    fun front rest hparts hfront => linkAt?_of_reach? hp h hlink hparts hfront
  have hfollow : t.followAll cwd p = .ok p := by
    rw [followAll, hp.isAbsolute, if_pos rfl, hp.way_eq, follow,
      follow_of_no_link _ _ [] hnull hno, hpath]
  rw [resolve, hfollow]
  simp [withoutLoop, hp.absolute_eq, hp.isAbsolute, hp.2.2.2.1, stat_of_reach? hp h hlink]

end Plain

theorem read?_of_reach? {bytes : List UInt8} {executable : Bool}
    {branches : List (Component × Tree)}
    (hp : p.IsPlain) (h : t.root.reach? p.parts = some (.mk (.file bytes executable) branches))
    (cwd : Path) : t.read? cwd p = some bytes := by
  have hlink : ∀ target, (Tree.mk (.file bytes executable) branches).node ≠ .link target := by
    simp [Tree.node]
  rw [read?, stat_of_reach? hp h hlink]
  rfl

end Files
end MachTree
