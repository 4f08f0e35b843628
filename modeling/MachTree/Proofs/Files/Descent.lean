import MachTree.Proofs.Files.Relative
import MachTree.Proofs.Path.Upward

/-! Paths with ways up, in a tree without links.  A way up leads to the directory that the normal
form names, but only out of a directory that is there: a path can be followed where the normal form
of each of its beginnings leads to a directory, and then it leads where its own normal form does. -/
namespace MachTree
namespace Files

variable {t : Files} {u v : Tree} {c : Component} {names : List Component} {here there : Trail}

inductive Tree.LinkFree : Tree → Prop
  | mk {node : Node} {branches : List (Component × Tree)} : (∀ target, node ≠ .link target) →
      (∀ e ∈ branches, LinkFree e.2) → LinkFree (.mk node branches)

theorem Tree.LinkFree.node_ne (h : u.LinkFree) (target : List Char) : u.node ≠ .link target := by
  cases h with
  | mk hnode _ => exact hnode target

theorem Tree.LinkFree.child (h : u.LinkFree) (hv : u.child? c = some v) : v.LinkFree := by
  cases h with
  | mk _ hbranches =>
    obtain ⟨e, he, rfl⟩ := Option.map_eq_some_iff.mp hv
    exact hbranches e (List.mem_of_find?_eq_some he)

theorem Tree.at?_concat (u : Tree) (names : List Component) (c : Component) :
    u.at? (names ++ [c]) = (u.at? names).bind fun v => v.child? c := by
  induction names generalizing u with
  | nil => simp [at?]
  | cons d names ih =>
    rw [List.cons_append, at?, at?, Option.bind_assoc]
    exact congrArg (Option.bind _) (funext ih)

/-- That a trail goes down through directories of the tree. -/
inductive Trail.Descends (t : Files) : Trail → Prop
  | root : Descends t []
  | enter {here : Trail} {c : Component} {u : Tree} : Descends t here → c ≠ Component.up →
      c.hasNull = false → Trail.step t here c = some u → u.node = .directory →
      Descends t ((c, u) :: here)

theorem Trail.location_cons (e : Component × Tree) (here : Trail) :
    Trail.location (e :: here) = here.location ++ [e.1] := by
  simp [location]

namespace Trail.Descends

theorem tail (h : Descends t here) : Descends t here.tail := by
  cases h with
  | root => exact root
  | enter h => exact h

theorem at?_location (h : Descends t here) : t.root.at? here.location = some (tree t here) := by
  induction h with
  | root => rfl
  | @enter here c u _ _ _ hstep _ ih =>
    rw [location_cons, Tree.at?_concat, ih]
    exact hstep

theorem linkFree (h : Descends t here) (hlinks : t.root.LinkFree) : (tree t here).LinkFree := by
  induction h with
  | root => exact hlinks
  | enter _ _ _ hstep _ ih => exact ih.child hstep

theorem node?_location (h : Descends t here) : t.node? here.location = some .directory := by
  cases h with
  | root => rfl
  | @enter here c u hhere hup hnull hstep hdir =>
    have hne : Trail.location ((c, u) :: here) ≠ [] := by simp [location]
    rw [node?, if_neg hne, (enter hhere hup hnull hstep hdir).at?_location]
    exact congrArg some hdir

theorem node?_of_step (h : Descends t here) (hu : step t here c = some u) :
    t.node? (here.location ++ [c]) = some u.node := by
  rw [node?, if_neg (by simp), Tree.at?_concat, h.at?_location, Option.bind_some,
    show (tree t here).child? c = some u from hu, Option.map_some]

end Trail.Descends

/-- The trail after one more component: one directory up, or down into a directory that is there. -/
def Trail.after? (t : Files) (here : Trail) (c : Component) : Option Trail :=
  if c = Component.up then some here.tail
  else if c.hasNull then none
  else (Trail.step t here c).bind fun u =>
    if u.node = .directory then some ((c, u) :: here) else none

@[simp] theorem Trail.after?_up (t : Files) (here : Trail) :
    Trail.after? t here Component.up = some here.tail := if_pos rfl

theorem Trail.after?_eq_some (hc : c ≠ Component.up) (h : Trail.after? t here c = some there) :
    ∃ u, there = (c, u) :: here ∧ c.hasNull = false ∧ Trail.step t here c = some u ∧
      u.node = .directory := by
  rw [after?, if_neg hc] at h
  split at h
  · cases h
  · rename_i hnull
    obtain ⟨u, hu, hmore⟩ := Option.bind_eq_some_iff.mp h
    split at hmore
    · rename_i hdir
      exact ⟨u, (Option.some.inj hmore).symm, by simpa using hnull, hu, hdir⟩
    · cases hmore

theorem Trail.after?_of_step (hc : c ≠ Component.up) (hnull : c.hasNull = false)
    (hu : Trail.step t here c = some u) (hdir : u.node = .directory) :
    Trail.after? t here c = some ((c, u) :: here) := by
  simp [after?, hc, hnull, hu, hdir]

theorem Trail.isSome_after? (hc : c ≠ Component.up) : (Trail.after? t here c).isSome =
    (!c.hasNull && (Trail.step t here c).any fun u => Node.isDirectory u.node) := by
  rw [after?, if_neg hc]
  cases c.hasNull with
  | true => simp
  | false =>
    cases Trail.step t here c with
    | none => rfl
    | some u => cases hnode : u.node <;> simp [hnode, Node.isDirectory]

theorem Trail.Descends.after (h : Trail.Descends t here) (ha : Trail.after? t here c = some there) :
    Trail.Descends t there := by
  by_cases hc : c = Component.up
  · rw [hc, after?_up] at ha
    exact Option.some.inj ha ▸ h.tail
  · obtain ⟨u, rfl, hnull, hu, hdir⟩ := after?_eq_some hc ha
    exact .enter h hc hnull hu hdir

/-- The trail that components lead to from the root, out of directories that are there. -/
def descend? (t : Files) (names : List Component) : Option Trail :=
  names.foldlM (Trail.after? t) []

theorem descend?_concat (t : Files) (names : List Component) (c : Component) :
    t.descend? (names ++ [c]) = (t.descend? names).bind fun here => Trail.after? t here c := by
  simp [descend?, List.foldlM_append]

theorem descends_of_descend? (h : t.descend? names = some here) : Trail.Descends t here := by
  induction names using List.reverseRecOn generalizing here with
  | nil => exact Option.some.inj h ▸ .root
  | append_singleton names c ih =>
    rw [descend?_concat] at h
    obtain ⟨above, habove, hafter⟩ := Option.bind_eq_some_iff.mp h
    exact (ih habove).after hafter

theorem any_hasNull_of_descend? (h : t.descend? names = some here) :
    names.any Component.hasNull = false := by
  induction names using List.reverseRecOn generalizing here with
  | nil => rfl
  | append_singleton names c ih =>
    rw [descend?_concat] at h
    obtain ⟨above, habove, hafter⟩ := Option.bind_eq_some_iff.mp h
    have hc : c.hasNull = false := by
      by_cases hc : c = Component.up
      · rw [hc]
        decide
      · obtain ⟨u, -, hnull, -⟩ := Trail.after?_eq_some hc hafter
        exact hnull
    simp [List.any_append, ih habove, hc]

theorem Trail.Descends.descend?_location (h : Trail.Descends t here) :
    t.descend? here.location = some here := by
  induction h with
  | root => rfl
  | enter _ hup hnull hstep hdir ih =>
    rw [Trail.location_cons, descend?_concat, ih]
    exact Trail.after?_of_step hup hnull hstep hdir

section Absolute

variable {anchor : Anchor} (hanchor : anchor ≠ .relative)
include hanchor

theorem location_of_descend? (h : t.descend? names = some here) :
    here.location = (Path.normal ⟨anchor, names⟩).parts := by
  induction names using List.reverseRecOn generalizing here with
  | nil =>
    obtain rfl := Option.some.inj h
    rfl
  | append_singleton names c ih =>
    rw [descend?_concat] at h
    obtain ⟨above, habove, hafter⟩ := Option.bind_eq_some_iff.mp h
    by_cases hc : c = Component.up
    · subst hc
      obtain rfl := Option.some.inj hafter
      rw [Path.normal_up hanchor, Path.parent, ← ih habove, Trail.location, Trail.location,
        ← List.map_dropLast, List.dropLast_reverse]
    · obtain ⟨u, rfl, -⟩ := Trail.after?_eq_some hc hafter
      rw [Path.normal_concat hc, ← ih habove, Trail.location_cons]

theorem descend?_normal (h : t.descend? names = some here) :
    t.descend? (Path.normal ⟨anchor, names⟩).parts = some here := by
  rw [← location_of_descend? hanchor h]
  exact (descends_of_descend? h).descend?_location

/-- Components can be followed if the normal form of each of their beginnings can be. -/
theorem isSome_descend?_iff : (t.descend? names).isSome ↔
    ∀ front, front <+: names → (t.descend? (Path.normal ⟨anchor, front⟩).parts).isSome := by
  constructor
  · rintro h front ⟨rest, rfl⟩
    obtain ⟨here, hhere⟩ := Option.isSome_iff_exists.mp h
    rw [descend?, List.foldlM_append] at hhere
    obtain ⟨above, habove, -⟩ := Option.bind_eq_some_iff.mp hhere
    rw [descend?_normal hanchor habove, Option.isSome_some]
  · induction names using List.reverseRecOn with
    | nil => exact fun _ => rfl
    | append_singleton names c ih =>
      intro h
      have hfront := ih fun front hfront => h front (hfront.trans (List.prefix_append _ _))
      obtain ⟨here, hhere⟩ := Option.isSome_iff_exists.mp hfront
      rw [descend?_concat, hhere, Option.bind_some]
      by_cases hc : c = Component.up
      · rw [hc, Trail.after?_up, Option.isSome_some]
      · have hend := h _ (List.prefix_refl _)
        rwa [Path.normal_concat hc, descend?_concat, descend?_normal hanchor hhere,
          Option.bind_some] at hend

end Absolute

theorem walk_of_after? (links : Nat) (hshort : Component.isTooLong c = false)
    (h : Trail.after? t here c = some there) (way : Way) :
    t.walk links here (c.step :: way) = t.walk links there way := by
  by_cases hc : c = Component.up
  · subst hc
    obtain rfl := Option.some.inj h
    rw [Component.step_up, walk]
  · obtain ⟨u, rfl, -, hu, hdir⟩ := Trail.after?_eq_some hc h
    rw [Component.step_of_ne hc, walk_enter_of_directory links way hshort hu hdir]

theorem walk_of_foldlM (links : Nat) (hshort : ∀ c ∈ names, Component.isTooLong c = false)
    (h : names.foldlM (Trail.after? t) here = some there) (way : Way) :
    t.walk links here (names.map Component.step ++ way) = t.walk links there way := by
  induction names generalizing here with
  | nil =>
    obtain rfl := Option.some.inj h
    rfl
  | cons c names ih =>
    obtain ⟨next, hnext, hmore⟩ := Option.bind_eq_some_iff.mp h
    rw [List.map_cons, List.cons_append, walk_of_after? links (hshort c (by simp)) hnext,
      ih (fun d hd => hshort d (by simp [hd])) hmore]

theorem walk_enter_of_not_directory (links : Nat) (hshort : Component.isTooLong c = false)
    (hu : Trail.step t here c = some u) (hlink : ∀ target, u.node ≠ .link target)
    (hdir : u.node ≠ .directory) (way : Way) :
    t.walk links here (.enter c :: way) =
      if way = [] then .ok ((c, u) :: here) else .error .notDirectory := by
  obtain ⟨node, branches⟩ := u
  rw [walk]
  simp only [hshort, Bool.false_eq_true, if_false, hu]
  cases node with
  | link target => exact absurd rfl (hlink target)
  | directory => exact absurd rfl hdir
  | file bytes executable => rfl
  | device => rfl

theorem walk_enter_of_missing (links : Nat) (hshort : Component.isTooLong c = false)
    (hu : Trail.step t here c = none) (way : Way) :
    t.walk links here (.enter c :: way) = .error .missing := by
  rw [walk]
  simp only [hshort, Bool.false_eq_true, if_false, hu]

/-- Without links, a walk that is to go on after components that cannot be followed is blocked. -/
theorem walk_of_foldlM_eq_none (hlinks : t.root.LinkFree) (links : Nat)
    (hhere : Trail.Descends t here) (hshort : ∀ c ∈ names, Component.isTooLong c = false)
    (hnull : ∀ c ∈ names, c.hasNull = false) (h : names.foldlM (Trail.after? t) here = none)
    {way : Way} (hway : way ≠ []) : ∃ b, b ≠ Blocked.nameTooLong ∧
      t.walk links here (names.map Component.step ++ way) = .error b := by
  induction names generalizing here with
  | nil => cases h
  | cons c names ih =>
    have hc := hshort c (by simp)
    rw [List.map_cons, List.cons_append]
    cases hnext : Trail.after? t here c with
    | some next =>
      rw [walk_of_after? links hc hnext]
      refine ih (hhere.after hnext) (fun d hd => hshort d (by simp [hd]))
        (fun d hd => hnull d (by simp [hd])) ?_
      simpa [List.foldlM_cons, hnext] using h
    | none =>
      have hup : c ≠ Component.up := by
        rintro rfl
        simp at hnext
      rw [Component.step_of_ne hup]
      cases hu : Trail.step t here c with
      | none => exact ⟨.missing, by simp, walk_enter_of_missing links hc hu _⟩
      | some u =>
        have hlink := ((hhere.linkFree hlinks).child hu).node_ne
        have hdir : u.node ≠ .directory := by
          intro hdir
          simp [Trail.after?_of_step hup (hnull c (by simp)) hu hdir] at hnext
        refine ⟨.notDirectory, by simp, ?_⟩
        rw [walk_enter_of_not_directory links hc hu hlink hdir, if_neg (by simp [hway])]

/-- Without links, a walk that comes to its end has met no name that is too long. -/
theorem short_of_walk (hlinks : t.root.LinkFree) (links : Nat) (hhere : Trail.Descends t here)
    (hnull : ∀ c ∈ names, c.hasNull = false)
    (h : t.walk links here (names.map Component.step) = .ok there) :
    ∀ c ∈ names, Component.isTooLong c = false := by
  induction names generalizing here with
  | nil => simp
  | cons c names ih =>
    have hrest : ∀ d ∈ names, d.hasNull = false := fun d hd => hnull d (by simp [hd])
    rw [List.forall_mem_cons]
    -- a walk comes past a name only when it has looked it up, and so has found it short enough
    by_cases hc : c = Component.up
    · subst hc
      rw [List.map_cons, Component.step_up, walk] at h
      exact ⟨by decide, ih hhere.tail hrest h⟩
    rw [List.map_cons, Component.step_of_ne hc] at h
    cases hshort : Component.isTooLong c with
    | true =>
      rw [walk] at h
      simp [hshort] at h
    | false =>
      refine ⟨rfl, ?_⟩
      cases hu : Trail.step t here c with
      | none =>
        rw [walk_enter_of_missing links hshort hu] at h
        cases h
      | some u =>
        by_cases hdir : u.node = .directory
        · rw [walk_enter_of_directory links _ hshort hu hdir] at h
          exact ih (.enter hhere hc (hnull c (by simp)) hu hdir) hrest h
        · have hlink := ((hhere.linkFree hlinks).child hu).node_ne
          rw [walk_enter_of_not_directory links hshort hu hlink hdir] at h
          cases names with
          | nil => simp
          | cons d names => simp at h

end Files
end MachTree
