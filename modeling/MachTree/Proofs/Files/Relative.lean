import MachTree.Files.Edit
import MachTree.Proofs.Files.Lookup

/-! Relative paths.  A relative path without a way up in it leads where its absolute form leads,
links and all, as long as the current directory is where its own path says. -/
namespace MachTree

theorem Text.exists_joinWith_append (sep : Char) (xs : List (List Char)) {ys : List (List Char)}
    (hys : ys ≠ []) : ∃ front, joinWith sep (xs ++ ys) = front ++ joinWith sep ys := by
  induction xs with
  | nil => exact ⟨[], rfl⟩
  | cons x xs ih =>
    obtain ⟨front, hfront⟩ := ih
    obtain ⟨y, more, hmore⟩ := List.exists_cons_of_ne_nil (l := xs ++ ys) (by simp [hys])
    refine ⟨x ++ sep :: front, ?_⟩
    rw [List.cons_append, hmore, joinWith, ← hmore, hfront] <;> simp

namespace Files

variable {t : Files} {u : Tree} {names : List Component} {p cwd : Path}

theorem isTooLong_of_append {front cs : List Char} (h : isTooLong (front ++ cs) = false) :
    isTooLong cs = false := by
  simp only [isTooLong, String.ofList_append, String.utf8ByteSize_append, decide_eq_false_iff_not,
    Nat.not_lt] at h ⊢
  omega

theorem not_isTooLong_of_leadsTo {kind : Node → Bool} {b : Bool} (hnull : p.hasNull = false)
    (h : t.leadsTo cwd p kind = .ok b) : isTooLong p.text = false := by
  cases hlong : isTooLong p.text with
  | false => rfl
  | true =>
    have hne : p.text ≠ [] := by
      intro he
      rw [he] at hlong
      exact absurd hlong (by decide)
    have hstat : t.stat cwd p = .error .nameTooLong := by
      simp [stat, locate, locateText, hne, hlong]
    simp [leadsTo, hnull, hstat] at h

theorem hasNull_of_leadsTo {kind : Node → Bool} (h : t.leadsTo cwd p kind = .ok true) :
    p.hasNull = false := by
  cases hnull : p.hasNull with
  | false => rfl
  | true => simp [leadsTo, hnull] at h

/-- That a directory is where its path says, through directories alone. -/
structure Stands (t : Files) (dir : Path) : Prop where
  anchor : dir.anchor = .root
  noWayUp : Component.up ∉ dir.parts
  noNull : dir.hasNull = false
  short : ∀ c ∈ dir.parts, Component.isTooLong c = false
  reached : ∃ u, t.root.reach? dir.parts = some u ∧ (dir.parts = [] ∨ u.node = .directory)

theorem Stands.isAbsolute {dir : Path} (hs : t.Stands dir) : dir.isAbsolute = true := by
  simp [Path.isAbsolute, hs.anchor]

/-- Through directories alone a walk goes as if it had started at the last of them. -/
theorem walk_append_of_reach? (links : Nat) (here : Trail) (way : Way)
    (hshort : ∀ c ∈ names, Component.isTooLong c = false)
    (h : (Trail.tree t here).reach? names = some u) (hdir : names = [] ∨ u.node = .directory) :
    t.walk links here (names.map Step.enter ++ way) =
      t.walk links
        (names.foldl (fun trail c => (c, (Trail.step t trail c).getD .empty) :: trail) here)
        way := by
  induction names generalizing here with
  | nil => rfl
  | cons c rest ih =>
    obtain ⟨w, hw, hgo, hrest⟩ := Tree.reach?_cons h
    have hstep : Trail.step t here c = some w := hw
    have hc : Component.isTooLong c = false := hshort c (by simp)
    have hu : u.node = .directory := hdir.resolve_left (by simp)
    have hnode : w.node = .directory := by
      rcases hgo with rfl | hnode
      · obtain rfl : w = u := Option.some.inj hrest
        exact hu
      · exact hnode
    have hmore := ih ((c, w) :: here) (fun d hd => hshort d (by simp [hd])) hrest (.inr hu)
    rw [List.map_cons, List.cons_append, walk_enter_of_directory links _ hc hstep hnode, hmore,
      List.foldl_cons, hstep, Option.getD_some]

section Relative

variable (hs : t.Stands cwd) (hp : p.isAbsolute = false) (hup : Component.up ∉ p.parts)
include hs hp hup

theorem Stands.absolute_eq : Path.absolute cwd p = ⟨.root, cwd.parts ++ p.parts⟩ := by
  have happend : cwd ++ p = ⟨.root, cwd.parts ++ p.parts⟩ := by
    rw [← hs.anchor]
    exact if_neg (by simp [hp])
  rw [Path.absolute, happend, Path.normal_of_not_mem rfl (by simp [hs.noWayUp, hup])]

theorem Stands.hasNull_absolute : (Path.absolute cwd p).hasNull = p.hasNull := by
  have hnull := hs.noNull
  rw [Path.hasNull] at hnull
  rw [hs.absolute_eq hp hup, Path.hasNull, Path.hasNull, List.any_append, hnull, Bool.false_or]

variable (hne : p.parts ≠ []) (hlong : isTooLong (Path.absolute cwd p).text = false)
include hne hlong

theorem locate_of_relative : t.locate cwd p = t.locate cwd (Path.absolute cwd p) := by
  have hpieces : p.parts.map (fun c => c.val.toList) ≠ [] := mt List.map_eq_nil_iff.mp hne
  have hptext : p.text = Text.joinWith '/' (p.parts.map fun c => c.val.toList) := by
    have hanchor : p.anchor = .relative := by simpa [Path.isAbsolute] using hp
    rw [Path.text, if_neg (by simp [hne]), hanchor]
    rfl
  have hway : Way.ofText p.text = p.parts.map Step.enter := by
    rw [hptext, Way.ofText_joinWith hne hup]
  have hatext : (Path.absolute cwd p).text =
      '/' :: Text.joinWith '/' ((cwd.parts ++ p.parts).map fun c => c.val.toList) := by
    rw [hs.absolute_eq hp hup, Path.text, if_neg (by simp)]
    rfl
  have haway : Way.ofText (Path.absolute cwd p).text =
      .nothing :: (cwd.parts.map Step.enter ++ p.parts.map Step.enter) := by
    rw [hatext, Way.ofText_cons_slash, Way.ofText_joinWith (by simp [hne])
      (by simp [hs.noWayUp, hup]), List.map_append]
  have hshort : isTooLong p.text = false := by
    obtain ⟨front, hfront⟩ := Text.exists_joinWith_append '/'
      (cwd.parts.map fun c => c.val.toList) hpieces
    rw [hatext, List.map_append, hfront] at hlong
    rw [hptext]
    rw [← List.cons_append] at hlong
    exact isTooLong_of_append hlong
  obtain ⟨u, hreach, hdir⟩ := hs.reached
  have hwalk : t.walk maxLinks [] (Way.ofText (Path.absolute cwd p).text) =
      t.walk maxLinks (t.trailTo cwd.parts) (Way.ofText p.text) := by
    rw [haway, hway, walk]
    exact walk_append_of_reach? maxLinks [] _ hs.short hreach hdir
  -- a slash at the front, or no text at all, would be a step to nothing
  have hnothing : Step.nothing ∉ Way.ofText p.text := by simp [hway]
  have hempty : p.text ≠ [] := by
    intro he
    exact hnothing (by rw [he]; decide)
  have hroot : startsAtRoot p.text = false := by
    rcases htext : p.text with _ | ⟨c, cs⟩
    · exact absurd htext hempty
    · by_cases hc : c = '/'
      · rw [htext, hc, Way.ofText_cons_slash] at hnothing
        exact absurd List.mem_cons_self hnothing
      · simpa [startsAtRoot] using hc
  have haempty : (Path.absolute cwd p).text ≠ [] := by simp [hatext]
  have haroot : startsAtRoot (Path.absolute cwd p).text = true := by simp [hatext, startsAtRoot]
  simp only [locate, locateText, hempty, haempty, hshort, hlong, hroot, haroot, hwalk, if_true,
    if_false, Bool.false_eq_true]

theorem stat_of_relative : t.stat cwd p = t.stat cwd (Path.absolute cwd p) := by
  rw [stat, stat, locate_of_relative hs hp hup hne hlong]

theorem read?_of_relative : t.read? cwd p = t.read? cwd (Path.absolute cwd p) := by
  rw [read?, read?, stat_of_relative hs hp hup hne hlong]

omit hlong in
theorem isFile_of_relative {b : Bool} (h : t.isFile cwd (Path.absolute cwd p) = .ok b) :
    t.isFile cwd p = .ok b := by
  have habsolute := h
  rw [isFile, leadsTo, hs.hasNull_absolute hp hup] at h
  rw [isFile, leadsTo]
  cases hnull : p.hasNull with
  | true => simpa [hnull] using h
  | false =>
    have hlong : isTooLong (Path.absolute cwd p).text = false :=
      not_isTooLong_of_leadsTo (by rw [hs.hasNull_absolute hp hup, hnull]) habsolute
    rw [stat_of_relative hs hp hup hne hlong]
    rcases hstat : t.stat cwd (Path.absolute cwd p) with (_ | _ | _ | _) | node <;>
      simp only [hnull, hstat, Bool.false_eq_true, if_false, reduceCtorEq] at h ⊢ <;>
      exact h

end Relative

namespace Tree

theorem child?_mk_alter (node : Node) (branches : List (Component × Tree)) (c d : Component)
    (new : Tree) : (mk node (alter c (some new) branches)).child? d =
      if d = c then some new else (mk node branches).child? d := by
  induction branches with
  | nil => by_cases h : c = d <;> simp [alter, child?, Tree.branches, h, eq_comm]
  | cons e rest ih =>
    simp only [child?, Tree.branches] at ih ⊢
    by_cases he : e.1 = c
    · by_cases hd : d = c
      · simp [alter, he, hd]
      · simp [alter, he, hd, Ne.symm hd]
    · by_cases hd : e.1 = d
      · have hdc : d ≠ c := fun h => he (hd.trans h)
        simp [alter, hd, hdc]
      · simp [alter, he, hd, ih]

/-- A node that is put off the way to a place leaves the way, and what kind of node is there. -/
theorem reach?_put {loc : Location} {node : Node} (h : u.reach? names = some v)
    (hloc : ¬ loc <+: names) :
    ∃ w, (u.put loc node).reach? names = some w ∧ w.node = v.node := by
  induction names generalizing u loc with
  | nil =>
    obtain rfl : u = v := Option.some.inj h
    cases loc with
    | nil => exact absurd List.nil_prefix hloc
    | cons c rest => exact ⟨_, rfl, by simp [put, Tree.node]⟩
  | cons d more ih =>
    cases loc with
    | nil => exact absurd List.nil_prefix hloc
    | cons c rest =>
      obtain ⟨w, hw, hgo, hmore⟩ := reach?_cons h
      by_cases hd : d = c
      · -- the two ways part further down
        subst hd
        have hrest : ¬ rest <+: more := fun hm => hloc (by simpa using hm)
        obtain ⟨w', hw', hnode⟩ := ih hmore hrest
        have hput : (w.put rest node).node = w.node := by
          cases rest with
          | nil => exact absurd List.nil_prefix hrest
          | cons e rest => rw [put, Tree.node]
        exact ⟨w', by simp [put, reach?, child?_mk_alter, hw, hput, hgo, hw'], hnode⟩
      · have hsame : (mk u.node u.branches).child? d = some w := hw
        exact ⟨v, by simp [put, reach?, child?_mk_alter, hd, hsame, hgo, hmore], rfl⟩

end Tree

theorem Stands.node?_of_prefix (hs : t.Stands cwd) {loc : Location} (hloc : loc <+: cwd.parts) :
    t.node? loc = some .directory := by
  obtain ⟨u, hreach, hdir⟩ := hs.reached
  obtain ⟨rest, hparts⟩ := hloc
  by_cases hnil : loc = []
  · rw [node?, if_pos hnil]
  · by_cases hrest : rest = []
    · rw [hrest, List.append_nil] at hparts
      have hnode : u.node = .directory := hdir.resolve_left (hparts ▸ hnil)
      rw [node?, if_neg hnil, hparts, Tree.at?_of_reach? hreach, Option.map_some, hnode]
    · obtain ⟨w, hw, hnode⟩ := Tree.directory_of_reach? (hparts ▸ hreach) hnil hrest
      rw [node?, if_neg hnil, hw, Option.map_some, hnode]

theorem Stands.appendAt (hs : t.Stands cwd) (loc : Location) (bytes : List UInt8) :
    (t.appendAt loc bytes).Stands cwd := by
  have hput (node : Node) (hnode : t.node? loc ≠ some .directory) :
      (t.put loc node).Stands cwd := by
    have hloc : ¬ loc <+: cwd.parts := fun h => hnode (hs.node?_of_prefix h)
    have hne : loc ≠ [] := fun h => hloc (h ▸ List.nil_prefix)
    obtain ⟨u, hreach, hdir⟩ := hs.reached
    obtain ⟨w, hw, hsame⟩ := Tree.reach?_put hreach hloc
    rw [put, if_neg hne]
    exact ⟨hs.anchor, hs.noWayUp, hs.noNull, hs.short, w, hw, hsame ▸ hdir⟩
  rw [Files.appendAt]
  split
  · exact hput _ (by simp [*])
  · exact hput _ (by simp [*])
  · exact hs

end Files
end MachTree
