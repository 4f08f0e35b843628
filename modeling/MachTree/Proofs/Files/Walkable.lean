import Mathlib.Data.String.Basic
import MachTree.Proofs.Files.Descent
import MachTree.Proofs.Path.Suffix

/-! What paths lead to in a tree without links.  A path leads to a directory if the normal form of
each of its beginnings does, and to a file if moreover its normal form does; so it may lead nowhere
although its normal form leads somewhere. -/
namespace MachTree

theorem Text.joinWith_sublist (sep : Char) {xs ys : List (List Char)} (h : xs.Sublist ys) :
    (joinWith sep xs).Sublist (joinWith sep ys) := by
  induction h with
  | slnil => exact .slnil
  | @cons xs ys y h ih =>
    cases ys with
    | nil => simp [List.sublist_nil.mp h, joinWith]
    | cons z zs =>
      exact ih.trans ((List.sublist_cons_self sep _).trans (List.sublist_append_right y _))
  | @cons_cons xs ys x h ih =>
    cases ys with
    | nil => simp [List.sublist_nil.mp h]
    | cons z zs =>
      cases xs with
      | nil => exact List.sublist_append_left x _
      | cons w ws => exact (ih.cons_cons sep).append_left x

namespace Files

theorem isTooLong_of_sublist {cs ds : List Char} (h : cs.Sublist ds) (hds : isTooLong ds = false) :
    isTooLong cs = false := by
  have hle := String.utf8Len_le_of_sublist h
  simp only [isTooLong, String.utf8ByteSize_ofList, decide_eq_false_iff_not, Nat.not_lt] at hds ⊢
  exact hle.trans hds

variable {t : Files} {c : Component} {names : List Component} {cwd p : Path} {here : Trail}

/-- That a path and the names in it are short enough for a file. -/
def Fits (p : Path) : Prop :=
  isTooLong p.text = false ∧ ∀ c ∈ p.parts, Component.isTooLong c = false

instance (p : Path) : Decidable (Fits p) := by unfold Fits; infer_instance

theorem Fits.of_sublist {anchor : Anchor} {names' : List Component} (hanchor : anchor ≠ .relative)
    (h : Fits ⟨anchor, names⟩) (hnames : names'.Sublist names) : Fits ⟨anchor, names'⟩ := by
  refine ⟨isTooLong_of_sublist ?_ h.1, fun c hc => h.2 c (hnames.subset hc)⟩
  rw [Path.text, Path.text, if_neg fun he => hanchor he.1, if_neg fun he => hanchor he.1]
  exact (Text.joinWith_sublist '/' (hnames.map _)).append_left _

theorem locateText_cons_slash {cs : List Char} (hlong : isTooLong ('/' :: cs) = false)
    (cwd : Path) : t.locateText cwd ('/' :: cs) =
      (t.walk maxLinks [] (Way.ofText cs)).map Trail.location := by
  have hroot : startsAtRoot ('/' :: cs) = true := by simp [startsAtRoot]
  rw [locateText, if_neg (List.cons_ne_nil _ _), hlong, if_neg Bool.false_ne_true, hroot,
    if_pos rfl, Way.ofText_cons_slash, walk]

section Absolute

variable {anchor : Anchor} (hanchor : anchor ≠ .relative)
include hanchor

theorem locate_of_anchor (hlong : isTooLong (Path.text ⟨anchor, names⟩) = false) (cwd : Path) :
    t.locate cwd ⟨anchor, names⟩ =
      (t.walk maxLinks [] (names.map Component.step)).map Trail.location := by
  have htext : Path.text ⟨anchor, names⟩ =
      anchor.text ++ Text.joinWith '/' (names.map fun c => c.val.toList) :=
    if_neg fun he => hanchor he.1
  have hway : t.walk maxLinks [] (Way.ofText (Text.joinWith '/' (names.map (·.val.toList)))) =
      t.walk maxLinks [] (names.map Component.step) := by
    by_cases hne : names = []
    · subst hne
      rw [List.map_nil, Text.joinWith, show Way.ofText [] = [.nothing] by decide, walk]
      rfl
    · rw [Way.ofText_joinWith_step hne]
  rw [htext] at hlong
  rw [locate, htext, ← hway]
  cases anchor with
  | relative => exact absurd rfl hanchor
  | root => exact locateText_cons_slash hlong cwd
  | doubleRoot =>
    refine (locateText_cons_slash hlong cwd).trans ?_
    show Except.map _ (t.walk maxLinks [] (Way.ofText ('/' :: _))) = _
    rw [Way.ofText_cons_slash, walk]
    rfl

theorem stat_of_descend? (hfits : Fits ⟨anchor, names⟩) (h : t.descend? names = some here)
    (cwd : Path) : t.stat cwd ⟨anchor, names⟩ = .ok .directory := by
  have hwalk := walk_of_foldlM maxLinks hfits.2 h []
  rw [List.append_nil, walk] at hwalk
  rw [stat, locate_of_anchor hanchor hfits.1, hwalk]
  simp [Except.map, (descends_of_descend? h).node?_location]

section LinkFree

variable (hlinks : t.root.LinkFree) (hfits : Fits ⟨anchor, names ++ [c]⟩)
include hlinks hfits

theorem stat_of_step (h : t.descend? names = some here) (hc : c ≠ Component.up) (cwd : Path) :
    t.stat cwd ⟨anchor, names ++ [c]⟩ =
      (Trail.step t here c).elim (.error .missing) fun u => .ok u.node := by
  have hhere := descends_of_descend? h
  have hshort : Component.isTooLong c = false := hfits.2 c (by simp)
  have hwalk := walk_of_foldlM maxLinks (fun d hd => hfits.2 d (by simp [hd])) h [.enter c]
  rw [stat, locate_of_anchor hanchor hfits.1, List.map_append, List.map_singleton,
    Component.step_of_ne hc, hwalk]
  cases hu : Trail.step t here c with
  | none =>
    rw [walk_enter_of_missing maxLinks hshort hu]
    rfl
  | some u =>
    have hend : t.walk maxLinks here [.enter c] = .ok ((c, u) :: here) := by
      by_cases hdir : u.node = .directory
      · rw [walk_enter_of_directory maxLinks [] hshort hu hdir, walk]
      · have hlink := ((hhere.linkFree hlinks).child hu).node_ne
        rw [walk_enter_of_not_directory maxLinks hshort hu hlink hdir, if_pos rfl]
    rw [hend]
    simp [Except.map, Trail.location_cons, hhere.node?_of_step hu]

theorem leadsTo_of_descend?_eq_none (h : t.descend? names = none) (cwd : Path)
    (kind : Node → Bool) : t.leadsTo cwd ⟨anchor, names ++ [c]⟩ kind = .ok false := by
  rw [leadsTo]
  cases hnull : Path.hasNull ⟨anchor, names ++ [c]⟩ with
  | true => rfl
  | false =>
    have hnames : ∀ d ∈ names, d.hasNull = false := by
      intro d hd
      simp only [Path.hasNull, List.any_eq_false, Bool.not_eq_true] at hnull
      exact hnull d (by simp [hd])
    obtain ⟨b, hb, hwalk⟩ := walk_of_foldlM_eq_none hlinks maxLinks .root
      (fun d hd => hfits.2 d (by simp [hd])) hnames h (List.cons_ne_nil c.step [])
    have hstat : t.stat cwd ⟨anchor, names ++ [c]⟩ = .error b := by
      rw [stat, locate_of_anchor hanchor hfits.1, List.map_append, List.map_singleton, hwalk]
      rfl
    rw [hstat]
    cases b with
    | nameTooLong => exact absurd rfl hb
    | _ => rfl

/-- What a path leads to is told from its last name, below what the others lead to. -/
theorem leadsTo_concat (hc : c ≠ Component.up) (cwd : Path) (kind : Node → Bool) :
    t.leadsTo cwd ⟨anchor, names ++ [c]⟩ kind =
      .ok (!c.hasNull && ((t.descend? names).bind fun here => Trail.step t here c).any
        fun u => kind u.node) := by
  cases hdescend : t.descend? names with
  | none => simp [leadsTo_of_descend?_eq_none hanchor hlinks hfits hdescend]
  | some here =>
    have hnull : Path.hasNull ⟨anchor, names ++ [c]⟩ = c.hasNull := by
      simp [Path.hasNull, any_hasNull_of_descend? hdescend]
    rw [leadsTo, hnull, stat_of_step hanchor hlinks hfits hdescend hc]
    cases c.hasNull <;> cases hu : Trail.step t here c <;> simp [hu]

end LinkFree

theorem isDirectory_of_descend? (hfits : Fits ⟨anchor, names⟩) (h : t.descend? names = some here)
    (cwd : Path) : t.isDirectory cwd ⟨anchor, names⟩ = .ok true := by
  have hnull : Path.hasNull ⟨anchor, names⟩ = false := any_hasNull_of_descend? h
  simp [isDirectory, leadsTo, hnull, stat_of_descend? hanchor hfits h, Node.isDirectory]

theorem isDirectory_eq (hlinks : t.root.LinkFree) (hfits : Fits ⟨anchor, names⟩) (cwd : Path) :
    t.isDirectory cwd ⟨anchor, names⟩ = .ok (t.descend? names).isSome := by
  rcases List.eq_nil_or_concat names with rfl | ⟨front, c, rfl⟩
  · exact isDirectory_of_descend? hanchor hfits rfl cwd
  rw [List.concat_eq_append] at hfits ⊢
  rw [descend?_concat]
  cases hfront : t.descend? front with
  | none => exact leadsTo_of_descend?_eq_none hanchor hlinks hfits hfront cwd _
  | some here =>
    rw [Option.bind_some]
    by_cases hc : c = Component.up
    · subst hc
      have hup : t.descend? (front ++ [Component.up]) = some here.tail := by
        rw [descend?_concat, hfront, Option.bind_some, Trail.after?_up]
      rw [isDirectory_of_descend? hanchor hfits hup, Trail.after?_up, Option.isSome_some]
    · rw [isDirectory, leadsTo_concat hanchor hlinks hfits hc, hfront, Option.bind_some,
        Trail.isSome_after? hc]

end Absolute

/-- That the normal form of each beginning of a path leads to a directory. -/
def Walkable (t : Files) (cwd p : Path) : Prop :=
  ∀ front, front <+: p.parts → t.isDirectory cwd (Path.normal ⟨p.anchor, front⟩) = .ok true

section Walkable

variable (hlinks : t.root.LinkFree) (hp : p.isAbsolute = true)
include hlinks hp

theorem fits_of_leadsTo {kind : Node → Bool} (h : t.leadsTo cwd p kind = .ok true) : Fits p := by
  obtain ⟨anchor, names⟩ := p
  have hnull := hasNull_of_leadsTo h
  have hlong := not_isTooLong_of_leadsTo hnull h
  refine ⟨hlong, ?_⟩
  rw [leadsTo, hnull, stat, locate_of_anchor (Path.anchor_ne_relative hp) hlong] at h
  cases hwalk : t.walk maxLinks [] (names.map Component.step) with
  | ok there =>
    exact short_of_walk hlinks maxLinks .root (by simpa [Path.hasNull] using hnull) hwalk
  | error b =>
    rw [hwalk] at h
    cases b <;> cases h

theorem names_of_walkable (h : t.Walkable cwd p) :
    ∀ c ∈ p.parts, Component.isTooLong c = false ∧ c.hasNull = false := by
  intro c hmem
  by_cases hc : c = Component.up
  · rw [hc]
    decide
  obtain ⟨front, rest, hparts⟩ := List.append_of_mem hmem
  have hdir := h (front ++ [c]) ⟨rest, by simp [hparts]⟩
  have hlast : c ∈ (Path.normal ⟨p.anchor, front ++ [c]⟩).parts := by
    rw [Path.normal_concat hc]
    simp
  have hnull := hasNull_of_leadsTo hdir
  simp only [Path.hasNull, List.any_eq_false, Bool.not_eq_true] at hnull
  have hnormal : (Path.normal ⟨p.anchor, front ++ [c]⟩).isAbsolute = true := hp
  exact ⟨(fits_of_leadsTo hlinks hnormal hdir).2 c hlast, hnull c hlast⟩

theorem walkable_iff (hfits : Fits p) (cwd : Path) :
    t.Walkable cwd p ↔ (t.descend? p.parts).isSome := by
  obtain ⟨anchor, names⟩ := p
  have hanchor : anchor ≠ .relative := Path.anchor_ne_relative hp
  rw [isSome_descend?_iff hanchor]
  refine forall₂_congr fun front hfront => ?_
  have hnormal : t.isDirectory cwd (Path.normal ⟨anchor, front⟩) =
      .ok (t.descend? (Path.normal ⟨anchor, front⟩).parts).isSome :=
    isDirectory_eq hanchor hlinks (hfits.of_sublist hanchor
      ((Path.normal_sublist hanchor front).trans (List.IsPrefix.sublist hfront))) cwd
  rw [hnormal, Except.ok.injEq]

theorem exists_isDirectory (hfits : Fits p) (cwd : Path) : ∃ b, t.isDirectory cwd p = .ok b := by
  obtain ⟨anchor, names⟩ := p
  exact ⟨_, isDirectory_eq (Path.anchor_ne_relative hp) hlinks hfits cwd⟩

/-- A directory is where the normal form of each beginning of the path leads to a directory. -/
theorem isDirectory_iff_walkable (hfits : Fits p) (cwd : Path) :
    t.isDirectory cwd p = .ok true ↔ t.Walkable cwd p := by
  rw [walkable_iff hlinks hp hfits]
  obtain ⟨anchor, names⟩ := p
  rw [isDirectory_eq (Path.anchor_ne_relative hp) hlinks hfits, Except.ok.injEq]

variable (hc : c ≠ Component.up)
include hc

theorem isFile_child_eq (hfits : Fits (p.child c.val)) (cwd : Path) : t.isFile cwd (p.child c.val) =
    .ok (!c.hasNull && ((t.descend? p.parts).bind fun here => Trail.step t here c).any
      fun u => Node.isFile u.node) := by
  have hanchor : p.anchor ≠ .relative := Path.anchor_ne_relative hp
  rw [Path.child_component] at hfits ⊢
  exact leadsTo_concat hanchor hlinks hfits hc cwd _

theorem isFile_child_iff_of_fits (hfits : Fits (p.child c.val)) (cwd : Path) :
    t.isFile cwd (p.child c.val) = .ok true ↔
      t.Walkable cwd p ∧ t.isFile cwd (p.normal.child c.val) = .ok true := by
  obtain ⟨anchor, names⟩ := p
  have hanchor : anchor ≠ .relative := Path.anchor_ne_relative hp
  rw [Path.child_component] at hfits
  have hfile := leadsTo_concat hanchor hlinks hfits hc cwd Node.isFile
  have hnormal := leadsTo_concat hanchor hlinks (hfits.of_sublist hanchor
    ((Path.normal_sublist hanchor names).append_right [c])) hc cwd Node.isFile
  have hfits' : Fits ⟨anchor, names⟩ := hfits.of_sublist hanchor (List.sublist_append_left _ _)
  rw [walkable_iff hlinks hp hfits', Path.child_component, Path.child_component]
  show t.leadsTo cwd ⟨anchor, names ++ [c]⟩ _ = _ ↔
    _ ∧ t.leadsTo cwd ⟨anchor, (Path.normal ⟨anchor, names⟩).parts ++ [c]⟩ _ = _
  rw [hfile, hnormal]
  cases hdescend : t.descend? names with
  | none => simp
  | some here => simp [descend?_normal hanchor hdescend]

/-- A file is in a directory where each beginning of the path leads to a directory and the file is
in the directory that the normal form names, as long as the path is not refused. -/
theorem isFile_child_iff (hknown : ∃ b, t.isFile cwd (p.child c.val) = .ok b) :
    t.isFile cwd (p.child c.val) = .ok true ↔
      t.Walkable cwd p ∧ t.isFile cwd (p.normal.child c.val) = .ok true := by
  have hchild : (p.child c.val).isAbsolute = true := by rwa [Path.child_component]
  refine ⟨fun h => ?_, fun ⟨hwalkable, hfile⟩ => ?_⟩
  · exact (isFile_child_iff_of_fits hlinks hp hc (fits_of_leadsTo hlinks hchild h) cwd).mp h
  · -- what is followed name by name is short, and the path as a whole has not been refused
    have hnormal : (p.normal.child c.val).isAbsolute = true := by rwa [Path.child_component]
    have hname : c ∈ (p.normal.child c.val).parts := by simp [Path.child_component]
    have hnull := hasNull_of_leadsTo hfile
    simp only [Path.hasNull, List.any_eq_false, Bool.not_eq_true] at hnull
    have hnames : ∀ d ∈ (p.child c.val).parts,
        Component.isTooLong d = false ∧ d.hasNull = false := by
      rw [Path.child_component]
      intro d hd
      rcases List.mem_append.mp hd with hd | hd
      · exact names_of_walkable hlinks hp hwalkable d hd
      · rw [List.mem_singleton.mp hd]
        exact ⟨(fits_of_leadsTo hlinks hnormal hfile).2 c hname, hnull c hname⟩
    obtain ⟨b, hb⟩ := hknown
    have hlong := not_isTooLong_of_leadsTo
      (by simpa [Path.hasNull] using fun d hd => (hnames d hd).2) hb
    exact (isFile_child_iff_of_fits hlinks hp hc ⟨hlong, fun d hd => (hnames d hd).1⟩ cwd).mpr
      ⟨hwalkable, hfile⟩

end Walkable

end Files
end MachTree
