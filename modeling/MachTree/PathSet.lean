import MachTree.Path.Normal
import MachTree.Text.Quoted

/-! Ordered sets of paths.  Two paths with one normal form are one member; the first spelling and
the order of arrival are kept. -/
namespace MachTree

structure PathSet where
  paths : List Path
  nodup : (paths.map Path.normal).Nodup

namespace PathSet

def empty : PathSet := ⟨[], List.nodup_nil⟩

instance : EmptyCollection PathSet := ⟨empty⟩
instance : Inhabited PathSet := ⟨empty⟩

def keys (s : PathSet) : List Path := s.paths.map Path.normal

def contains (s : PathSet) (p : Path) : Bool := p.normal ∈ s.keys

instance : Membership Path PathSet := ⟨fun s p => p.normal ∈ s.keys⟩

instance (p : Path) (s : PathSet) : Decidable (p ∈ s) :=
  inferInstanceAs (Decidable (p.normal ∈ s.keys))

def insert (s : PathSet) (p : Path) : PathSet :=
  if h : p.normal ∈ s.keys then s
  else ⟨s.paths ++ [p], by
    rw [List.map_append]
    exact List.nodup_append.mpr ⟨s.nodup, by simp, by
      rintro a ha b hb rfl
      exact h (by simpa [keys, List.mem_singleton.mp hb] using ha)⟩⟩

def insertAll (s : PathSet) (ps : List Path) : PathSet := ps.foldl insert s

def ofList (ps : List Path) : PathSet := (∅ : PathSet).insertAll ps

/-- The members of `s`, then those of `t` that are new. -/
def union (s t : PathSet) : PathSet := s.insertAll t.paths

instance : Union PathSet := ⟨union⟩

def toList (s : PathSet) : List Path := s.paths

def size (s : PathSet) : Nat := s.paths.length

def toStrings (s : PathSet) : List String := s.paths.map Path.toString

/-- Sets are alike when they have the same members in the same order, in whatever spelling. -/
def alike (s t : PathSet) : Bool := s.keys = t.keys

def describe (s : PathSet) : String := "PathSet(" ++ quotedList s.toStrings ++ ")"

@[ext] theorem ext {s t : PathSet} (h : s.paths = t.paths) : s = t := by
  cases s; cases t; simp_all

instance : DecidableEq PathSet := fun s t =>
  if h : s.paths = t.paths then isTrue (ext h) else isFalse fun e => h (e ▸ rfl)

@[simp] theorem paths_empty : (∅ : PathSet).paths = [] := rfl

theorem paths_insert (s : PathSet) (p : Path) :
    (s.insert p).paths = if p ∈ s then s.paths else s.paths ++ [p] := by
  unfold insert
  split <;> rename_i h
  · exact (if_pos h).symm
  · exact (if_neg h).symm

theorem paths_insertAll (s : PathSet) {ps : List Path}
    (h : ((s.paths ++ ps).map Path.normal).Nodup) : (s.insertAll ps).paths = s.paths ++ ps := by
  induction ps generalizing s with
  | nil => simp [insertAll]
  | cons p ps ih =>
    have hnew : ¬ p ∈ s := by
      intro hm
      rw [List.map_append, List.map_cons] at h
      exact (List.nodup_append.mp h).2.2 _ hm _ (by simp) rfl
    have hpaths : (s.insert p).paths = s.paths ++ [p] := by rw [paths_insert, if_neg hnew]
    have hrest := ih (s.insert p) (by simpa [hpaths] using h)
    rw [hpaths] at hrest
    simpa [insertAll] using hrest

@[simp] theorem ofList_paths (s : PathSet) : ofList s.paths = s :=
  ext (paths_insertAll ∅ s.nodup)

theorem mem_insert {s : PathSet} {p q : Path} :
    q ∈ s.insert p ↔ q ∈ s ∨ q.normal = p.normal := by
  show q.normal ∈ (s.insert p).paths.map Path.normal ↔ q.normal ∈ s.keys ∨ _
  rw [paths_insert]
  by_cases h : p ∈ s
  · rw [if_pos h]
    exact ⟨Or.inl, fun hq => hq.elim id fun e => e ▸ h⟩
  · simp [if_neg h, keys]

@[simp] theorem contains_iff {s : PathSet} {p : Path} : s.contains p = true ↔ p ∈ s := by
  simp [contains, Membership.mem]

end PathSet
end MachTree
