/-! Finite maps that keep the order in which their keys first came.  Writing to a key that is there
changes its value in place; a new key goes to the end. -/
namespace MachTree

/-- A finite map from `κ` to `ν` in the order of first writes. -/
structure Table (κ : Type) (ν : Type) where
  entries : List (κ × ν)
  nodup : (entries.map Prod.fst).Nodup

namespace Table

variable {κ ν : Type}

/-- Writes `v` at `k` in a list of entries. -/
def put [DecidableEq κ] (k : κ) (v : ν) : List (κ × ν) → List (κ × ν)
  | [] => [(k, v)]
  | e :: es => if e.1 = k then (k, v) :: es else e :: put k v es

theorem mem_keys_put [DecidableEq κ] {k x : κ} {v : ν} {es : List (κ × ν)} :
    x ∈ (put k v es).map Prod.fst ↔ x = k ∨ x ∈ es.map Prod.fst := by
  induction es with
  | nil => simp [put]
  | cons e es ih =>
    simp only [put]
    split
    · rename_i h
      simp [← h]
    · simp only [List.map_cons, List.mem_cons, ih]
      constructor <;> rintro (h | h | h) <;> simp [h]

theorem nodup_put [DecidableEq κ] (k : κ) (v : ν) {es : List (κ × ν)}
    (h : (es.map Prod.fst).Nodup) : ((put k v es).map Prod.fst).Nodup := by
  induction es with
  | nil => simp [put]
  | cons e es ih =>
    have hn := List.nodup_cons.mp h
    simp only [put]
    split
    · rename_i he
      simpa [← he] using h
    · rename_i he
      refine List.nodup_cons.mpr ⟨?_, ih hn.2⟩
      rintro hm
      rcases mem_keys_put.mp hm with hk | hk
      · exact he hk
      · exact hn.1 hk

def empty : Table κ ν := ⟨[], List.nodup_nil⟩

instance : EmptyCollection (Table κ ν) := ⟨empty⟩
instance : Inhabited (Table κ ν) := ⟨empty⟩

def insert [DecidableEq κ] (t : Table κ ν) (k : κ) (v : ν) : Table κ ν :=
  ⟨put k v t.entries, nodup_put k v t.nodup⟩

def get? [DecidableEq κ] (t : Table κ ν) (k : κ) : Option ν :=
  (t.entries.find? fun e => e.1 = k).map Prod.snd

def contains [DecidableEq κ] (t : Table κ ν) (k : κ) : Bool := (t.get? k).isSome

def keys (t : Table κ ν) : List κ := t.entries.map Prod.fst

def values (t : Table κ ν) : List ν := t.entries.map Prod.snd

def size (t : Table κ ν) : Nat := t.entries.length

def isEmpty (t : Table κ ν) : Bool := t.entries.isEmpty

def insertAll [DecidableEq κ] (t : Table κ ν) (es : List (κ × ν)) : Table κ ν :=
  es.foldl (fun t e => t.insert e.1 e.2) t

def ofList [DecidableEq κ] (es : List (κ × ν)) : Table κ ν := (∅ : Table κ ν).insertAll es

def erase [DecidableEq κ] (t : Table κ ν) (k : κ) : Table κ ν :=
  ⟨t.entries.filter fun e => e.1 ≠ k,
    t.nodup.sublist (List.Sublist.map Prod.fst List.filter_sublist)⟩

@[ext] theorem ext {s t : Table κ ν} (h : s.entries = t.entries) : s = t := by
  cases s; cases t; simp_all

theorem put_of_not_mem [DecidableEq κ] {k : κ} {v : ν} {es : List (κ × ν)}
    (h : k ∉ es.map Prod.fst) : put k v es = es ++ [(k, v)] := by
  induction es with
  | nil => rfl
  | cons e es ih =>
    simp only [List.map_cons, List.mem_cons, not_or] at h
    simp [put, Ne.symm h.1, ih h.2]

theorem insertAll_entries [DecidableEq κ] (t : Table κ ν) {es : List (κ × ν)}
    (h : ((t.entries ++ es).map Prod.fst).Nodup) :
    (t.insertAll es).entries = t.entries ++ es := by
  induction es generalizing t with
  | nil => simp [insertAll]
  | cons e es ih =>
    have hnew : e.1 ∉ t.entries.map Prod.fst := by
      intro hm
      rw [List.map_append, List.map_cons] at h
      exact (List.nodup_append.mp h).2.2 _ hm _ (by simp) rfl
    have hentries : (t.insert e.1 e.2).entries = t.entries ++ [e] := put_of_not_mem hnew
    have hrest := ih (t.insert e.1 e.2) (by simpa [hentries] using h)
    rw [hentries] at hrest
    simpa [insertAll] using hrest

@[simp] theorem ofList_entries [DecidableEq κ] (t : Table κ ν) : ofList t.entries = t :=
  ext (insertAll_entries ∅ t.nodup)

instance [DecidableEq κ] [DecidableEq ν] : DecidableEq (Table κ ν) := fun s t =>
  if h : s.entries = t.entries then isTrue (ext h) else isFalse fun e => h (e ▸ rfl)

@[simp] theorem keys_empty : (∅ : Table κ ν).keys = [] := rfl

@[simp] theorem get?_empty [DecidableEq κ] (k : κ) : (∅ : Table κ ν).get? k = none := rfl

@[simp] theorem contains_empty [DecidableEq κ] (k : κ) : (∅ : Table κ ν).contains k = false := rfl

theorem find?_put [DecidableEq κ] (k x : κ) (v : ν) (es : List (κ × ν)) :
    ((put k v es).find? fun e => e.1 = x).map Prod.snd =
      if x = k then some v else (es.find? fun e => e.1 = x).map Prod.snd := by
  induction es with
  | nil =>
    by_cases h : x = k
    · simp [put, h]
    · simp [put, h, Ne.symm h]
  | cons e es ih =>
    obtain ⟨a, b⟩ := e
    by_cases ha : a = k
    · subst ha
      by_cases hx : x = a
      · simp [put, hx]
      · simp [put, hx, Ne.symm hx]
    · by_cases hx : a = x
      · subst hx
        simp [put, ha]
      · simpa [put, ha, hx] using ih

@[simp] theorem get?_insert [DecidableEq κ] (t : Table κ ν) (k x : κ) (v : ν) :
    (t.insert k v).get? x = if x = k then some v else t.get? x :=
  find?_put k x v t.entries

@[simp] theorem get?_erase [DecidableEq κ] (t : Table κ ν) (k x : κ) :
    (t.erase k).get? x = if x = k then none else t.get? x := by
  simp only [get?, erase, List.find?_filter]
  split
  · rename_i h
    subst h
    simp
  · rename_i h
    congr 2
    funext e
    by_cases he : e.1 = x
    · simp [he, h]
    · simp [he]

end Table
end MachTree
