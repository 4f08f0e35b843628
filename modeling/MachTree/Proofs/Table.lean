import MachTree.Table
import Mathlib.Data.List.Induction
import Mathlib.Data.List.Nodup

/-! Tables after many writes.  Of the writes to a key the last one counts, and the keys stand in the
order in which they first came.  What a key has does not depend on where its entry stands. -/
namespace MachTree

theorem eraseDups_concat {α : Type} [DecidableEq α] (l : List α) (a : α) :
    (l ++ [a]).eraseDups = if a ∈ l then l.eraseDups else l.eraseDups ++ [a] := by
  rw [List.eraseDups_append]
  by_cases h : a ∈ l <;> simp [List.removeAll, h, List.eraseDups_cons]

theorem eraseDups_of_nodup {α : Type} [DecidableEq α] {l : List α} (h : l.Nodup) :
    l.eraseDups = l := by
  induction l using List.reverseRecOn with
  | nil => rfl
  | append_singleton l a ih =>
    have hparts := List.nodup_append.mp h
    have ha : a ∉ l := fun hm => hparts.2.2 a hm a (by simp) rfl
    rw [eraseDups_concat, if_neg ha, ih hparts.1]

theorem eraseDups_append_of_subset {α : Type} [DecidableEq α] {l more : List α}
    (h : ∀ a ∈ more, a ∈ l) : (l ++ more).eraseDups = l.eraseDups := by
  induction more using List.reverseRecOn with
  | nil => rw [List.append_nil]
  | append_singleton more a ih =>
    have ha : a ∈ l ++ more := List.mem_append_left more (h a (by simp))
    rw [← List.append_assoc, eraseDups_concat, if_pos ha, ih fun b hb => h b (by simp [hb])]

namespace Table

variable {κ ν : Type} [DecidableEq κ]

theorem insertAll_append (t : Table κ ν) (es fs : List (κ × ν)) :
    t.insertAll (es ++ fs) = (t.insertAll es).insertAll fs := List.foldl_append

theorem insertAll_concat (t : Table κ ν) (es : List (κ × ν)) (e : κ × ν) :
    t.insertAll (es ++ [e]) = (t.insertAll es).insert e.1 e.2 := insertAll_append t es [e]

/-- Of the writes to a key the last one counts; without any, the table has what it had. -/
theorem get?_insertAll (t : Table κ ν) (es : List (κ × ν)) (k : κ) :
    (t.insertAll es).get? k =
      ((es.filter fun e => e.1 = k).getLast?.map Prod.snd).or (t.get? k) := by
  induction es using List.reverseRecOn with
  | nil => rfl
  | append_singleton es e ih =>
    rw [insertAll_concat, get?_insert, List.filter_append]
    by_cases hk : k = e.1
    · simp [hk]
    · simp [hk, Ne.symm hk, ih]

theorem keys_put (k : κ) (v : ν) (es : List (κ × ν)) :
    (put k v es).map Prod.fst =
      if k ∈ es.map Prod.fst then es.map Prod.fst else es.map Prod.fst ++ [k] := by
  induction es with
  | nil => rfl
  | cons e es ih =>
    by_cases he : e.1 = k
    · simp [put, he]
    · rw [put, if_neg he, List.map_cons, ih, List.map_cons]
      by_cases hk : k ∈ es.map Prod.fst
      · rw [if_pos hk, if_pos (List.mem_cons_of_mem _ hk)]
      · rw [if_neg hk, if_neg (by simpa [Ne.symm he] using hk), List.cons_append]

theorem keys_insertAll (t : Table κ ν) (es : List (κ × ν)) :
    (t.insertAll es).keys = (t.keys ++ es.map Prod.fst).eraseDups := by
  induction es using List.reverseRecOn with
  | nil =>
    rw [List.map_nil, List.append_nil]
    exact (eraseDups_of_nodup t.nodup).symm
  | append_singleton es e ih =>
    have hmem : e.1 ∈ (t.insertAll es).keys ↔ e.1 ∈ t.keys ++ es.map Prod.fst := by
      rw [ih, List.mem_eraseDups]
    rw [insertAll_concat, List.map_append, List.map_singleton, ← List.append_assoc,
      eraseDups_concat, ← ih]
    simp only [← hmem]
    exact keys_put _ _ _

theorem get?_eq_some_iff {t : Table κ ν} {k : κ} {v : ν} :
    t.get? k = some v ↔ (k, v) ∈ t.entries := by
  constructor
  · intro h
    obtain ⟨e, he, rfl⟩ := Option.map_eq_some_iff.mp h
    have hk : e.1 = k := by simpa using List.find?_some he
    rw [← hk]
    exact List.mem_of_find?_eq_some he
  · intro h
    have hfind : t.entries.find? (fun e => e.1 = k) = some (k, v) := by
      cases hf : t.entries.find? (fun e => e.1 = k) with
      | none => exact absurd (by simp) (List.find?_eq_none.mp hf (k, v) h)
      | some e =>
        have he : e.1 = k := by simpa using List.find?_some hf
        rw [List.inj_on_of_nodup_map t.nodup (List.mem_of_find?_eq_some hf) h he]
    rw [get?, hfind]
    rfl

theorem get?_ofList_map {μ : Type} (t : Table κ ν) (f : ν → μ) (k : κ) :
    (ofList (t.entries.map fun e => (e.1, f e.2))).get? k = (t.get? k).map f := by
  have hkeys : (((∅ : Table κ μ).entries ++ t.entries.map fun e => (e.1, f e.2)).map
      Prod.fst).Nodup := by
    have hsame : (t.entries.map fun e => (e.1, f e.2)).map Prod.fst = t.entries.map Prod.fst := by
      simp
    exact hsame ▸ t.nodup
  have hentries : (ofList (t.entries.map fun e => (e.1, f e.2))).entries =
      t.entries.map fun e => (e.1, f e.2) := insertAll_entries ∅ hkeys
  rw [get?, get?, hentries, List.find?_map, Option.map_map, Option.map_map]
  rfl

theorem get?_of_perm {s t : Table κ ν} (h : s.entries.Perm t.entries) (k : κ) :
    s.get? k = t.get? k := by
  refine Option.ext fun v => ?_
  rw [get?_eq_some_iff, get?_eq_some_iff]
  exact h.mem_iff

theorem ext_get? {s t : Table κ ν} (hkeys : s.keys = t.keys) (h : ∀ k, s.get? k = t.get? k) :
    s = t := by
  have hlen : s.entries.length = t.entries.length := by
    simpa [keys] using congrArg List.length hkeys
  refine ext (List.ext_getElem hlen fun n hs ht => ?_)
  have hkey : s.entries[n].1 = t.entries[n].1 := by
    have hn := congrArg (fun ks => ks[n]?) hkeys
    simpa [keys, hs, ht] using hn
  have hmem : s.entries[n] ∈ t.entries :=
    get?_eq_some_iff.mp ((h _).symm.trans (get?_eq_some_iff.mpr (List.getElem_mem hs)))
  exact List.inj_on_of_nodup_map t.nodup hmem (List.getElem_mem ht) hkey

theorem insertAll_insertAll (t : Table κ ν) (es : List (κ × ν)) :
    (t.insertAll es).insertAll es = t.insertAll es := by
  refine ext_get? ?_ fun k => ?_
  · have hmem (k : κ) (hk : k ∈ es.map Prod.fst) : k ∈ (t.insertAll es).keys := by
      rw [keys_insertAll, List.mem_eraseDups]
      exact List.mem_append_right _ hk
    rw [keys_insertAll (t.insertAll es), eraseDups_append_of_subset hmem]
    exact eraseDups_of_nodup (t.insertAll es).nodup
  · rw [get?_insertAll (t.insertAll es), get?_insertAll t]
    cases (es.filter fun e => e.1 = k).getLast?.map Prod.snd <;> rfl

end Table
end MachTree
