import MachTree.PathSet
import MachTree.Proofs.Path.Normalization
import MachTree.Proofs.Path.Text
import Mathlib.Data.List.Induction
import Mathlib.Data.List.Nodup

/-! What sets of paths remember.  A set is filled from texts and from other sets, itself included,
and copied.  Whatever the order of all this, it holds the first of the texts that share a normal
form, for all texts that ever came to it, and nothing else. -/
namespace MachTree

/-- The texts whose normal form no earlier text has. -/
def firsts (texts : List String) : List String :=
  texts.eraseDupsBy fun p q => normalText p == normalText q

theorem firsts_concat (texts : List String) (p : String) :
    firsts (texts ++ [p]) =
      if normalText p ∈ texts.map normalText then firsts texts else firsts texts ++ [p] := by
  match texts with
  | [] => simp [firsts, List.eraseDupsBy_cons]
  | q :: texts =>
    let others := texts.filter fun t => decide ((normalText t == normalText q) = false)
    have ih : firsts (others ++ [p]) = if normalText p ∈ others.map normalText then firsts others
        else firsts others ++ [p] := firsts_concat others p
    simp only [firsts] at ih ⊢
    rw [List.cons_append, List.eraseDupsBy_cons, List.eraseDupsBy_cons, List.filter_append]
    by_cases hq : normalText p = normalText q
    · simp [hq]
    · have hmem : normalText p ∈ others.map normalText ↔
          normalText p ∈ (q :: texts).map normalText := by
        simp only [others, List.mem_map, List.mem_filter, List.map_cons, List.mem_cons, hq]
        constructor
        · rintro ⟨t, ⟨ht, -⟩, h⟩
          exact .inr ⟨t, ht, h⟩
        · rintro (h | ⟨t, ht, h⟩)
          · exact h.elim
          · exact ⟨t, ⟨ht, by simpa [h] using hq⟩, h⟩
      rw [List.filter_cons_of_pos (by simpa using hq), List.filter_nil, ih]
      simp only [hmem]
      split <;> rfl
termination_by texts.length
decreasing_by exact Nat.lt_succ_of_le (List.length_filter_le _ _)

theorem mem_map_firsts (texts : List String) (key : String) :
    key ∈ (firsts texts).map normalText ↔ key ∈ texts.map normalText := by
  induction texts using List.reverseRecOn with
  | nil => rfl
  | append_singleton texts p ih =>
    rw [firsts_concat]
    split
    · rename_i hp
      rw [ih, List.map_append, List.mem_append]
      refine ⟨Or.inl, ?_⟩
      rintro (h | h)
      · exact h
      · simpa [List.mem_singleton.mp h] using hp
    · rw [List.map_append, List.map_append, List.mem_append, List.mem_append, ih]

theorem firsts_append_firsts (texts more : List String) :
    firsts (texts ++ firsts more) = firsts (texts ++ more) := by
  induction more using List.reverseRecOn with
  | nil => rfl
  | append_singleton more p ih =>
    have hmem : normalText p ∈ (texts ++ firsts more).map normalText ↔
        normalText p ∈ (texts ++ more).map normalText := by
      rw [List.map_append, List.mem_append, mem_map_firsts, List.map_append, List.mem_append]
    rw [firsts_concat more, ← List.append_assoc, firsts_concat (texts ++ more)]
    split
    · rename_i hp
      rw [ih, if_pos (by rw [List.map_append]; exact List.mem_append_right _ hp)]
    · rw [← List.append_assoc, firsts_concat, ih]
      simp only [hmem]

namespace PathSet

/-- The members of a set are the first of some texts, as paths. -/
def Holds (s : PathSet) (texts : List String) : Prop := s.paths = (firsts texts).map Path.ofString

variable {s t : PathSet} {texts more : List String}

theorem normal_toString (p : Path) : p.normal.toString = normalText p.toString := by
  rw [← normalized_eq, normalized, Path.ofString_toString]

theorem normal_ofString_eq_iff {p q : String} :
    (Path.ofString p).normal = (Path.ofString q).normal ↔ normalText p = normalText q := by
  rw [← normalized_eq, ← normalized_eq, normalized_eq_iff]

theorem holds_empty : (∅ : PathSet).Holds [] := rfl

theorem Holds.mem_iff (h : s.Holds texts) (p : String) :
    Path.ofString p ∈ s ↔ normalText p ∈ texts.map normalText := by
  rw [← mem_map_firsts]
  show (Path.ofString p).normal ∈ s.paths.map Path.normal ↔ _
  rw [h, List.map_map, List.mem_map, List.mem_map]
  exact exists_congr fun q => and_congr_right' normal_ofString_eq_iff

theorem Holds.insert (h : s.Holds texts) (p : String) :
    (s.insert (Path.ofString p)).Holds (texts ++ [p]) := by
  rw [Holds, paths_insert, firsts_concat]
  simp only [h.mem_iff p]
  split
  · exact h
  · rw [List.map_append, ← h]
    rfl

theorem Holds.insertAll (h : s.Holds texts) (more : List String) :
    (s.insertAll (more.map Path.ofString)).Holds (texts ++ more) := by
  induction more generalizing s texts with
  | nil => simpa [PathSet.insertAll] using h
  | cons p more ih => simpa [PathSet.insertAll] using ih (h.insert p)

theorem map_ofString_toString (ps : List Path) :
    (ps.map Path.toString).map Path.ofString = ps := by
  rw [List.map_map]
  exact (List.map_congr_left fun p _ => p.ofString_toString).trans (List.map_id ps)

theorem Holds.insertAll_toString (h : s.Holds texts) (ps : List Path) :
    (s.insertAll ps).Holds (texts ++ ps.map Path.toString) := by
  have hadded := h.insertAll (ps.map Path.toString)
  rwa [map_ofString_toString] at hadded

theorem insertAll_append (s : PathSet) (ps qs : List Path) :
    s.insertAll (ps ++ qs) = (s.insertAll ps).insertAll qs := List.foldl_append

theorem Holds.of_firsts (h : s.Holds (texts ++ firsts more)) : s.Holds (texts ++ more) := by
  rwa [Holds, firsts_append_firsts] at h

theorem Holds.insertAll_paths (h : s.Holds texts) (ht : t.Holds more) :
    (s.insertAll t.paths).Holds (texts ++ more) := by
  rw [ht]
  exact (h.insertAll (firsts more)).of_firsts

theorem Holds.toStrings (h : s.Holds texts) :
    s.toStrings = (firsts texts).map fun p => (Path.ofString p).toString := by
  rw [PathSet.toStrings, h, List.map_map]
  rfl

theorem map_toString_keys (s : PathSet) :
    s.keys.map Path.toString = s.toStrings.map normalText := by
  simp only [keys, PathSet.toStrings, List.map_map]
  exact List.map_congr_left fun p _ => normal_toString p

theorem nodup_map_toString_keys (s : PathSet) : (s.keys.map Path.toString).Nodup :=
  List.Nodup.map (fun _ _ => Path.toString_injective) s.nodup

theorem firsts_of_nodup (h : (texts.map normalText).Nodup) : firsts texts = texts := by
  induction texts using List.reverseRecOn with
  | nil => rfl
  | append_singleton texts p ih =>
    rw [List.map_append] at h
    have hparts := List.nodup_append.mp h
    have hp : normalText p ∉ texts.map normalText :=
      fun hm => hparts.2.2 _ hm _ (by simp) rfl
    rw [firsts_concat, if_neg hp, ih hparts.1]

theorem holds_toStrings (s : PathSet) : s.Holds s.toStrings := by
  have hnodup := nodup_map_toString_keys s
  rw [map_toString_keys] at hnodup
  rw [Holds, firsts_of_nodup hnodup, PathSet.toStrings, List.map_map]
  have hread : Path.ofString ∘ Path.toString = id := funext Path.ofString_toString
  rw [hread, List.map_id]

theorem paths_insertAll_eq_firsts (s : PathSet) (ps : List Path) : (s.insertAll ps).paths =
    (firsts (s.toStrings ++ ps.map Path.toString)).map Path.ofString :=
  s.holds_toStrings.insertAll_toString ps

theorem alike_iff : s.alike t = true ↔ s.toStrings.map normalText = t.toStrings.map normalText := by
  rw [← map_toString_keys, ← map_toString_keys,
    (List.map_injective_iff.mpr fun _ _ => Path.toString_injective).eq_iff]
  simp [alike]

theorem insertAll_of_mem {ps : List Path} (h : ∀ p ∈ ps, p ∈ s) : s.insertAll ps = s := by
  induction ps with
  | nil => rfl
  | cons p ps ih =>
    have hp : s.insert p = s := ext (by rw [paths_insert, if_pos (h p (by simp))])
    show (s.insert p).insertAll ps = s
    rw [hp, ih fun q hq => h q (by simp [hq])]

theorem mem_insertAll {ps : List Path} {q : Path} :
    q ∈ s.insertAll ps ↔ q ∈ s ∨ ∃ p ∈ ps, q.normal = p.normal := by
  induction ps generalizing s with
  | nil => simp [PathSet.insertAll]
  | cons p ps ih =>
    show q ∈ (s.insert p).insertAll ps ↔ _
    rw [ih, mem_insert]
    simp [or_assoc]

/-- Adding the same paths again changes nothing, in whatever spelling they came. -/
theorem insertAll_insertAll (s : PathSet) (ps : List Path) :
    (s.insertAll ps).insertAll ps = s.insertAll ps :=
  insertAll_of_mem fun p hp => mem_insertAll.mpr (.inr ⟨p, hp, rfl⟩)

variable {ν : Type}

inductive Source (ν : Type)
  | texts (ts : List String)
  | members (other : ν)

/-- One thing that is done with sets that have names. -/
inductive Action (ν : Type)
  /-- makes a set anew -/
  | construct (s : ν) (source : Source ν)
  | add (s : ν) (text : String)
  | update (s : ν) (source : Source ν)
  | copy (s original : ν)

namespace Action

def target : Action ν → ν
  | construct s _ | add s _ | update s _ | copy s _ => s

def other? : Action ν → Option ν
  | construct _ (.members t) | update _ (.members t) | copy _ t => some t
  | _ => none

end Action

def Source.paths (sets : ν → PathSet) : Source ν → List Path
  | .texts ts => ts.map Path.ofString
  | .members t => (sets t).paths

def Action.result (sets : ν → PathSet) : Action ν → PathSet
  | construct _ source => ofList (source.paths sets)
  | add s text => (sets s).insert (Path.ofString text)
  | update s source => (sets s).insertAll (source.paths sets)
  | copy _ t => ofList (sets t).paths

def Source.history (histories : ν → List String) : Source ν → List String
  | .texts ts => ts
  | .members t => histories t

/-- All texts that have come to the target of an action, those that came to it with the members of
another set among them. -/
def Action.history (histories : ν → List String) : Action ν → List String
  | construct _ source => source.history histories
  | add s text => histories s ++ [text]
  | update s source => histories s ++ source.history histories
  | copy _ t => histories t

theorem holds_result {sets : ν → PathSet} {histories : ν → List String}
    (h : ∀ s, (sets s).Holds (histories s)) (a : Action ν) :
    (a.result sets).Holds (a.history histories) := by
  cases a with
  | construct s source =>
    cases source with
    | texts ts => exact holds_empty.insertAll ts
    | members t => exact holds_empty.insertAll_paths (h t)
  | add s text => exact (h s).insert text
  | update s source =>
    cases source with
    | texts ts => exact (h s).insertAll ts
    | members t => exact (h s).insertAll_paths (h t)
  | copy s t => exact holds_empty.insertAll_paths (h t)

variable [DecidableEq ν]

def Action.apply (sets : ν → PathSet) (a : Action ν) : ν → PathSet :=
  Function.update sets a.target (a.result sets)

/-- The sets after some actions; before the first, all are empty. -/
def after (actions : List (Action ν)) : ν → PathSet := actions.foldl Action.apply fun _ => ∅

def Action.record (histories : ν → List String) (a : Action ν) : ν → List String :=
  Function.update histories a.target (a.history histories)

def added (actions : List (Action ν)) : ν → List String :=
  actions.foldl Action.record fun _ => []

theorem holds_apply {sets : ν → PathSet} {histories : ν → List String}
    (h : ∀ s, (sets s).Holds (histories s)) (a : Action ν) (s : ν) :
    (a.apply sets s).Holds (a.record histories s) := by
  by_cases hs : s = a.target
  · subst hs
    simpa [Action.apply, Action.record] using holds_result h a
  · simpa [Action.apply, Action.record, hs] using h s

theorem holds_after (actions : List (Action ν)) (s : ν) :
    (after actions s).Holds (added actions s) := by
  induction actions using List.reverseRecOn generalizing s with
  | nil => exact holds_empty
  | append_singleton actions a ih =>
    rw [after, added, List.foldl_append, List.foldl_append]
    exact holds_apply ih a s

variable {sets sets' : ν → PathSet} {changed : ν}

omit [DecidableEq ν] in
theorem result_congr (h : ∀ s ≠ changed, sets s = sets' s) {a : Action ν}
    (htarget : a.target ≠ changed) (hother : a.other? ≠ some changed) :
    a.result sets = a.result sets' := by
  have hsource (source : Source ν) (hs : source ≠ .members changed) :
      source.paths sets = source.paths sets' := by
    cases source with
    | texts ts => rfl
    | members t => exact congrArg PathSet.paths (h t fun ht => hs (ht ▸ rfl))
  cases a with
  | construct s source =>
    exact congrArg ofList (hsource source fun hs => hother (hs ▸ rfl))
  | add s text => exact congrArg (·.insert (Path.ofString text)) (h s htarget)
  | update s source =>
    show (sets s).insertAll _ = (sets' s).insertAll _
    rw [h s htarget, hsource source fun hs => hother (hs ▸ rfl)]
  | copy s t =>
    exact congrArg (fun set => ofList set.paths) (h t fun ht => hother (ht ▸ rfl))

/-- What is done with one set does not show in the others, as long as none of them looks at it. -/
theorem foldl_apply_filter (h : ∀ s ≠ changed, sets s = sets' s) {actions : List (Action ν)}
    (hlooks : ∀ a ∈ actions, a.target ≠ changed → a.other? ≠ some changed) :
    ∀ s ≠ changed, actions.foldl Action.apply sets s =
      (actions.filter (·.target ≠ changed)).foldl Action.apply sets' s := by
  induction actions generalizing sets sets' with
  | nil => exact h
  | cons a actions ih =>
    have hrest := fun b hb => hlooks b (List.mem_cons_of_mem _ hb)
    by_cases ha : a.target = changed
    · -- the action is left out on the one side, and changes only that set on the other
      rw [List.filter_cons_of_neg (by simpa using ha), List.foldl_cons]
      refine ih (fun s hs => ?_) hrest
      rw [Action.apply, Function.update_of_ne (by rwa [ha])]
      exact h s hs
    · rw [List.filter_cons_of_pos (by simpa using ha), List.foldl_cons, List.foldl_cons]
      refine ih (fun s hs => ?_) hrest
      rw [Action.apply, Action.apply, result_congr h ha (hlooks a (by simp) ha)]
      by_cases hs' : s = a.target
      · subst hs'
        simp
      · rw [Function.update_of_ne hs', Function.update_of_ne hs']
        exact h s hs

theorem after_copy (actions : List (Action ν)) (s t : ν) :
    after (actions ++ [.copy t s]) t = after actions s := by
  rw [after, List.foldl_append]
  simp [Action.apply, Action.target, Action.result, after]

/-- Whatever has been done with sets.  The normal forms of the members of a set are its keys, and
no two are the same.  The members are the first of all texts that ever came to the set, in the
spelling in which they came, and a path is in the set if one of these texts has its normal form.
Sets are alike when they have the same normal forms in the same order.  A copy is like its original
and is spelled alike; what is done later with one set does not show in another, as long as no set is
filled from the one that changes. -/
theorem after_dedup (actions : List (Action ν)) (s : ν) :
    (((after actions s).keys.map Path.toString).Nodup ∧
      (after actions s).keys.map Path.toString = (after actions s).toStrings.map normalText) ∧
    (after actions s).toStrings =
      (firsts (added actions s)).map (fun p => (Path.ofString p).toString) ∧
    (∀ p, (after actions s).contains (Path.ofString p) = true ↔
      ∃ q ∈ added actions s, normalText q = normalText p) ∧
    (∀ t, (after actions s).alike (after actions t) = true ↔
      (after actions s).toStrings.map normalText = (after actions t).toStrings.map normalText) ∧
    (∀ copy, (after (actions ++ [.copy copy s]) copy).alike (after actions s) = true ∧
      (after (actions ++ [.copy copy s]) copy).toStrings = (after actions s).toStrings) ∧
    ∀ changed ≠ s, ∀ later : List (Action ν),
      (∀ a ∈ later, a.target ≠ changed → a.other? ≠ some changed) →
      after (actions ++ later) s = after (actions ++ later.filter (·.target ≠ changed)) s := by
  have hholds := holds_after actions s
  refine ⟨⟨nodup_map_toString_keys _, map_toString_keys _⟩, hholds.toStrings, fun p => ?_,
    fun t => alike_iff, fun copy => ?_, fun changed hne later hlooks => ?_⟩
  · rw [contains_iff, hholds.mem_iff, List.mem_map]
  · rw [after_copy]
    exact ⟨alike_iff.mpr rfl, rfl⟩
  · rw [after, List.foldl_append, after, List.foldl_append]
    exact foldl_apply_filter (fun _ _ => rfl) hlooks s hne.symm

example : (after [.add 0 "/a/../b", .copy 1 0, .add 1 "/b/.", .add 1 "c"] 1).toStrings =
    ["/a/../b", "c"] := by decide

end PathSet
end MachTree
