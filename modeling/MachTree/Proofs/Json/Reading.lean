import MachTree.Proofs.Json.Scalars
import MachTree.Proofs.Json.Strings

/-! How JSON texts are read, apart from the bound on the reader's steps.  A part of a text is a
value, the rest of a list or the rest of an object; it is read as its grammar tells, and the reader
reads it so as soon as it may take enough steps. -/
namespace MachTree
namespace Json

inductive Part
  | value (v : Json)
  /-- the rest of a list, from a value on -/
  | items (vs : List Json)
  /-- the rest of an object, from a name on -/
  | members (fs : List (Symbols × Json))

/-- That a part is read from the front of a text where so many brackets may be opened, and what is
left of the text. -/
inductive Reads : Part → Nat → List Char → List Char → Prop
  | string {depth : Nat} {s : Symbols} {rest after : List Char} :
      stringRest ('\x22' :: rest) rest = .ok (s, after) →
      Reads (.value (.string s)) depth ('\x22' :: rest) after
  | emptyArray {depth : Nat} {rest after : List Char} : skipSpace rest = ']' :: after →
      Reads (.value (.array [])) (depth + 1) ('[' :: rest) after
  | array {depth : Nat} {vs : List Json} {rest after : List Char} :
      Reads (.items vs) depth (skipSpace rest) after →
      Reads (.value (.array vs)) (depth + 1) ('[' :: rest) after
  | emptyObject {depth : Nat} {rest after : List Char} : skipSpace rest = '\x7d' :: after →
      Reads (.value (.object [])) (depth + 1) ('\x7b' :: rest) after
  | object {depth : Nat} {fs : List (Symbols × Json)} {rest after : List Char} :
      Reads (.members fs) depth (skipSpace rest) after →
      Reads (.value (ofFields fs)) (depth + 1) ('\x7b' :: rest) after
  | scalar {depth : Nat} {v : Json} {cs after : List Char} : scalar cs = .ok (v, after) →
      Reads (.value v) depth cs after
  | lastItem {depth : Nat} {v : Json} {cs after rest : List Char} :
      Reads (.value v) depth cs after → skipSpace after = ']' :: rest →
      Reads (.items [v]) depth cs rest
  | item {depth : Nat} {v : Json} {vs : List Json} {cs after rest rest' : List Char} :
      Reads (.value v) depth cs after → skipSpace after = ',' :: rest →
      Reads (.items vs) depth (skipSpace rest) rest' → Reads (.items (v :: vs)) depth cs rest'
  | lastMember {depth : Nat} {v : Json} {name : Symbols}
      {rest after rest' after' rest'' : List Char} :
      stringRest ('\x22' :: rest) rest = .ok (name, after) → skipSpace after = ':' :: rest' →
      Reads (.value v) depth (skipSpace rest') after' → skipSpace after' = '\x7d' :: rest'' →
      Reads (.members [(name, v)]) depth ('\x22' :: rest) rest''
  | member {depth : Nat} {v : Json} {fs : List (Symbols × Json)}
      {name : Symbols} {rest after rest' after' rest'' end' : List Char} :
      stringRest ('\x22' :: rest) rest = .ok (name, after) → skipSpace after = ':' :: rest' →
      Reads (.value v) depth (skipSpace rest') after' → skipSpace after' = ',' :: rest'' →
      Reads (.members fs) depth (skipSpace rest'') end' →
      Reads (.members ((name, v) :: fs)) depth ('\x22' :: rest) end'

variable {part : Part} {depth : Nat} {cs after : List Char}

/-- That the reader, with a bound on its steps, takes a part from the front of a text. -/
def Part.Taken (fuel depth : Nat) (cs after : List Char) : Part → Prop
  | value v => valueFrom fuel depth cs = .ok (v, after)
  | items vs => itemsFrom fuel depth cs = .ok (vs, after)
  | members fs => membersFrom fuel depth cs = .ok (fs, after)

section Step

variable {fuel : Nat} (ih : ∀ {part : Part} {depth : Nat} {cs after : List Char},
  part.Taken fuel depth cs after → Reads part depth cs after)
include ih

theorem reads_of_valueFrom {v : Json} (h : valueFrom (fuel + 1) depth cs = .ok (v, after)) :
    Reads (.value v) depth cs after := by
  have hitems {vs : List Json} {depth : Nat} {cs after : List Char}
      (h : itemsFrom fuel depth cs = .ok (vs, after)) : Reads (.items vs) depth cs after := ih h
  have hmembers {fs : List (Symbols × Json)} {depth : Nat} {cs after : List Char}
      (h : membersFrom fuel depth cs = .ok (fs, after)) : Reads (.members fs) depth cs after := ih h
  unfold valueFrom at h
  split at h
  · cases h
  rename_i c rest
  split at h
  · rename_i hc
    subst hc
    split at h
    · rename_i hstring
      cases h
      exact .string hstring
    · cases h
  split at h
  · rename_i hc
    subst hc
    split at h
    · cases h
    split at h
    · rename_i hempty
      cases h
      exact .emptyArray hempty
    · split at h
      · rename_i hvs
        cases h
        exact .array (hitems hvs)
      · cases h
  split at h
  · rename_i hc
    subst hc
    split at h
    · cases h
    split at h
    · rename_i hempty
      cases h
      exact .emptyObject hempty
    · split at h
      · rename_i hfs
        cases h
        exact .object (hmembers hfs)
      · cases h
  · exact .scalar h

theorem reads_of_itemsFrom {vs : List Json} (h : itemsFrom (fuel + 1) depth cs = .ok (vs, after)) :
    Reads (.items vs) depth cs after := by
  rw [itemsFrom] at h
  split at h
  · cases h
  rename_i v after' hv
  have hvalue : Reads (.value v) depth cs after' := ih hv
  split at h
  · rename_i hrest
    cases h
    exact .lastItem hvalue hrest
  · rename_i rest hrest
    split at h
    · rename_i vs' rest' hvs
      have hitems : Reads (.items vs') depth (skipSpace rest) rest' := ih hvs
      cases h
      exact .item hvalue hrest hitems
    · cases h
  · cases h

theorem reads_of_membersFrom {fs : List (Symbols × Json)}
    (h : membersFrom (fuel + 1) depth cs = .ok (fs, after)) :
    Reads (.members fs) depth cs after := by
  unfold membersFrom at h
  split at h
  · rename_i rest
    split at h
    · cases h
    rename_i name after' hname
    split at h
    · rename_i rest' hcolon
      split at h
      · cases h
      rename_i v after'' hv
      have hvalue : Reads (.value v) depth (skipSpace rest') after'' := ih hv
      split at h
      · rename_i hrest
        cases h
        exact .lastMember hname hcolon hvalue hrest
      · rename_i rest'' hrest
        split at h
        · rename_i fs' end' hfs
          have hmembers : Reads (.members fs') depth (skipSpace rest'') end' := ih hfs
          cases h
          exact .member hname hcolon hvalue hrest hmembers
        · cases h
      · cases h
    · cases h
  · cases h

end Step

theorem Part.Taken.reads {fuel : Nat} (h : part.Taken fuel depth cs after) :
    Reads part depth cs after := by
  induction fuel generalizing part depth cs after with
  | zero => cases part <;> simp [Taken, valueFrom, itemsFrom, membersFrom] at h
  | succ fuel ih =>
    cases part with
    | value v => exact reads_of_valueFrom ih h
    | items vs => exact reads_of_itemsFrom ih h
    | members fs => exact reads_of_membersFrom ih h

def startsPart (c : Char) : Bool := c == '\x22' || c == '[' || c == '\x7b' || isWritten c

theorem Reads.starts (h : Reads part depth cs after) :
    ∃ c rest, cs = c :: rest ∧ startsPart c = true := by
  induction h with
  | string | emptyArray | array | emptyObject | object | lastMember | member =>
    exact ⟨_, _, rfl, by decide⟩
  | scalar h =>
    obtain ⟨front, hne, hwritten, rfl, -⟩ := scalar_local h
    obtain ⟨c, rest, rfl⟩ := List.exists_cons_of_ne_nil hne
    exact ⟨c, _, rfl, by simp [startsPart, hwritten c (by simp)]⟩
  | lastItem _ _ ih => exact ih
  | item _ _ _ ih _ => exact ih

theorem Reads.ne_nil (h : Reads part depth cs after) : cs ≠ [] := by
  obtain ⟨c, rest, rfl, -⟩ := h.starts
  exact List.cons_ne_nil c rest

theorem skipSpace_suffix (cs : List Char) : skipSpace cs <:+ cs := List.dropWhile_suffix _

theorem suffix_of_skipSpace {c : Char} {rest : List Char} (h : skipSpace cs = c :: rest) :
    rest <:+ cs := (List.suffix_cons c rest).trans (h ▸ skipSpace_suffix cs)

theorem suffix_of_stringRest {opening : List Char} {s : Symbols}
    (h : stringRest opening cs = .ok (s, after)) :
    after <:+ cs := by
  obtain ⟨body, -, rfl, -⟩ := stringRest_local h
  exact (List.suffix_cons _ _).trans (List.suffix_append _ _)

theorem suffix_of_mark {c : Char} {rest : List Char} (hmark : skipSpace after = c :: rest)
    (hafter : after <:+ cs) : skipSpace rest <:+ cs :=
  (skipSpace_suffix _).trans ((suffix_of_skipSpace hmark).trans hafter)

theorem suffix_of_name {opening : List Char} {name : Symbols} {rest : List Char}
    (hname : stringRest opening cs = .ok (name, after)) (hcolon : skipSpace after = ':' :: rest) :
    skipSpace rest <:+ cs :=
  suffix_of_mark hcolon (suffix_of_stringRest hname)

theorem Reads.suffix (h : Reads part depth cs after) : after <:+ cs.tail := by
  induction h with
  | string h => exact suffix_of_stringRest h
  | emptyArray h | emptyObject h => exact suffix_of_skipSpace h
  | array _ ih | object _ ih => exact ih.trans ((List.tail_suffix _).trans (skipSpace_suffix _))
  | scalar h =>
    obtain ⟨front, hne, -, rfl, -⟩ := scalar_local h
    obtain ⟨c, rest, rfl⟩ := List.exists_cons_of_ne_nil hne
    exact List.suffix_append _ _
  | lastItem _ hend ih => exact (suffix_of_skipSpace hend).trans ih
  | item _ hcomma _ ihv ihvs =>
    exact ihvs.trans ((List.tail_suffix _).trans (suffix_of_mark hcomma ihv))
  | lastMember hname hcolon _ hend ihv =>
    have hvalue := ihv.trans ((List.tail_suffix _).trans (suffix_of_name hname hcolon))
    exact (suffix_of_skipSpace hend).trans hvalue
  | member hname hcolon _ hcomma _ ihv ihfs =>
    have hvalue := ihv.trans ((List.tail_suffix _).trans (suffix_of_name hname hcolon))
    exact ihfs.trans ((List.tail_suffix _).trans (suffix_of_mark hcomma hvalue))

theorem Reads.length_lt (h : Reads part depth cs after) : after.length < cs.length := by
  have hle := h.suffix.length_le
  have hpos := List.length_pos_iff.mpr h.ne_nil
  rw [List.length_tail] at hle
  omega

theorem length_skipSpace_le (cs : List Char) : (skipSpace cs).length ≤ cs.length :=
  (skipSpace_suffix cs).length_le

theorem length_of_mark {c : Char} {rest : List Char} (hmark : skipSpace after = c :: rest) :
    (skipSpace rest).length < after.length := by
  have hafter := length_skipSpace_le after
  have hrest := length_skipSpace_le rest
  rw [hmark, List.length_cons] at hafter
  omega

theorem length_of_name {opening : List Char} {name : Symbols} {rest : List Char}
    (hname : stringRest opening cs = .ok (name, after)) (hcolon : skipSpace after = ':' :: rest) :
    (skipSpace rest).length < cs.length :=
  (length_of_mark hcolon).trans_le (suffix_of_stringRest hname).length_le

/-- A number of steps that is enough for a part at the front of a text. -/
def Part.steps (cs : List Char) : Part → Nat
  | value _ => 2 * cs.length
  | items _ | members _ => 2 * cs.length + 1

section Fuel

variable {fuel : Nat} {rest : List Char}

theorem valueFrom_array {vs : List Json} (hstart : ∀ after, skipSpace rest ≠ ']' :: after)
    (h : itemsFrom fuel depth (skipSpace rest) = .ok (vs, after)) :
    valueFrom (fuel + 1) (depth + 1) ('[' :: rest) = .ok (.array vs, after) := by
  have hquote : ¬ '[' = '\x22' := by decide
  simp only [valueFrom, if_neg hquote, if_true, h]

theorem valueFrom_object {fs : List (Symbols × Json)}
    (hstart : ∀ after, skipSpace rest ≠ '\x7d' :: after)
    (h : membersFrom fuel depth (skipSpace rest) = .ok (fs, after)) :
    valueFrom (fuel + 1) (depth + 1) ('\x7b' :: rest) = .ok (ofFields fs, after) := by
  have hquote : ¬ '\x7b' = '\x22' := by decide
  have hbracket : ¬ '\x7b' = '[' := by decide
  simp only [valueFrom, if_neg hquote, if_neg hbracket, if_true, h]

theorem valueFrom_scalar {v : Json} (h : scalar cs = .ok (v, after)) :
    valueFrom (fuel + 1) depth cs = .ok (v, after) := by
  obtain ⟨front, hne, hwritten, rfl, -⟩ := scalar_local h
  obtain ⟨c, rest, rfl⟩ := List.exists_cons_of_ne_nil hne
  have hc : ∀ d, isWritten d = false → ¬ c = d := by
    rintro d hd rfl
    rw [hwritten c (by simp)] at hd
    cases hd
  rw [List.cons_append] at h ⊢
  simp only [valueFrom, if_neg (hc '\x22' (by decide)), if_neg (hc '[' (by decide)),
    if_neg (hc '\x7b' (by decide)), h]

end Fuel

theorem Reads.skipSpace_ne {c : Char} {rest : List Char} (h : Reads part depth (skipSpace cs) after)
    (hc : startsPart c = false) : skipSpace cs ≠ c :: rest := by
  obtain ⟨d, more, hd, hstarts⟩ := h.starts
  rw [hd]
  rintro heq
  cases heq
  rw [hc] at hstarts
  cases hstarts

theorem Reads.skipSpace_eq (h : Reads part depth cs after) : skipSpace cs = cs := by
  obtain ⟨c, rest, rfl, hstarts⟩ := h.starts
  refine List.dropWhile_cons_of_neg fun hspace => ?_
  have hspaces : ∀ d, isSpace d = true → startsPart d = false := by
    intro d hd
    simp only [isSpace, Bool.or_eq_true, beq_iff_eq] at hd
    rcases hd with ((rfl | rfl) | rfl) | rfl <;> decide
  rw [hspaces c hspace] at hstarts
  cases hstarts

theorem Part.exists_step {fuel : Nat} (h : cs ≠ []) (hfuel : part.steps cs ≤ fuel) :
    ∃ n, fuel = n + 1 := by
  have hlength := List.length_pos_iff.mpr h
  refine Nat.exists_eq_add_one_of_ne_zero ?_
  cases part <;> simp only [steps] at hfuel <;> omega

/-- What is read as its grammar tells, the reader takes when it may take enough steps. -/
theorem Reads.taken (h : Reads part depth cs after) :
    ∀ fuel, part.steps cs ≤ fuel → part.Taken fuel depth cs after := by
  -- every part that a rule starts with has less text left than the part that the rule is for
  induction h with
  | string h =>
    intro fuel hfuel
    obtain ⟨fuel, rfl⟩ := Part.exists_step (List.cons_ne_nil _ _) hfuel
    simp only [Part.Taken, valueFrom, if_true, h]
  | emptyArray h =>
    intro fuel hfuel
    obtain ⟨fuel, rfl⟩ := Part.exists_step (List.cons_ne_nil _ _) hfuel
    have hquote : ¬ '[' = '\x22' := by decide
    simp only [Part.Taken, valueFrom, if_neg hquote, if_true, h]
  | @array _ _ rest _ h ih =>
    intro fuel hfuel
    obtain ⟨fuel, rfl⟩ := Part.exists_step (List.cons_ne_nil _ _) hfuel
    refine valueFrom_array (fun _ => h.skipSpace_ne (by decide)) (ih fuel ?_)
    have hskip := length_skipSpace_le rest
    simp only [Part.steps, List.length_cons] at hfuel ⊢
    omega
  | emptyObject h =>
    intro fuel hfuel
    obtain ⟨fuel, rfl⟩ := Part.exists_step (List.cons_ne_nil _ _) hfuel
    have hquote : ¬ '\x7b' = '\x22' := by decide
    have hbracket : ¬ '\x7b' = '[' := by decide
    simp only [Part.Taken, valueFrom, if_neg hquote, if_neg hbracket, if_true, h]
  | @object _ _ rest _ h ih =>
    intro fuel hfuel
    obtain ⟨fuel, rfl⟩ := Part.exists_step (List.cons_ne_nil _ _) hfuel
    refine valueFrom_object (fun _ => h.skipSpace_ne (by decide)) (ih fuel ?_)
    have hskip := length_skipSpace_le rest
    simp only [Part.steps, List.length_cons] at hfuel ⊢
    omega
  | @scalar depth _ _ _ h =>
    intro fuel hfuel
    have hreads : Reads (.value _) depth _ _ := .scalar h
    obtain ⟨fuel, rfl⟩ := Part.exists_step hreads.ne_nil hfuel
    exact valueFrom_scalar h
  | lastItem hv hend ihv =>
    intro fuel hfuel
    obtain ⟨fuel, rfl⟩ := Part.exists_step hv.ne_nil hfuel
    simp only [Part.steps] at hfuel
    have hvalue := ihv fuel (by simp only [Part.steps]; omega)
    rw [Part.Taken] at hvalue
    simp only [Part.Taken, itemsFrom, hvalue, hend]
  | item hv hcomma hvs ihv ihvs =>
    intro fuel hfuel
    obtain ⟨fuel, rfl⟩ := Part.exists_step hv.ne_nil hfuel
    have hlength := hv.length_lt
    have hmore := length_of_mark hcomma
    simp only [Part.steps] at hfuel
    have hvalue := ihv fuel (by simp only [Part.steps]; omega)
    have hitems := ihvs fuel (by simp only [Part.steps]; omega)
    simp only [Part.Taken] at hvalue hitems
    simp only [Part.Taken, itemsFrom, hvalue, hcomma, hitems]
  | lastMember hname hcolon hv hend ihv =>
    intro fuel hfuel
    obtain ⟨fuel, rfl⟩ := Part.exists_step (List.cons_ne_nil _ _) hfuel
    have hlength := length_of_name hname hcolon
    simp only [Part.steps, List.length_cons] at hfuel
    have hvalue := ihv fuel (by simp only [Part.steps]; omega)
    rw [Part.Taken] at hvalue
    simp only [Part.Taken, membersFrom, hname, hcolon, hvalue, hend]
  | member hname hcolon hv hcomma hfs ihv ihfs =>
    intro fuel hfuel
    obtain ⟨fuel, rfl⟩ := Part.exists_step (List.cons_ne_nil _ _) hfuel
    have hlength := length_of_name hname hcolon
    have hrest := hv.length_lt
    have hmore := length_of_mark hcomma
    simp only [Part.steps, List.length_cons] at hfuel
    have hvalue := ihv fuel (by simp only [Part.steps]; omega)
    have hmembers := ihfs fuel (by simp only [Part.steps]; omega)
    simp only [Part.Taken] at hvalue hmembers
    simp only [Part.Taken, membersFrom, hname, hcolon, hvalue, hcomma, hmembers]

def inQuotes (s : String) (rest : List Char) : List Char := '\x22' :: (s.toList ++ '\x22' :: rest)

section InQuotes

variable {v : Json} {name s : String} {rest : List Char} (hname : IsPlain name.toList)

theorem Reads.inQuotes (hs : IsPlain s.toList) (depth : Nat) (rest : List Char) :
    Reads (.value (.string s)) depth (inQuotes s rest) rest := .string (stringRest_plain hs _ _)

include hname

theorem Reads.lastInQuotes (hv : Reads (.value v) depth cs ('\x7d' :: rest)) :
    Reads (.members [Json.entry name v]) depth (Json.inQuotes name (':' :: cs)) rest :=
  .lastMember (stringRest_plain hname _ _) rfl (hv.skipSpace_eq.symm ▸ hv) rfl

theorem Reads.memberInQuotes {fs : List (Symbols × Json)}
    (hv : Reads (.value v) depth cs (',' :: rest)) (hfs : Reads (.members fs) depth rest after) :
    Reads (.members (Json.entry name v :: fs)) depth (Json.inQuotes name (':' :: cs)) after :=
  .member (stringRest_plain hname _ _) rfl (hv.skipSpace_eq.symm ▸ hv) rfl
    (hfs.skipSpace_eq.symm ▸ hfs)

end InQuotes

variable {v : Json}

theorem reads_iff {fuel : Nat} (hfuel : 2 * cs.length ≤ fuel) :
    valueFrom fuel depth cs = .ok (v, after) ↔ Reads (.value v) depth cs after :=
  ⟨fun h => (show (Part.value v).Taken fuel depth cs after from h).reads,
    fun h => h.taken fuel hfuel⟩

theorem document_eq_ok : document cs = .ok v ↔
    ∃ after, Reads (.value v) maxDepth (skipSpace cs) after ∧ skipSpace after = [] := by
  have hskip := length_skipSpace_le cs
  have hreads (after : List Char) :
      valueFrom (2 * cs.length + 2) maxDepth (skipSpace cs) = .ok (v, after) ↔
        Reads (.value v) maxDepth (skipSpace cs) after := reads_iff (by omega)
  have hmark (hhead : cs.head? = some '\ufeff') (after : List Char) :
      ¬ Reads (.value v) maxDepth (skipSpace cs) after := by
    intro h
    obtain ⟨rest, rfl⟩ := List.head?_eq_some_iff.mp hhead
    exact h.skipSpace_ne (by decide) rfl
  rw [document]
  constructor
  · intro h
    split at h
    · cases h
    split at h
    · cases h
    rename_i after hvalue
    split at h <;> cases h
    rename_i hend
    exact ⟨after, (hreads after).mp hvalue, hend⟩
  · rintro ⟨after, h, hend⟩
    rw [if_neg fun hhead => hmark hhead after h, (hreads after).mpr h]
    simp only [hend]

theorem parse_eq_ok {text : String} : parse text = .ok v ↔ document text.toList = .ok v := by
  rw [parse]
  rcases document text.toList with (what | digits | kind) | v' <;> simp

end Json
end MachTree
