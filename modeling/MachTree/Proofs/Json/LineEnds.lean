import MachTree.Proofs.Json.Reading
import MachTree.Text.Lines

/-! JSON texts without their line ends.  Between two parts of a text line ends are space and do not
count.  Within a string no line end may stand but three that are no control characters, so that a
text without these three is read alike without its line ends, and any other text is still read. -/
namespace MachTree

namespace Text

theorem isLineEnd_iff {c : Char} : isLineEnd c = true ↔
    (10 ≤ c.toNat ∧ c.toNat ≤ 13) ∨ (28 ≤ c.toNat ∧ c.toNat ≤ 30) ∨ c.toNat = 0x85 ∨
      c.toNat = 0x2028 ∨ c.toNat = 0x2029 := by
  have heq (d : Char) : c = d ↔ c.toNat = d.toNat :=
    ⟨congrArg Char.toNat, fun h => Char.ext (UInt32.toNat_inj.mp h)⟩
  have hle (d e : Char) : d ≤ e ↔ d.toNat ≤ e.toNat := UInt32.le_iff_toNat_le
  simp only [isLineEnd, Bool.or_eq_true, Bool.and_eq_true, decide_eq_true_iff, beq_iff_eq, heq, hle,
    or_assoc]
  rfl

end Text

namespace Json

open Text (isLineEnd)

variable {c : Char} {cs rest after body : List Char} {part : Part} {depth : Nat}

theorem isWritten_bounds (h : isWritten c = true) : 0x1f < c.toNat ∧ c.toNat < 0x80 := by
  have hletter (hc : c.isAlphanum = true) : 0x1f < c.toNat ∧ c.toNat < 0x80 := by
    change (decide (c.val ≥ 'A'.val ∧ c.val ≤ 'Z'.val) || (c.val ≥ 'a'.val && c.val ≤ 'z'.val) ||
      (c.val ≥ '0'.val && c.val ≤ '9'.val)) = true at hc
    simp only [Bool.or_eq_true, Bool.and_eq_true, decide_eq_true_iff, ge_iff_le,
      UInt32.le_iff_toNat_le] at hc
    rcases hc with (hc | hc) | hc <;>
      exact hc.imp (Nat.lt_of_lt_of_le (by decide)) (Nat.lt_of_le_of_lt · (by decide))
  simp only [isWritten, Bool.or_eq_true, beq_iff_eq] at h
  rcases h with ((h | rfl) | rfl) | rfl
  · exact hletter h
  all_goals decide

theorem startsPart_bounds (h : startsPart c = true) : 0x1f < c.toNat ∧ c.toNat < 0x80 := by
  simp only [startsPart, Bool.or_eq_true, beq_iff_eq] at h
  rcases h with ((rfl | rfl) | rfl) | h
  · decide
  · decide
  · decide
  · exact isWritten_bounds h

/-- What may come after a value: the end of the text, or what ends or goes on with a list or an
object, with space before it. -/
def Follows (cs : List Char) : Prop :=
  ∀ c ∈ (skipSpace cs).head?, c = ',' ∨ c = ']' ∨ c = '\x7d'

theorem Follows.endsNumber (h : Follows cs) : EndsNumber cs := by
  have hends : ∀ c ∈ cs.head?, c ∈ [' ', '\t', '\n', '\r', ',', ']', '\x7d'] := by
    intro c hc
    obtain ⟨rest, rfl⟩ := List.head?_eq_some_iff.mp hc
    cases hspace : isSpace c with
    | true =>
      simp only [isSpace, Bool.or_eq_true, beq_iff_eq] at hspace
      rcases hspace with ((rfl | rfl) | rfl) | rfl <;> decide
    | false =>
      have hnext := h c (by rw [skipSpace, List.dropWhile_cons_of_neg (by simp [hspace])]; rfl)
      rcases hnext with rfl | rfl | rfl <;> decide
  have hdifferent : ∀ c ∈ [' ', '\t', '\n', '\r', ',', ']', '\x7d'],
      c.isDigit = false ∧ c ≠ '.' ∧ c ≠ 'e' ∧ c ≠ 'E' := by simp
  exact ⟨fun c hc => (hdifferent c (hends c hc)).1, fun hc => (hdifferent _ (hends _ hc)).2.1 rfl,
    fun hc => (hdifferent _ (hends _ hc)).2.2.1 rfl,
    fun hc => (hdifferent _ (hends _ hc)).2.2.2 rfl⟩

theorem follows_of_skipSpace (h : skipSpace cs = c :: rest) (hc : c = ',' ∨ c = ']' ∨ c = '\x7d') :
    Follows cs := by
  intro d hd
  rw [h] at hd
  cases hd
  exact hc

theorem skipSpace_filter {keep : Char → Bool} (h : ∀ c ∈ (skipSpace cs).head?, keep c = true) :
    skipSpace (cs.filter keep) = (skipSpace cs).filter keep := by
  induction cs with
  | nil => rfl
  | cons c cs ih =>
    cases hspace : isSpace c with
    | true =>
      have hskip : skipSpace (c :: cs) = skipSpace cs := List.dropWhile_cons_of_pos hspace
      rw [hskip] at h ⊢
      rw [← ih h]
      cases hc : keep c with
      | true =>
        rw [List.filter_cons_of_pos hc]
        exact List.dropWhile_cons_of_pos hspace
      | false => rw [List.filter_cons_of_neg (by simp [hc])]
    | false =>
      have hskip : skipSpace (c :: cs) = c :: cs := List.dropWhile_cons_of_neg (by simp [hspace])
      rw [hskip] at h ⊢
      rw [List.filter_cons_of_pos (h c rfl)]
      exact List.dropWhile_cons_of_neg (by simp [hspace])

theorem skipSpace_filter_cons {keep : Char → Bool} (h : skipSpace cs = c :: rest)
    (hc : keep c = true) :
    skipSpace (cs.filter keep) = c :: rest.filter keep := by
  rw [skipSpace_filter (by simp [h, hc]), h, List.filter_cons_of_pos hc]

/-- That of a text only control characters are left out. -/
def DropsControl (keep : Char → Bool) (cs : List Char) : Prop :=
  ∀ c ∈ cs, keep c = false → c.toNat ≤ 0x1f

theorem DropsControl.of_suffix {keep : Char → Bool} (h : DropsControl keep cs)
    (hrest : rest <:+ cs) : DropsControl keep rest := fun c hc => h c (hrest.subset hc)

inductive Part.Alike : Part → Part → Prop
  | value {v v' : Json} : Alike (.value v) (.value v')
  | items {vs vs' : List Json} : Alike (.items vs) (.items vs')
  | members {fs fs' : List (Symbols × Json)} : Alike (.members fs) (.members fs')

/-- That a part is still read from a text without line ends, and read alike if only control
characters are left out. -/
def Part.Kept (keep : Char → Bool) (part : Part) (depth : Nat) (cs after : List Char) : Prop :=
  ∃ part', part'.Alike part ∧ Reads part' depth (cs.filter keep) (after.filter keep) ∧
    (DropsControl keep cs → part' = part)

section Filter

variable {keep : Char → Bool} (hkeep : ∀ c, keep c = false → isLineEnd c = true)
include hkeep

theorem keep_of_bounds (h : 0x1f < c.toNat ∧ c.toNat < 0x80) : keep c = true := by
  cases hc : keep c with
  | true => rfl
  | false =>
    have hend := Text.isLineEnd_iff.mp (hkeep c hc)
    omega

theorem Follows.filter (h : Follows cs) : Follows (cs.filter keep) := by
  have hnext : ∀ c ∈ (skipSpace cs).head?, keep c = true := fun c hc => by
    rcases h c hc with rfl | rfl | rfl <;> exact keep_of_bounds hkeep (by decide)
  intro c hc
  rw [skipSpace_filter hnext] at hc
  cases hskip : skipSpace cs with
  | nil =>
    rw [hskip] at hc
    cases hc
  | cons d rest =>
    have hd := hnext d (by rw [hskip]; rfl)
    rw [hskip, List.filter_cons_of_pos hd] at hc
    exact h c (by rw [hskip]; exact hc)

theorem Body.filter (h : Body body) : Body (body.filter keep) := by
  have hbackslash : keep '\\' = true := keep_of_bounds hkeep (by decide)
  induction h with
  | nil => exact .nil
  | @plain c cs hquote hne hcontrol _ ih =>
    cases hc : keep c with
    | true =>
      rw [List.filter_cons_of_pos hc]
      exact .plain hquote hne hcontrol ih
    | false =>
      rw [List.filter_cons_of_neg (by simp [hc])]
      exact ih
  | @simple c d cs hd _ ih =>
    have hbounds := simpleEscape?_bounds hd
    have hc : keep c = true := keep_of_bounds hkeep ⟨by omega, hbounds.2.1⟩
    rw [List.filter_cons_of_pos hbackslash, List.filter_cons_of_pos hc]
    exact .simple hd ih
  | @unit a b c d n cs hn _ ih =>
    have hfront : ('\\' :: 'u' :: a :: b :: c :: d :: cs).filter keep =
        '\\' :: 'u' :: a :: b :: c :: d :: cs.filter keep := by
      have hdigit : ∀ e ∈ [a, b, c, d], keep e = true := fun e he =>
        keep_of_bounds hkeep ((hex4?_bounds hn e he).imp_left Nat.lt_of_succ_lt)
      simp only [List.forall_mem_cons] at hdigit
      simp [hbackslash, keep_of_bounds hkeep (show 0x1f < 'u'.toNat ∧ _ by decide), hdigit]
    rw [hfront]
    exact .unit hn ih

theorem filter_written {front : List Char} (h : ∀ c ∈ front, isWritten c = true) (cs : List Char) :
    (front ++ cs).filter keep = front ++ cs.filter keep := by
  rw [List.filter_append, List.filter_eq_self.mpr fun c hc =>
    keep_of_bounds hkeep (isWritten_bounds (h c hc))]

/-- A string is still read, and read alike if nothing is left out of it. -/
theorem stringRest_filter {opening : List Char} {s : Symbols}
    (h : stringRest opening cs = .ok (s, after)) :
    ∃ s', (∀ opening', stringRest opening' (cs.filter keep) = .ok (s', after.filter keep)) ∧
      (DropsControl keep cs → s' = s) := by
  obtain ⟨body, hbody, rfl, hread⟩ := stringRest_local h
  obtain ⟨s', hs'⟩ := stringRest_body (hbody.filter hkeep)
  have hquote : keep '\x22' = true := keep_of_bounds hkeep (by decide)
  refine ⟨s', fun opening' => ?_, fun hcontrol => ?_⟩
  · rw [List.filter_append, List.filter_cons_of_pos hquote]
    exact hs' opening' _
  · have hsame : body.filter keep = body := List.filter_eq_self.mpr fun c hc => by
      cases hdropped : keep c with
      | true => rfl
      | false =>
        have hlow := hcontrol c (by simp [hc]) hdropped
        exact absurd (hbody.not_control c hc) (Nat.not_lt.mpr hlow)
    have hagain := hs' opening after
    rw [hsame, h] at hagain
    cases hagain
    rfl

theorem Reads.skipSpace_filter (h : Reads part depth (skipSpace cs) after) :
    skipSpace (cs.filter keep) = (skipSpace cs).filter keep := by
  obtain ⟨c, rest, hcs, hstarts⟩ := h.starts
  refine Json.skipSpace_filter fun d hd => ?_
  rw [hcs] at hd
  cases hd
  exact keep_of_bounds hkeep (startsPart_bounds hstarts)

theorem skipSpace_filter_mark (h : skipSpace cs = c :: rest)
    (hc : 0x1f < c.toNat ∧ c.toNat < 0x80) :
    skipSpace (cs.filter keep) = c :: rest.filter keep :=
  skipSpace_filter_cons h (keep_of_bounds hkeep hc)

theorem item_filter {v : Json} (hmark : skipSpace after = c :: rest)
    (hc : c = ',' ∨ c = ']' ∨ c = '\x7d')
    (ih : Follows after → (Part.value v).Kept keep depth cs after) :
    ∃ v', Reads (.value v') depth (cs.filter keep) (after.filter keep) ∧
      skipSpace (after.filter keep) = c :: rest.filter keep ∧ (DropsControl keep cs → v' = v) := by
  obtain ⟨part', halike, hvalue, hsame⟩ := ih (follows_of_skipSpace hmark hc)
  cases halike with | @value v' =>
  have hbounds : 0x1f < c.toNat ∧ c.toNat < 0x80 := by
    rcases hc with rfl | rfl | rfl <;> decide
  exact ⟨v', hvalue, skipSpace_filter_mark hkeep hmark hbounds,
    fun hc => Part.value.inj (hsame hc)⟩

theorem member_filter {name : Symbols} {v : Json} {opening rest' after' rest'' : List Char}
    (hname : stringRest opening rest = .ok (name, after)) (hcolon : skipSpace after = ':' :: rest')
    (hv : Reads (.value v) depth (skipSpace rest') after')
    (hmark : skipSpace after' = c :: rest'') (hc : c = ',' ∨ c = ']' ∨ c = '\x7d')
    (ih : Follows after' → (Part.value v).Kept keep depth (skipSpace rest') after') :
    ∃ name' v',
      (∀ opening', stringRest opening' (rest.filter keep) = .ok (name', after.filter keep)) ∧
      skipSpace (after.filter keep) = ':' :: rest'.filter keep ∧
      Reads (.value v') depth (skipSpace (rest'.filter keep)) (after'.filter keep) ∧
      skipSpace (after'.filter keep) = c :: rest''.filter keep ∧
      (DropsControl keep rest → (name', v') = (name, v)) := by
  obtain ⟨name', hname', hsame⟩ := stringRest_filter hkeep hname
  obtain ⟨v', hvalue, hmark', hsame'⟩ := item_filter hkeep hmark hc ih
  rw [← hv.skipSpace_filter hkeep] at hvalue
  refine ⟨name', v', hname', skipSpace_filter_mark hkeep hcolon (by decide), hvalue, hmark',
    fun hdrops => ?_⟩
  rw [hsame hdrops, hsame' (hdrops.of_suffix (suffix_of_name hname hcolon))]

/-- Without line ends a text is still read, and it is read alike if only control characters are left
out. -/
theorem Reads.filter (h : Reads part depth cs after) (hafter : Follows after) :
    part.Kept keep depth cs after := by
  -- along the grammar; what follows a part is carried along, as a number would go on with digits
  have hcons {c : Char} (hc : 0x1f < c.toNat ∧ c.toNat < 0x80) (cs : List Char) :
      (c :: cs).filter keep = c :: cs.filter keep :=
    List.filter_cons_of_pos (keep_of_bounds hkeep hc)
  induction h with
  | @string depth s rest after h =>
    obtain ⟨s', hs', hsame⟩ := stringRest_filter hkeep h
    refine ⟨.value (.string s'), .value, ?_, fun hc => ?_⟩
    · rw [hcons (by decide)]
      exact .string (hs' _)
    · rw [hsame (hc.of_suffix (List.suffix_cons _ _))]
  | @emptyArray depth rest after h =>
    refine ⟨.value (.array []), .value, ?_, fun _ => rfl⟩
    rw [hcons (by decide)]
    exact .emptyArray (skipSpace_filter_mark hkeep h (by decide))
  | @array depth vs rest after h ih =>
    obtain ⟨part', halike, hreads, hsame⟩ := ih hafter
    cases halike with | @items vs' =>
    rw [← h.skipSpace_filter hkeep] at hreads
    refine ⟨.value (.array vs'), .value, ?_, fun hc => ?_⟩
    · rw [hcons (by decide)]
      exact .array hreads
    · have hrest := (skipSpace_suffix rest).trans (List.suffix_cons '[' _)
      rw [Part.items.inj (hsame (hc.of_suffix hrest))]
  | @emptyObject depth rest after h =>
    refine ⟨.value (.object []), .value, ?_, fun _ => rfl⟩
    rw [hcons (by decide)]
    exact .emptyObject (skipSpace_filter_mark hkeep h (by decide))
  | @object depth fs rest after h ih =>
    obtain ⟨part', halike, hreads, hsame⟩ := ih hafter
    cases halike with | @members fs' =>
    rw [← h.skipSpace_filter hkeep] at hreads
    refine ⟨.value (ofFields fs'), .value, ?_, fun hc => ?_⟩
    · rw [hcons (by decide)]
      exact .object hreads
    · have hrest := (skipSpace_suffix rest).trans (List.suffix_cons '\x7b' _)
      rw [Part.members.inj (hsame (hc.of_suffix hrest))]
  | @scalar depth v cs after h =>
    obtain ⟨front, -, hwritten, rfl, hread⟩ := scalar_local h
    refine ⟨.value v, .value, ?_, fun _ => rfl⟩
    rw [filter_written hkeep hwritten]
    exact .scalar (hread _ (hafter.filter hkeep).endsNumber)
  | @lastItem depth v cs after rest hv hend ih =>
    obtain ⟨v', hvalue, hend', hsame⟩ := item_filter hkeep hend (by simp) ih
    refine ⟨.items [v'], .items, .lastItem hvalue hend', fun hc => ?_⟩
    rw [hsame hc]
  | @item depth v vs cs after rest rest' hv hcomma hvs ihv ihvs =>
    obtain ⟨v', hvalue, hcomma', hsame⟩ := item_filter hkeep hcomma (by simp) ihv
    obtain ⟨part', halike, hitems, hsame'⟩ := ihvs hafter
    cases halike with | @items vs' =>
    rw [← hvs.skipSpace_filter hkeep] at hitems
    refine ⟨.items (v' :: vs'), .items, .item hvalue hcomma' hitems, fun hc => ?_⟩
    have hrest := suffix_of_mark hcomma (hv.suffix.trans (List.tail_suffix cs))
    rw [hsame hc, Part.items.inj (hsame' (hc.of_suffix hrest))]
  | @lastMember depth v name rest after rest' after' rest'' hname hcolon hv hend ihv =>
    obtain ⟨name', v', hname', hcolon', hvalue, hend', hsame⟩ :=
      member_filter hkeep hname hcolon hv hend (by simp) ihv
    refine ⟨.members [(name', v')], .members, ?_, fun hc => ?_⟩
    · rw [hcons (by decide)]
      exact .lastMember (hname' _) hcolon' hvalue hend'
    · rw [hsame (hc.of_suffix (List.suffix_cons _ _))]
  | @member depth v fs name rest after rest' after' rest'' end' hname hcolon hv hcomma hfs ihv
      ihfs =>
    obtain ⟨name', v', hname', hcolon', hvalue, hcomma', hsame⟩ :=
      member_filter hkeep hname hcolon hv hcomma (by simp) ihv
    obtain ⟨part', halike, hmembers, hsame'⟩ := ihfs hafter
    cases halike with | @members fs' =>
    rw [← hfs.skipSpace_filter hkeep] at hmembers
    refine ⟨.members ((name', v') :: fs'), .members, ?_, fun hc => ?_⟩
    · rw [hcons (by decide)]
      exact .member (hname' _) hcolon' hvalue hcomma' hmembers
    · have hvalue := (List.tail_suffix _).trans (suffix_of_name hname hcolon)
      have hmore :=
        (suffix_of_mark hcomma (hv.suffix.trans hvalue)).trans (List.suffix_cons '\x22' _)
      rw [hsame (hc.of_suffix (List.suffix_cons _ _)),
        Part.members.inj (hsame' (hc.of_suffix hmore))]

/-- A text that holds a value still holds one without line ends, and the same one if only control
characters are left out. -/
theorem document_filter {v : Json} (h : document cs = .ok v) :
    ∃ v', document (cs.filter keep) = .ok v' ∧ (DropsControl keep cs → v' = v) := by
  obtain ⟨after, hreads, hend⟩ := document_eq_ok.mp h
  obtain ⟨part', halike, hreads', hsame⟩ := hreads.filter hkeep fun c hc => by
    rw [hend] at hc
    cases hc
  cases halike with | @value v' =>
  rw [← hreads.skipSpace_filter hkeep] at hreads'
  have hend' : skipSpace (after.filter keep) = [] := by
    rw [Json.skipSpace_filter (by simp [hend]), hend, List.filter_nil]
  refine ⟨v', document_eq_ok.mpr ⟨_, hreads', hend'⟩, fun hc => ?_⟩
  exact Part.value.inj (hsame (hc.of_suffix (skipSpace_suffix cs)))

end Filter

end Json
end MachTree
