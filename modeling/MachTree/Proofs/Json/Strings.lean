import MachTree.Json.Reader

/-! The strings of a JSON text.  What may stand between two quotes is told by a grammar; the reader
takes just that, and what it makes of it depends on nothing that comes after the closing quote. -/
namespace MachTree
namespace Json

/-- What may stand between the quotes of a string. -/
inductive Body : List Char → Prop
  | nil : Body []
  | plain {c : Char} {cs : List Char} : c ≠ '\x22' → c ≠ '\\' → 0x1f < c.toNat → Body cs →
      Body (c :: cs)
  | simple {c d : Char} {cs : List Char} : simpleEscape? c = some d → Body cs →
      Body ('\\' :: c :: cs)
  | unit {a b c d : Char} {n : Nat} {cs : List Char} : hex4? [a, b, c, d] = some n → Body cs →
      Body ('\\' :: 'u' :: a :: b :: c :: d :: cs)

variable {a b c d : Char} {n size : Nat} {cs rest after body opening : List Char} {x : Symbol}
  {s : Symbols}

theorem hexValue?_bounds (h : hexValue? c = some n) : 0x20 < c.toNat ∧ c.toNat < 0x80 := by
  have hbetween {low high : Char} (hc : low ≤ c ∧ c ≤ high) :
      low.toNat ≤ c.toNat ∧ c.toNat ≤ high.toNat :=
    hc.imp UInt32.le_iff_toNat_le.mp UInt32.le_iff_toNat_le.mp
  have hdigit : ('0' ≤ c ∧ c ≤ '9') ∨ ('a' ≤ c ∧ c ≤ 'f') ∨ ('A' ≤ c ∧ c ≤ 'F') := by
    rw [hexValue?] at h
    split at h
    · exact .inl ‹_›
    split at h
    · exact .inr (.inl ‹_›)
    split at h
    · exact .inr (.inr ‹_›)
    · cases h
  rcases hdigit with hc | hc | hc <;>
    exact (hbetween hc).imp (Nat.lt_of_lt_of_le (by decide)) (Nat.lt_of_le_of_lt · (by decide))

theorem simpleEscape?_bounds (h : simpleEscape? c = some d) :
    0x20 < c.toNat ∧ c.toNat < 0x80 ∧ c ≠ 'u' := by
  unfold simpleEscape? at h
  split at h <;> simp_all

/-- Four hexadecimal digits stand at the front of a text, and what follows them does not matter. -/
theorem hex4?_eq_some (h : hex4? cs = some n) :
    ∃ a b c d rest, cs = a :: b :: c :: d :: rest ∧ hex4? [a, b, c, d] = some n := by
  match cs with
  | a :: b :: c :: d :: rest => exact ⟨a, b, c, d, rest, rfl, h⟩

theorem hex4?_bounds (h : hex4? cs = some n) :
    ∀ c ∈ cs.take 4, 0x20 < c.toNat ∧ c.toNat < 0x80 := by
  obtain ⟨a, b, c, d, rest, rfl, h⟩ := hex4?_eq_some h
  simp only [hex4?, Option.bind_eq_bind, Option.bind_eq_some_iff] at h
  obtain ⟨_, ha, _, hb, _, hc, _, hd, -⟩ := h
  simpa using ⟨hexValue?_bounds ha, hexValue?_bounds hb, hexValue?_bounds hc, hexValue?_bounds hd⟩

theorem lowUnit?_eq_some {low : Nat} (h : lowUnit? cs = .ok (some low)) :
    ∃ a b c d rest, cs = '\\' :: 'u' :: a :: b :: c :: d :: rest ∧
      hex4? [a, b, c, d] = some low := by
  unfold lowUnit? at h
  split at h
  · rename_i more
    split at h
    · simp at h
    · cases hn : hex4? more with
      | none => simp [hn] at h
      | some n =>
        obtain ⟨a, b, c, d, rest, rfl, hdigits⟩ := hex4?_eq_some hn
        simp only [hn] at h
        split at h <;> cases h
        exact ⟨a, b, c, d, rest, rfl, hdigits⟩
  · simp at h

theorem body_of_escape (h : escape opening cs = .ok (x, size)) :
    ∃ front, cs = front ++ cs.drop size ∧ ∀ body, Body body → Body ('\\' :: (front ++ body)) := by
  unfold escape at h
  split at h
  · simp at h
  · rename_i rest
    split at h
    · simp at h
    · cases hn : hex4? rest with
      | none => simp [hn] at h
      | some n =>
        obtain ⟨a, b, c, d, more, rfl, hdigits⟩ := hex4?_eq_some hn
        have hone : ∃ front, 'u' :: a :: b :: c :: d :: more = front ++ more ∧
            ∀ body, Body body → Body ('\\' :: (front ++ body)) :=
          ⟨['u', a, b, c, d], rfl, fun body hbody => .unit hdigits hbody⟩
        simp only [hn] at h
        split at h
        · split at h
          · simp at h
          · rename_i low hlow
            obtain ⟨a', b', c', d', more', hmore, hdigits'⟩ := lowUnit?_eq_some hlow
            obtain rfl : more = '\\' :: 'u' :: a' :: b' :: c' :: d' :: more' := hmore
            obtain ⟨-, rfl⟩ : ofUnits n (some low) = _ ∧ 11 = size := by simpa using h
            exact ⟨['u', a, b, c, d, '\\', 'u', a', b', c', d'], rfl,
              fun body hbody => .unit hdigits (.unit hdigits' hbody)⟩
          · cases h
            exact hone
        · cases h
          exact hone
  · rename_i e rest _
    split at h
    · rename_i d hd
      cases h
      exact ⟨[e], rfl, fun body hbody => .simple hd hbody⟩
    · simp at h

theorem body_of_stringRest (h : stringRest opening cs = .ok (s, after)) :
    ∃ body, cs = body ++ '\x22' :: after ∧ Body body := by
  fun_induction stringRest opening cs generalizing s with
  | case1 | case3 | case4 | case6 | case7 => cases h
  | case2 rest =>
    cases h
    exact ⟨[], rfl, .nil⟩
  | case5 rest x size hescape s after' hrest hquote ih =>
    cases h
    obtain ⟨front, hfront, hbody⟩ := body_of_escape hescape
    obtain ⟨body, hcs, hinside⟩ := ih hrest
    exact ⟨'\\' :: (front ++ body), by rw [hfront, hcs]; simp, hbody body hinside⟩
  | case8 c rest hquote hbackslash hcontrol s after' hrest ih =>
    cases h
    obtain ⟨body, rfl, hinside⟩ := ih hrest
    exact ⟨c :: body, rfl, .plain hquote hbackslash (Nat.lt_of_not_le hcontrol) hinside⟩

theorem lowUnit?_unit (hn : hex4? [a, b, c, d] = some n) (hrest : rest ≠ []) :
    lowUnit? ('\\' :: 'u' :: a :: b :: c :: d :: rest) =
      .ok (if isLowSurrogate n then some n else none) := by
  have hlong : ¬ (a :: b :: c :: d :: rest).length ≤ 4 := by
    have := List.length_pos_iff.mpr hrest
    simp only [List.length_cons]
    omega
  have hhex : hex4? (a :: b :: c :: d :: rest) = some n := hn
  simp only [lowUnit?, if_neg hlong, hhex]

theorem escape_unit (opening : List Char) (hn : hex4? [a, b, c, d] = some n) (hrest : rest ≠ []) :
    escape opening ('u' :: a :: b :: c :: d :: rest) =
      if isHighSurrogate n then
        match lowUnit? rest with
        | .error e => .error e
        | .ok (some low) => .ok (ofUnits n (some low), 11)
        | .ok none => .ok (ofUnits n none, 5)
      else .ok (ofUnits n none, 5) := by
  have hlong : ¬ (a :: b :: c :: d :: rest).length ≤ 4 := by
    have := List.length_pos_iff.mpr hrest
    simp only [List.length_cons]
    omega
  have hhex : hex4? (a :: b :: c :: d :: rest) = some n := hn
  simp only [escape, if_neg hlong, hhex]
  rfl

theorem escape_simple (opening rest : List Char) (hd : simpleEscape? c = some d) :
    escape opening (c :: rest) = .ok (.char d, 1) := by
  have hne := (simpleEscape?_bounds hd).2.2
  rw [escape.eq_3 _ _ _ (by simpa using hne), hd]

/-- Within a string, the reader looks for the second half of a pair no farther than its quote. -/
theorem lowUnit?_body (h : Body cs) :
    (∃ low front more, cs = '\\' :: 'u' :: (front ++ more) ∧ front.length = 4 ∧ Body more ∧
      ∀ after, lowUnit? (cs ++ '\x22' :: after) = .ok (some low)) ∨
    ∀ after, lowUnit? (cs ++ '\x22' :: after) = .ok none := by
  cases h with
  | nil => exact .inr fun after => rfl
  | plain _ hbackslash _ h =>
    exact .inr fun after => lowUnit?.eq_2 _ fun _ heq => hbackslash (List.cons.inj heq).1
  | simple hd h =>
    have hne := (simpleEscape?_bounds hd).2.2
    exact .inr fun after => lowUnit?.eq_2 _ fun _ heq => hne (List.cons.inj (List.cons.inj heq).2).1
  | @unit a b c d n cs hn h =>
    have hread (after : List Char) :
        lowUnit? ('\\' :: 'u' :: a :: b :: c :: d :: (cs ++ '\x22' :: after)) =
          .ok (if isLowSurrogate n then some n else none) := lowUnit?_unit hn (by simp)
    by_cases hlow : isLowSurrogate n
    · exact .inl ⟨n, [a, b, c, d], cs, rfl, rfl, h, fun after =>
        (hread after).trans (by rw [if_pos hlow])⟩
    · exact .inr fun after => (hread after).trans (by rw [if_neg hlow])

theorem stringRest_body {body : List Char} (h : Body body) : ∃ s, ∀ opening after,
    stringRest opening (body ++ '\x22' :: after) = .ok (s, after) := by
  have hescaped (front more : List Char) (x : Symbol) (hmore : Body more)
      (hfront : body = '\\' :: (front ++ more)) (hescape : ∀ opening after,
        escape opening (front ++ (more ++ '\x22' :: after)) = .ok (x, front.length)) :
      ∃ s, ∀ opening after, stringRest opening (body ++ '\x22' :: after) = .ok (s, after) := by
    have hlength : more.length < body.length := by
      rw [hfront, List.length_cons, List.length_append]
      omega
    obtain ⟨s, hs⟩ := stringRest_body hmore
    refine ⟨x :: s, fun opening after => ?_⟩
    rw [hfront, List.cons_append, List.append_assoc, stringRest, if_neg (by decide), if_pos rfl,
      hescape]
    simp only [List.drop_left, hs]
  cases h with
  | nil => exact ⟨[], fun opening after => by rw [List.nil_append, stringRest, if_pos rfl]⟩
  | @plain c cs hquote hbackslash hcontrol h =>
    obtain ⟨s, hs⟩ := stringRest_body h
    refine ⟨.char c :: s, fun opening after => ?_⟩
    rw [List.cons_append, stringRest, if_neg hquote, if_neg hbackslash,
      if_neg (Nat.not_le.mpr hcontrol), hs]
  | @simple c d cs hd h =>
    exact hescaped [c] cs (.char d) h rfl fun opening after => escape_simple opening _ hd
  | @unit a b c d n cs hn h =>
    have hunit (opening after : List Char) :=
      escape_unit opening hn (show cs ++ '\x22' :: after ≠ [] by simp)
    by_cases hhigh : isHighSurrogate n
    · rcases lowUnit?_body h with ⟨low, digits, more, rfl, hdigits, hmore, hlow⟩ | hnone
      · refine hescaped ('u' :: a :: b :: c :: d :: '\\' :: 'u' :: digits) more
          (ofUnits n (some low)) hmore rfl fun opening after => ?_
        have hpair := hunit opening after
        rw [if_pos hhigh, hlow] at hpair
        simpa [hdigits] using hpair
      · refine hescaped ['u', a, b, c, d] cs (ofUnits n none) h rfl fun opening after => ?_
        have halone := hunit opening after
        rw [if_pos hhigh, hnone] at halone
        exact halone
    · refine hescaped ['u', a, b, c, d] cs (ofUnits n none) h rfl fun opening after => ?_
      have hsingle := hunit opening after
      rw [if_neg hhigh] at hsingle
      exact hsingle
termination_by body.length

theorem stringRest_local (h : stringRest opening cs = .ok (s, after)) :
    ∃ body, Body body ∧ cs = body ++ '\x22' :: after ∧
      ∀ opening' after', stringRest opening' (body ++ '\x22' :: after') = .ok (s, after') := by
  obtain ⟨body, rfl, hbody⟩ := body_of_stringRest h
  obtain ⟨s', hs'⟩ := stringRest_body hbody
  obtain rfl : s' = s := by
    rw [hs'] at h
    cases h
    rfl
  exact ⟨body, hbody, rfl, hs'⟩

/-- That a text may stand between two quotes as it is. -/
def IsPlain (cs : List Char) : Prop := ∀ c ∈ cs, c ≠ '\x22' ∧ c ≠ '\\' ∧ 0x1f < c.toNat

instance (cs : List Char) : Decidable (IsPlain cs) := List.decidableBAll _ cs

theorem stringRest_plain (h : IsPlain cs) (opening rest : List Char) :
    stringRest opening (cs ++ '\x22' :: rest) = .ok (cs.map .char, rest) := by
  induction cs with
  | nil => rw [List.nil_append, stringRest, if_pos rfl, List.map_nil]
  | cons c cs ih =>
    obtain ⟨⟨hquote, hbackslash, hcontrol⟩, hcs⟩ := List.forall_mem_cons.mp h
    rw [List.cons_append, stringRest, if_neg hquote, if_neg hbackslash,
      if_neg (Nat.not_le.mpr hcontrol), ih hcs, List.map_cons]

theorem Body.not_control {body : List Char} (h : Body body) : ∀ c ∈ body, 0x1f < c.toNat := by
  induction h with
  | nil => simp
  | plain _ _ hcontrol _ ih => simpa using ⟨hcontrol, ih⟩
  | simple hd _ ih =>
    have hlow := (simpleEscape?_bounds hd).1
    simpa using ⟨by omega, ih⟩
  | @unit a b c d n cs hn _ ih =>
    intro e he
    rcases List.mem_append.mp (show e ∈ ['\\', 'u'] ++ ([a, b, c, d] ++ cs) from he) with he | he
    · rcases List.mem_cons.mp he with rfl | he
      · decide
      · rw [List.mem_singleton.mp he]
        decide
    rcases List.mem_append.mp he with he | he
    · exact Nat.lt_of_succ_lt (hex4?_bounds hn e he).1
    · exact ih e he

end Json
end MachTree
