import MachTree.Text.Bytes

/-! Texts as bytes and back.  The bytes that write a text are decoded as that text, whatever
characters are in it. -/
namespace MachTree
namespace Utf8

theorem toNat_ofNat_of_lt {n : Nat} (h : n < 256) : (UInt8.ofNat n).toNat = n :=
  Nat.mod_eq_of_lt h

theorem isContinuation_iff {b : UInt8} :
    isContinuation b = true ↔ 0x80 ≤ b.toNat ∧ b.toNat < 0xc0 := by
  simp [isContinuation, UInt8.le_iff_toNat_le, UInt8.lt_iff_toNat_lt]

theorem isContinuation_carrier (n : Nat) : isContinuation (UInt8.ofNat (n % 64 + 128)) = true := by
  rw [isContinuation_iff, toNat_ofNat_of_lt (by omega)]
  omega

theorem payload_carrier (n : Nat) : payload (UInt8.ofNat (n % 64 + 128)) = n % 64 := by
  have hcarrier := toNat_ofNat_of_lt (n := n % 64 + 128) (by omega)
  unfold payload
  omega

theorem secondByteOk_iff {lead second : UInt8} : secondByteOk lead second = true ↔
    isContinuation second = true ∧ (lead.toNat = 0xe0 → 0xa0 ≤ second.toNat) ∧
      (lead.toNat = 0xed → second.toNat < 0xa0) ∧ (lead.toNat = 0xf0 → 0x90 ≤ second.toNat) ∧
      (lead.toNat = 0xf4 → second.toNat < 0x90) := by
  simp [secondByteOk, ← UInt8.toNat_inj, UInt8.le_iff_toNat_le, UInt8.lt_iff_toNat_lt, and_assoc,
    Decidable.imp_iff_not_or]

section Front

variable {lead b₁ b₂ b₃ : UInt8} {rest : List UInt8}

theorem front_one (h : lead.toNat < 0x80) :
    front lead rest = .char (Char.ofNat lead.toNat) 0 := by
  rw [front.eq_def, if_pos (UInt8.lt_iff_toNat_lt.mpr h)]

theorem front_lead (h : 0xc2 ≤ lead.toNat) (h' : lead.toNat < 0xf5) :
    ¬ lead < 0x80 ∧ ¬ (decide (lead < 0xc2) || decide (0xf5 ≤ lead)) = true := by
  simp [UInt8.le_iff_toNat_le, UInt8.lt_iff_toNat_lt]
  omega

theorem front_two (h : 0xc2 ≤ lead.toNat) (h' : lead.toNat < 0xe0)
    (h₁ : secondByteOk lead b₁ = true) :
    front lead (b₁ :: rest) = .char (Char.ofNat ((lead.toNat - 0xc0) * 64 + payload b₁)) 1 := by
  obtain ⟨hone, hlead⟩ := front_lead h (by omega)
  have htwo : lead < 0xe0 := UInt8.lt_iff_toNat_lt.mpr h'
  simp only [front, if_neg hone, if_neg hlead, h₁, Bool.not_true, Bool.false_eq_true, if_false,
    if_pos htwo]

theorem front_three (h : 0xe0 ≤ lead.toNat) (h' : lead.toNat < 0xf0)
    (h₁ : secondByteOk lead b₁ = true) (h₂ : isContinuation b₂ = true) :
    front lead (b₁ :: b₂ :: rest) = .char (Char.ofNat
      (((lead.toNat - 0xe0) * 64 + payload b₁) * 64 + payload b₂)) 2 := by
  obtain ⟨hone, hlead⟩ := front_lead (by omega) (by omega : lead.toNat < 0xf5)
  have htwo : ¬ lead < 0xe0 := fun hlt => absurd (UInt8.lt_iff_toNat_lt.mp hlt) (Nat.not_lt.mpr h)
  have hthree : lead < 0xf0 := UInt8.lt_iff_toNat_lt.mpr h'
  simp only [front, if_neg hone, if_neg hlead, h₁, h₂, Bool.not_true, Bool.false_eq_true, if_false,
    if_neg htwo, if_pos hthree]

theorem front_four (h : 0xf0 ≤ lead.toNat) (h' : lead.toNat < 0xf5)
    (h₁ : secondByteOk lead b₁ = true) (h₂ : isContinuation b₂ = true)
    (h₃ : isContinuation b₃ = true) :
    front lead (b₁ :: b₂ :: b₃ :: rest) = .char (Char.ofNat
      ((((lead.toNat - 0xf0) * 64 + payload b₁) * 64 + payload b₂) * 64 + payload b₃)) 3 := by
  obtain ⟨hone, hlead⟩ := front_lead (by omega) h'
  have htwo : ¬ lead < 0xe0 := fun hlt =>
    absurd (UInt8.lt_iff_toNat_lt.mp hlt) (Nat.not_lt.mpr (Nat.le_trans (by decide) h))
  have hthree : ¬ lead < 0xf0 := fun hlt => absurd (UInt8.lt_iff_toNat_lt.mp hlt) (Nat.not_lt.mpr h)
  simp only [front, if_neg hone, if_neg hlead, h₁, h₂, h₃, Bool.not_true, Bool.false_eq_true,
    if_false, if_neg htwo, if_neg hthree]

end Front

theorem front_utf8EncodeChar (c : Char) (rest : List UInt8) : ∃ lead more,
    String.utf8EncodeChar c = lead :: more ∧ front lead (more ++ rest) = .char c more.length := by
  have hread {n : Nat} (h : n = c.toNat) : Char.ofNat n = c := by rw [h, Char.ofNat_toNat]
  have hvalid : c.toNat < 0xd800 ∨ 0xdfff < c.toNat ∧ c.toNat < 0x110000 := c.valid
  simp only [String.utf8EncodeChar, show c.val.toNat = c.toNat from rfl]
  -- one case for each number of bytes that a character is written with
  by_cases h1 : c.toNat ≤ 0x7f
  · refine ⟨_, _, if_pos h1, ?_⟩
    have hlead := toNat_ofNat_of_lt (n := c.toNat) (by omega)
    rw [front_one (by omega), hread hlead]
    rfl
  rw [if_neg h1]
  by_cases h2 : c.toNat ≤ 0x7ff
  · refine ⟨_, _, if_pos h2, ?_⟩
    have hlead := toNat_ofNat_of_lt (n := c.toNat / 64 % 32 + 192) (by omega)
    have hsecond := toNat_ofNat_of_lt (n := c.toNat % 64 + 128) (by omega)
    have hok : secondByteOk (UInt8.ofNat (c.toNat / 64 % 32 + 192))
        (UInt8.ofNat (c.toNat % 64 + 128)) = true := by
      rw [secondByteOk_iff, hlead, hsecond]
      exact ⟨isContinuation_carrier _, by omega⟩
    rw [List.singleton_append, front_two (by omega) (by omega) hok, payload_carrier, hlead]
    rw [hread (by omega)]
    rfl
  rw [if_neg h2]
  by_cases h3 : c.toNat ≤ 0xffff
  · refine ⟨_, _, if_pos h3, ?_⟩
    have hlead := toNat_ofNat_of_lt (n := c.toNat / 4096 % 16 + 224) (by omega)
    have hsecond := toNat_ofNat_of_lt (n := c.toNat / 64 % 64 + 128) (by omega)
    have hok : secondByteOk (UInt8.ofNat (c.toNat / 4096 % 16 + 224))
        (UInt8.ofNat (c.toNat / 64 % 64 + 128)) = true := by
      rw [secondByteOk_iff, hlead, hsecond]
      exact ⟨isContinuation_carrier _, by omega⟩
    rw [List.cons_append, List.singleton_append,
      front_three (by omega) (by omega) hok (isContinuation_carrier _), payload_carrier,
      payload_carrier, hlead]
    rw [hread (by omega)]
    rfl
  · refine ⟨_, _, if_neg h3, ?_⟩
    have hlead := toNat_ofNat_of_lt (n := c.toNat / 262144 % 8 + 240) (by omega)
    have hsecond := toNat_ofNat_of_lt (n := c.toNat / 4096 % 64 + 128) (by omega)
    have hok : secondByteOk (UInt8.ofNat (c.toNat / 262144 % 8 + 240))
        (UInt8.ofNat (c.toNat / 4096 % 64 + 128)) = true := by
      rw [secondByteOk_iff, hlead, hsecond]
      exact ⟨isContinuation_carrier _, by omega⟩
    rw [List.cons_append, List.cons_append, List.singleton_append,
      front_four (by omega) (by omega) hok (isContinuation_carrier _) (isContinuation_carrier _),
      payload_carrier, payload_carrier, payload_carrier, hlead]
    rw [hread (by omega)]
    rfl

theorem decodeLenient_flatMap (cs : List Char) :
    decodeLenient (cs.flatMap String.utf8EncodeChar) = cs := by
  induction cs with
  | nil => rw [List.flatMap_nil, decodeLenient]
  | cons c cs ih =>
    obtain ⟨lead, more, hchar, hfront⟩ :=
      front_utf8EncodeChar c (cs.flatMap String.utf8EncodeChar)
    rw [List.flatMap_cons, hchar, List.cons_append, decodeLenient, hfront]
    simp only [List.drop_left, ih]

end Utf8

namespace Text

theorem bytesOf_charsOf (bytes : List UInt8) : bytesOf (charsOf bytes) = bytes := by
  have hbyte : ∀ b : UInt8, (Char.ofNat b.toNat).toNat.toUInt8 = b := fun b => by
    have hlt : b.toNat < 256 := b.toNat_lt
    have hvalid : b.toNat.isValidChar := .inl (by omega)
    have hchar : (Char.ofNat b.toNat).toNat = b.toNat := by rw [Char.ofNat, dif_pos hvalid]; rfl
    rw [hchar]
    exact UInt8.ofNat_toNat
  rw [bytesOf, charsOf, List.map_map]
  exact (List.map_congr_left fun b _ => hbyte b).trans (List.map_id bytes)

theorem byteArray_toList_loop (bytes : ByteArray) (i : Nat) (r : List UInt8) :
    ByteArray.toList.loop bytes i r = r.reverse ++ bytes.data.toList.drop i := by
  fun_induction ByteArray.toList.loop bytes i r with
  | case1 i r hlt ih =>
    have hget : bytes.get! i = bytes.data[i] := getElem!_pos bytes.data i hlt
    have hrest := List.drop_eq_getElem_cons (i := i) (l := bytes.data.toList) (by simpa using hlt)
    rw [ih, hget, hrest]
    simp
  | case2 i r hlt =>
    rw [List.drop_eq_nil_of_le (by simpa using Nat.le_of_not_lt hlt), List.append_nil]

theorem toUTF8_toList (s : String) : s.toUTF8.toList = s.toList.flatMap String.utf8EncodeChar := by
  have hbytes : s.toUTF8 = (s.toList.flatMap String.utf8EncodeChar).toByteArray := by
    rw [← String.ofList_toList (s := s), String.toList_ofList]
    exact String.toByteArray_ofList
  rw [ByteArray.toList, byteArray_toList_loop, hbytes, List.toList_data_toByteArray]
  rfl

theorem decodeLenient_encoded (s : String) :
    Utf8.decodeLenient (bytesOf (encoded s)) = s.toList := by
  rw [encoded, bytesOf_charsOf, toUTF8_toList, Utf8.decodeLenient_flatMap]

end Text
end MachTree
