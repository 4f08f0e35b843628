/-! UTF-8 text decoded from bytes.  A reading step takes one character or one defect from the front
of the bytes; strict decoding stops at the first defect, lenient decoding puts a replacement
character for each. -/
namespace MachTree
namespace Utf8

inductive Defect
  | startByte
  | continuationByte
  | endOfData
deriving DecidableEq, Repr

def Defect.message : Defect → String
  | .startByte => "invalid start byte"
  | .continuationByte => "invalid continuation byte"
  | .endOfData => "unexpected end of data"

/-- The front of a byte sequence: a character with its encoded length, or a defect with the length
of the longest start of an encoding that precedes it. -/
inductive Front
  | char (c : Char) (extra : Nat)
  | defect (d : Defect) (extra : Nat)
deriving DecidableEq, Repr

def isContinuation (b : UInt8) : Bool := 0x80 ≤ b && b < 0xc0

def payload (b : UInt8) : Nat := b.toNat - 0x80

/-- The second bytes that may follow a lead byte: overlong forms, surrogates and values above the
last code point are excluded by the bounds. -/
def secondByteOk (lead second : UInt8) : Bool :=
  isContinuation second &&
  !(lead == 0xe0 && second < 0xa0) && !(lead == 0xed && 0xa0 ≤ second) &&
  !(lead == 0xf0 && second < 0x90) && !(lead == 0xf4 && 0x90 ≤ second)

/-- The first character or defect of `lead :: rest`; `extra` counts the bytes after the lead. -/
def front (lead : UInt8) (rest : List UInt8) : Front :=
  if lead < 0x80 then .char (Char.ofNat lead.toNat) 0
  else if lead < 0xc2 || 0xf5 ≤ lead then .defect .startByte 0
  else
    match rest with
    | [] => .defect .endOfData 0
    | b1 :: rest =>
      if !secondByteOk lead b1 then .defect .continuationByte 0
      else if lead < 0xe0 then .char (Char.ofNat ((lead.toNat - 0xc0) * 64 + payload b1)) 1
      else
        match rest with
        | [] => .defect .endOfData 1
        | b2 :: rest =>
          if !isContinuation b2 then .defect .continuationByte 1
          else if lead < 0xf0 then
            .char (Char.ofNat (((lead.toNat - 0xe0) * 64 + payload b1) * 64 + payload b2)) 2
          else
            match rest with
            | [] => .defect .endOfData 2
            | b3 :: _ =>
              if !isContinuation b3 then .defect .continuationByte 2
              else .char (Char.ofNat
                ((((lead.toNat - 0xf0) * 64 + payload b1) * 64 + payload b2) * 64 + payload b3)) 3

/-- The first place where bytes are not UTF-8. -/
structure Error where
  position : Nat
  /-- the bytes from the position on that belong to the defect, of which there is at least one -/
  first : UInt8
  extra : Nat
  defect : Defect
deriving DecidableEq, Repr

def Error.message (e : Error) : String :=
  let place :=
    if e.extra = 0 then
      "byte 0x" ++ String.ofList
        [Nat.digitChar (e.first.toNat / 16), Nat.digitChar (e.first.toNat % 16)] ++
        " in position " ++ toString e.position
    else "bytes in position " ++ toString e.position ++ "-" ++ toString (e.position + e.extra)
  "'utf-8' codec can't decode " ++ place ++ ": " ++ e.defect.message

def decodeFrom (position : Nat) : List UInt8 → List Char × Option Error
  | [] => ([], none)
  | lead :: rest =>
    match front lead rest with
    | .char c extra =>
      let r := decodeFrom (position + extra + 1) (rest.drop extra)
      (c :: r.1, r.2)
    | .defect d extra => ([], some ⟨position, lead, extra, d⟩)
termination_by bytes => bytes.length
decreasing_by simp only [List.length_drop, List.length_cons]; omega

def decode (bytes : List UInt8) : Except Error (List Char) :=
  match decodeFrom 0 bytes with
  | (cs, none) => .ok cs
  | (_, some e) => .error e

theorem decodeFrom_ascii (position : Nat) {cs : List Char} (h : ∀ c ∈ cs, c.toNat < 0x80) :
    decodeFrom position (cs.map fun c => c.toNat.toUInt8) = (cs, none) := by
  induction cs generalizing position with
  | nil => rw [List.map_nil, decodeFrom]
  | cons c cs ih =>
    have hc : c.toNat < 0x80 := h c (by simp)
    have hnat : c.toNat.toUInt8.toNat = c.toNat := Nat.mod_eq_of_lt (by omega)
    have hlead : c.toNat.toUInt8 < 0x80 := by
      rw [UInt8.lt_iff_toNat_lt, hnat]
      exact hc
    have hfront : front c.toNat.toUInt8 (cs.map fun c => c.toNat.toUInt8) = .char c 0 := by
      rw [front.eq_def, if_pos hlead, hnat, Char.ofNat_toNat]
    rw [List.map_cons, decodeFrom, hfront]
    simp only [List.drop_zero]
    rw [ih _ fun d hd => h d (by simp [hd])]

theorem decode_ascii {cs : List Char} (h : cs.all fun c => c.toNat < 0x80) :
    decode (cs.map fun c => c.toNat.toUInt8) = .ok cs := by
  rw [decode, decodeFrom_ascii 0 (by simpa using h)]

/-- The text of any bytes, with a replacement character in the place of each defect. -/
def decodeLenient : List UInt8 → List Char
  | [] => []
  | lead :: rest =>
    match front lead rest with
    | .char c extra => c :: decodeLenient (rest.drop extra)
    | .defect _ extra => '\ufffd' :: decodeLenient (rest.drop extra)
termination_by bytes => bytes.length
decreasing_by all_goals simp only [List.length_drop, List.length_cons]; omega

/-- Whether bytes at the end of a block wait for the next one: the start of an encoding does, and so
do the first two bytes of a surrogate, which are refused only with the third. -/
def waits (defect : Defect) : List UInt8 → Bool
  | [lead, second] => defect == .endOfData || (lead == 0xed && isContinuation second)
  | _ => defect == .endOfData

/-- Text that arrives in blocks: what the blocks before a failing one hold, and the failure.  Bytes
that wait at the end of a block are carried into the next one, and positions are counted from the
start of what a block adds to. -/
def decodeBlocks (carried : List UInt8) : List (List UInt8) → List Char × Option Error
  | [] => ([], (decodeFrom 0 carried).2)
  | block :: blocks =>
    match decodeFrom 0 (carried ++ block) with
    | (cs, none) =>
      let r := decodeBlocks [] blocks
      (cs ++ r.1, r.2)
    | (cs, some e) =>
      let left := (carried ++ block).drop e.position
      if waits e.defect left then
        let r := decodeBlocks left blocks
        (cs ++ r.1, r.2)
      else ([], some e)

/-- Bytes cut into blocks of a size, the last of which may be shorter. -/
def blocks (size : Nat) (bytes : List UInt8) : List (List UInt8) :=
  if _h : bytes = [] ∨ size = 0 then []
  else bytes.take size :: blocks size (bytes.drop size)
termination_by bytes.length
decreasing_by
  simp only [not_or] at _h
  have := List.length_pos_iff.mpr _h.1
  simp; omega

/-- Blocks of characters of one byte carry nothing over. -/
theorem decodeBlocks_ascii {size : Nat} (hsize : 0 < size) {cs : List Char}
    (h : ∀ c ∈ cs, c.toNat < 0x80) :
    decodeBlocks [] (blocks size (cs.map fun c => c.toNat.toUInt8)) = (cs, none) := by
  by_cases hcs : cs = []
  · rw [hcs, List.map_nil, blocks, dif_pos (.inl rfl), decodeBlocks, decodeFrom]
  · have hlength := List.length_pos_iff.mpr hcs
    have hmore := decodeBlocks_ascii hsize fun c hc => h c (List.mem_of_mem_drop (i := size) hc)
    rw [blocks, dif_neg (by simpa [hcs] using Nat.ne_of_gt hsize), ← List.map_take, ← List.map_drop,
      decodeBlocks, List.nil_append,
      decodeFrom_ascii 0 fun c hc => h c (List.mem_of_mem_take hc)]
    simp only [hmore, List.take_append_drop]
termination_by cs.length
decreasing_by rw [List.length_drop]; omega

end Utf8
end MachTree
