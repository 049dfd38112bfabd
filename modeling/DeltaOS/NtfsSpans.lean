import DeltaOS.NtfsSafety

namespace DeltaOS.NtfsSpans

open ByteSlices Cursor Kernel Ntfs NtfsSafety

variable {data data' : List Byte} {offset k : Nat}

/-- The least and the greatest value of a field of two bytes, as far as the bytes before `stop` tell. -/
def least (data : List Byte) (p stop : Nat) : Nat := field data p (min 2 (stop - p))

def greatest (data : List Byte) (p stop : Nat) : Nat :=
  least data p stop + (2 ^ 16 - 256 ^ min 2 (stop - p))

/-- The content of a resident attribute is past the record, or empty and not past it, or in the span,
whatever the bytes of its offset behind the span are. -/
def ContentKept (data : List Byte) (offset : Nat) : Prop :=
  data.length < offset + least data (offset + 0x14) (offset + sizeAt data offset) +
    field data (offset + 0x10) 4 ∨
    field data (offset + 0x10) 4 = 0 ∧
      offset + greatest data (offset + 0x14) (offset + sizeAt data offset) ≤ data.length ∨
    greatest data (offset + 0x14) (offset + sizeAt data offset) + field data (offset + 0x10) 4 ≤
      sizeAt data offset

/-- The offset of the name is in the span, or there is no name, whatever the bytes of this offset
behind the span are. -/
def NameKept (data : List Byte) (offset : Nat) : Prop :=
  12 ≤ sizeAt data offset ∨ byteAt data (offset + 9) = 0 ∨
    sizeAt data offset <
      least data (offset + 10) (offset + sizeAt data offset) + (byteAt data (offset + 9)).toNat * 2

/-- What is read for an attribute, is read from its span, or makes no difference to it. -/
structure KeepsToSpan (data : List Byte) (offset : Nat) : Prop where
  header : 9 ≤ sizeAt data offset
  resident : byteAt data (offset + 8) = 0 → 0x14 ≤ sizeAt data offset ∧ ContentKept data offset
  nonResident : byteAt data (offset + 8) ≠ 0 → offset + 0x40 ≤ data.length → 0x40 ≤ sizeAt data offset
  -- at the end of the record only the header of a non-resident attribute is read
  short : byteAt data (offset + 8) ≠ 0 → data.length < offset + 0x40 → 10 ≤ sizeAt data offset ∧
    NameKept data offset

/-- Two records of one length have the same bytes in a span. -/
structure AgreeOn (data data' : List Byte) (start stop : Nat) : Prop where
  length : data'.length = data.length
  bytes : ∀ i, start ≤ i → i < stop → byteAt data' i = byteAt data i

theorem AgreeOn.mono {start stop start' stop' : Nat} (h : AgreeOn data data' start stop)
    (hstart : start ≤ start') (hstop : stop' ≤ stop) : AgreeOn data data' start' stop' :=
  ⟨h.length, fun i hlo hhi => h.bytes i (by omega) (by omega)⟩

theorem AgreeOn.field {start stop : Nat} (h : AgreeOn data data' start stop) {p n : Nat}
    (hlo : start ≤ p) (hhi : p + n ≤ stop) : field data' p n = field data p n := by
  apply field_congr
  intro i hi
  exact h.bytes (p + i) (by omega) (by omega)

theorem foldlM_range_congr {β : Type} {f g : β → Nat → Except Panic β} {n : Nat}
    (h : ∀ b, ∀ i < n, f b i = g b i)
    (b : β) : (List.range n).foldlM f b = (List.range n).foldlM g b := by
  induction n with
  | zero => rfl
  | succ n ih =>
    rw [foldlM_range_succ, foldlM_range_succ, ih fun b i hi => h b i (by omega)]
    congr 1
    funext v
    exact h v n (Nat.lt_succ_self n)

theorem AgreeOn.least {start stop p : Nat} (h : AgreeOn data data' start stop) (hp : start ≤ p) :
    least data' p stop = least data p stop := by
  rw [NtfsSpans.least, NtfsSpans.least]
  obtain hle | hlt := le_or_gt p stop
  · exact h.field hp (by omega)
  · rw [show min 2 (stop - p) = 0 by omega]
    rfl

theorem least_le (data : List Byte) (p stop : Nat) : least data p stop ≤ field data p 2 := by
  have hcases : min 2 (stop - p) = 0 ∨ min 2 (stop - p) = 1 ∨ min 2 (stop - p) = 2 := by omega
  rw [least]
  obtain hn | hn | hn := hcases <;> rw [hn] <;> simp only [field] <;> omega

theorem le_greatest (data : List Byte) (p stop : Nat) : field data p 2 ≤ greatest data p stop := by
  have hlow := (byteAt data p).isLt
  have hhigh := (byteAt data (p + 1)).isLt
  have hcases : min 2 (stop - p) = 0 ∨ min 2 (stop - p) = 1 ∨ min 2 (stop - p) = 2 := by omega
  rw [greatest, least]
  obtain hn | hn | hn := hcases <;> rw [hn] <;> simp only [field] <;> omega

theorem least_of_inside {p stop : Nat} (h : p + 2 ≤ stop) : least data p stop = field data p 2 := by
  rw [least, show min 2 (stop - p) = 2 by omega]

theorem greatest_of_inside {p stop : Nat} (h : p + 2 ≤ stop) :
    greatest data p stop = field data p 2 := by
  rw [greatest, least_of_inside h, show min 2 (stop - p) =
    2 by omega, show 2 ^ 16 - 256 ^ 2 = 0 from rfl, Nat.add_zero]

theorem greatest_of_outside (data : List Byte) {p stop : Nat} (h : stop < p + 2) :
    0xFF00 ≤ greatest data p stop := by
  have hcases : min 2 (stop - p) = 0 ∨ min 2 (stop - p) = 1 := by omega
  rw [greatest]
  obtain hn | hn := hcases <;> rw [hn] <;> omega

theorem parseName_absent {nameLength nameOffset totalSize : Nat}
    (h : ¬(0 < nameLength ∧ nameOffset + nameLength * 2 ≤ totalSize)) :
    parseName data offset nameLength nameOffset totalSize = .ok none := if_neg h

theorem parseName_congr {size nameLength nameOffset : Nat}
    (h : AgreeOn data data' offset (offset + size)) :
    parseName data' offset nameLength nameOffset size =
      parseName data offset nameLength nameOffset size := by
  rw [parseName, parseName]
  split_ifs with hname
  · congr 1
    apply foldlM_range_congr
    intro name i hi
    rw [pushUnit, pushUnit, h.length]
    split_ifs with hroom
    · have hlen := h.length
      rw [readLe_ok (by omega), readLe_ok (by omega), h.field (by omega) (by omega)]
    · rfl
  · rfl

theorem NameKept.parseName_congr (hkept : NameKept data offset) (hsize : 10 ≤ sizeAt data offset)
    (h : AgreeOn data data' offset (offset + sizeAt data offset)) :
    parseName data' offset (byteAt data' (offset + 9)).toNat (field data' (offset + 10) 2)
    (sizeAt data offset) =
      parseName data offset (byteAt data (offset + 9)).toNat (field data (offset + 10) 2)
      (sizeAt data offset) := by
  have hlength : byteAt data' (offset + 9) = byteAt data (offset + 9) := h.bytes _ (by omega) (by omega)
  have hleast := h.least (Nat.le_add_right offset 10)
  have hle := least_le data (offset + 10) (offset + sizeAt data offset)
  have hle' := least_le data' (offset + 10) (offset + sizeAt data offset)
  rw [hlength]
  obtain htwelve | hnone | hlong := hkept
  · rw [h.field (p := offset + 10) (by omega) (by omega), NtfsSpans.parseName_congr h]
  · rw [parseName_absent (by rw [hnone]; exact fun hpos => absurd hpos.1 (lt_irrefl 0)),
      parseName_absent (by rw [hnone]; exact fun hpos => absurd hpos.1 (lt_irrefl 0))]
  · rw [parseName_absent (by omega), parseName_absent (by omega)]

theorem parseResident_eq {attr : NtfsAttribute} (hroom : offset + 24 ≤ data.length) :
    parseResident data offset attr = .ok { attr with
      dataSize := field data (offset + 0x10) 4
      initializedSize := field data (offset + 0x10) 4
      residentData :=
        if offset + field data (offset + 0x14) 2 + field data (offset + 0x10) 4 ≤ data.length then
          some ((data.take (offset + field data (offset + 0x14) 2 + field data (offset + 0x10) 4)).drop
            (offset + field data (offset + 0x14) 2))
        else attr.residentData } := by
  rw [parseResident, if_pos (by omega), readLe_ok (by omega), ok_bind, readLe_ok (by omega), ok_bind]
  dsimp only
  split_ifs with hinside
  · rw [slice_ok (Nat.le_add_right _ _) hinside, ok_bind]
    rfl
  · rfl

theorem parseResident_congr {attr : NtfsAttribute} (hroom : offset + 24 ≤ data.length)
    (h : AgreeOn data data' offset (offset + sizeAt data offset)) (hsize : 0x14 ≤ sizeAt data offset)
    (hkept : ContentKept data offset) :
    parseResident data' offset attr = parseResident data offset attr := by
  have hlen := h.length
  have hcount : field data' (offset + 0x10) 4 = field data (offset + 0x10) 4 :=
    h.field (by omega) (by omega)
  have hleast := h.least (Nat.le_add_right offset 0x14)
  have hgreatest : greatest data' (offset + 0x14) (offset + sizeAt data offset) =
      greatest data (offset + 0x14) (offset + sizeAt data offset) := by rw [greatest, hleast, ← greatest]
  have hlow := least_le data (offset + 0x14) (offset + sizeAt data offset)
  have hlow' := least_le data' (offset + 0x14) (offset + sizeAt data offset)
  have hhigh := le_greatest data (offset + 0x14) (offset + sizeAt data offset)
  have hhigh' := le_greatest data' (offset + 0x14) (offset + sizeAt data offset)
  rw [parseResident_eq hroom, parseResident_eq (by omega), hcount, hlen]
  obtain hpast | ⟨hempty, hinside⟩ | hspan := hkept
  · rw [if_neg (by omega), if_neg (by omega)]
  · simp only [hempty, Nat.add_zero, List.drop_take_self]
    rw [if_pos (by omega), if_pos (by omega)]
  · have hfits : offset + 0x14 + 2 ≤ offset + sizeAt data offset := by
      by_contra hout
      have hlarge := greatest_of_outside data (not_le.mp hout)
      omega
    rw [greatest_of_inside hfits] at hspan
    rw [h.field (p := offset + 0x14) (by omega) hfits,
      slice_congr hlen fun i hlo hhi => h.bytes i (by omega) (by omega)]

theorem parseNonResident_congr {attr : NtfsAttribute}
    (h : AgreeOn data data' offset (offset + sizeAt data offset))
    (hattr : attr.totalSize = sizeAt data offset)
    (hsize : offset + 0x40 ≤ data.length → 0x40 ≤ sizeAt data offset) :
    parseNonResident data' offset attr = parseNonResident data offset attr := by
  have hlen := h.length
  rw [parseNonResident, parseNonResident, hlen]
  split_ifs with hroom
  · have hspan := hsize hroom
    rw [readLe_ok (by omega), readLe_ok (by omega), readLe_ok (by omega), readLe_ok (by omega),
      readLe_ok (by omega),
      readLe_ok (by omega), h.field (by omega) (by omega), h.field (by omega) (by omega),
      h.field (by omega) (by omega), hattr]
    simp only [ok_bind]
    rw [slice, slice, hlen]
    split_ifs with hslice
    · rw [slice_congr hlen fun i hlo hhi => h.bytes i (by omega) hhi]
    · rfl
  · rfl

theorem KeepsToSpan.name (h : KeepsToSpan data offset) :
    10 ≤ sizeAt data offset ∧ NameKept data offset := by
  by_cases hflag : byteAt data (offset + 8) = 0
  · have hsize := (h.resident hflag).1
    exact ⟨by omega, .inl (by omega)⟩
  · obtain hroom | hshort := le_or_gt (offset + 0x40) data.length
    · have hsize := h.nonResident hflag hroom
      exact ⟨by omega, .inl (by omega)⟩
    · exact h.short hflag hshort

theorem parseAttribute_congr (hattr : HasAttribute data offset) (hkeeps : KeepsToSpan data offset)
    (h : AgreeOn data data' offset (offset + sizeAt data offset)) :
    parseAttribute data' offset = parseAttribute data offset := by
  have hheader := hkeeps.header
  have hlen := h.length
  have hsize : sizeAt data' offset = sizeAt data offset := h.field (by omega) (by omega)
  have htype : field data' offset 4 = field data offset 4 := h.field le_rfl (by omega)
  have hattr' : HasAttribute data' offset := by
    rw [HasAttribute, hlen, hsize, htype]
    exact hattr
  have hflag : byteAt data' (offset + 8) = byteAt data (offset + 8) := h.bytes _ (by omega) (by omega)
  have hheaderAt : headerAt data' offset = headerAt data offset := by
    funext name
    rw [headerAt, headerAt, htype, hsize, hflag]
  obtain ⟨hten, hname⟩ := hkeeps.name
  rw [parseAttribute_some hattr, parseAttribute_some hattr', hsize,
    hname.parseName_congr hten h, hheaderAt]
  congr 2
  funext name
  rw [parseContents_header, ← hheaderAt, parseContents_header, hflag, hheaderAt]
  split_ifs with hnon
  · exact parseNonResident_congr h rfl (hkeeps.nonResident hnon)
  · obtain ⟨hspan, hcontent⟩ := hkeeps.resident (not_not.mp hnon)
    exact parseResident_congr hattr.1 h hspan hcontent

end DeltaOS.NtfsSpans
