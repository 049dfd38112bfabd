import DeltaOS.NtfsSpans

namespace DeltaOS.NtfsLeaks

open ByteSlices Cursor Kernel Ntfs NtfsSafety NtfsSpans

variable {data d : List Byte} {offset : Nat} {a : NtfsAttribute}

structure Parsed (data : List Byte) (offset : Nat) (a : NtfsAttribute) : Prop where
  has : HasAttribute data offset
  totalSize : a.totalSize = sizeAt data offset
  nonResident : a.nonResident = decide (byteAt data (offset + 8) ≠ 0)
  name : a.name = none ↔ ¬(0 < (byteAt data (offset + 9)).toNat ∧
    field data (offset + 10) 2 + (byteAt data (offset + 9)).toNat * 2 ≤ sizeAt data offset)
  resident : byteAt data (offset + 8) = 0 → a.dataSize = field data (offset + 0x10) 4 ∧ a.residentData =
    if offset + field data (offset + 0x14) 2 + field data (offset + 0x10) 4 ≤ data.length then
      some ((data.take (offset + field data (offset + 0x14) 2 + field data (offset + 0x10) 4)).drop
        (offset + field data (offset + 0x14) 2))
    else none
  sizes : byteAt data (offset + 8) ≠ 0 → offset + 0x40 ≤ data.length →
    a.initializedSize = field data (offset + 0x38) 8

theorem parseName_eq_none_iff {nameLength nameOffset totalSize : Nat} {name : Option String}
    (h : parseName data offset nameLength nameOffset totalSize = .ok name) :
    name = none ↔ ¬(0 < nameLength ∧ nameOffset + nameLength * 2 ≤ totalSize) := by
  rw [parseName] at h
  split_ifs at h with hname
  · obtain ⟨chars, -, hsome⟩ := bind_eq_ok h
    cases hsome
    exact iff_of_false (Option.some_ne_none chars) (not_not.mpr hname)
  · cases h
    exact iff_of_true rfl hname

theorem parseContents_parsed {name : Option String} (hhas : HasAttribute data offset)
    (hname : parseName data offset (byteAt data (offset + 9)).toNat (field data (offset + 10) 2)
      (sizeAt data offset) = .ok name)
    (h : parseContents data offset (headerAt data offset name) = .ok a) : Parsed data offset a := by
  have hiff := parseName_eq_none_iff hname
  rw [parseContents_header] at h
  split_ifs at h with hflag
  · by_cases hroom : offset + 0x40 ≤ data.length
    · rw [parseNonResident_eq hroom rfl] at h
      obtain ⟨runs, -, h⟩ := bind_eq_ok h
      obtain ⟨runList, -, rfl⟩ := map_eq_ok h
      exact ⟨hhas, rfl, rfl, hiff, fun hzero => absurd hzero hflag, fun _ _ => rfl⟩
    · rw [parseNonResident_short hroom] at h
      cases h
      exact ⟨hhas, rfl, rfl, hiff, fun hzero => absurd hzero hflag, fun _ hle => absurd hle hroom⟩
  · rw [parseResident_eq hhas.1] at h
    cases h
    exact ⟨hhas, rfl, rfl, hiff, fun _ => ⟨rfl, rfl⟩, fun hne => absurd hne hflag⟩

theorem parseAttribute_parsed {q : Nat} (h : parseAttribute data offset = .ok (some (a, q))) :
    Parsed data offset a ∧ q = offset + sizeAt data offset := by
  have hhas : HasAttribute data offset := by
    by_contra hnot
    rw [parseAttribute_none hnot] at h
    cases h
  rw [parseAttribute_some hhas] at h
  obtain ⟨a', hparsed, ha⟩ := map_eq_ok h
  cases ha
  obtain ⟨name, hname, hcontents⟩ := bind_eq_ok hparsed
  exact ⟨parseContents_parsed hhas hname hcontents, rfl⟩

theorem exists_tail (data : List Byte) (stop : Nat) (f : Nat → Byte) : ∃ d, AgreeOn data d 0 stop ∧
    (∀ i, stop ≤ i → i < data.length → byteAt d i = f i) ∧ ∀ i, stop ≤ i → f i = 0 → byteAt d i = 0 := by
  let d := (List.range data.length).map fun i => if i < stop then byteAt data i else f i
  have hlen : d.length = data.length := by simp [d]
  have hbyte : ∀ i < data.length, byteAt d i = if i < stop then byteAt data i else f i := by
    intro i hi
    simp [d, byteAt, hi]
  have hout : ∀ i, stop ≤ i → i < data.length → byteAt d i = f i := by
    intro i hstop hi
    rw [hbyte i hi, if_neg (not_lt.mpr hstop)]
  refine ⟨d, ⟨hlen, fun i _ hi => ?_⟩, hout, fun i hstop hzero => ?_⟩
  · obtain hlt | hge := lt_or_ge i data.length
    · rw [hbyte i hlt, if_pos hi]
    · rw [byteAt_past hge, byteAt_past (hlen.trans_le hge)]
  · obtain hlt | hge := lt_or_ge i data.length
    · rw [hout i hstop hlt, hzero]
    · exact byteAt_past (hlen.trans_le hge)

theorem succ_ne_self (b : Byte) : b + 1 ≠ b := by
  intro h
  bv_omega

theorem not_hasAttribute_of_zero {q : Nat} (h : ∀ i, q + 4 ≤ i → i < q + 8 → byteAt d i = 0) :
    ¬HasAttribute d q := by
  rintro ⟨-, -, hsize, -⟩
  exact hsize (field_eq_zero fun i hi => h _ (by omega) (by omega))

theorem not_hasAttribute_of_marker {q : Nat} (h : ∀ i, q ≤ i → i < q + 4 → byteAt d i = 0xFF) :
    ¬HasAttribute d q := by
  rintro ⟨-, hend, -, -⟩
  apply hend
  simp only [field, h q (by omega) (by omega), h (q + 1) (by omega) (by omega),
    h (q + 1 + 1) (by omega) (by omega), h (q + 1 + 1 + 1) (by omega) (by omega)]
  rfl

/-- The pass does not take `a` there, and no pass takes anything after it. -/
def Differs (d : List Byte) (offset : Nat) (a : NtfsAttribute) : Prop :=
  parseAttribute d offset = .ok none ∨
    ∃ a' q, parseAttribute d offset = .ok (some (a', q)) ∧ a' ≠ a ∧ parseAttribute d q = .ok none

theorem differs_of_parsed (hfine : AttributeFine d offset)
    (h : ∀ a', Parsed d offset a' → a' ≠ a ∧ ¬HasAttribute d (offset + sizeAt d offset)) :
    Differs d offset a := by
  by_cases hhas : HasAttribute d offset
  · obtain ⟨a', ha'⟩ := (parseAttribute_walks d).moves hfine (if_pos hhas)
    obtain ⟨hne, hend⟩ := h a' (parseAttribute_parsed ha').1
    exact .inr ⟨a', _, ha', hne, parseAttribute_none hend⟩
  · exact .inl (parseAttribute_none hhas)

theorem attributeFine_of_resident (h : byteAt d (offset + 8) = 0) : AttributeFine d offset :=
  fun _ hflag => absurd h hflag

theorem field_of_low {p stop : Nat} (h : AgreeOn data d 0 stop) (hp : stop < p + 2)
    (hbytes : ∀ i, stop ≤ i → p ≤ i → i < p + 2 → byteAt d i = 0) : field d p 2 = least data p stop := by
  rw [least]
  obtain hle | hgt := le_or_gt stop p
  · rw [show min 2 (stop - p) = 0 by omega]
    exact field_eq_zero fun i hi => hbytes _ (by omega) (by omega) (by omega)
  · rw [show min 2 (stop - p) = 1 by omega]
    simp only [field, h.bytes p (Nat.zero_le _) hgt, hbytes (p + 1) (by omega) (by omega) (by omega)]
    rfl

theorem field_of_high {p stop : Nat} (h : AgreeOn data d 0 stop) (hp : stop < p + 2)
    (hbytes : ∀ i, stop ≤ i → p ≤ i → i < p + 2 → byteAt d i = 0xFF) :
    field d p 2 = greatest data p stop := by
  have hff : (0xFF : Byte).toNat = 255 := rfl
  rw [greatest, least]
  obtain hle | hgt := le_or_gt stop p
  · rw [show min 2 (stop - p) = 0 by omega]
    simp only [field, hbytes p hle le_rfl (by omega), hbytes (p + 1) (by omega) (by omega) (by omega)]
    rfl
  · rw [show min 2 (stop - p) = 1 by omega]
    simp only [field, h.bytes p (Nat.zero_le _) hgt, hbytes (p + 1) (by omega) (by omega) (by omega)]
    omega

theorem runs_of_tail {d : List Byte} (hagree : AgreeOn data d 0 (offset + sizeAt data offset))
    (hlow : 9 ≤ sizeAt data offset)
    (hruns : runOffsetAt data offset ≤ sizeAt data offset) (hfine : RunsFine (runBytes data offset))
    (hfirst : sizeAt data offset ≤ 0x20 →
      byteAt d (offset + 0x20) = BitVec.ofNat 8 (sizeAt data offset))
    (hsecond : sizeAt data offset ≤ 0x21 → byteAt d (offset + 0x20 + 1) = 0) :
    runOffsetAt d offset ≤ sizeAt data offset ∧ RunsFine (runBytes d offset) := by
  have hsame : sizeAt d offset = sizeAt data offset := hagree.field (Nat.zero_le _) (by omega)
  obtain hle | hgt := le_or_gt (sizeAt data offset) 0x20
  · have hoffset : runOffsetAt d offset = sizeAt data offset := by
      simp only [runOffsetAt, field, hfirst hle, hsecond (by omega), BitVec.toNat_ofNat]
      exact Nat.mod_eq_of_lt (by omega)
    rw [runBytes, hsame, hoffset, List.drop_take_self]
    exact ⟨le_rfl, (parseRunList_ok_iff []).mp ⟨[], rfl⟩⟩
  · have hoffset : runOffsetAt d offset = runOffsetAt data offset := by
      obtain hin | heq := (Nat.succ_le_of_lt hgt).lt_or_eq
      · exact hagree.field (Nat.zero_le _) (by omega)
      · have hbyte : byteAt d (offset + 0x20) = byteAt data (offset + 0x20) :=
          hagree.bytes _ (Nat.zero_le _) (by omega)
        simp only [runOffsetAt, field] at hruns ⊢
        rw [hbyte, hsecond heq.symm.le]
        have hnone : (0 : Byte).toNat = 0 := rfl
        omega
    have hbytes : runBytes d offset = runBytes data offset := by
      rw [runBytes, runBytes, hsame, hoffset]
      exact slice_congr hagree.length fun i _ hhi => hagree.bytes i (Nat.zero_le _) hhi
    rw [hoffset, hbytes]
    exact ⟨hruns, hfine⟩

section Leaks

/-! An attribute that does not keep to its span, case by case. In each of them there is another tail of
the record with which the attribute comes out differently, and the record ends after it. -/

variable (hp : Parsed data offset a)

include hp

theorem leaks_size (hsize : sizeAt data offset < 8) :
    ∃ d, AgreeOn data d 0 (offset + sizeAt data offset) ∧ Differs d offset a := by
  obtain ⟨d, hagree, hout, hzero⟩ := exists_tail data (offset + sizeAt data offset)
    fun i => if i = offset + 7 then 1 else 0
  have hroom := hp.has.1
  have htop : byteAt d (offset + 4 + 3) = 1 := by rw [hout _ (by omega) (by omega), if_pos rfl]
  have hlarge : 2 ^ 24 ≤ sizeAt d offset := by
    rw [sizeAt, field_last, htop]
    exact Nat.le_add_left _ _
  refine ⟨d, hagree, differs_of_parsed
    (attributeFine_of_resident (hzero _ (by omega) (if_neg (by omega)))) ?_⟩
  intro a' hp'
  constructor
  · rintro rfl
    have hsame := hp.totalSize.symm.trans hp'.totalSize
    omega
  · exact not_hasAttribute_of_zero fun i hlo hhi => hzero i (by omega) (if_neg (by omega))

theorem leaks_flag (hsize : sizeAt data offset = 8) (hflag : byteAt data (offset + 8) ≠ 0) :
    ∃ d, AgreeOn data d 0 (offset + sizeAt data offset) ∧ Differs d offset a := by
  obtain ⟨d, hagree, -, hzero⟩ := exists_tail data (offset + sizeAt data offset) fun _ => 0
  have hsame : sizeAt d offset = sizeAt data offset := hagree.field (Nat.zero_le _) (by omega)
  have hresident : byteAt d (offset + 8) = 0 := hzero _ (by omega) rfl
  refine ⟨d, hagree, differs_of_parsed (attributeFine_of_resident hresident) ?_⟩
  intro a' hp'
  constructor
  · rintro rfl
    have hboth := hp.nonResident.symm.trans hp'.nonResident
    rw [decide_eq_decide] at hboth
    exact hboth.mp hflag hresident
  · exact not_hasAttribute_of_zero fun i hlo _ => hzero i (by omega) rfl

theorem leaks_contentSize (hlow : 8 ≤ sizeAt data offset) (hsize : sizeAt data offset < 0x14)
    (hflag : byteAt data (offset + 8) = 0) :
    ∃ d, AgreeOn data d 0 (offset + sizeAt data offset) ∧ Differs d offset a := by
  -- the size of the content is where the next attribute has its size, for some spans
  obtain ⟨d, hagree, hout, hzero⟩ := exists_tail data (offset + sizeAt data offset) fun i =>
    if 12 ≤ sizeAt data offset ∧ sizeAt data offset < 16 ∧ i < offset + sizeAt data offset + 4 then 0xFF
    else if i = offset + 0x13 then byteAt data (offset + 0x13) + 1 else 0
  have hroom := hp.has.1
  have hsame : sizeAt d offset = sizeAt data offset := hagree.field (Nat.zero_le _) (by omega)
  have hresident : byteAt d (offset + 8) = 0 := by
    obtain hin | heq := hlow.lt_or_eq
    · rw [hagree.bytes _ (Nat.zero_le _) (by omega), hflag]
    · exact hzero _ (by omega) (by rw [if_neg (by omega), if_neg (by omega)])
  have htop : byteAt d (offset + 0x10 + 3) = byteAt data (offset + 0x10 + 3) + 1 := by
    rw [hout _ (by omega) (by omega), if_neg (by omega), if_pos rfl]
  refine ⟨d, hagree, differs_of_parsed (attributeFine_of_resident hresident) ?_⟩
  intro a' hp'
  constructor
  · rintro rfl
    have hfield := (hp'.resident hresident).1.symm.trans (hp.resident hflag).1
    exact succ_ne_self _ (htop.symm.trans (byteAt_of_field_eq hfield (by decide)))
  · rw [hsame]
    by_cases hmarker : 12 ≤ sizeAt data offset ∧ sizeAt data offset < 16
    · refine not_hasAttribute_of_marker fun i hlo hhi => ?_
      rw [hout i hlo (by omega), if_pos ⟨hmarker.1, hmarker.2, hhi⟩]
    · refine not_hasAttribute_of_zero fun i hlo hhi => hzero i (by omega) ?_
      rw [if_neg (by omega), if_neg (by omega)]

theorem leaks_content (hsize : 0x16 ≤ sizeAt data offset) (hflag : byteAt data (offset + 8) = 0)
    (hpos : field data (offset + 0x10) 4 ≠ 0)
    (hinside : offset + field data (offset + 0x14) 2 + field data (offset + 0x10) 4 ≤ data.length)
    (hover : sizeAt data offset < field data (offset + 0x14) 2 + field data (offset + 0x10) 4) :
    ∃ d, AgreeOn data d 0 (offset + sizeAt data offset) ∧ Differs d offset a := by
  obtain ⟨p, hlast⟩ : ∃ p, p = offset + field data (offset + 0x14) 2 +
      (field data (offset + 0x10) 4 - 1) := ⟨_, rfl⟩
  -- the last byte of the content may be one of the size of the next attribute
  obtain ⟨d, hagree, hout, hzero⟩ := exists_tail data (offset + sizeAt data offset) fun i =>
    if offset + sizeAt data offset + 4 ≤ p ∧ p < offset + sizeAt data offset + 8 ∧
      i < offset + sizeAt data offset + 4 then 0xFF
    else if i = p then byteAt data p + 1 else 0
  have hroom := hp.has.1
  have hsame : sizeAt d offset = sizeAt data offset := hagree.field (Nat.zero_le _) (by omega)
  have hresident : byteAt d (offset + 8) = 0 := (hagree.bytes _ (Nat.zero_le _) (by omega)).trans hflag
  have hcount : field d (offset + 0x10) 4 = field data (offset + 0x10) 4 :=
    hagree.field (Nat.zero_le _) (by omega)
  have hstart : field d (offset + 0x14) 2 = field data (offset + 0x14) 2 :=
    hagree.field (Nat.zero_le _) (by omega)
  have htop : byteAt d p = byteAt data p + 1 := by
    rw [hout _ (by omega) (by omega), if_neg (by omega), if_pos rfl]
  refine ⟨d, hagree, differs_of_parsed (attributeFine_of_resident hresident) ?_⟩
  intro a' hp'
  constructor
  · rintro rfl
    have hslice := (hp'.resident hresident).2.symm.trans (hp.resident hflag).2
    rw [hcount, hstart, hagree.length, if_pos hinside, if_pos hinside, Option.some.injEq] at hslice
    have hbyte := byteAt_of_slice_eq hslice (Nat.sub_lt (Nat.pos_of_ne_zero hpos) Nat.one_pos)
    rw [← hlast, htop] at hbyte
    exact succ_ne_self _ hbyte
  · rw [hsame]
    by_cases hmarker : offset + sizeAt data offset + 4 ≤ p ∧ p < offset + sizeAt data offset + 8
    · refine not_hasAttribute_of_marker fun i hlo hhi => ?_
      rw [hout i hlo (by omega), if_pos ⟨hmarker.1, hmarker.2, hhi⟩]
    · refine not_hasAttribute_of_zero fun i hlo hhi => hzero i (by omega) ?_
      rw [if_neg (by omega), if_neg (by omega)]

theorem leaks_farContent (hlow : 0x14 ≤ sizeAt data offset) (hsize : sizeAt data offset < 0x16)
    (hflag : byteAt data (offset + 8) = 0)
    (hinside : offset + field data (offset + 0x14) 2 + field data (offset + 0x10) 4 ≤ data.length)
    (hempty : field data (offset + 0x10) 4 = 0 →
      data.length < offset + greatest data (offset + 0x14) (offset + sizeAt data offset)) :
    ∃ d, AgreeOn data d 0 (offset + sizeAt data offset) ∧ Differs d offset a := by
  have hroom := hp.has.1
  have hlarge : 0xFF00 ≤ greatest data (offset + 0x14) (offset + sizeAt data offset) :=
    greatest_of_outside data (by omega)
  -- the greatest offset, with another first byte there
  obtain ⟨d, hagree, hout, hzero⟩ := exists_tail data (offset + sizeAt data offset) fun i =>
    if i < offset + 0x16 then 0xFF
    else if i = offset + greatest data (offset + 0x14) (offset + sizeAt data offset) then
      byteAt data (offset + field data (offset + 0x14) 2) + 1
    else 0
  have hsame : sizeAt d offset = sizeAt data offset := hagree.field (Nat.zero_le _) (by omega)
  have hresident : byteAt d (offset + 8) = 0 := (hagree.bytes _ (Nat.zero_le _) (by omega)).trans hflag
  have hcount : field d (offset + 0x10) 4 = field data (offset + 0x10) 4 :=
    hagree.field (Nat.zero_le _) (by omega)
  have hstart := field_of_high (p := offset + 0x14) hagree (by omega) fun i hlo _ hhi => by
    rw [hout i hlo (by omega), if_pos hhi]
  refine ⟨d, hagree, differs_of_parsed (attributeFine_of_resident hresident) fun a' hp' => ⟨?_, ?_⟩⟩
  · rintro rfl
    have hslice := (hp'.resident hresident).2.symm.trans (hp.resident hflag).2
    rw [hcount, hstart, hagree.length, if_pos hinside] at hslice
    split_ifs at hslice with hgreatest
    have hpos : field data (offset + 0x10) 4 ≠ 0 := fun hz => by
      have := hempty hz
      omega
    have hbyte := byteAt_of_slice_eq (Option.some.inj hslice) (Nat.pos_of_ne_zero hpos)
    rw [Nat.add_zero, Nat.add_zero, hout _ (by omega) (by omega), if_neg (by omega), if_pos rfl] at hbyte
    exact succ_ne_self _ hbyte
  · rw [hsame]
    refine not_hasAttribute_of_zero fun i hlo hhi => hzero i (by omega) ?_
    rw [if_neg (by omega), if_neg (by omega)]

theorem leaks_nearContent (hlow : 0x14 ≤ sizeAt data offset) (hsize : sizeAt data offset < 0x16)
    (hflag : byteAt data (offset + 8) = 0)
    (houtside : ¬offset + field data (offset + 0x14) 2 + field data (offset + 0x10) 4 ≤ data.length)
    (hleast : offset + least data (offset + 0x14) (offset + sizeAt data offset) +
      field data (offset + 0x10) 4 ≤ data.length) :
    ∃ d, AgreeOn data d 0 (offset + sizeAt data offset) ∧ Differs d offset a := by
  -- the least offset, from which the content is in the record
  obtain ⟨d, hagree, -, hzero⟩ := exists_tail data (offset + sizeAt data offset) fun _ => 0
  have hsame : sizeAt d offset = sizeAt data offset := hagree.field (Nat.zero_le _) (by omega)
  have hresident : byteAt d (offset + 8) = 0 := (hagree.bytes _ (Nat.zero_le _) (by omega)).trans hflag
  have hcount : field d (offset + 0x10) 4 = field data (offset + 0x10) 4 :=
    hagree.field (Nat.zero_le _) (by omega)
  have hstart := field_of_low (p := offset + 0x14) hagree (by omega) fun i hlo _ _ => hzero i hlo rfl
  refine ⟨d, hagree, differs_of_parsed (attributeFine_of_resident hresident) fun a' hp' => ⟨?_, ?_⟩⟩
  · rintro rfl
    have hslice := (hp'.resident hresident).2.symm.trans (hp.resident hflag).2
    rw [hcount, hstart, hagree.length, if_pos hleast, if_neg houtside] at hslice
    cases hslice
  · exact not_hasAttribute_of_zero fun i hlo _ => hzero i (by omega) rfl

theorem leaks_sizes (hfine : AttributeFine data offset) (hlow : 9 ≤ sizeAt data offset)
    (hsize : sizeAt data offset < 0x40) (hflag : byteAt data (offset + 8) ≠ 0)
    (hroom : offset + 0x40 ≤ data.length) :
    ∃ d, AgreeOn data d 0 (offset + sizeAt data offset) ∧ Differs d offset a := by
  obtain ⟨hruns, hrunsFine⟩ := hfine hp.has hflag hroom
  -- the run list is empty if its offset is not in the span
  obtain ⟨d, hagree, hout, hzero⟩ := exists_tail data (offset + sizeAt data offset) fun i =>
    if (sizeAt data offset ≤ 0x1C ∨ 0x38 ≤ sizeAt data offset ∧ sizeAt data offset < 0x3C) ∧
      i < offset + sizeAt data offset + 4 then 0xFF
    else if i = offset + 0x20 then BitVec.ofNat 8 (sizeAt data offset)
    else if i = offset + 0x3F then byteAt data (offset + 0x3F) + 1 else 0
  have hsame : sizeAt d offset = sizeAt data offset := hagree.field (Nat.zero_le _) (by omega)
  have hflag' : byteAt d (offset + 8) ≠ 0 := by rwa [hagree.bytes _ (Nat.zero_le _) (by omega)]
  have htop : byteAt d (offset + 0x38 + 7) = byteAt data (offset + 0x38 + 7) + 1 := by
    rw [hout _ (by omega) (by omega), if_neg (by omega), if_neg (by omega), if_pos rfl]
  have hrun : runOffsetAt d offset ≤ sizeAt data offset ∧ RunsFine (runBytes d offset) := by
    refine runs_of_tail hagree hlow hruns hrunsFine (fun hle => ?_) fun hle => ?_
    · rw [hout _ (by omega) (by omega), if_neg (by omega), if_pos rfl]
    · exact hzero _ (by omega) (by rw [if_neg (by omega), if_neg (by omega), if_neg (by omega)])
  refine ⟨d, hagree, differs_of_parsed (fun _ _ _ => by rwa [hsame]) fun a' hp' => ⟨?_, ?_⟩⟩
  · rintro rfl
    have hfield := (hp'.sizes hflag' (hroom.trans_eq hagree.length.symm)).symm.trans
      (hp.sizes hflag hroom)
    exact succ_ne_self _ (htop.symm.trans (byteAt_of_field_eq hfield (by decide)))
  · rw [hsame]
    by_cases hmarker : sizeAt data offset ≤ 0x1C ∨ 0x38 ≤ sizeAt data offset ∧ sizeAt data offset < 0x3C
    · refine not_hasAttribute_of_marker fun i hlo hhi => ?_
      rw [hout i hlo (by omega), if_pos ⟨hmarker, hhi⟩]
    · refine not_hasAttribute_of_zero fun i hlo hhi => hzero i (by omega) ?_
      rw [if_neg (by omega), if_neg (by omega), if_neg (by omega)]

theorem leaks_noName (hlow : 9 ≤ sizeAt data offset) (hsize : sizeAt data offset < 12)
    (hshort : data.length < offset + 0x40) (hnone : a.name = none)
    (hname : 10 ≤ sizeAt data offset → byteAt data (offset + 9) ≠ 0 ∧
      least data (offset + 10) (offset + sizeAt data offset) + (byteAt data (offset + 9)).toNat * 2 ≤
        sizeAt data offset) :
    ∃ d, AgreeOn data d 0 (offset + sizeAt data offset) ∧ Differs d offset a := by
  have hroom := hp.has.1
  -- a name of one character, or of the given length, at the least offset
  obtain ⟨d, hagree, hout, hzero⟩ := exists_tail data (offset + sizeAt data offset)
    fun i => if i = offset + 9 then 1 else 0
  have hfine : AttributeFine d offset := fun _ _ hle => by have := hagree.length; omega
  have hsame : sizeAt d offset = sizeAt data offset := hagree.field (Nat.zero_le _) (by omega)
  have hstart := field_of_low (p := offset + 10) hagree (by omega) fun i hlo hle _ =>
    hzero i hlo (if_neg (by omega))
  refine ⟨d, hagree, differs_of_parsed hfine fun a' hp' => ⟨?_, ?_⟩⟩
  · rintro rfl
    refine hp'.name.mp hnone ?_
    rw [hstart, hsame]
    obtain hten | hnine := le_or_gt 10 (sizeAt data offset)
    · obtain ⟨hne, hle⟩ := hname hten
      rw [hagree.bytes (offset + 9) (Nat.zero_le _) (by omega)]
      exact ⟨Nat.pos_of_ne_zero fun hz => hne (BitVec.eq_of_toNat_eq hz), hle⟩
    · have hone : (1 : Byte).toNat = 1 := rfl
      have hempty : min 2 (offset + sizeAt data offset - (offset + 10)) = 0 := by omega
      rw [hout (offset + 9) (by omega) (by omega), if_pos rfl, least, hempty, field, hone]
      omega
  · rw [hsame]
    exact not_hasAttribute_of_zero fun i hlo hhi => hzero i (by omega) (if_neg (by omega))

theorem leaks_name (hlow : 9 ≤ sizeAt data offset) (hsize : sizeAt data offset < 12)
    (hshort : data.length < offset + 0x40) (hsome : a.name ≠ none) :
    ∃ d, AgreeOn data d 0 (offset + sizeAt data offset) ∧ Differs d offset a := by
  have hroom := hp.has.1
  -- no name at all, or one that is too far off
  obtain ⟨d, hagree, hout, hzero⟩ := exists_tail data (offset + sizeAt data offset)
    fun i => if i < offset + 12 ∧ i ≠ offset + 9 then 0xFF else 0
  have hfine : AttributeFine d offset := fun _ _ hle => by have := hagree.length; omega
  have hsame : sizeAt d offset = sizeAt data offset := hagree.field (Nat.zero_le _) (by omega)
  refine ⟨d, hagree, differs_of_parsed hfine fun a' hp' => ⟨?_, ?_⟩⟩
  · rintro rfl
    refine hsome (hp'.name.mpr fun hfits => ?_)
    obtain hten | hnine := le_or_gt 10 (sizeAt data offset)
    · have hlarge : 0xFF00 ≤ greatest data (offset + 10) (offset + sizeAt data offset) :=
        greatest_of_outside data (by omega)
      have hstart := field_of_high (p := offset + 10) hagree (by omega) fun i hlo _ hhi => by
        rw [hout i hlo (by omega), if_pos ⟨by omega, by omega⟩]
      omega
    · rw [hzero (offset + 9) (by omega) (if_neg (by omega))] at hfits
      exact absurd hfits.1 (lt_irrefl 0)
  · rw [hsame]
    exact not_hasAttribute_of_zero fun i hlo hhi => hzero i (by omega) (if_neg (by omega))

theorem exists_differs (hfine : AttributeFine data offset) (hleak : ¬KeepsToSpan data offset) :
    ∃ d, AgreeOn data d 0 (offset + sizeAt data offset) ∧ Differs d offset a := by
  obtain hlt | hge := lt_or_ge (sizeAt data offset) 8
  · exact leaks_size hp hlt
  by_cases hflag : byteAt data (offset + 8) = 0
  · obtain hlt | hheader := lt_or_ge (sizeAt data offset) 0x14
    · exact leaks_contentSize hp hge hlt hflag
    have hcontent : ¬ContentKept data offset := fun hkept => hleak
      ⟨by omega, fun _ => ⟨hheader, hkept⟩, fun hne => absurd hflag hne, fun hne => absurd hflag hne⟩
    obtain ⟨hleast, hempty, hspan⟩ : _ ∧ _ ∧ _ := by
      simpa only [ContentKept, not_or, not_and, not_lt, not_le] using hcontent
    obtain hlt | hsize := lt_or_ge (sizeAt data offset) 0x16
    · by_cases hinside :
          offset + field data (offset + 0x14) 2 + field data (offset + 0x10) 4 ≤ data.length
      · exact leaks_farContent hp hheader hlt hflag hinside hempty
      · exact leaks_nearContent hp hheader hlt hflag hinside hleast
    · rw [greatest_of_inside (by omega)] at hempty hspan
      rw [least_of_inside (by omega)] at hleast
      exact leaks_content hp hsize hflag (fun hz => by have := hempty hz; omega) hleast hspan
  · obtain heq | hgt := hge.eq_or_lt
    · exact leaks_flag hp heq.symm hflag
    obtain hroom | hshort := le_or_gt (offset + 0x40) data.length
    · refine leaks_sizes hp hfine hgt (not_le.mp fun hsize => hleak ?_) hflag hroom
      exact ⟨hgt, fun hz => absurd hz hflag, fun _ _ => hsize,
        fun _ hlt => absurd hroom (not_le.mpr hlt)⟩
    · have hname : ¬(10 ≤ sizeAt data offset ∧ NameKept data offset) := fun hkept => hleak
        ⟨hgt, fun hz => absurd hz hflag, fun _ hle => absurd hle (not_le.mpr hshort), fun _ _ => hkept⟩
      simp only [NameKept, not_and, not_or, not_le, not_lt] at hname
      obtain hlt | hge := lt_or_ge (sizeAt data offset) 12
      · by_cases hnone : a.name = none
        · exact leaks_noName hp hgt hlt hshort hnone fun hten => (hname hten).2
        · exact leaks_name hp hgt hlt hshort hnone
      · exact absurd (hname (by omega)).1 (not_lt.mpr hge)

end Leaks

end DeltaOS.NtfsLeaks
