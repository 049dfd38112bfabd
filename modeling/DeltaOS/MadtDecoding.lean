import DeltaOS.AcpiBounds

namespace DeltaOS.MadtDecoding

open ByteMemory Overflow Traces Acpi AcpiBounds

section capped

variable {α : Type} {cap n : Nat} {v : Vector α cap} {l : List α}

/-- The array holds the first elements of the list, as many as it has room for, and `n` is their
number. -/
structure Capped (v : Vector α cap) (n : Nat) (l : List α) : Prop where
  count : n = min l.length cap
  elements : v.toList.take n = l.take cap

theorem Capped.nil (v : Vector α cap) : Capped v 0 [] := ⟨(Nat.zero_min cap).symm, by simp⟩

theorem Capped.push (h : Capped v n l) (hn : n < cap) (x : α) :
    Capped (v.set n x hn) (n + 1) (l ++ [x]) := by
  have hlen : n = l.length := by
    have := h.count
    omega
  have hall : v.toList.take n = l := by
    rw [h.elements, List.take_of_length_le (by omega)]
  refine ⟨?_, ?_⟩
  · rw [List.length_append, List.length_singleton]
    omega
  · have hfits : (l ++ [x]).length ≤ cap := by
      rw [List.length_append, List.length_singleton]
      omega
    rw [List.take_of_length_le hfits, Vector.toList_set, List.take_add_one,
      List.take_set_of_le (Nat.le_refl n), hall, List.getElem?_set_self (by simpa using hn)]
    rfl

theorem Capped.full (h : Capped v n l) (hn : ¬n < cap) (x : α) : Capped v n (l ++ [x]) := by
  have hcount := h.count
  refine ⟨?_, ?_⟩
  · rw [List.length_append, List.length_singleton]
    omega
  · rw [h.elements, List.take_append_of_le_length (by omega)]

end capped

variable (profile : Profile) (m : Memory) (addr : Nat)

/-- How long the structure of an entry's type is. Of the other types, `parse_madt` knows the header
only. -/
def structureSize : MadtEntryType → Nat
  | .localApic => 8
  | .ioApic => 12
  | .interruptSourceOverride => 10
  | .localApicAddressOverride => 12
  | _ => 2

/-- The entries that start at these offsets follow each other and fill the table from `offset` on. -/
def Fills : Nat → List Nat → Prop
  | offset, [] => offset = sdtLength m addr
  | offset, entry :: entries =>
    entry = offset ∧ structureSize (entryType m addr entry) ≤ entryLength m addr entry ∧
      Fills (entry + entryLength m addr entry) entries

/-- A MADT in memory that consists of its header and these entries. -/
structure WellFormed (entries : List Nat) : Prop where
  space : addr + sdtLength m addr ≤ usizeRange
  fills : Fills m addr madtSize entries

def processor? (entry : Nat) : Option ProcessorInfo :=
  if entryType m addr entry = .localApic then
    some ⟨word m addr (entry + 2) 1, word m addr (entry + 3) 1, word m addr (entry + 4) 4 &&& 1 != 0⟩
  else none

def override? (entry : Nat) : Option IntOverride :=
  if entryType m addr entry = .interruptSourceOverride then
    some ⟨word m addr (entry + 2) 1, word m addr (entry + 3) 1, word m addr (entry + 4) 4,
      word m addr (entry + 8) 2⟩
  else none

def ioApic? (entry : Nat) : Option (Nat × Nat) :=
  if entryType m addr entry = .ioApic
    then some (word m addr (entry + 4) 4, word m addr (entry + 8) 4) else none

def addressOverride? (entry : Nat) : Option Nat :=
  if entryType m addr entry = .localApicAddressOverride then some (word m addr (entry + 4) 8) else none

/-- What the entries of a MADT say, in a record that was `info` before. -/
structure Decoded (entries : List Nat) (info info' : AcpiInfo) : Prop where
  processors : Capped info'.processors info'.processorCount.toNat (entries.filterMap (processor? m addr))
  intOverrides : Capped info'.intOverrides info'.intOverrideCount (entries.filterMap (override? m addr))
  ioApic : (info'.ioApicAddress, info'.ioApicGsiBase) =
    (entries.filterMap (ioApic? m addr)).getLastD (info.ioApicAddress, info.ioApicGsiBase)
  localApic : info'.localApicAddress = (entries.filterMap (addressOverride? m addr)).getLastD
    (word m addr 36 4)

def decode (info : AcpiInfo) (entry : Nat) : Option AcpiInfo :=
  (parseEntry profile m addr entry info (entryType m addr entry)).value

variable {profile m addr} {info s : AcpiInfo} {entry offset : Nat} {entries : List Nat}

theorem two_le_structureSize (t : MadtEntryType) : 2 ≤ structureSize t := by
  cases t <;> decide

theorem Fills.length_le (h : Fills m addr offset entries) :
    offset + entries.length ≤ sdtLength m addr := by
  induction entries generalizing offset with
  | nil => exact Nat.le_of_eq h
  | cons entry entries ih =>
    obtain ⟨rfl, hsize, hrest⟩ := h
    have := ih hrest
    have := two_le_structureSize (entryType m addr entry)
    rw [List.length_cons]
    omega

theorem madtPass_value (h : entry < sdtLength m addr) (hspace : addr + sdtLength m addr ≤ usizeRange)
    (hlength : entryLength m addr entry ≠ 0) :
    (madtPass profile m addr (sdtLength m addr) (s, entry)).value =
      (decode profile m addr s entry).map fun s' => .inl (s', entry + entryLength m addr entry) := by
  have hadd : add profile addr entry = some (addr + entry) := add_ok (by omega)
  rw [madtPass_eq h hadd]
  simp only [readEntry, value_bind, value_emit, Option.bind_some]
  rw [← entryLength, decode]
  cases (parseEntry profile m addr entry s (entryType m addr entry)).value with
  | none => rfl
  | some s' =>
    rw [Option.bind_some, if_neg hlength]
    rfl

theorem loop_madtPass (hspace : addr + sdtLength m addr ≤ usizeRange) {fuel : Nat}
    (hfuel : entries.length < fuel) (h : Fills m addr offset entries) :
    (loop (madtPass profile m addr (sdtLength m addr)) fuel (s, offset)).value =
      entries.foldlM (decode profile m addr) s := by
  induction entries generalizing offset fuel s with
  | nil =>
    obtain ⟨fuel, rfl⟩ := Nat.exists_eq_add_one.mpr hfuel
    have hend : ¬offset < sdtLength m addr := by
      rw [Fills] at h
      omega
    rw [loop, value_bind, madtPass, if_neg hend]
    rfl
  | cons entry entries ih =>
    obtain ⟨fuel, rfl⟩ := Nat.exists_eq_add_one.mpr (Nat.zero_lt_of_lt hfuel)
    have hlen := h.length_le
    obtain ⟨rfl, hsize, hrest⟩ := h
    have htwo := two_le_structureSize (entryType m addr entry)
    rw [List.length_cons] at hlen hfuel
    rw [loop, value_bind, madtPass_value (by omega) hspace (by omega), List.foldlM_cons]
    cases decode profile m addr s entry with
    | none => rfl
    | some s' => exact ih (by omega) hrest

theorem parseMadt_value (h : WellFormed m addr entries) : (parseMadt profile m addr info).value =
    entries.foldlM (decode profile m addr) { info with localApicAddress := word m addr 36 4 } := by
  have hlen := h.fills.length_le
  have hfuel : entries.length < sdtLength m addr + 1 := by omega
  rw [← loop_madtPass h.space hfuel h.fills, parseMadt]
  simp only [readField, value_bind, value_emit, Option.bind_some]
  rfl

theorem countUp_of_lt {n : BitVec 8} (h : n.toNat + 1 < 256) : countUp profile n = some (n + 1) := by
  cases profile with
  | release => rfl
  | debug => exact if_pos h

theorem toNat_countUp {n : BitVec 8} (h : n.toNat + 1 < 256) : (n + 1).toNat = n.toNat + 1 := by
  rw [BitVec.toNat_add]
  exact Nat.mod_eq_of_lt h

theorem decode_localApic (htype : entryType m addr entry = .localApic)
    (hcount : s.processorCount.toNat + 1 < 256) :
    ∃ p, processor? m addr entry = some p ∧ decode profile m addr s entry = some { s with
      processors := s.processors.set s.processorCount.toNat p s.processorCount.isLt
      processorCount := s.processorCount + 1 } := by
  have hlt : s.processorCount.toNat < 256 := s.processorCount.isLt
  refine ⟨_, if_pos htype, ?_⟩
  simp [decode, htype, parseEntry, parseLocalApic, readEntry, hlt, countUp_of_lt hcount]

theorem decode_override {l : List IntOverride}
    (htype : entryType m addr entry = .interruptSourceOverride)
    (h : Capped s.intOverrides s.intOverrideCount l) :
    ∃ o v n, override? m addr entry = some o ∧ Capped v n (l ++ [o]) ∧
      decode profile m addr s entry = some { s with intOverrides := v, intOverrideCount := n } := by
  by_cases hroom : s.intOverrideCount < 16
  · refine ⟨_, _, _, if_pos htype, h.push hroom _, ?_⟩
    rw [decode, htype, parseEntry, parseIntSourceOverride, dif_pos hroom]
    simp [readEntry]
  · refine ⟨_, _, _, if_pos htype, h.full hroom _, ?_⟩
    rw [decode, htype, parseEntry, parseIntSourceOverride, dif_neg hroom]
    rfl

theorem decode_ioApic (htype : entryType m addr entry = .ioApic) :
    ∃ a, ioApic? m addr entry = some a ∧
      decode profile m addr s entry = some { s with ioApicAddress := a.1, ioApicGsiBase := a.2 } := by
  refine ⟨_, if_pos htype, ?_⟩
  simp [decode, htype, parseEntry, parseIoApic, readEntry]

theorem decode_addressOverride (htype : entryType m addr entry = .localApicAddressOverride) :
    ∃ a, addressOverride? m addr entry = some a ∧
      decode profile m addr s entry = some { s with localApicAddress := a } := by
  refine ⟨_, if_pos htype, ?_⟩
  simp [decode, htype, parseEntry, parseLocalApicAddressOverride, readEntry]

theorem filterMap_concat_none {α β : Type*} {f : α → Option β} {l : List α} {x : α} (h : f x = none) :
    (l ++ [x]).filterMap f = l.filterMap f := by
  rw [List.filterMap_append, List.filterMap_cons_none h, List.filterMap_nil, List.append_nil]

theorem filterMap_concat_some {α β : Type*} {f : α → Option β} {l : List α} {x : α} {y : β}
    (h : f x = some y) : (l ++ [x]).filterMap f = l.filterMap f ++ [y] := by
  rw [List.filterMap_append, List.filterMap_cons_some h, List.filterMap_nil]

theorem Decoded.step (h : Decoded m addr entries info s)
    (hcount : ((entries ++ [entry]).filterMap (processor? m addr)).length < 256) :
    ∃ s', decode profile m addr s entry = some s' ∧ Decoded m addr (entries ++ [entry]) info s' := by
  obtain ⟨hproc, hover, hio, hlapic⟩ := h
  -- The entry is added to the list of its own type, and the others stay as they are.
  have hproc' : entryType m addr entry ≠ .localApic →
      (entries ++ [entry]).filterMap (processor? m addr) = entries.filterMap (processor? m addr) :=
    fun hne => filterMap_concat_none (if_neg hne)
  have hover' : entryType m addr entry ≠ .interruptSourceOverride →
      (entries ++ [entry]).filterMap (override? m addr) = entries.filterMap (override? m addr) :=
    fun hne => filterMap_concat_none (if_neg hne)
  have hio' : entryType m addr entry ≠ .ioApic →
      (entries ++ [entry]).filterMap (ioApic? m addr) = entries.filterMap (ioApic? m addr) :=
    fun hne => filterMap_concat_none (if_neg hne)
  have hlapic' : entryType m addr entry ≠ .localApicAddressOverride →
      (entries ++ [entry]).filterMap (addressOverride? m addr) =
        entries.filterMap (addressOverride? m addr) :=
    fun hne => filterMap_concat_none (if_neg hne)
  cases htype : entryType m addr entry with
  | localApic =>
    rw [htype] at hover' hio' hlapic'
    obtain ⟨p, hp⟩ : ∃ p, processor? m addr entry = some p := ⟨_, if_pos htype⟩
    have hroom : s.processorCount.toNat + 1 < 256 := by
      have hlen := hproc.count
      rw [filterMap_concat_some hp, List.length_append, List.length_singleton] at hcount
      omega
    obtain ⟨p, hp, hdecode⟩ := decode_localApic htype hroom
    refine ⟨_, hdecode, ?_, (hover' (by decide)).symm ▸ hover, (hio' (by decide)).symm ▸ hio,
      (hlapic' (by decide)).symm ▸ hlapic⟩
    rw [filterMap_concat_some hp, toNat_countUp hroom]
    exact hproc.push s.processorCount.isLt p
  | ioApic =>
    rw [htype] at hproc' hover' hlapic'
    obtain ⟨a, ha, hdecode⟩ := decode_ioApic htype
    refine ⟨_, hdecode, (hproc' (by decide)).symm ▸ hproc, (hover' (by decide)).symm ▸ hover, ?_,
      (hlapic' (by decide)).symm ▸ hlapic⟩
    rw [filterMap_concat_some ha, List.getLastD_concat]
  | interruptSourceOverride =>
    rw [htype] at hproc' hio' hlapic'
    obtain ⟨o, v, n, ho, hcapped, hdecode⟩ := decode_override htype hover
    refine ⟨_, hdecode, (hproc' (by decide)).symm ▸ hproc, ?_, (hio' (by decide)).symm ▸ hio,
      (hlapic' (by decide)).symm ▸ hlapic⟩
    rw [filterMap_concat_some ho]
    exact hcapped
  | localApicAddressOverride =>
    rw [htype] at hproc' hover' hio'
    obtain ⟨a, ha, hdecode⟩ := decode_addressOverride htype
    refine ⟨_, hdecode, (hproc' (by decide)).symm ▸ hproc, (hover' (by decide)).symm ▸ hover,
      (hio' (by decide)).symm ▸ hio, ?_⟩
    rw [filterMap_concat_some ha, List.getLastD_concat]
  | _ =>
    rw [htype] at hproc' hover' hio' hlapic'
    exact ⟨s, by rw [decode, htype]; rfl, (hproc' (by decide)).symm ▸ hproc, (hover'
      (by decide)).symm ▸ hover, (hio' (by decide)).symm ▸ hio, (hlapic' (by decide)).symm ▸ hlapic⟩

/-- The entries before `rest` have been decoded. -/
def Halfway (m : Memory) (addr : Nat) (entries : List Nat) (info : AcpiInfo) (rest : List Nat)
    (s : AcpiInfo) : Prop :=
  ∃ before, before ++ rest = entries ∧ Decoded m addr before info s

theorem Halfway.step {rest : List Nat} (h : Halfway m addr entries info (entry :: rest) s)
    (hcount : (entries.filterMap (processor? m addr)).length < 256) :
    ∃ s', decode profile m addr s entry = some s' ∧ Halfway m addr entries info rest s' := by
  obtain ⟨before, rfl, hbefore⟩ := h
  have hroom : ((before ++ [entry]).filterMap (processor? m addr)).length < 256 := by
    rw [List.append_cons, List.filterMap_append, List.length_append] at hcount
    omega
  obtain ⟨s', hdecode, hs'⟩ := hbefore.step hroom
  exact ⟨s', hdecode, before ++ [entry], (List.append_cons before entry rest).symm, hs'⟩

theorem Decoded.run (h : Decoded m addr [] info s)
    (hcount : (entries.filterMap (processor? m addr)).length < 256) :
    ∃ s', entries.foldlM (decode profile m addr) s = some s' ∧ Decoded m addr entries info s' := by
  obtain ⟨s', hfold, before, hall, hs'⟩ := foldlM_total (P := Halfway m addr entries info)
    (fun _ _ _ hhalf => hhalf.step hcount) entries ⟨[], rfl, h⟩
  rw [List.append_nil] at hall
  exact ⟨s', hfold, hall ▸ hs'⟩

/-- A well-formed MADT is decoded exactly when a `u8` can count its processors. -/
theorem parseMadt_decodes_iff (h : WellFormed m addr entries) (hproc : info.processorCount = 0)
    (hover : info.intOverrideCount = 0) :
    (∃ info', (parseMadt profile m addr info).value = some info' ∧ Decoded m addr entries info info') ↔
      (entries.filterMap (processor? m addr)).length < 256 := by
  constructor
  · rintro ⟨info', -, hinfo'⟩
    have hcount := hinfo'.processors.count
    have hlt := info'.processorCount.isLt
    omega
  · intro hcount
    have hfirst : Decoded m addr [] info { info with localApicAddress := word m addr 36 4 } := by
      refine ⟨?_, ?_, rfl, rfl⟩
      · dsimp only
        rw [hproc]
        exact Capped.nil _
      · dsimp only
        rw [hover]
        exact Capped.nil _
    rw [parseMadt_value h]
    exact hfirst.run hcount

instance Fills.decidable (m : Memory) (addr : Nat) : (offset : Nat) → (entries : List Nat) →
    Decidable (Fills m addr offset entries)
  | offset, [] => inferInstanceAs (Decidable (offset = sdtLength m addr))
  | offset, entry :: entries =>
    have := Fills.decidable m addr (entry + entryLength m addr entry) entries
    inferInstanceAs (Decidable (entry = offset ∧ structureSize (entryType m addr entry) ≤
      entryLength m addr entry ∧
      Fills m addr (entry + entryLength m addr entry) entries))

/-- Two processors, an IO APIC, an override, an entry that is not decoded and a new address. -/
def mixed : Memory := listed 100
    ([0, 8, 0, 0, 1, 0, 0, 0] ++ [1, 12, 2, 0, 0, 0, 0xC0, 0xFE, 0, 0, 0, 0] ++
  [2, 10, 0, 0, 2, 0, 0, 0, 0, 0] ++ [0, 8, 1, 1, 0, 0, 0, 0] ++ [4, 6, 0xFF, 0, 0, 1] ++
  [5, 12, 0, 0, 0, 0, 0xE0, 0xFE, 0, 0, 0, 0])

theorem mixed_decodes : WellFormed mixed 0x102C [44, 52, 64, 74, 82, 88] ∧
    ∃ info', (parseMadt .debug mixed 0x102C .new).value = some info' ∧
      Decoded mixed 0x102C [44, 52, 64, 74, 82, 88] .new info' := by
  have hwell : WellFormed mixed 0x102C [44, 52, 64, 74, 82, 88] := ⟨by decide, by decide +kernel⟩
  exact ⟨hwell, (parseMadt_decodes_iff hwell rfl rfl).mpr (by decide +kernel)⟩

def crowded : Memory := fun a =>
  if a < 0x102C then (sdt madtSignature 2092 0).getD (a - 0x1000) 0
  else [0, 8, BitVec.ofNat 8 ((a - 0x102C) / 8), BitVec.ofNat 8 ((a - 0x102C) / 8), 1].getD
    ((a - 0x102C) % 8) 0

/-- The last processor makes the count wrap to zero, or stops a build with overflow checks. -/
theorem crowded_lost : WellFormed crowded 0x1000 (List.range' 44 256 8) ∧
    (parseMadt .debug crowded 0x1000 .new).value.isNone ∧
    (parseMadt .release crowded 0x1000 .new).value.map (·.processorCount) = some 0 ∧
    ∀ profile, ¬∃ info', (parseMadt profile crowded 0x1000 .new).value = some info' ∧
      Decoded crowded 0x1000 (List.range' 44 256 8) .new info' := by
  refine ⟨⟨by decide, by decide +kernel⟩, by decide +kernel, by decide +kernel, ?_⟩
  rintro profile ⟨info', -, hinfo'⟩
  have hcount := hinfo'.processors.count
  have hlt := info'.processorCount.isLt
  have hall : ((List.range' 44 256 8).filterMap (processor? crowded 0x1000)).length = 256 :=
    by decide +kernel
  omega

end DeltaOS.MadtDecoding
