import DeltaOS.Ntfs

namespace DeltaOS.NtfsSafety

open ByteSlices Cursor Kernel Ntfs

variable {data : List Byte} {offset len : Nat}

/-- No byte of the offset of a run is shifted out of the word, its sign extension included. -/
def OffsetFine (data : List Byte) (offset len : Nat) : Prop :=
  len ≤ 8 ∧ (len = 8 → byteAt data (offset + 7) &&& 0x80 = 0)

def runEnd (data : List Byte) (offset : Nat) : Nat :=
  offset + 1 + sizeLen (byteAt data offset) + offsetLen (byteAt data offset)

/-- The run list goes on after the run at this position. -/
def nextRun (data : List Byte) (offset : Nat) : Option Nat :=
  if offset < data.length ∧ sizeLen (byteAt data offset) ≠ 0 ∧ runEnd data offset ≤ data.length then
    some (runEnd data offset)
  else none

def RunFine (data : List Byte) (offset : Nat) : Prop :=
  offset < data.length → sizeLen (byteAt data offset) ≠ 0 →
    offset + 1 + sizeLen (byteAt data offset) ≤ data.length →
      sizeLen (byteAt data offset) ≤ 8 ∧ (runEnd data offset ≤ data.length →
        OffsetFine data (offset + 1 + sizeLen (byteAt data offset)) (offsetLen (byteAt data offset)))

def RunsFine (data : List Byte) : Prop := ∀ p, Comes (nextRun data) 0 p → RunFine data p

def nextAttribute (data : List Byte) (offset : Nat) : Option Nat :=
  if HasAttribute data offset then some (offset + sizeAt data offset) else none

def AttributeFine (data : List Byte) (offset : Nat) : Prop :=
  HasAttribute data offset → byteAt data (offset + 8) ≠ 0 → offset + 0x40 ≤ data.length →
    runOffsetAt data offset ≤ sizeAt data offset ∧ RunsFine (runBytes data offset)

def Harmless (data : List Byte) : Prop :=
  mftRecordSize ≤ data.length → field data 0 4 = mftRecordSignature →
    ∀ p, Comes (nextAttribute data) (field data 0x14 2) p → AttributeFine data p

theorem orByte_over {v : BitVec 64} {i : Nat} (h : offset + i < data.length) (hi : 8 ≤ i) :
    orByte .debug data offset v i = .error .shift := by
  rw [orByte, index_ok h, ok_bind, shift, shl_over (by omega), error_bind]

theorem runField_ok (h : offset + len ≤ data.length) (hlen : len ≤ 8) :
    ∃ v, runField .debug data offset len = .ok v := by
  induction len with
  | zero => exact ⟨0, rfl⟩
  | succ len ih =>
    obtain ⟨v, hv⟩ := ih (by omega) (by omega)
    exact ⟨_, by rw [runField_succ, hv, ok_bind, orByte_ok (by omega) (by omega)]⟩

theorem runField_over (h : offset + len ≤ data.length) (hlen : 8 < len) :
    runField .debug data offset len = .error .shift := by
  induction len with
  | zero => cases hlen
  | succ len ih =>
    rw [runField_succ]
    obtain hlt | rfl := Nat.lt_succ_iff_lt_or_eq.mp hlen
    · rw [ih (by omega) hlt, error_bind]
    · have hroom : offset + 8 ≤ data.length := Nat.le_of_succ_le h
      obtain ⟨v, hv⟩ := runField_ok hroom le_rfl
      rw [hv, ok_bind, orByte_over (by omega) le_rfl]

theorem parseRunOffset_none {length : BitVec 64} (h : data.length < offset + len)
    (hoffset : offset ≤ data.length) : parseRunOffset .debug data offset len length = .ok none := by
  rw [parseRunOffset, if_neg (by omega), if_pos h]
  rfl

theorem parseRunOffset_ok (length : BitVec 64) (h : offset + len ≤ data.length)
    (hfine : OffsetFine data offset len) :
    ∃ run, parseRunOffset .debug data offset len length = .ok (some (run, offset + len)) := by
  rw [parseRunOffset]
  by_cases hzero : len = 0
  · rw [if_pos hzero, hzero]
    exact ⟨_, rfl⟩
  obtain ⟨v, hv⟩ := runField_ok h hfine.1
  rw [if_neg hzero, if_neg (not_lt.mpr h), hv, ok_bind, index_ok (by omega), ok_bind]
  by_cases hsign : byteAt data (offset + len - 1) &&& 0x80 ≠ 0
  · have hlen : len ≠ 8 := by
      rintro rfl
      exact hsign (hfine.2 rfl)
    have hle := hfine.1
    rw [if_pos hsign, shift_ok (by omega), ok_bind]
    exact ⟨_, rfl⟩
  · rw [if_neg hsign]
    exact ⟨_, rfl⟩

theorem parseRunOffset_fails {length : BitVec 64} (h : offset + len ≤ data.length)
    (hfine : ¬OffsetFine data offset len) :
    parseRunOffset .debug data offset len length = .error .shift := by
  have hzero : len ≠ 0 := by
    rintro rfl
    exact hfine ⟨Nat.zero_le _, nofun⟩
  rw [parseRunOffset, if_neg hzero, if_neg (not_lt.mpr h)]
  by_cases hle : len ≤ 8
  · have hbad : ¬(len = 8 → byteAt data (offset + 7) &&& 0x80 = 0) := fun hs => hfine ⟨hle, hs⟩
    obtain ⟨rfl, hsign⟩ := Classical.not_imp.mp hbad
    obtain ⟨v, hv⟩ := runField_ok h hle
    rw [hv, ok_bind, index_ok (by omega), ok_bind]
    rw [show offset + 8 - 1 = offset + 7 from rfl, if_pos hsign, shift, shl_over le_rfl, error_bind]
  · rw [runField_over h (not_le.mp hle), error_bind]

theorem sized_of_nextRun {q : Nat} (h : nextRun data offset = some q) :
    (offset < data.length ∧ sizeLen (byteAt data offset) ≠ 0 ∧ runEnd data offset ≤ data.length) ∧
      runEnd data offset = q := by
  rw [nextRun] at h
  split_ifs at h with hc
  exact ⟨hc, Option.some.inj h⟩

theorem parseRun_walks (data : List Byte) :
    Walks .outOfFuel (parseRun .debug data) (nextRun data) (RunFine data) data.length := by
  constructor
  · intro p hfine hnext
    by_cases hsized : p < data.length ∧ sizeLen (byteAt data p) ≠ 0 ∧
        p + 1 + sizeLen (byteAt data p) ≤ data.length
    · obtain ⟨hlt, hne, hle⟩ := hsized
      obtain ⟨v, hv⟩ := runField_ok hle (hfine hlt hne hle).1
      have hend : data.length < runEnd data p := by
        by_contra hend
        rw [nextRun, if_pos ⟨hlt, hne, not_lt.mp hend⟩] at hnext
        cases hnext
      rw [parseRun_sized hlt hne hle, hv, ok_bind, parseRunOffset_none hend hle]
    · exact parseRun_none hsized
  · intro p q hfine hnext
    obtain ⟨⟨hlt, hne, hend⟩, rfl⟩ := sized_of_nextRun hnext
    have hle : p + 1 + sizeLen (byteAt data p) ≤ data.length := Nat.le_of_add_right_le hend
    obtain ⟨hsize, hoffset⟩ := hfine hlt hne hle
    obtain ⟨v, hv⟩ := runField_ok hle hsize
    obtain ⟨run, hrun⟩ := parseRunOffset_ok v hend (hoffset hend)
    exact ⟨run, by rw [parseRun_sized hlt hne hle, hv, ok_bind, hrun, runEnd]⟩
  · intro p hbad
    refine ⟨.shift, by decide, ?_⟩
    simp only [RunFine, Classical.not_imp, not_and] at hbad
    obtain ⟨hlt, hne, hle, hbad⟩ := hbad
    rw [parseRun_sized hlt hne hle]
    by_cases hsize : sizeLen (byteAt data p) ≤ 8
    · obtain ⟨hend, hoffset⟩ := hbad hsize
      obtain ⟨v, hv⟩ := runField_ok hle hsize
      rw [hv, ok_bind, parseRunOffset_fails hend hoffset]
    · rw [runField_over hle (not_le.mp hsize), error_bind]
  · intro p q hnext
    obtain ⟨⟨-, -, hend⟩, rfl⟩ := sized_of_nextRun hnext
    refine ⟨?_, hend⟩
    rw [runEnd]
    omega

theorem parseRunList_ok_iff (data : List Byte) :
    (∃ runs, parseRunList .debug data = .ok runs) ↔ RunsFine data :=
  (parseRun_walks data).collect_ok_iff (by omega)

theorem parseRunList_ne_outOfFuel (data : List Byte) : parseRunList .debug data ≠ .error .outOfFuel :=
  (parseRun_walks data).collect_ne_stuck (by omega)

theorem pushUnit_ok (data : List Byte) (start : Nat) (name : String) (i : Nat) :
    ∃ name', pushUnit data start name i = .ok name' := by
  rw [pushUnit]
  split_ifs with hlt
  · rw [readLe_ok (by omega), ok_bind]
    cases Utf16.charFromU32 (field data (start + i * 2) 2) with
    | none => exact ⟨_, rfl⟩
    | some c => exact ⟨_, rfl⟩
  · exact ⟨_, rfl⟩

theorem parseName_ok (data : List Byte) (offset nameLength nameOffset totalSize : Nat) :
    ∃ name, parseName data offset nameLength nameOffset totalSize = .ok name := by
  rw [parseName]
  split_ifs
  · obtain ⟨name, hname⟩ := foldlM_ok (pushUnit_ok data (offset + nameOffset)) (List.range nameLength) ""
    rw [hname]
    exact ⟨_, rfl⟩
  · exact ⟨_, rfl⟩

theorem parseResident_ok (data : List Byte) (offset : Nat) (attr : NtfsAttribute) :
    ∃ attr', parseResident data offset attr = .ok attr' := by
  rw [parseResident]
  split_ifs with hroom
  · rw [readLe_ok (by omega), ok_bind, readLe_ok (by omega), ok_bind]
    dsimp only
    split_ifs with hinside
    · rw [slice_ok (Nat.le_add_right _ _) hinside, ok_bind]
      exact ⟨_, rfl⟩
    · exact ⟨_, rfl⟩
  · exact ⟨_, rfl⟩

theorem parseContents_ok (name : Option String) (h : HasAttribute data offset)
    (hfine : AttributeFine data offset) :
    ∃ attr, parseContents data offset (headerAt data offset name) = .ok attr := by
  rw [parseContents_header]
  split_ifs with hnon
  · by_cases hroom : offset + 0x40 ≤ data.length
    · obtain ⟨hle, hruns⟩ := hfine h hnon hroom
      obtain ⟨runs, hlist⟩ := (parseRunList_ok_iff _).mpr hruns
      rw [parseNonResident_eq hroom rfl, slice_runBytes h hle, ok_bind, hlist]
      exact ⟨_, rfl⟩
    · exact ⟨_, parseNonResident_short hroom⟩
  · exact parseResident_ok data offset _

theorem parseContents_fails (name : Option String) (hfine : ¬AttributeFine data offset) :
    ∃ e, e ≠ .outOfFuel ∧ parseContents data offset (headerAt data offset name) = .error e := by
  simp only [AttributeFine, Classical.not_imp, not_and] at hfine
  obtain ⟨h, hnon, hroom, hbad⟩ := hfine
  rw [parseContents_header, if_pos hnon, parseNonResident_eq hroom rfl]
  by_cases hle : runOffsetAt data offset ≤ sizeAt data offset
  · rw [slice_runBytes h hle, ok_bind]
    cases hlist : parseRunList .debug (runBytes data offset) with
    | ok runs => exact absurd ((parseRunList_ok_iff _).mp ⟨runs, hlist⟩) (hbad hle)
    | error e =>
      refine ⟨e, ?_, rfl⟩
      rintro rfl
      exact parseRunList_ne_outOfFuel _ hlist
  · refine ⟨.slice, by decide, ?_⟩
    rw [slice_inverted (Nat.add_lt_add_left (not_le.mp hle) _), error_bind]

theorem nextAttribute_eq_some {q : Nat} (h : nextAttribute data offset = some q) :
    HasAttribute data offset ∧ offset + sizeAt data offset = q := by
  rw [nextAttribute] at h
  split_ifs at h with hc
  exact ⟨hc, Option.some.inj h⟩

theorem parseAttribute_walks (data : List Byte) :
    Walks .outOfFuel (parseAttribute data) (nextAttribute data) (AttributeFine data) data.length := by
  constructor
  · intro p _ hnext
    apply parseAttribute_none
    intro h
    rw [nextAttribute, if_pos h] at hnext
    cases hnext
  · intro p q hfine hnext
    obtain ⟨h, rfl⟩ := nextAttribute_eq_some hnext
    obtain ⟨name, hname⟩ := parseName_ok data p (byteAt data (p + 9)).toNat (field data (p + 10) 2)
      (sizeAt data p)
    obtain ⟨attr, hattr⟩ := parseContents_ok name h hfine
    exact ⟨attr, by rw [parseAttribute_some h, hname, ok_bind, hattr, Except.map_ok]⟩
  · intro p hbad
    have h : HasAttribute data p := by
      by_contra h
      exact hbad fun hc => absurd hc h
    obtain ⟨name, hname⟩ := parseName_ok data p (byteAt data (p + 9)).toNat (field data (p + 10) 2)
      (sizeAt data p)
    obtain ⟨e, he, herror⟩ := parseContents_fails name hbad
    refine ⟨e, he, ?_⟩
    rw [parseAttribute_some h, hname, ok_bind, herror]
    rfl
  · intro p q hnext
    obtain ⟨⟨-, -, hpos, hinside⟩, rfl⟩ := nextAttribute_eq_some hnext
    exact ⟨Nat.lt_add_of_pos_right (Nat.pos_of_ne_zero hpos), hinside⟩

/-- A record is parsed without a panic exactly when it is harmless, and the loops end on all records. -/
theorem parse_total_iff (data : List Byte) :
    parseMftRecord data ≠ .error .outOfFuel ∧
      ((∃ result, parseMftRecord data = .ok result) ↔ Harmless data) := by
  by_cases haccept : mftRecordSize ≤ data.length ∧ field data 0 4 = mftRecordSignature
  · have hwalk := parseAttribute_walks data
    have hfuel : data.length - field data 0x14 2 < data.length + 1 := by omega
    have hend := hwalk.collect_ne_stuck hfuel
    have hok := hwalk.collect_ok_iff hfuel
    have hharmless : Harmless data ↔
        ∀ p, Comes (nextAttribute data) (field data 0x14 2) p → AttributeFine data p :=
      ⟨fun h => h haccept.1 haccept.2, fun h _ _ => h⟩
    rw [parseMftRecord_accepted haccept.1 haccept.2, hharmless, ← hok]
    cases hc : collect Panic.outOfFuel (parseAttribute data) (data.length + 1) (field data 0x14 2) with
    | ok attributes => exact ⟨nofun, iff_of_true ⟨_, rfl⟩ ⟨attributes, rfl⟩⟩
    | error e =>
      rw [hc] at hend
      exact ⟨fun h => hend (congrArg _ (Except.error.inj h)), iff_of_false nofun nofun⟩
  · rw [parseMftRecord_refused haccept]
    exact ⟨nofun, iff_of_true ⟨_, rfl⟩ fun hlen hsig => absurd ⟨hlen, hsig⟩ haccept⟩

def recordOf (bytes : List Byte) : List Byte :=
  [0x46, 0x49, 0x4C, 0x45] ++ List.replicate 16 0 ++ [0x38, 0] ++ List.replicate 34 0 ++ bytes ++
    List.replicate (968 - bytes.length) 0

def nonResidentData (totalSize runOffset : Byte) (runs : List Byte) : List Byte :=
  [0x80, 0, 0, 0, totalSize, 0, 0, 0, 1, 0, 0, 0] ++ List.replicate 20 0 ++ [runOffset, 0] ++
    List.replicate 30 0 ++ runs

/-- A run list that starts after the end of the attribute, a length of nine bytes, and an offset
of eight bytes that is negative. -/
theorem hostile_records_panic :
    parseMftRecord (recordOf (nonResidentData 0x40 0x41 [])) = .error .slice ∧
      parseMftRecord (recordOf (nonResidentData 0x4A 0x40 [0x09, 1, 1, 1, 1, 1, 1, 1, 1, 1])) =
        .error .shift ∧
      parseMftRecord (recordOf (nonResidentData 0x4A 0x40 [0x81, 1, 0, 0, 0, 0, 0, 0, 0, 0x80])) =
        .error .shift := by
  decide +kernel

end DeltaOS.NtfsSafety
