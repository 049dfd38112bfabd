import DeltaOS.ByteSlices
import DeltaOS.Cursor
import DeltaOS.Kernel
import DeltaOS.Overflow
import DeltaOS.Utf16

namespace DeltaOS.Ntfs

open ByteSlices Cursor Kernel Overflow

def mftRecordSize : Nat := 1024
def mftRecordSignature : Nat := 0x454C4946

inductive NtfsAttributeType
  | standardInformation
  | attributeList
  | fileName
  | objectId
  | securityDescriptor
  | volumeName
  | volumeInformation
  | data
  | indexRoot
  | indexAllocation
  | bitmap
  | reparsePoint
  | eaInformation
  | ea
  | loggedUtilityStream
  | end
deriving DecidableEq, Repr

def NtfsAttributeType.code : NtfsAttributeType → Nat
  | .standardInformation => 0x10
  | .attributeList => 0x20
  | .fileName => 0x30
  | .objectId => 0x40
  | .securityDescriptor => 0x50
  | .volumeName => 0x60
  | .volumeInformation => 0x70
  | .data => 0x80
  | .indexRoot => 0x90
  | .indexAllocation => 0xA0
  | .bitmap => 0xB0
  | .reparsePoint => 0xC0
  | .eaInformation => 0xD0
  | .ea => 0xE0
  | .loggedUtilityStream => 0x100
  | .end => 0xFFFFFFFF

def NtfsAttributeType.fromU32 : Nat → NtfsAttributeType
  | 0x10 => .standardInformation
  | 0x20 => .attributeList
  | 0x30 => .fileName
  | 0x40 => .objectId
  | 0x50 => .securityDescriptor
  | 0x60 => .volumeName
  | 0x70 => .volumeInformation
  | 0x80 => .data
  | 0x90 => .indexRoot
  | 0xA0 => .indexAllocation
  | 0xB0 => .bitmap
  | 0xC0 => .reparsePoint
  | 0xD0 => .eaInformation
  | 0xE0 => .ea
  | 0x100 => .loggedUtilityStream
  | 0xFFFFFFFF => .end
  | _ => .end

/-- A run of clusters. The offset is a signed number. -/
structure DataRun where
  length : BitVec 64
  offset : BitVec 64
deriving DecidableEq, Repr

structure NtfsAttribute where
  attrType : NtfsAttributeType
  totalSize : Nat
  nonResident : Bool
  name : Option String
  residentData : Option (List Byte)
  runList : List DataRun
  dataSize : Nat
  initializedSize : Nat
deriving DecidableEq, Repr

structure MftRecord where
  recordNumber : Nat
  flags : Nat
  sequenceNumber : Nat
  attributes : List NtfsAttribute
  bytesInUse : Nat
deriving DecidableEq, Repr

def sizeLen (header : Byte) : Nat := (header &&& 0x0F).toNat

def offsetLen (header : Byte) : Nat := ((header >>> 4) &&& 0x0F).toNat

section runs

variable (profile : Profile)

/-- A shift by the width of the word or more panics in a build with overflow checks. A release
build takes the amount modulo 64. -/
def shift : Profile → BitVec 64 → Nat → Except Panic (BitVec 64)
  | .debug, v, n => shl v n
  | .release, v, n => .ok (v <<< (n % 64))

def orByte (data : List Byte) (offset : Nat) (v : BitVec 64) (i : Nat) : Except Panic (BitVec 64) := do
  let b ← index data (offset + i)
  let x ← shift profile (b.setWidth 64) (i * 8)
  pure (v ||| x)

def runField (data : List Byte) (offset len : Nat) : Except Panic (BitVec 64) :=
  (List.range len).foldlM (orByte profile data offset) 0

/-- The second half of a pass of the loop of `parse_run_list`, after the length. -/
def parseRunOffset (data : List Byte) (offset offsetLen : Nat) (length : BitVec 64) :
    Except Panic (Option (DataRun × Nat)) :=
  if offsetLen = 0 then pure (some (⟨length, 0⟩, offset))
  else if offset + offsetLen > data.length then pure none
  else do
    let runOffset ← runField profile data offset offsetLen
    let last ← index data (offset + offsetLen - 1)
    let sign ← if last &&& 0x80 ≠ 0 then shift profile (BitVec.allOnes 64) (offsetLen * 8) else pure 0
    pure (some (⟨length, runOffset ||| sign⟩, offset + offsetLen))

/-- A pass of the loop of `parse_run_list`. -/
def parseRun (data : List Byte) (offset : Nat) : Except Panic (Option (DataRun × Nat)) :=
  if offset < data.length then do
    let header ← index data offset
    if header = 0 then pure none
    else if sizeLen header = 0 ∨ offset + 1 + sizeLen header > data.length then pure none
    else do
      let length ← runField profile data (offset + 1) (sizeLen header)
      parseRunOffset profile data (offset + 1 + sizeLen header) (offsetLen header) length
  else pure none

def parseRunList (data : List Byte) : Except Panic (List DataRun) :=
  collect .outOfFuel (parseRun profile data) (data.length + 1) 0

end runs

def pushUnit (data : List Byte) (start : Nat) (name : String) (i : Nat) : Except Panic String :=
  if start + i * 2 + 1 < data.length then do
    let ch ← readLe data (start + i * 2) 2
    match Utf16.charFromU32 ch with
    | some c => pure (name.push c)
    | none => pure name
  else pure name

def parseName (data : List Byte) (offset nameLength nameOffset totalSize : Nat) :
    Except Panic (Option String) :=
  if 0 < nameLength ∧ nameOffset + nameLength * 2 ≤ totalSize then do
    let name ← (List.range nameLength).foldlM (pushUnit data (offset + nameOffset)) ""
    pure (some name)
  else pure none

def parseNonResident (data : List Byte) (offset : Nat) (attr : NtfsAttribute) :
    Except Panic NtfsAttribute :=
  if offset + 0x40 ≤ data.length then do
    let dataSize ← readLe data (offset + 0x30) 8
    let initializedSize ← readLe data (offset + 0x38) 8
    let runOffset ← readLe data (offset + 0x20) 2
    let runs ← slice data (offset + runOffset) (offset + attr.totalSize)
    let runList ← parseRunList .debug runs
    pure { attr with dataSize, initializedSize, runList }
  else pure attr

def parseResident (data : List Byte) (offset : Nat) (attr : NtfsAttribute) :
    Except Panic NtfsAttribute :=
  if offset + 0x16 ≤ data.length then do
    let contentSize ← readLe data (offset + 0x10) 4
    let contentOffset ← readLe data (offset + 0x14) 2
    let attr := { attr with dataSize := contentSize, initializedSize := contentSize }
    if offset + contentOffset + contentSize ≤ data.length then do
      let content ← slice data (offset + contentOffset) (offset + contentOffset + contentSize)
      pure { attr with residentData := some content }
    else pure attr
  else pure attr

def parseContents (data : List Byte) (offset : Nat) (attr : NtfsAttribute) :
    Except Panic NtfsAttribute :=
  if attr.nonResident then parseNonResident data offset attr else parseResident data offset attr

/-- A pass of the attribute loop of `parse_mft_record`. -/
def parseAttribute (data : List Byte) (offset : Nat) : Except Panic (Option (NtfsAttribute × Nat)) :=
  if offset + 4 < data.length then do
    let attrType ← readLe data offset 4
    if attrType = 0xFFFFFFFF then pure none
    else if offset + 24 > data.length then pure none
    else do
      let totalSize ← readLe data (offset + 4) 4
      if totalSize = 0 ∨ offset + totalSize > data.length then pure none
      else do
        let nonResident ← index data (offset + 8)
        let nameLength ← index data (offset + 9)
        let nameOffset ← readLe data (offset + 10) 2
        let name ← parseName data offset nameLength.toNat nameOffset totalSize
        let attr : NtfsAttribute :=
          { attrType := .fromU32 attrType, totalSize, nonResident := nonResident ≠ 0, name,
            residentData := none, runList := [], dataSize := 0, initializedSize := 0 }
        let attr ← parseContents data offset attr
        pure (some (attr, offset + totalSize))
  else pure none

def parseMftRecord (data : List Byte) : Except Panic (KernelResult MftRecord) :=
  if data.length < mftRecordSize then pure (.error .ioError)
  else do
    let signature ← readLe data 0 4
    if signature ≠ mftRecordSignature then pure (.error .ioError)
    else do
      let sequenceNumber ← readLe data 0x10 2
      let attrsOffset ← readLe data 0x14 2
      let flags ← readLe data 0x16 2
      let bytesInUse ← readLe data 0x18 4
      let attributes ← collect .outOfFuel (parseAttribute data) (data.length + 1) attrsOffset
      pure (.ok { recordNumber := 0, flags, sequenceNumber, attributes, bytesInUse })

variable {profile : Profile} {data : List Byte} {offset len : Nat}

theorem shift_ok {v : BitVec 64} {n : Nat} (h : n < 64) : shift profile v n = .ok (v <<< n) := by
  cases profile with
  | debug => exact shl_ok h
  | release => rw [shift, Nat.mod_eq_of_lt h]

theorem orByte_ok {v : BitVec 64} {i : Nat} (h : offset + i < data.length) (hi : i < 8) :
    orByte profile data offset v i = .ok (v ||| (byteAt data (offset + i)).setWidth 64 <<< (i * 8)) := by
  rw [orByte, index_ok h, ok_bind, shift_ok (by omega), ok_bind]
  rfl

theorem runField_succ (profile : Profile) (data : List Byte) (offset len : Nat) :
    runField profile data offset (len + 1) =
      runField profile data offset len >>= fun v => orByte profile data offset v len :=
  foldlM_range_succ (orByte profile data offset) 0 len

theorem parseRun_none (h : ¬(offset < data.length ∧ sizeLen (byteAt data offset) ≠ 0 ∧
      offset + 1 + sizeLen (byteAt data offset) ≤ data.length)) :
    parseRun profile data offset = .ok none := by
  rw [parseRun]
  split_ifs with hlt
  · rw [index_ok hlt, ok_bind]
    split_ifs with hzero hsize
    · rfl
    · rfl
    · exact absurd ⟨hlt, fun he => hsize (.inl he), not_lt.mp fun hgt => hsize (.inr hgt)⟩ h
  · rfl

theorem parseRun_sized (hlt : offset < data.length) (hne : sizeLen (byteAt data offset) ≠ 0)
    (hle : offset + 1 + sizeLen (byteAt data offset) ≤ data.length) : parseRun profile data offset =
      runField profile data (offset + 1) (sizeLen (byteAt data offset)) >>= parseRunOffset profile data
        (offset + 1 + sizeLen (byteAt data offset)) (offsetLen (byteAt data offset)) := by
  have hzero : byteAt data offset ≠ 0 := by
    intro h
    rw [h] at hne
    exact hne rfl
  rw [parseRun, if_pos hlt, index_ok hlt, ok_bind, if_neg hzero,
    if_neg (not_or.mpr ⟨hne, not_lt.mpr hle⟩)]

def sizeAt (data : List Byte) (offset : Nat) : Nat := field data (offset + 4) 4

/-- The loop of `parse_mft_record` takes an attribute from here. -/
def HasAttribute (data : List Byte) (offset : Nat) : Prop :=
  offset + 24 ≤ data.length ∧ field data offset 4 ≠ 0xFFFFFFFF ∧ sizeAt data offset ≠ 0 ∧
    offset + sizeAt data offset ≤ data.length

instance (data : List Byte) (offset : Nat) : Decidable (HasAttribute data offset) :=
  inferInstanceAs (Decidable (_ ∧ _))

def runOffsetAt (data : List Byte) (offset : Nat) : Nat := field data (offset + 0x20) 2

def runBytes (data : List Byte) (offset : Nat) : List Byte :=
  (data.take (offset + sizeAt data offset)).drop (offset + runOffsetAt data offset)

theorem parseAttribute_none (h : ¬HasAttribute data offset) : parseAttribute data offset = .ok none := by
  rw [parseAttribute]
  by_cases hlt : offset + 4 < data.length
  · rw [if_pos hlt, readLe_ok hlt.le, ok_bind]
    by_cases hend : field data offset 4 = 0xFFFFFFFF
    · rw [if_pos hend]
      rfl
    by_cases hroom : offset + 24 ≤ data.length
    · rw [if_neg hend, if_neg (not_lt.mpr hroom), readLe_ok (by omega), ok_bind, if_pos]
      · rfl
      · by_contra hsize
        obtain ⟨hpos, hinside⟩ := not_or.mp hsize
        exact h ⟨hroom, hend, hpos, not_lt.mp hinside⟩
    · rw [if_neg hend, if_pos (not_le.mp hroom)]
      rfl
  · rw [if_neg hlt]
    rfl

/-- What a pass starts from before it looks at the contents. -/
def headerAt (data : List Byte) (offset : Nat) (name : Option String) : NtfsAttribute where
  attrType := .fromU32 (field data offset 4)
  totalSize := sizeAt data offset
  nonResident := byteAt data (offset + 8) ≠ 0
  name := name
  residentData := none
  runList := []
  dataSize := 0
  initializedSize := 0

theorem parseAttribute_some (h : HasAttribute data offset) : parseAttribute data offset =
    (fun attr => some (attr, offset + sizeAt data offset)) <$>
      (parseName data offset (byteAt data (offset + 9)).toNat (field data (offset + 10) 2)
        (sizeAt data offset) >>= fun name => parseContents data offset (headerAt data offset name)) := by
  obtain ⟨hroom, hend, hpos, hinside⟩ := h
  have hsize : ¬(field data (offset + 4) 4 = 0 ∨ offset + field data (offset + 4) 4 > data.length) :=
    not_or.mpr ⟨hpos, not_lt.mpr hinside⟩
  rw [parseAttribute, if_pos (by omega), readLe_ok (by omega), ok_bind, if_neg hend,
    if_neg (not_lt.mpr hroom), readLe_ok (by omega), ok_bind, if_neg hsize, index_ok (by omega), ok_bind,
    index_ok (by omega), ok_bind, readLe_ok (by omega), ok_bind]
  simp only [map_eq_pure_bind, bind_assoc]
  rfl

theorem parseContents_header (data : List Byte) (offset : Nat) (name : Option String) :
    parseContents data offset (headerAt data offset name) = if byteAt data (offset + 8) ≠ 0 then
        parseNonResident data offset (headerAt data offset name)
      else parseResident data offset (headerAt data offset name) := by
  simp only [parseContents, headerAt, decide_eq_true_eq]

theorem parseResident_inside {attr : NtfsAttribute} {content : List Byte}
    (h : offset + 0x16 ≤ data.length) (hlen : field data (offset + 0x10) 4 = content.length)
    (hslice : slice data (offset + field data (offset + 0x14) 2)
      (offset + field data (offset + 0x14) 2 + content.length) = .ok content) :
    parseResident data offset attr = .ok { attr with
      dataSize := content.length
      initializedSize := content.length
      residentData := some content } := by
  have hinside : offset + field data (offset + 0x14) 2 + content.length ≤ data.length := by
    by_contra hout
    rw [slice, if_neg fun hc => hout hc.2] at hslice
    cases hslice
  rw [parseResident, if_pos h, readLe_ok (by omega), ok_bind, readLe_ok (by omega), ok_bind, hlen]
  dsimp only
  rw [if_pos hinside, hslice, ok_bind]
  rfl

theorem parseNonResident_short {attr : NtfsAttribute} (h : ¬offset + 0x40 ≤ data.length) :
    parseNonResident data offset attr = .ok attr := if_neg h

theorem parseNonResident_eq {attr : NtfsAttribute} (h : offset + 0x40 ≤ data.length)
    (hsize : attr.totalSize = sizeAt data offset) : parseNonResident data offset attr =
      slice data (offset + runOffsetAt data offset) (offset + sizeAt data offset) >>= fun runs =>
        (fun runList => { attr with
          dataSize := field data (offset + 0x30) 8
          initializedSize := field data (offset + 0x38) 8
          runList := runList }) <$> parseRunList .debug runs := by
  rw [parseNonResident, if_pos h, readLe_ok (by omega), ok_bind, readLe_ok (by omega), ok_bind,
    readLe_ok (by omega), ok_bind, hsize]
  rfl

theorem slice_runBytes (h : HasAttribute data offset)
    (hle : runOffsetAt data offset ≤ sizeAt data offset) :
    slice data (offset + runOffsetAt data offset) (offset + sizeAt data offset) =
      .ok (runBytes data offset) := slice_ok (Nat.add_le_add_left hle _) h.2.2.2

theorem parseMftRecord_refused
    (h : ¬(mftRecordSize ≤ data.length ∧ field data 0 4 = mftRecordSignature)) :
    parseMftRecord data = .ok (.error .ioError) := by
  rw [parseMftRecord]
  by_cases hlen : data.length < mftRecordSize
  · rw [if_pos hlen]
    rfl
  · have hsize : mftRecordSize ≤ data.length := not_lt.mp hlen
    have hfour : 0 + 4 ≤ data.length := le_trans (by decide) hsize
    rw [if_neg hlen, readLe_ok hfour, ok_bind, if_pos fun hsig => h ⟨hsize, hsig⟩]
    rfl

/-- The record that is built from the fields of the header. -/
def recordAt (data : List Byte) (attributes : List NtfsAttribute) : MftRecord where
  recordNumber := 0
  flags := field data 0x16 2
  sequenceNumber := field data 0x10 2
  attributes := attributes
  bytesInUse := field data 0x18 4

theorem parseMftRecord_accepted (hsize : mftRecordSize ≤ data.length)
    (hsig : field data 0 4 = mftRecordSignature) : parseMftRecord data =
      (fun attributes => .ok (recordAt data attributes)) <$>
        collect .outOfFuel (parseAttribute data) (data.length + 1) (field data 0x14 2) := by
  have hlen : 1024 ≤ data.length := hsize
  rw [parseMftRecord, if_neg (not_lt.mpr hsize), readLe_ok (by omega), ok_bind,
    if_neg (not_not.mpr hsig),
    readLe_ok (by omega), ok_bind, readLe_ok (by omega), ok_bind, readLe_ok (by omega), ok_bind,
    readLe_ok (by omega), ok_bind]
  rfl

end DeltaOS.Ntfs
