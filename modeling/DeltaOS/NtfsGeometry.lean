import DeltaOS.Journal
import DeltaOS.Ntfs

namespace DeltaOS.NtfsGeometry

open ByteSlices Kernel Overflow Ntfs Journal

/-- The text `NTFS` and four spaces. -/
def ntfsSignature : List Byte := [0x4E, 0x54, 0x46, 0x53, 0x20, 0x20, 0x20, 0x20]

def mftNumberRoot : Nat := 5

/-- The sizes of the records are `i8`, the other numbers are unsigned. -/
structure NtfsBpb where
  bytesPerSector : BitVec 16
  sectorsPerCluster : BitVec 8
  totalSectors : BitVec 64
  mftStartCluster : BitVec 64
  mftmirrStartCluster : BitVec 64
  mftRecordSize : BitVec 8
  indexRecordSize : BitVec 8
  volumeSerial : BitVec 64
  clusterSize : BitVec 32
deriving DecidableEq, Repr

def readWord (w : Nat) (data : List Byte) (offset : Nat) : Option (BitVec w) :=
  ((readLe data offset (w / 8)).map (BitVec.ofNat w)).toOption

/-- The `i32` that `parse` computes from the byte for the size of a record. -/
def parsedRecordSize (profile : Profile) (raw : BitVec 8) (bytesPerSector : BitVec 16) :
    Option (BitVec 32) :=
  if raw.toInt > 0 then mulSigned profile (raw.signExtend 32) (bytesPerSector.setWidth 32)
  else do
    let count ← negSigned profile raw
    shiftLeft profile 1 (count.signExtend 32).toInt

namespace NtfsBpb

def parse (profile : Profile) (bootSector : List Byte) : Option (KernelResult NtfsBpb) :=
  if bootSector.length < 512 then some (.error .ioError)
  else do
    let signature ← (slice bootSector 3 11).toOption
    if signature ≠ ntfsSignature then some (.error .fileSystemNotFound)
    else do
      let bytesPerSector ← readWord 16 bootSector 11
      let sectorsPerCluster ← readWord 8 bootSector 13
      let totalSectors ← readWord 64 bootSector 40
      let mftStartCluster ← readWord 64 bootSector 48
      let mftmirrStartCluster ← readWord 64 bootSector 56
      let mftRecordSize ← readWord 8 bootSector 64
      let indexRecordSize ← readWord 8 bootSector 68
      let volumeSerial ← readWord 64 bootSector 72
      -- The value is not used, but computing it may panic.
      let _ ← parsedRecordSize profile mftRecordSize bytesPerSector
      let clusterSize ← mulWord profile (bytesPerSector.setWidth 32) (sectorsPerCluster.setWidth 32)
      some (.ok { bytesPerSector, sectorsPerCluster, totalSectors, mftStartCluster, mftmirrStartCluster,
                  mftRecordSize, indexRecordSize, volumeSerial, clusterSize })

def mftRecordSizeBytes (profile : Profile) (bpb : NtfsBpb) : Option Nat :=
  if bpb.mftRecordSize.toInt > 0 then
    mul profile (bpb.mftRecordSize.signExtend 64).toNat bpb.bytesPerSector.toNat
  else do
    let count ← negSigned profile bpb.mftRecordSize
    let size ← shiftLeft profile (1 : BitVec 64) (count.signExtend 32).toNat
    some size.toNat

/-- Where `get_mft_record` finds a record on the disk. -/
def recordOffset (profile : Profile) (bpb : NtfsBpb) (recordNumber recordSize : Nat) : Option Nat := do
  let mftByteOffset ← mul profile bpb.mftStartCluster.toNat bpb.clusterSize.toNat
  let recordStart ← mul profile recordNumber recordSize
  add profile mftByteOffset recordStart

end NtfsBpb

structure NtfsVolume where
  bpb : NtfsBpb
  mftCache : Nat → Option MftRecord
  journal : NtfsJournal
  diskId : BitVec 32

structure FileSystemStats where
  totalSize : Nat
  freeSpace : Nat
  totalInodes : Nat
  freeInodes : Nat
  blockSize : Nat
  maxNameLength : Nat
deriving DecidableEq, Repr

namespace NtfsVolume

def new (profile : Profile) (bootSector : List Byte) (diskId : BitVec 32) :
    Option (KernelResult NtfsVolume) := do
  let parsed ← NtfsBpb.parse profile bootSector
  some (parsed.map fun bpb => { bpb, mftCache := fun _ => none, journal := .new, diskId })

def createRootDirectoryRecord : MftRecord :=
  ⟨mftNumberRoot, 0x0001 ||| 0x0002, 1, [], mftRecordSize⟩

/-- The record is never read from the disk: the buffer is as `vec!` makes it, which panics above the
largest size of a vector. -/
def getMftRecord (profile : Profile) (volume : NtfsVolume) (recordNumber : Nat) :
    Option (KernelResult MftRecord × NtfsVolume) :=
  match volume.mftCache recordNumber with
  | some record => some (.ok record, volume)
  | none => do
    let recordSize ← volume.bpb.mftRecordSizeBytes profile
    let _ ← volume.bpb.recordOffset profile recordNumber recordSize
    if recordSize ≥ 2 ^ 63 then none
    else
      let buffer : List Byte := List.replicate recordSize 0
      if buffer.all (· == 0) then
        if recordNumber = mftNumberRoot then some (.ok createRootDirectoryRecord, volume)
        else some (.error .fileNotFound, volume)
      else do
        match ← (parseMftRecord buffer).toOption with
        | .error e => some (.error e, volume)
        | .ok record =>
          let record := { record with recordNumber := recordNumber % 2 ^ 32 }
          some (.ok record,
            { volume with mftCache := Function.update volume.mftCache recordNumber (some record) })

def statfs (profile : Profile) (volume : NtfsVolume) : Option (KernelResult FileSystemStats) := do
  let totalSize ← mul profile volume.bpb.totalSectors.toNat volume.bpb.bytesPerSector.toNat
  some (.ok
    { totalSize, freeSpace := 0, totalInodes := 0, freeInodes := 0,
      blockSize := volume.bpb.clusterSize.toNat, maxNameLength := 255 })

end NtfsVolume

def NtfsBpb.sizeOfRecord (bpb : NtfsBpb) : Nat :=
  if bpb.mftRecordSize.toInt > 0 then bpb.mftRecordSize.toInt.toNat * bpb.bytesPerSector.toNat
  else 2 ^ (-bpb.mftRecordSize.toInt).toNat

/-- What is computed from a boot sector for a record is what the numbers in it say. -/
structure Exact (profile : Profile) (bootSector : List Byte) (volume : NtfsVolume)
    (recordNumber : Nat) : Prop where
  parsed : NtfsBpb.parse profile bootSector = some (.ok volume.bpb)
  recordSize : ∃ v, parsedRecordSize profile volume.bpb.mftRecordSize volume.bpb.bytesPerSector =
    some v ∧
    v.toInt = volume.bpb.sizeOfRecord
  recordBytes : volume.bpb.mftRecordSizeBytes profile = some volume.bpb.sizeOfRecord
  clusterSize : volume.bpb.clusterSize.toNat =
    volume.bpb.bytesPerSector.toNat * volume.bpb.sectorsPerCluster.toNat
  recordOffset : volume.bpb.recordOffset profile recordNumber volume.bpb.sizeOfRecord =
    some (volume.bpb.mftStartCluster.toNat * volume.bpb.clusterSize.toNat +
      recordNumber * volume.bpb.sizeOfRecord)
  record : ∃ result, volume.getMftRecord profile recordNumber = some result
  totalSize : ∃ stats, volume.statfs profile = some (.ok stats) ∧
    stats.totalSize = volume.bpb.totalSectors.toNat * volume.bpb.bytesPerSector.toNat

/-- The record size is an `i32`, the positions and the size of the volume are `u64`. -/
structure InRange (bpb : NtfsBpb) : Prop where
  exponent : -30 ≤ bpb.mftRecordSize.toInt
  offsets : bpb.mftStartCluster.toNat * bpb.clusterSize.toNat + (2 ^ 32 - 1) * bpb.sizeOfRecord < 2 ^ 64
  sectors : bpb.totalSectors.toNat * bpb.bytesPerSector.toNat < 2 ^ 64

/-- What `parse` asks of a boot sector. -/
def Accepted (bootSector : List Byte) : Prop :=
  512 ≤ bootSector.length ∧ (bootSector.take 11).drop 3 = ntfsSignature

instance (bootSector : List Byte) : Decidable (Accepted bootSector) :=
  inferInstanceAs (Decidable (_ ∧ _))

/-- The numbers of a boot sector. -/
def bpbOf (bootSector : List Byte) : NtfsBpb where
  bytesPerSector := BitVec.ofNat 16 (field bootSector 11 2)
  sectorsPerCluster := BitVec.ofNat 8 (field bootSector 13 1)
  totalSectors := BitVec.ofNat 64 (field bootSector 40 8)
  mftStartCluster := BitVec.ofNat 64 (field bootSector 48 8)
  mftmirrStartCluster := BitVec.ofNat 64 (field bootSector 56 8)
  mftRecordSize := BitVec.ofNat 8 (field bootSector 64 1)
  indexRecordSize := BitVec.ofNat 8 (field bootSector 68 1)
  volumeSerial := BitVec.ofNat 64 (field bootSector 72 8)
  clusterSize := (BitVec.ofNat 16 (field bootSector 11 2)).setWidth 32 *
    (BitVec.ofNat 8 (field bootSector 13 1)).setWidth 32

variable {profile : Profile} {bootSector : List Byte} {bpb : NtfsBpb} {volume : NtfsVolume}

theorem readWord_bind {α : Type} {w offset : Nat} (h : offset + w / 8 ≤ bootSector.length)
    (f : BitVec w → Option α) :
    readWord w bootSector offset >>= f = f (BitVec.ofNat w (field bootSector offset (w / 8))) := by
  rw [readWord, readLe_ok h]
  rfl

theorem signature_bind {α : Type} (h : ¬bootSector.length < 512) (f : List Byte → Option α) :
    (slice bootSector 3 11).toOption >>= f = f ((bootSector.take 11).drop 3) := by
  rw [slice_ok (by decide) (by omega)]
  rfl

theorem cluster_lt (x : BitVec 16) (y : BitVec 8) :
    (x.setWidth 32).toNat * (y.setWidth 32).toNat < 2 ^ 32 := by
  rw [BitVec.toNat_setWidth_of_le (by decide), BitVec.toNat_setWidth_of_le (by decide)]
  calc x.toNat * y.toNat ≤ 2 ^ 16 * 2 ^ 8 := Nat.mul_le_mul x.isLt.le y.isLt.le
    _ < 2 ^ 32 := by decide

theorem parse_accepted (profile : Profile) (h : Accepted bootSector) : NtfsBpb.parse profile bootSector =
    (parsedRecordSize profile (bpbOf bootSector).mftRecordSize (bpbOf bootSector).bytesPerSector).map
      fun _ => .ok (bpbOf bootSector) := by
  obtain ⟨hlen, hsignature⟩ := h
  rw [NtfsBpb.parse, if_neg (not_lt.mpr hlen), signature_bind (not_lt.mpr hlen),
    if_neg (not_not.mpr hsignature),
    readWord_bind (by omega), readWord_bind (by omega), readWord_bind (by omega),
      readWord_bind (by omega),
    readWord_bind (by omega), readWord_bind (by omega), readWord_bind (by omega),
      readWord_bind (by omega),
    mulWord_ok (cluster_lt _ _), Option.map_eq_bind]
  rfl

theorem parse_ok (h : NtfsBpb.parse profile bootSector = some (.ok bpb)) : Accepted bootSector := by
  rw [NtfsBpb.parse] at h
  split_ifs at h with hshort
  · cases h
  · rw [signature_bind hshort] at h
    split_ifs at h with hsignature
    · cases h
    · exact ⟨not_lt.mp hshort, not_not.mp hsignature⟩

theorem parsedRecordSize_release (raw : BitVec 8) (bytesPerSector : BitVec 16) :
    ∃ v, parsedRecordSize .release raw bytesPerSector = some v := by
  rw [parsedRecordSize]
  split_ifs
  · exact ⟨_, rfl⟩
  · exact ⟨_, rfl⟩

theorem new_ok {diskId : BitVec 32} (h : NtfsVolume.new .release bootSector diskId = some (.ok volume)) :
    Accepted bootSector ∧ volume = ⟨bpbOf bootSector, fun _ => none, .new, diskId⟩ := by
  rw [NtfsVolume.new, Option.bind_eq_bind, Option.bind_eq_some_iff] at h
  obtain ⟨parsed, hparse, hvolume⟩ := h
  cases parsed with
  | error e => cases hvolume
  | ok bpb =>
    have haccepted := parse_ok hparse
    obtain ⟨v, hv⟩ := parsedRecordSize_release (bpbOf bootSector).mftRecordSize
      (bpbOf bootSector).bytesPerSector
    rw [parse_accepted .release haccepted, hv] at hparse
    cases hparse
    cases hvolume
    exact ⟨haccepted, rfl⟩

theorem new_accepted (diskId : BitVec 32) (h : Accepted bootSector) :
    NtfsVolume.new .release bootSector diskId =
      some (.ok ⟨bpbOf bootSector, fun _ => none, .new, diskId⟩) := by
  obtain ⟨v, hv⟩ := parsedRecordSize_release (bpbOf bootSector).mftRecordSize
    (bpbOf bootSector).bytesPerSector
  rw [NtfsVolume.new, parse_accepted .release h, hv]
  rfl

theorem clusterSize_bpbOf (bootSector : List Byte) : (bpbOf bootSector).clusterSize.toNat =
    (bpbOf bootSector).bytesPerSector.toNat * (bpbOf bootSector).sectorsPerCluster.toNat := by
  have hlt := cluster_lt (bpbOf bootSector).bytesPerSector (bpbOf bootSector).sectorsPerCluster
  have hcluster : (bpbOf bootSector).clusterSize =
      (bpbOf bootSector).bytesPerSector.setWidth 32 * (bpbOf bootSector).sectorsPerCluster.setWidth 32 :=
        rfl
  rw [hcluster, BitVec.toNat_mul, Nat.mod_eq_of_lt hlt, BitVec.toNat_setWidth_of_le (by decide),
    BitVec.toNat_setWidth_of_le (by decide)]

/-! What is computed of the record size, for a positive byte and for the others. -/

variable {raw : BitVec 8}

theorem product_lt {n : Nat} (hn : n < 128) (x : BitVec 16) : n * x.toNat < 2 ^ 31 := by
  calc n * x.toNat ≤ 128 * 2 ^ 16 := Nat.mul_le_mul hn.le x.isLt.le
    _ < 2 ^ 31 := by decide

theorem toInt_sector (x : BitVec 16) : (x.setWidth 32).toInt = x.toNat := by
  have hlt := x.isLt
  have htoNat : (x.setWidth 32).toNat = x.toNat := BitVec.toNat_setWidth_of_le (by decide)
  rw [BitVec.toInt_eq_toNat_of_lt (by omega), htoNat]

theorem raw_pos (hpos : raw.toInt > 0) :
    ∃ n < 128, raw.toInt = (n : Nat) ∧ (raw.signExtend 64).toNat = n := by
  have hlt : raw.toInt < 128 := BitVec.toInt_lt
  have hwide : (raw.signExtend 64).toInt = raw.toInt := BitVec.toInt_signExtend_of_le (by decide)
  refine ⟨raw.toInt.toNat, by omega, by omega, ?_⟩
  rw [toNat_of_toInt_nonneg (by omega), hwide]

theorem raw_neg (profile : Profile) (hlow : -30 ≤ raw.toInt) (hpos : ¬raw.toInt > 0) : ∃ n ≤ 30,
    -raw.toInt = (n : Nat) ∧ negSigned profile raw = some (-raw) ∧ ((-raw).signExtend 32).toInt = n ∧
      ((-raw).signExtend 32).toNat = n := by
  obtain ⟨hneg, htoInt⟩ := negSigned_ok profile (x := raw) (by norm_num; omega)
  have hwide : ((-raw).signExtend 32).toInt = -raw.toInt := by
    rw [BitVec.toInt_signExtend_of_le (by decide), htoInt]
  refine ⟨(-raw.toInt).toNat, by omega, by omega, hneg, by omega, ?_⟩
  have hcond := BitVec.toInt_eq_toNat_cond ((-raw).signExtend 32)
  split_ifs at hcond <;> omega

theorem parsedRecordSize_exact (profile : Profile) (hlow : -30 ≤ bpb.mftRecordSize.toInt) :
    ∃ v, parsedRecordSize profile bpb.mftRecordSize bpb.bytesPerSector = some v ∧
      v.toInt = bpb.sizeOfRecord := by
  rw [parsedRecordSize, NtfsBpb.sizeOfRecord]
  split_ifs with hpos
  · obtain ⟨n, hn, htoInt, -⟩ := raw_pos hpos
    have hlt := product_lt hn bpb.bytesPerSector
    have hproduct : (bpb.mftRecordSize.signExtend 32).toInt * (bpb.bytesPerSector.setWidth 32).toInt =
        (n * bpb.bytesPerSector.toNat : Nat) := by
      rw [BitVec.toInt_signExtend_of_le (by decide), toInt_sector, htoInt, Nat.cast_mul]
    obtain ⟨hmul, hvalue⟩ := mulSigned_ok profile (x := bpb.mftRecordSize.signExtend 32)
      (y := bpb.bytesPerSector.setWidth 32) (by rw [hproduct]; omega) (by rw [hproduct]; omega)
    exact ⟨_, hmul, by rw [hvalue, hproduct, htoInt, Int.toNat_natCast]⟩
  · obtain ⟨n, hn, htoInt, hneg, hcount, -⟩ := raw_neg profile hlow hpos
    rw [hneg, Option.bind_eq_bind, Option.bind_some, hcount, htoInt, Int.toNat_natCast,
      shiftLeft_ok (by omega)]
    refine ⟨BitVec.twoPow 32 n, rfl, ?_⟩
    rw [BitVec.toInt_twoPow, if_neg (by omega), if_neg (by omega), Nat.cast_pow, Nat.cast_ofNat]

theorem mftRecordSizeBytes_exact (profile : Profile) (hlow : -30 ≤ bpb.mftRecordSize.toInt) :
    bpb.mftRecordSizeBytes profile = some bpb.sizeOfRecord := by
  rw [NtfsBpb.mftRecordSizeBytes, NtfsBpb.sizeOfRecord]
  split_ifs with hpos
  · obtain ⟨n, hn, htoInt, htoNat⟩ := raw_pos hpos
    have hlt := product_lt hn bpb.bytesPerSector
    rw [htoNat, mul_ok (hlt.trans (by decide)), htoInt, Int.toNat_natCast]
  · obtain ⟨n, hn, htoInt, hneg, -, hcount⟩ := raw_neg profile hlow hpos
    simp only [hneg, hcount, Option.bind_eq_bind, Option.bind_some]
    rw [shiftLeft_ok (by omega), Option.bind_some, htoInt, Int.toNat_natCast]
    have hpow : (BitVec.twoPow 64 n).toNat = 2 ^ n := by
      rw [BitVec.toNat_twoPow, Nat.mod_eq_of_lt (Nat.pow_lt_pow_right (by decide) (by omega))]
    exact congrArg some hpow

theorem exponent_of_lt (h : bpb.sizeOfRecord < 2 ^ 31) : -30 ≤ bpb.mftRecordSize.toInt := by
  rw [NtfsBpb.sizeOfRecord] at h
  split_ifs at h with hpos
  · omega
  · have hexp := (Nat.pow_lt_pow_iff_right (by decide : 1 < 2)).mp h
    omega

theorem sizeOfRecord_lt (hlow : -30 ≤ bpb.mftRecordSize.toInt) : bpb.sizeOfRecord < 2 ^ 31 := by
  obtain ⟨v, -, hv⟩ := parsedRecordSize_exact .release hlow
  have hlt : v.toInt < 2 ^ 31 := BitVec.toInt_lt
  omega

theorem recordOffset_exact (profile : Profile) (recordNumber : Nat)
    (h : bpb.mftStartCluster.toNat * bpb.clusterSize.toNat +
      recordNumber * bpb.sizeOfRecord < usizeRange) :
    bpb.recordOffset profile recordNumber bpb.sizeOfRecord =
      some (bpb.mftStartCluster.toNat * bpb.clusterSize.toNat + recordNumber * bpb.sizeOfRecord) := by
  rw [NtfsBpb.recordOffset, mul_ok (by omega), Option.bind_eq_bind, Option.bind_some, mul_ok (by omega),
    Option.bind_some, add_ok h]

theorem recordOffset_lt {recordNumber recordSize offset : Nat}
    (h : bpb.recordOffset profile recordNumber recordSize = some offset) : offset < usizeRange := by
  simp only [NtfsBpb.recordOffset, Option.bind_eq_bind, Option.bind_eq_some_iff] at h
  obtain ⟨start, -, recordStart, -, hsum⟩ := h
  exact add_lt hsum

theorem getMftRecord_some {recordNumber : Nat} {offset : Nat}
    (hcache : volume.mftCache recordNumber = none)
    (hsize : volume.bpb.mftRecordSizeBytes profile = some volume.bpb.sizeOfRecord)
    (hlt : volume.bpb.sizeOfRecord < 2 ^ 63)
    (hoffset : volume.bpb.recordOffset profile recordNumber volume.bpb.sizeOfRecord = some offset) :
    ∃ result, volume.getMftRecord profile recordNumber = some result := by
  rw [NtfsVolume.getMftRecord, hcache]
  simp only [hsize, hoffset, Option.bind_eq_bind, Option.bind_some]
  rw [if_neg (not_le.mpr hlt), if_pos]
  · split_ifs
    · exact ⟨_, rfl⟩
    · exact ⟨_, rfl⟩
  · rw [List.all_eq_true]
    intro b hb
    rw [List.eq_of_mem_replicate hb]
    rfl

theorem statfs_lt {stats : FileSystemStats} (h : volume.statfs profile = some (.ok stats)) :
    stats.totalSize < usizeRange := by
  simp only [NtfsVolume.statfs, Option.bind_eq_bind, Option.bind_eq_some_iff] at h
  obtain ⟨totalSize, hmul, hstats⟩ := h
  cases hstats
  exact mul_lt hmul

theorem Exact.exponent {recordNumber : Nat} (h : Exact profile bootSector volume recordNumber) :
    -30 ≤ volume.bpb.mftRecordSize.toInt := by
  obtain ⟨v, -, hv⟩ := h.recordSize
  have hlt : v.toInt < 2 ^ 31 := BitVec.toInt_lt
  exact exponent_of_lt (by omega)

theorem Exact.offset_lt {recordNumber : Nat} (h : Exact profile bootSector volume recordNumber) :
    volume.bpb.mftStartCluster.toNat * volume.bpb.clusterSize.toNat +
      recordNumber * volume.bpb.sizeOfRecord < usizeRange := recordOffset_lt h.recordOffset

theorem Exact.sectors_lt {recordNumber : Nat} (h : Exact profile bootSector volume recordNumber) :
    volume.bpb.totalSectors.toNat * volume.bpb.bytesPerSector.toNat < usizeRange := by
  obtain ⟨stats, hstats, htotal⟩ := h.totalSize
  rw [← htotal]
  exact statfs_lt hstats

/-- The arithmetic of a volume is exact for all record numbers of 32 bits exactly when its numbers are
in range. -/
theorem geometry_exact_iff (profile : Profile) {diskId : BitVec 32}
    (h : NtfsVolume.new .release bootSector diskId = some (.ok volume)) :
    (∀ recordNumber < 2 ^ 32, Exact profile bootSector volume recordNumber) ↔ InRange volume.bpb := by
  obtain ⟨haccepted, rfl⟩ := new_ok h
  constructor
  · intro hexact
    have hlast := hexact (2 ^ 32 - 1) (by decide)
    exact ⟨hlast.exponent, hlast.offset_lt, hlast.sectors_lt⟩
  · intro hrange recordNumber hnumber
    have hlow := hrange.exponent
    have hsize := parsedRecordSize_exact profile hlow
    have hbytes := mftRecordSizeBytes_exact profile hlow
    have hlt := sizeOfRecord_lt hlow
    have hoffset := recordOffset_exact profile recordNumber
      (lt_of_le_of_lt (Nat.add_le_add_left (Nat.mul_le_mul_right _ (Nat.le_sub_one_of_lt hnumber)) _)
        hrange.offsets)
    refine ⟨?_, hsize, hbytes, clusterSize_bpbOf bootSector, hoffset,
      getMftRecord_some rfl hbytes (hlt.trans (by decide)) hoffset, ?_⟩
    · obtain ⟨v, hv, -⟩ := hsize
      rw [parse_accepted profile haccepted, hv]
      rfl
    · rw [NtfsVolume.statfs, mul_ok hrange.sectors]
      exact ⟨_, rfl, rfl⟩

def sectorOf (totalSectors mftStartCluster : Nat) (raw : Byte) : List Byte :=
  List.replicate 3 0 ++ ntfsSignature ++ leBytes 2 512 ++ [8] ++ List.replicate 26 0 ++
    leBytes 8 totalSectors ++
    leBytes 8 mftStartCluster ++ List.replicate 8 0 ++ [raw] ++ List.replicate 447 0

/-- Records of `2 ^ 10` bytes, from the fourth cluster on. -/
def plainSector : List Byte := sectorOf 0x100000 4 0xF6

theorem plainSector_exact : ∃ volume, NtfsVolume.new .release plainSector 0 = some (.ok volume) ∧
    ∀ recordNumber < 2 ^ 32, Exact .debug plainSector volume recordNumber := by
  have haccepted : Accepted plainSector := by decide +kernel
  have hnew := new_accepted 0 haccepted
  refine ⟨_, hnew, (geometry_exact_iff .debug hnew).mpr ?_⟩
  constructor
  · decide +kernel
  · decide +kernel
  · decide +kernel

/-- A record size of `2 ^ 32` bytes. -/
def wideRecords : List Byte := sectorOf 0x100000 4 0xE0

/-- A file table from byte `2 ^ 64` on. -/
def farTable : List Byte := sectorOf 0x100000 (2 ^ 52) 0xF6

/-- A volume of `2 ^ 64` bytes. -/
def largeVolume : List Byte := sectorOf (2 ^ 55) 4 0xF6

theorem hostileSectors_not_exact :
    (∃ volume, NtfsVolume.new .release wideRecords 0 = some (.ok volume) ∧
      ∀ profile, ¬Exact profile wideRecords volume 0) ∧
    (∃ volume, NtfsVolume.new .release farTable 0 = some (.ok volume) ∧
      ∀ profile, ¬Exact profile farTable volume 0) ∧
    (∃ volume, NtfsVolume.new .release largeVolume 0 = some (.ok volume) ∧
      ∀ profile, ¬Exact profile largeVolume volume 0) := by
  have hwide : Accepted wideRecords := by decide +kernel
  have hfar : Accepted farTable := by decide +kernel
  have hlarge : Accepted largeVolume := by decide +kernel
  refine ⟨⟨_, new_accepted 0 hwide, ?_⟩, ⟨_, new_accepted 0 hfar, ?_⟩, ⟨_, new_accepted 0 hlarge, ?_⟩⟩
  · intro profile h
    exact absurd h.exponent (by decide +kernel)
  · intro profile h
    exact absurd h.offset_lt (by decide +kernel)
  · intro profile h
    exact absurd h.sectors_lt (by decide +kernel)

end DeltaOS.NtfsGeometry
