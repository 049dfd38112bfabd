import DeltaOS.FileSystem
import DeltaOS.Ntfs

namespace DeltaOS.NtfsFiles

open ByteSlices Kernel Overflow Ntfs FileSystem

/-- Of the boot parameter block, reads take the size of a cluster. -/
structure NtfsVolume where
  clusterSize : BitVec 32
deriving DecidableEq

structure NtfsInode where
  recordNumber : Nat
  attributes : List NtfsAttribute
  volume : NtfsVolume
deriving DecidableEq

/-- The variables of the loop of `read_from_runs`, with the buffer it fills. -/
structure Progress where
  currentCluster : BitVec 64
  bytesRead : Nat
  fileOffset : Nat
  buffer : List Byte

def zeroFill (buffer : List Byte) (start stop : Nat) : List Byte :=
  buffer.take start ++ List.replicate (stop - start) 0 ++ buffer.drop stop

def readStart (profile : Profile) (fileOffset runStart : Nat) : Option Nat :=
  if fileOffset > runStart then sub profile fileOffset runStart else some 0

/-- The rest of a pass of the loop, for a run that ends after the file offset. -/
def copyRun (profile : Profile) (runStart runBytes : Nat) (s : Progress) : Option Progress := do
  let inRun ← sub profile runBytes (← readStart profile s.fileOffset runStart)
  let room ← sub profile s.buffer.length s.bytesRead
  let readLen := min inRun room
  let dstEnd ← add profile s.bytesRead readLen
  if dstEnd ≤ s.buffer.length then do
    let bytesRead ← add profile s.bytesRead readLen
    let fileOffset ← add profile s.fileOffset readLen
    some { s with bytesRead, fileOffset, buffer := zeroFill s.buffer s.bytesRead dstEnd }
  else some s

def readRuns (profile : Profile) (clusterSize : Nat) : List DataRun → Progress → Option Progress
  | [], s => some s
  | run :: runs, s => do
    let currentCluster ← addSigned profile s.currentCluster run.offset
    let runStart ← mul profile currentCluster.toNat clusterSize
    let runBytes ← mul profile run.length.toNat clusterSize
    let runEnd ← add profile runStart runBytes
    let s := { s with currentCluster }
    if s.fileOffset ≥ runEnd then readRuns profile clusterSize runs s
    else do
      let s ← copyRun profile runStart runBytes s
      if s.bytesRead ≥ s.buffer.length then some s else readRuns profile clusterSize runs s

namespace NtfsInode

def fromMftRecord (record : MftRecord) (volume : NtfsVolume) : NtfsInode :=
  ⟨record.recordNumber, record.attributes, volume⟩

def getDataAttribute (inode : NtfsInode) : Option NtfsAttribute :=
  inode.attributes.find? fun a => a.attrType == .data && a.name.isNone

def readFromRuns (profile : Profile) (inode : NtfsInode) (runs : List DataRun) (offset : FileOffset)
    (buffer : List Byte) : Option (KernelResult Nat × List Byte) :=
  (readRuns profile inode.volume.clusterSize.toNat runs ⟨0, 0, offset.toNat, buffer⟩).map
    fun s => (.ok s.bytesRead, s.buffer)

def readResident (profile : Profile) (data : List Byte) (offset : FileOffset) (buffer : List Byte) :
    Option (KernelResult Nat × List Byte) :=
  let start := offset.toNat
  if start ≥ data.length then some (.ok 0, buffer)
  else do
    let stop := min (← add profile start buffer.length) data.length
    let len ← sub profile stop start
    let dst ← (slice buffer 0 len).toOption
    let src ← (slice data start stop).toOption
    -- `copy_from_slice` takes slices of one length only.
    if dst.length = src.length then some (.ok len, src ++ buffer.drop len) else none

def read (profile : Profile) (inode : NtfsInode) (offset : FileOffset) (buffer : List Byte) :
    Option (KernelResult Nat × List Byte × NtfsInode) :=
  match inode.getDataAttribute with
  | none => some (.error .fileNotFound, buffer, inode)
  | some attr => do
    let (result, buffer) ← match attr.residentData with
      | some data => readResident profile data offset buffer
      | none => inode.readFromRuns profile attr.runList offset buffer
    some (result, buffer, inode)

def write (inode : NtfsInode) (_offset : FileOffset) (_data : List Byte) :
    KernelResult Nat × NtfsInode :=
  (.error .ioError, inode)

def lookup (_inode : NtfsInode) (_name : Path) : KernelResult NtfsInode := .error .fileNotFound

end NtfsInode

def NtfsVolume.rootInode (volume : NtfsVolume) : NtfsInode :=
  .fromMftRecord ⟨5, 0x0001 ||| 0x0002, 1, [], mftRecordSize⟩ volume

/-- The implementations of `Inode` and `FileSystem` for NTFS. -/
def driver (profile : Profile) : Driver NtfsVolume NtfsInode where
  rootInode := NtfsVolume.rootInode
  lookup := NtfsInode.lookup
  read := NtfsInode.read profile
  write := fun inode offset data => some (inode.write offset data)

end DeltaOS.NtfsFiles
