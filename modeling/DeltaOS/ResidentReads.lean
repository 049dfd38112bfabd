import DeltaOS.NtfsFiles

namespace DeltaOS.ResidentReads

open ByteSlices Kernel Overflow Ntfs FileSystem NtfsFiles

/-- Reads of one descriptor after the other, until one fails, and the bytes they give. -/
def readBytes (profile : Profile) (file : FileDescriptor NtfsInode) :
    List (List Byte) → Option (KernelResult (List Byte) × FileDescriptor NtfsInode)
  | [] => some (.ok [], file)
  | buffer :: buffers => do
    let (result, buffer, file) ← file.read profile (driver profile) buffer
    match result with
    | .error e => some (.error e, file)
    | .ok bytesRead => do
      let (rest, file) ← readBytes profile file buffers
      some (rest.map (buffer.take bytesRead ++ ·), file)

def chunk (d : List Byte) (position len : Nat) : List Byte := (d.drop position).take len

def total (buffers : List (List Byte)) : Nat := (buffers.map List.length).sum

variable {d : List Byte} {buffer : List Byte} {offset : FileOffset}

theorem length_chunk (d : List Byte) (position len : Nat) :
    (chunk d position len).length = min len (d.length - position) := by
  rw [chunk, List.length_take, List.length_drop]

theorem chunk_add (d : List Byte) (position m n : Nat) : chunk d position (m + n) =
    chunk d position m ++ chunk d (position + (chunk d position m).length) n := by
  rw [length_chunk, chunk, List.take_add, chunk, chunk, List.drop_drop]
  obtain hle | hlt := le_or_gt m (d.length - position)
  · rw [min_eq_left hle]
  · have hend : d.length ≤ position + m := by omega
    have hmin : d.length ≤ position + min m (d.length - position) := by omega
    rw [List.drop_eq_nil_of_le hend, List.drop_eq_nil_of_le hmin]

theorem drop_take_eq_chunk (d : List Byte) (position len : Nat) :
    (d.take (min (position + len) d.length)).drop position = chunk d position len := by
  rw [List.drop_take, chunk, List.take_eq_take_iff, List.length_drop]
  omega

theorem readResident_eq (profile : Profile) (hd : d.length < 2 ^ 63) (hbuffer : buffer.length < 2 ^ 63) :
    NtfsInode.readResident profile d offset buffer =
      some (.ok (chunk d offset.toNat buffer.length).length,
        chunk d offset.toNat buffer.length ++
          buffer.drop (chunk d offset.toNat buffer.length).length) := by
  have hlen := length_chunk d offset.toNat buffer.length
  rw [NtfsInode.readResident]
  split_ifs with hpast
  · have hnil : chunk d offset.toNat buffer.length = [] := List.eq_nil_of_length_eq_zero (by omega)
    rw [hnil]
    rfl
  · have hstop : min (offset.toNat + buffer.length) d.length - offset.toNat =
        (chunk d offset.toNat buffer.length).length := by omega
    rw [add_ok (by rw [usizeRange]; omega)]
    simp only [Option.bind_eq_bind, Option.bind_some]
    rw [sub_ok (by rw [usizeRange]; omega) (by omega), Option.bind_some, hstop,
      slice_ok (Nat.zero_le _) (by omega), slice_ok (by omega) (by omega), drop_take_eq_chunk]
    simp only [Except.toOption, Option.bind_some]
    rw [if_pos]
    rw [List.drop_zero, List.length_take]
    omega

theorem toNat_moved {n : Nat} (hd : d.length < 2 ^ 63) (hn : n ≤ d.length - offset.toNat) :
    (offset + BitVec.ofNat 64 n).toNat = offset.toNat + n := by
  have hlt := offset.isLt
  rw [BitVec.toNat_add, BitVec.toNat_ofNat, Nat.mod_eq_of_lt (a := n) (by omega),
    Nat.mod_eq_of_lt (by omega)]

theorem toInt_moved {n : Nat} (hd : d.length < 2 ^ 63) (hn : n ≤ d.length - offset.toNat) :
    (offset + BitVec.ofNat 64 n).toInt = offset.toInt + n := by
  have hlt := offset.isLt
  rw [BitVec.toInt_eq_toNat_cond, BitVec.toInt_eq_toNat_cond, toNat_moved hd hn]
  split_ifs
  · omega
  · omega
  · omega
  · omega

theorem addSigned_moved (profile : Profile) {n : Nat} (hd : d.length < 2 ^ 63)
    (hn : n ≤ d.length - offset.toNat) :
    addSigned profile offset (BitVec.ofNat 64 n) = some (offset + BitVec.ofNat 64 n) := by
  have hlow := (offset + BitVec.ofNat 64 n).le_toInt
  have hhigh := (offset + BitVec.ofNat 64 n).toInt_lt
  have hmoved := toInt_moved hd hn
  have hcount : (BitVec.ofNat 64 n).toInt = n := toInt_ofNat_of_lt (by omega)
  apply addSigned_ok
  · omega
  · omega

section File

variable {inode : NtfsInode} {attr : NtfsAttribute} {flags : OpenFlags}
  (hattr : inode.getDataAttribute = some attr) (hresident : attr.residentData = some d)
  (hflags : flags.readable = true) (hd : d.length < 2 ^ 63)

include hattr hresident hflags hd

theorem read_resident (profile : Profile) (offset : FileOffset) (hbuffer : buffer.length < 2 ^ 63) :
    FileDescriptor.read profile (driver profile) ⟨inode, flags, offset⟩ buffer =
      some (.ok (chunk d offset.toNat buffer.length).length,
        chunk d offset.toNat buffer.length ++ buffer.drop (chunk d offset.toNat buffer.length).length,
        ⟨inode, flags, offset + BitVec.ofNat 64 (chunk d offset.toNat buffer.length).length⟩) := by
  have hlen := length_chunk d offset.toNat buffer.length
  have hadd := addSigned_moved profile hd (Nat.min_le_right buffer.length (d.length - offset.toNat))
  rw [← hlen] at hadd
  rw [FileDescriptor.read, if_pos hflags]
  simp only [driver, NtfsInode.read, hattr, hresident, readResident_eq profile hd hbuffer,
    Option.bind_eq_bind, Option.bind_some, FileDescriptor.advance, hadd]

theorem readBytes_resident (profile : Profile) {buffers : List (List Byte)}
    (hbuffers : ∀ b ∈ buffers, b.length < 2 ^ 63) (offset : FileOffset) :
    ∃ position, readBytes profile ⟨inode, flags, offset⟩ buffers =
        some (.ok (chunk d offset.toNat (total buffers)), ⟨inode, flags, position⟩) ∧
      position.toInt = offset.toInt + (chunk d offset.toNat (total buffers)).length := by
  induction buffers generalizing offset with
  | nil => exact ⟨offset, rfl, by simp [total, chunk]⟩
  | cons b bs ih =>
    rw [List.forall_mem_cons] at hbuffers
    have hlen := length_chunk d offset.toNat b.length
    obtain ⟨position, hrest, hposition⟩ :=
      ih hbuffers.2 (offset + BitVec.ofNat 64 (chunk d offset.toNat b.length).length)
    rw [toNat_moved hd (by omega)] at hrest hposition
    rw [toInt_moved hd (by omega)] at hposition
    have htotal : chunk d offset.toNat (total (b :: bs)) = chunk d offset.toNat b.length ++
        chunk d (offset.toNat + (chunk d offset.toNat b.length).length) (total bs) := by
      rw [total, List.map_cons, List.sum_cons, chunk_add]
      rfl
    refine ⟨position, ?_, ?_⟩
    · rw [readBytes, read_resident hattr hresident hflags hd profile offset hbuffers.1]
      simp only [Option.bind_eq_bind, Option.bind_some]
      rw [hrest, Option.bind_some, List.take_left, htotal]
      rfl
    · rw [hposition, htotal, List.length_append]
      push_cast
      omega

end File

/-- Reads of a resident file give the bytes from the offset on, however they are cut. A slice in
memory has less than `2 ^ 63` bytes. -/
theorem resident_reads (profile : Profile) (file : FileDescriptor NtfsInode) {attr : NtfsAttribute}
    (hattr : file.inode.getDataAttribute = some attr) (hresident : attr.residentData = some d)
    (hflags : file.flags.readable = true) (hd : d.length < 2 ^ 63) (o : FileOffset)
    (buffers : List (List Byte)) (hbuffers : ∀ b ∈ buffers, b.length < 2 ^ 63) :
    ∃ bytes file', readBytes profile (file.seek o).2 buffers = some (.ok bytes, file') ∧
      (∀ n : Nat, o.toInt = n → bytes = (d.take (min d.length (n + total buffers))).drop n) ∧
      (o.toInt < 0 ∨ d.length ≤ o.toInt → bytes = []) ∧
        file'.position.toInt = o.toInt + bytes.length := by
  obtain ⟨position, hread, hposition⟩ := readBytes_resident hattr hresident hflags hd profile hbuffers o
  refine ⟨_, _, hread, ?_, ?_, hposition⟩
  · intro n hn
    have htoNat : o.toNat = n := by
      rw [toNat_of_toInt_nonneg (by omega), hn, Int.toNat_natCast]
    rw [htoNat, min_comm, drop_take_eq_chunk]
  · intro hout
    have hpast : d.length ≤ o.toNat := by
      have hlt := o.isLt
      rw [BitVec.toInt_eq_toNat_cond] at hout
      split_ifs at hout
      · omega
      · omega
    rw [chunk, List.drop_eq_nil_of_le hpast, List.take_nil]

def shortFile : FileDescriptor NtfsInode :=
  .new ⟨64, [⟨.data, 32, false, none, some [1, 2, 3, 4], [], 4, 4⟩], ⟨4096⟩⟩ .readOnly

theorem shortFile_reads : shortFile.flags.readable = true ∧
    ∃ bytes file', readBytes .debug (shortFile.seek 1).2 [[0], [], [0, 0, 0]] = some (.ok bytes, file') ∧
      bytes = [2, 3, 4] ∧ file'.position.toInt = 4 := by
  have hbuffers : ∀ b ∈ ([[0], [], [0, 0, 0]] : List (List Byte)), b.length < 2 ^ 63 := by decide
  obtain ⟨bytes, file', hread, hbytes, -, hposition⟩ :=
    resident_reads .debug shortFile (d := [1, 2, 3, 4]) rfl rfl rfl (by decide) 1 _ hbuffers
  have hchunk : bytes = [2, 3, 4] := hbytes 1 rfl
  refine ⟨rfl, bytes, file', hread, hchunk, ?_⟩
  rw [hposition, hchunk]
  rfl

end DeltaOS.ResidentReads
