import DeltaOS.NtfsFiles

namespace DeltaOS.SequentialReads

open ByteSlices Kernel Overflow Ntfs FileSystem NtfsFiles

structure Extent where
  cluster : Int
  length : Nat

namespace Extent

def start (clusterSize : Nat) (e : Extent) : Nat := e.cluster.toNat * clusterSize

def bytes (clusterSize : Nat) (e : Extent) : Nat := e.length * clusterSize

def stop (clusterSize : Nat) (e : Extent) : Nat := e.start clusterSize + e.bytes clusterSize

/-- The numbers of the clusters are `i64`, the positions of the bytes `u64`. -/
def Fits (clusterSize : Nat) (e : Extent) : Prop := e.cluster < 2 ^ 63 ∧ e.stop clusterSize < usizeRange

/-- Where an unlimited read is after a run: as many bytes on as the run has, but not past the end of
the run on the disk. -/
def advance (clusterSize : Nat) (position : Nat) (e : Extent) : Nat :=
  max position (min (position + e.bytes clusterSize) (e.stop clusterSize))

end Extent

/-- The runs at their places, each offset counted from the run before. -/
def extents : Int → List DataRun → List Extent
  | _, [] => []
  | cluster, run :: runs =>
    ⟨cluster + run.offset.toInt, run.length.toNat⟩ :: extents (cluster + run.offset.toInt) runs

variable {profile : Profile} {clusterSize : Nat} {s : Progress} {e : Extent} {run : DataRun}
    {runs : List DataRun}
  {cluster : Int}

theorem le_advance (clusterSize position : Nat) (e : Extent) :
    position ≤ e.advance clusterSize position :=
  le_max_left _ _

theorem advance_of_stop_le {position : Nat} (h : e.stop clusterSize ≤ position) :
    e.advance clusterSize position = position :=
  max_eq_left ((min_le_right _ _).trans h)

theorem advance_le_stop {position : Nat} (h : position < e.stop clusterSize) :
    e.advance clusterSize position ≤ e.stop clusterSize :=
  max_le h.le (min_le_right _ _)

theorem le_foldl_advance (clusterSize : Nat) (es : List Extent) (position : Nat) :
    position ≤ es.foldl (Extent.advance clusterSize) position := by
  induction es generalizing position with
  | nil => exact le_rfl
  | cons e es ih => exact (le_advance clusterSize position e).trans (ih _)

theorem length_zeroFill {buffer : List Byte} {start stop : Nat} (h : start ≤ stop)
    (hstop : stop ≤ buffer.length) : (zeroFill buffer start stop).length = buffer.length := by
  simp only [zeroFill, List.length_append, List.length_take, List.length_replicate, List.length_drop]
  omega

theorem copyRun_eq (profile : Profile) (hfits : e.Fits clusterSize)
    (hlt : s.fileOffset < e.stop clusterSize)
    (hread : s.bytesRead ≤ s.buffer.length) (hbuffer : s.buffer.length < usizeRange) :
    ∃ t, copyRun profile (e.start clusterSize) (e.bytes clusterSize) s = some t ∧
      t.currentCluster = s.currentCluster ∧ t.buffer.length = s.buffer.length ∧
      t.bytesRead = s.bytesRead +
        min (e.advance clusterSize s.fileOffset - s.fileOffset) (s.buffer.length - s.bytesRead) ∧
      t.fileOffset = s.fileOffset +
        min (e.advance clusterSize s.fileOffset - s.fileOffset) (s.buffer.length - s.bytesRead) := by
  have hstop : e.stop clusterSize = e.start clusterSize + e.bytes clusterSize := rfl
  have hle := advance_le_stop hlt
  have hword := hfits.2
  have hstart : ∃ k, readStart profile s.fileOffset (e.start clusterSize) = some k ∧
      k ≤ e.bytes clusterSize ∧
      e.bytes clusterSize - k = e.advance clusterSize s.fileOffset - s.fileOffset := by
    rw [Extent.advance, readStart]
    by_cases hafter : s.fileOffset > e.start clusterSize
    · refine ⟨s.fileOffset - e.start clusterSize, ?_, by omega, by omega⟩
      rw [if_pos hafter, sub_ok (by omega) (by omega)]
    · exact ⟨0, if_neg hafter, by omega, by omega⟩
  obtain ⟨k, hsome, hreadStart, hinRun⟩ := hstart
  set inRun := e.advance clusterSize s.fileOffset - s.fileOffset with hdef
  have hge := le_advance clusterSize s.fileOffset e
  have hdst : s.bytesRead + min inRun (s.buffer.length - s.bytesRead) ≤ s.buffer.length := by omega
  rw [copyRun, hsome]
  simp only [Option.bind_eq_bind, Option.bind_some]
  rw [sub_ok (by omega) hreadStart, Option.bind_some, sub_ok hbuffer hread, Option.bind_some, hinRun,
    add_ok (by omega), Option.bind_some, if_pos hdst, Option.bind_some, add_ok (by omega),
      Option.bind_some]
  exact ⟨_, rfl, rfl, length_zeroFill (by omega) hdst, rfl, rfl⟩

def atRun (s : Progress) (run : DataRun) : Progress :=
  { s with currentCluster := s.currentCluster + run.offset }

theorem readRuns_cons (profile : Profile) (runs : List DataRun)
    (hcluster : s.currentCluster.toInt = cluster) (hnonneg : 0 ≤ cluster + run.offset.toInt)
    (hfits : (Extent.mk (cluster + run.offset.toInt) run.length.toNat).Fits clusterSize) :
    (s.currentCluster + run.offset).toInt = cluster + run.offset.toInt ∧
    readRuns profile clusterSize (run :: runs) s =
      if s.fileOffset ≥ (Extent.mk (cluster + run.offset.toInt) run.length.toNat).stop clusterSize then
        readRuns profile clusterSize runs (atRun s run)
      else copyRun profile ((Extent.mk (cluster + run.offset.toInt) run.length.toNat).start clusterSize)
          ((Extent.mk (cluster + run.offset.toInt) run.length.toNat).bytes clusterSize)
          (atRun s run) >>= fun t =>
        if t.bytesRead ≥ t.buffer.length then some t else readRuns profile clusterSize runs t := by
  obtain ⟨hsigned, hword⟩ := hfits
  rw [Extent.stop, Extent.start, Extent.bytes] at hword
  dsimp only at hsigned hword
  have hadd : ∀ profile, addSigned profile s.currentCluster run.offset =
      some (s.currentCluster + run.offset) := by
    intro profile
    apply addSigned_ok <;> omega
  have htoInt : (s.currentCluster + run.offset).toInt = cluster + run.offset.toInt := by
    rw [toInt_addSigned (hadd .debug), hcluster]
  have hstart : (s.currentCluster + run.offset).toNat = (cluster + run.offset.toInt).toNat := by
    rw [toNat_of_toInt_nonneg (by omega), htoInt]
  refine ⟨htoInt, ?_⟩
  rw [readRuns, hadd, Option.bind_eq_bind, Option.bind_some, hstart, mul_ok (by omega)]
  simp only [Option.bind_eq_bind, Option.bind_some]
  rw [mul_ok (by omega), Option.bind_some, add_ok hword, Option.bind_some]
  rfl

theorem readRuns_eq (profile : Profile) (hcluster : s.currentCluster.toInt = cluster)
    (hnonneg : ∀ e ∈ extents cluster runs, 0 ≤ e.cluster)
    (hfits : ∀ e ∈ extents cluster runs, e.Fits clusterSize)
    (hread : s.bytesRead ≤ s.buffer.length) (hbuffer : s.buffer.length < usizeRange) :
    ∃ t, readRuns profile clusterSize runs s = some t ∧ t.bytesRead = min s.buffer.length (s.bytesRead +
      ((extents cluster runs).foldl (Extent.advance clusterSize) s.fileOffset - s.fileOffset)) := by
  induction runs generalizing cluster s with
  | nil => exact ⟨s, rfl, by simp [extents, hread]⟩
  | cons run runs ih =>
    rw [extents, List.forall_mem_cons] at hnonneg hfits
    obtain ⟨htoInt, hpass⟩ := readRuns_cons profile runs hcluster hnonneg.1 hfits.1
    rw [hpass, extents, List.foldl_cons]
    set e : Extent := ⟨cluster + run.offset.toInt, run.length.toNat⟩ with he
    by_cases hskip : s.fileOffset ≥ e.stop clusterSize
    · rw [if_pos hskip, advance_of_stop_le hskip]
      exact ih htoInt hnonneg.2 hfits.2 hread hbuffer
    · obtain ⟨t, ht, htcluster, htlength, htread, htoffset⟩ :=
        copyRun_eq (s := atRun s run) profile hfits.1 (not_le.mp hskip) hread hbuffer
      have hfold := le_foldl_advance clusterSize (extents (cluster + run.offset.toInt) runs)
        (e.advance clusterSize s.fileOffset)
      have hge := le_advance clusterSize s.fileOffset e
      simp only [atRun] at htcluster htlength htread htoffset
      rw [if_neg hskip, ht, Option.bind_eq_bind, Option.bind_some]
      by_cases hfull : t.bytesRead ≥ t.buffer.length
      · rw [if_pos hfull]
        exact ⟨t, rfl, by omega⟩
      · rw [if_neg hfull]
        have hall : t.fileOffset = e.advance clusterSize s.fileOffset := by omega
        obtain ⟨u, hu, huread⟩ := ih (by rw [htcluster, htoInt]) hnonneg.2 hfits.2 (not_le.mp hfull).le
          (by rw [htlength]; exact hbuffer)
        refine ⟨u, hu, ?_⟩
        rw [huread, hall, htlength]
        omega

theorem fits_of_pass {t : Progress} (hcluster : s.currentCluster.toInt = cluster)
    (hnonneg : 0 ≤ cluster + run.offset.toInt)
    (h : readRuns .debug clusterSize (run :: runs) s = some t) :
    (Extent.mk (cluster + run.offset.toInt) run.length.toNat).Fits clusterSize := by
  rw [readRuns] at h
  simp only [Option.bind_eq_bind, Option.bind_eq_some_iff] at h
  obtain ⟨x, hx, start, hstart, bytes, hbytes, stop, hstop, -⟩ := h
  have htoInt := toInt_addSigned hx
  have hlt := x.toInt_lt
  have hnat : x.toNat = (cluster + run.offset.toInt).toNat := by
    rw [toNat_of_toInt_nonneg (by omega), htoInt, hcluster]
  simp only [mul, add, Option.ite_none_right_eq_some, Option.some.injEq] at hstart hbytes hstop
  refine ⟨?_, ?_⟩
  · dsimp only
    omega
  · rw [Extent.stop, Extent.start, Extent.bytes, ← hnat]
    rw [hstart.2, hbytes.2]
    exact hstop.1

theorem fits_of_readRuns {t : Progress} (hcluster : s.currentCluster.toInt = cluster)
    (hnonneg : ∀ e ∈ extents cluster runs, 0 ≤ e.cluster) (hread : s.bytesRead ≤ s.buffer.length)
    (hbuffer : s.buffer.length < usizeRange) (h : readRuns .debug clusterSize runs s = some t) :
    s.bytesRead ≤ t.bytesRead ∧ (t.bytesRead = s.bytesRead → s.bytesRead < s.buffer.length →
      ∀ e ∈ extents cluster runs, e.Fits clusterSize) := by
  induction runs generalizing cluster s with
  | nil =>
    obtain rfl : s = t := Option.some.inj h
    exact ⟨le_rfl, fun _ _ => nofun⟩
  | cons run runs ih =>
    rw [extents, List.forall_mem_cons] at hnonneg
    have hfits := fits_of_pass hcluster hnonneg.1 h
    obtain ⟨htoInt, hpass⟩ := readRuns_cons .debug runs hcluster hnonneg.1 hfits
    rw [hpass] at h
    rw [extents, List.forall_mem_cons]
    split_ifs at h with hskip
    · obtain ⟨hle, hrest⟩ := ih (s := atRun s run) htoInt hnonneg.2 hread hbuffer h
      exact ⟨hle, fun heq hlt => ⟨hfits, hrest heq hlt⟩⟩
    · obtain ⟨u, hu, hucluster, hulength, huread, -⟩ :=
        copyRun_eq (s := atRun s run) .debug hfits (not_le.mp hskip) hread hbuffer
      simp only [atRun] at hucluster hulength huread
      rw [hu, Option.bind_eq_bind, Option.bind_some] at h
      split_ifs at h with hfull
      · obtain rfl := Option.some.inj h
        exact ⟨by omega, fun heq hlt => by omega⟩
      · obtain ⟨hle, hrest⟩ := ih (by rw [hucluster, htoInt]) hnonneg.2 (not_le.mp hfull).le
          (by rw [hulength]; exact hbuffer) h
        refine ⟨by omega, fun heq hlt => ⟨hfits, hrest (by omega) (not_le.mp hfull)⟩⟩

/-- Reads of one descriptor after the other, and how many bytes each gives. -/
def readAll (profile : Profile) (file : FileDescriptor NtfsInode) : List (List Byte) →
    Option (KernelResult (List Nat))
  | [] => some (.ok [])
  | buffer :: buffers => do
    let (result, _, file) ← file.read profile (driver profile) buffer
    match result with
    | .error e => some (.error e)
    | .ok bytesRead => (readAll profile file buffers).map (Except.map (bytesRead :: ·))

/-- A file of `size` bytes is read from its start to its end, however the reads are cut, and then
gives nothing more. A slice in memory has less than `2 ^ 63` bytes. -/
structure ReadsThrough (profile : Profile) (inode : NtfsInode) (flags : OpenFlags)
    (size : Nat) : Prop where
  total : ∀ buffers : List (List Byte), (∀ b ∈ buffers, 0 < b.length ∧ b.length < 2 ^ 63) →
    ∃ counts, readAll profile (.new inode flags) buffers = some (.ok counts) ∧
      counts.sum = min (buffers.map List.length).sum size ∧ (size < buffers.length → 0 ∈ counts)
  past : ∀ (offset : FileOffset) (buffer : List Byte), buffer.length < 2 ^ 63 →
    (size : Int) ≤ offset.toInt →
    ∃ buffer', FileDescriptor.read profile (driver profile) ⟨inode, flags, offset⟩ buffer =
      some (.ok 0, buffer', ⟨inode, flags, offset⟩)

/-- The file offsets and the places of the runs are in range. -/
def Representable (clusterSize : Nat) (attr : NtfsAttribute) : Prop :=
  attr.dataSize < 2 ^ 63 ∧ ∀ e ∈ extents 0 attr.runList, e.Fits clusterSize

/-- No run with clusters ends on the disk after the position of the end of the file, and an
unlimited read that moves along the runs comes to that position. -/
def InPlace (clusterSize : Nat) (attr : NtfsAttribute) : Prop :=
  (∀ e ∈ extents 0 attr.runList, 0 < e.bytes clusterSize → e.stop clusterSize ≤ attr.dataSize) ∧
    (extents 0 attr.runList).foldl (Extent.advance clusterSize) 0 = attr.dataSize

variable {es : List Extent} {size : Nat}

theorem advance_le_max (position : Nat) (h : 0 < e.bytes clusterSize → e.stop clusterSize ≤ size) :
    e.advance clusterSize position ≤ max position size := by
  rw [Extent.advance]
  obtain hzero | hpos := Nat.eq_zero_or_pos (e.bytes clusterSize)
  · omega
  · have hstop := h hpos
    omega

theorem foldl_advance_le (position : Nat)
    (h : ∀ e ∈ es, 0 < e.bytes clusterSize → e.stop clusterSize ≤ size) :
    es.foldl (Extent.advance clusterSize) position ≤ max position size := by
  induction es generalizing position with
  | nil => exact le_max_left _ _
  | cons e es ih =>
    rw [List.forall_mem_cons] at h
    have hhead := advance_le_max position h.1
    have htail := ih (e.advance clusterSize position) h.2
    rw [List.foldl_cons]
    omega

theorem advance_mono (clusterSize : Nat) (e : Extent) :
    Monotone fun position => e.advance clusterSize position := by
  intro p q hpq
  simp only [Extent.advance]
  omega

theorem foldl_advance_eq (h : ∀ e ∈ es, 0 < e.bytes clusterSize → e.stop clusterSize ≤ size)
    (hzero : es.foldl (Extent.advance clusterSize) 0 = size) (position : Nat) :
    es.foldl (Extent.advance clusterSize) position = max position size := by
  apply le_antisymm (foldl_advance_le position h)
  have hmono := List.foldl_monotone (advance_mono clusterSize) es (Nat.zero_le position)
  have hge := le_foldl_advance clusterSize es position
  simp only [hzero] at hmono
  omega

theorem ends_of_foldl_eq (h : es.foldl (Extent.advance clusterSize) size = size) :
    ∀ e ∈ es, 0 < e.bytes clusterSize → e.stop clusterSize ≤ size := by
  induction es with
  | nil => nofun
  | cons e es ih =>
    have hge := le_advance clusterSize size e
    have htail := le_foldl_advance clusterSize es (e.advance clusterSize size)
    rw [List.foldl_cons] at h
    have hstay : e.advance clusterSize size = size := by omega
    rw [hstay] at h
    rw [List.forall_mem_cons]
    refine ⟨fun hpos => ?_, ih h⟩
    rw [Extent.advance] at hstay
    omega

section File

variable {inode : NtfsInode} {attr : NtfsAttribute} {flags : OpenFlags}
  (hattr : inode.getDataAttribute = some attr) (hresident : attr.residentData = none)
  (hflags : flags.readable = true) (hnonneg : ∀ e ∈ extents 0 attr.runList, 0 ≤ e.cluster)

include hnonneg in
theorem runs_read (profile : Profile)
    (hfits : ∀ e ∈ extents 0 attr.runList, e.Fits inode.volume.clusterSize.toNat)
    (position : Nat) {buffer : List Byte} (hbuffer : buffer.length < 2 ^ 63) :
    ∃ t, readRuns profile inode.volume.clusterSize.toNat attr.runList ⟨0, 0, position, buffer⟩ = some t ∧
      t.bytesRead = min buffer.length ((extents 0 attr.runList).foldl
        (Extent.advance inode.volume.clusterSize.toNat) position - position) := by
  have hword : buffer.length < usizeRange := hbuffer.trans (by decide)
  have hzero : (0 : BitVec 64).toInt = 0 := rfl
  obtain ⟨t, ht, hread⟩ :=
    readRuns_eq (s := ⟨0, 0, position, buffer⟩) profile hzero hnonneg hfits (Nat.zero_le _) hword
  exact ⟨t, ht, hread.trans (by rw [Nat.zero_add])⟩

include hattr hresident hflags

theorem file_read_eq (profile : Profile) (offset : FileOffset) (buffer : List Byte) :
    FileDescriptor.read profile (driver profile) ⟨inode, flags, offset⟩ buffer =
      readRuns profile inode.volume.clusterSize.toNat attr.runList ⟨0, 0, offset.toNat,
        buffer⟩ >>= fun t => (addSigned profile offset (BitVec.ofNat 64 t.bytesRead)).map fun offset =>
          (.ok t.bytesRead, t.buffer, ⟨inode, flags, offset⟩) := by
  rw [FileDescriptor.read, if_pos hflags]
  simp only [driver, NtfsInode.read, hattr, hresident, NtfsInode.readFromRuns]
  cases readRuns profile inode.volume.clusterSize.toNat attr.runList ⟨0, 0, offset.toNat, buffer⟩ with
  | none => rfl
  | some t =>
    simp only [Option.map_some, Option.bind_eq_bind, Option.bind_some, FileDescriptor.advance]
    cases addSigned profile offset (BitVec.ofNat 64 t.bytesRead) <;> rfl

include hnonneg

theorem read_inPlace (profile : Profile) (hrep : Representable inode.volume.clusterSize.toNat attr)
    (hplace : InPlace inode.volume.clusterSize.toNat attr) {position : Nat}
    (hposition : position < 2 ^ 63) {buffer : List Byte} (hbuffer : buffer.length < 2 ^ 63) :
    ∃ buffer', FileDescriptor.read profile (driver profile)
      ⟨inode, flags, BitVec.ofNat 64 position⟩ buffer =
      some (.ok (min buffer.length (attr.dataSize - position)), buffer',
        ⟨inode, flags, BitVec.ofNat 64 (position + min buffer.length (attr.dataSize - position))⟩) := by
  have hnat : (BitVec.ofNat 64 position).toNat = position :=
    Nat.mod_eq_of_lt (hposition.trans (by decide))
  obtain ⟨t, ht, hread⟩ := runs_read hnonneg profile hrep.2 position hbuffer
  have hcount : t.bytesRead = min buffer.length (attr.dataSize - position) := by
    rw [hread, foldl_advance_eq hplace.1 hplace.2]
    omega
  have hsize := hrep.1
  have hadd : addSigned profile (BitVec.ofNat 64 position) (BitVec.ofNat 64 t.bytesRead) =
      some (BitVec.ofNat 64 position + BitVec.ofNat 64 t.bytesRead) := by
    have hleft := toInt_ofNat_of_lt hposition
    have hright : (BitVec.ofNat 64 t.bytesRead).toInt = t.bytesRead := toInt_ofNat_of_lt (by omega)
    apply addSigned_ok <;> omega
  rw [file_read_eq hattr hresident hflags, hnat, ht, Option.bind_eq_bind, Option.bind_some, hadd, hcount,
    ← BitVec.ofNat_add]
  exact ⟨_, rfl⟩

theorem readAll_inPlace (profile : Profile) (hrep : Representable inode.volume.clusterSize.toNat attr)
    (hplace : InPlace inode.volume.clusterSize.toNat attr) (buffers : List (List Byte))
    (hbuffers : ∀ b ∈ buffers, 0 < b.length ∧ b.length < 2 ^ 63) {position : Nat}
    (hle : position ≤ attr.dataSize) :
    ∃ counts, readAll profile ⟨inode, flags, BitVec.ofNat 64 position⟩ buffers = some (.ok counts) ∧
      counts.length = buffers.length ∧
        counts.sum = min (buffers.map List.length).sum (attr.dataSize - position) := by
  induction buffers generalizing position with
  | nil => exact ⟨[], rfl, rfl, by simp⟩
  | cons buffer buffers ih =>
    rw [List.forall_mem_cons] at hbuffers
    obtain ⟨buffer', hread⟩ := read_inPlace hattr hresident hflags hnonneg profile hrep hplace
      (hle.trans_lt hrep.1) hbuffers.1.2
    have hnext : position + min buffer.length (attr.dataSize - position) ≤ attr.dataSize := by omega
    obtain ⟨counts, hcounts, hlength, hsum⟩ := ih hbuffers.2 hnext
    refine ⟨min buffer.length (attr.dataSize - position) :: counts, ?_, congrArg Nat.succ hlength, ?_⟩
    · rw [readAll, hread, Option.bind_eq_bind, Option.bind_some]
      simp only [hcounts]
      rfl
    · rw [List.sum_cons, hsum, List.map_cons, List.sum_cons]
      omega

theorem readsThrough_of_inPlace (profile : Profile)
    (hrep : Representable inode.volume.clusterSize.toNat attr)
    (hplace : InPlace inode.volume.clusterSize.toNat attr) :
    ReadsThrough profile inode flags attr.dataSize where
  total := by
    intro buffers hbuffers
    obtain ⟨counts, hcounts, hlength, hsum⟩ :=
      readAll_inPlace hattr hresident hflags hnonneg profile hrep hplace buffers hbuffers (Nat.zero_le _)
    refine ⟨counts, hcounts, hsum, fun hmany => ?_⟩
    by_contra hzero
    have hpos : ∀ n ∈ counts, 1 ≤ n := fun n hn => Nat.one_le_iff_ne_zero.mpr fun h => hzero (h ▸ hn)
    have hall := List.length_le_sum_of_one_le counts hpos
    omega
  past := by
    intro offset buffer hbuffer hpast
    have hnat := toNat_of_toInt_nonneg (x := offset) (by omega)
    have hlt := offset.toInt_lt
    have hposition : offset.toNat < 2 ^ 63 := by omega
    obtain ⟨buffer', hread⟩ :=
      read_inPlace hattr hresident hflags hnonneg profile hrep hplace hposition hbuffer
    have hzero : min buffer.length (attr.dataSize - offset.toNat) = 0 := by omega
    rw [hzero, Nat.add_zero, BitVec.ofNat_toNat, BitVec.setWidth_eq] at hread
    exact ⟨buffer', hread⟩

omit hnonneg in
theorem readAll_cons {profile : Profile} {offset : FileOffset} {buffer : List Byte}
    {buffers : List (List Byte)} {counts : List Nat}
    (h : readAll profile ⟨inode, flags, offset⟩ (buffer :: buffers) = some (.ok counts)) :
    ∃ t offset' rest, readRuns profile inode.volume.clusterSize.toNat attr.runList ⟨0, 0, offset.toNat,
      buffer⟩ = some t ∧ addSigned profile offset (BitVec.ofNat 64 t.bytesRead) = some offset' ∧
      readAll profile ⟨inode, flags, offset'⟩ buffers = some (.ok rest) ∧
        counts = t.bytesRead :: rest := by
  rw [readAll, file_read_eq hattr hresident hflags] at h
  simp only [Option.bind_eq_bind, Option.bind_eq_some_iff, Option.map_eq_some_iff] at h
  obtain ⟨_, ⟨t, ht, offset', hoffset', rfl⟩, hafter⟩ := h
  obtain ⟨rest, hrest, hcounts⟩ := Option.map_eq_some_iff.mp hafter
  cases rest with
  | error e => cases hcounts
  | ok rest => exact ⟨t, offset', rest, ht, hoffset', hrest, (Except.ok.inj hcounts).symm⟩

theorem inPlace_of_readsThrough {profile : Profile}
    (hrep : Representable inode.volume.clusterSize.toNat attr)
    (h : ReadsThrough profile inode flags attr.dataSize) :
    InPlace inode.volume.clusterSize.toNat attr := by
  have hends : ∀ e ∈ extents 0 attr.runList, 0 < e.bytes inode.volume.clusterSize.toNat →
      e.stop inode.volume.clusterSize.toNat ≤ attr.dataSize := by
    have hoffset := toInt_ofNat_of_lt hrep.1
    have hnat := toNat_of_toInt_nonneg (x := BitVec.ofNat 64 attr.dataSize) (by omega)
    obtain ⟨buffer', hread⟩ := h.past (BitVec.ofNat 64 attr.dataSize) [0] (by decide) hoffset.ge
    have hone : ([0] : List Byte).length < 2 ^ 63 := by decide
    obtain ⟨t, ht, hcount⟩ := runs_read hnonneg profile hrep.2 attr.dataSize hone
    rw [file_read_eq hattr hresident hflags, show (BitVec.ofNat 64 attr.dataSize).toNat =
      attr.dataSize by omega, ht, Option.bind_eq_bind, Option.bind_some, Option.map_eq_some_iff] at hread
    obtain ⟨offset, -, hresult⟩ := hread
    have hzero : t.bytesRead = 0 := Except.ok.inj (congrArg Prod.fst hresult)
    have hge := le_foldl_advance inode.volume.clusterSize.toNat (extents 0 attr.runList) attr.dataSize
    rw [hzero, List.length_singleton] at hcount
    exact ends_of_foldl_eq (by omega)
  refine ⟨hends, ?_⟩
  have hle := foldl_advance_le 0 hends
  obtain hempty | hpos := Nat.eq_zero_or_pos attr.dataSize
  · omega
  obtain ⟨buffer, hbuffer⟩ : ∃ b : List Byte, b.length = attr.dataSize :=
    ⟨List.replicate _ 0, List.length_replicate⟩
  have hlt : buffer.length < 2 ^ 63 := hbuffer.trans_lt hrep.1
  obtain ⟨counts, hcounts, hsum, -⟩ := h.total [buffer] (by simpa [hbuffer, hpos] using hrep.1)
  obtain ⟨t, offset, rest, ht, -, hrest, rfl⟩ := readAll_cons hattr hresident hflags hcounts
  obtain rfl : [] = rest := Except.ok.inj (Option.some.inj hrest)
  obtain ⟨t', ht', hread⟩ := runs_read hnonneg profile hrep.2 0 hlt
  obtain rfl : t = t' := Option.some.inj (ht.symm.trans ht')
  simp only [List.sum_cons, List.sum_nil, List.map_cons, List.map_nil, hbuffer] at hsum hread
  omega

omit hnonneg in
theorem dataSize_lt_of_readsThrough (h : ReadsThrough .debug inode flags attr.dataSize) :
    attr.dataSize < 2 ^ 63 := by
  by_contra hlarge
  obtain ⟨buffer, hbuffer⟩ : ∃ b : List Byte, b.length = 2 ^ 63 - 1 :=
    ⟨List.replicate _ 0, List.length_replicate⟩
  obtain ⟨first, hfirst, hsum, -⟩ := h.total [buffer] (by simp [hbuffer])
  obtain ⟨t, offset, rest, ht, -, hrest, rfl⟩ := readAll_cons hattr hresident hflags hfirst
  obtain rfl : [] = rest := Except.ok.inj (Option.some.inj hrest)
  obtain ⟨both, hboth, hsum', -⟩ := h.total [buffer, [0]] (by simp [hbuffer])
  obtain ⟨t', offset', rest, ht', hoffset', hrest, rfl⟩ := readAll_cons hattr hresident hflags hboth
  obtain ⟨u, last, rest', -, hlast, hrest', rfl⟩ := readAll_cons hattr hresident hflags hrest
  obtain rfl : [] = rest' := Except.ok.inj (Option.some.inj hrest')
  obtain rfl : t = t' := Option.some.inj (ht.symm.trans ht')
  simp only [List.sum_cons, List.sum_nil, List.map_cons, List.map_nil, hbuffer, List.length_singleton]
    at hsum hsum'
  have htread : t.bytesRead = 2 ^ 63 - 1 := by omega
  have huread : u.bytesRead = 1 := by omega
  have hstart := toInt_addSigned hoffset'
  have hend := toInt_addSigned hlast
  have hbound := last.toInt_lt
  have hzero : (0 : FileOffset).toInt = 0 := rfl
  rw [hzero, toInt_ofNat_of_lt (by omega), htread] at hstart
  rw [toInt_ofNat_of_lt (by omega), huread, hstart] at hend
  omega

theorem representable_of_readsThrough (h : ReadsThrough .debug inode flags attr.dataSize) :
    Representable inode.volume.clusterSize.toNat attr := by
  have hsize := dataSize_lt_of_readsThrough hattr hresident hflags h
  refine ⟨hsize, ?_⟩
  have hoffset := toInt_ofNat_of_lt hsize
  obtain ⟨buffer', hread⟩ := h.past (BitVec.ofNat 64 attr.dataSize) [0] (by decide) hoffset.ge
  rw [file_read_eq hattr hresident hflags, Option.bind_eq_bind, Option.bind_eq_some_iff] at hread
  obtain ⟨t, ht, hresult⟩ := hread
  obtain ⟨offset, -, hresult⟩ := Option.map_eq_some_iff.mp hresult
  have hzero : t.bytesRead = 0 := Except.ok.inj (congrArg Prod.fst hresult)
  have hcluster : (0 : BitVec 64).toInt = 0 := rfl
  have hbuffer : ([0] : List Byte).length < usizeRange := by decide
  exact (fits_of_readRuns hcluster hnonneg (Nat.zero_le _) hbuffer ht).2 hzero Nat.one_pos

end File

/-- A file that is not resident is read through exactly when its runs lie on the disk where the file
has them, up to the size of the file. In a release build this holds where nothing overflows. -/
theorem readsThrough_iff {inode : NtfsInode} {attr : NtfsAttribute} {flags : OpenFlags}
    (hattr : inode.getDataAttribute = some attr) (hresident : attr.residentData = none)
    (hflags : flags.readable = true) (hnonneg : ∀ e ∈ extents 0 attr.runList, 0 ≤ e.cluster) :
    (ReadsThrough .debug inode flags attr.dataSize ↔
      Representable inode.volume.clusterSize.toNat attr ∧ InPlace inode.volume.clusterSize.toNat attr) ∧
    (Representable inode.volume.clusterSize.toNat attr →
      (ReadsThrough .release inode flags attr.dataSize ↔
        InPlace inode.volume.clusterSize.toNat attr)) := by
  refine ⟨⟨fun h => ?_, fun h => ?_⟩, fun hrep => ⟨fun h => ?_, fun h => ?_⟩⟩
  · have hrep := representable_of_readsThrough hattr hresident hflags hnonneg h
    exact ⟨hrep, inPlace_of_readsThrough hattr hresident hflags hnonneg hrep h⟩
  · exact readsThrough_of_inPlace hattr hresident hflags hnonneg .debug h.1 h.2
  · exact inPlace_of_readsThrough hattr hresident hflags hnonneg hrep h
  · exact readsThrough_of_inPlace hattr hresident hflags hnonneg .release hrep h

theorem dvd_advance {position : Nat} (h : clusterSize ∣ position) (e : Extent) :
    clusterSize ∣ e.advance clusterSize position := by
  have hbytes : clusterSize ∣ e.bytes clusterSize := Nat.dvd_mul_left ..
  have hstop : clusterSize ∣ e.stop clusterSize := Nat.dvd_add (Nat.dvd_mul_left ..) hbytes
  rw [Extent.advance]
  obtain hmax | hmax := max_choice position (min (position + e.bytes clusterSize) (e.stop clusterSize))
  · rwa [hmax]
  · rw [hmax]
    obtain hmin | hmin := min_choice (position + e.bytes clusterSize) (e.stop clusterSize)
    · rw [hmin]
      exact Nat.dvd_add h hbytes
    · rwa [hmin]

theorem dvd_dataSize_of_inPlace {attr : NtfsAttribute} (h : InPlace clusterSize attr) :
    clusterSize ∣ attr.dataSize := by
  rw [← h.2]
  exact List.foldlRecOn (extents 0 attr.runList) (Extent.advance clusterSize) (dvd_zero _)
    fun position hposition e _ => dvd_advance hposition e

/-- A file with one run of a cluster of 4096 bytes. -/
def oneRunData (offset : BitVec 64) (dataSize : Nat) : NtfsAttribute where
  attrType := .data
  totalSize := 72
  nonResident := true
  name := none
  residentData := none
  runList := [⟨1, offset⟩]
  dataSize := dataSize
  initializedSize := dataSize

def oneRunFile (offset : BitVec 64) (dataSize : Nat) : NtfsInode :=
  ⟨64, [oneRunData offset dataSize], ⟨4096⟩⟩

def twoRunData : NtfsAttribute := { oneRunData 0 12288 with runList := [⟨2, 0⟩, ⟨1, 2⟩] }

def twoRunFile : NtfsInode := ⟨64, [twoRunData], ⟨4096⟩⟩

theorem twoRunFile_readsThrough : ReadsThrough .debug twoRunFile OpenFlags.readOnly 12288 := by
  have hattr : twoRunFile.getDataAttribute = some twoRunData := rfl
  refine (readsThrough_iff hattr rfl rfl ?_).1.mpr ⟨⟨?_, ?_⟩, ?_, ?_⟩
  · decide
  · decide
  · simp only [Extent.Fits]
    decide
  · decide
  · decide

/-- A file of 100 bytes in cluster 10 gives its 100 bytes again and again. -/
theorem oneRunFile_repeats :
    (oneRunFile 10 100).getDataAttribute = some (oneRunData 10 100) ∧
      ∀ profile ∈ [Profile.debug, Profile.release],
        readAll profile (.new (oneRunFile 10 100) OpenFlags.readOnly)
        [List.replicate 100 0, List.replicate 100 0] =
          some (.ok [100, 100]) := by
  decide +kernel

end DeltaOS.SequentialReads
