import DeltaOS.NtfsFiles
import DeltaOS.Utf16

namespace DeltaOS.NtfsMetadata

open ByteSlices Kernel Ntfs NtfsFiles

inductive FileType
  | regular
  | directory
  | symlink
  | device
  | pipe
  | unknown
deriving DecidableEq, Repr

structure FilePermissions where
  ownerRead : Bool := true
  ownerWrite : Bool := true
  ownerExecute : Bool := false
  groupRead : Bool := true
  groupWrite : Bool := false
  groupExecute : Bool := false
  othersRead : Bool := true
  othersWrite : Bool := false
  othersExecute : Bool := false
deriving DecidableEq, Repr

structure FileMetadata where
  inode : Nat
  fileType : FileType
  size : Nat
  permissions : FilePermissions
  created : Nat
  modified : Nat
  accessed : Nat
  nlinks : Nat
  uid : Nat
  gid : Nat
deriving DecidableEq, Repr

def pushChar (data : List Byte) (name : String) (i : Nat) : Except Panic String := do
  let ch ← readLe data (66 + i * 2) 2
  match Utf16.charFromU32 ch with
  | some c => pure (name.push c)
  | none => pure name

def parseFileName (data : List Byte) : Except Panic String :=
  if data.length < 66 then pure "unknown"
  else do
    let nameLen ← index data 64
    if data.length < 66 + nameLen.toNat * 2 then pure "unknown"
    else (List.range nameLen.toNat).foldlM (pushChar data) ""

def parseTimestamp (data : List Byte) (offset : Nat) : Except Panic Nat :=
  if data.length < offset + 8 then pure 0
  else do
    let raw ← readLe data offset 8
    let seconds := raw / 10000000
    pure (if seconds > 11644473600 then seconds - 11644473600 else 0)

/-- The variables of the loop of `from_mft_record`. -/
structure Scan where
  fileName : String
  size : Nat
  created : Nat
  modified : Nat

def scanAttribute (s : Scan) (attr : NtfsAttribute) : Except Panic Scan :=
  match attr.attrType, attr.residentData with
  | .fileName, some data => do
    let fileName ← parseFileName data
    pure { s with fileName }
  | .standardInformation, some data => do
    let created ← parseTimestamp data 0
    let modified ← parseTimestamp data 8
    pure { s with created, modified }
  | .data, _ => pure { s with size := attr.dataSize }
  | _, _ => pure s

/-- The metadata that `from_mft_record` gives an inode. -/
def metadata (record : MftRecord) : Except Panic FileMetadata := do
  let s ← record.attributes.foldlM scanAttribute ⟨"unknown", 0, 0, 0⟩
  pure
    { inode := record.recordNumber
      fileType := if record.flags &&& 0x0002 ≠ 0 then .directory else .regular
      size := s.size
      permissions := {}
      created := s.created
      modified := s.modified
      accessed := s.modified
      nlinks := 1
      uid := 0
      gid := 0 }

variable {data : List Byte} {s t : Scan} {l : List NtfsAttribute} {attr : NtfsAttribute}

theorem foldlM_pushChar {n : Nat} (h : 66 + n * 2 ≤ data.length) :
    (List.range n).foldlM (pushChar data) "" =
    .ok (String.ofList (((List.range n).map fun i => field data (66 + i * 2) 2).filterMap
      Utf16.charFromU32)) := by
  induction n with
  | zero => rfl
  | succ n ih =>
    rw [foldlM_range_succ, ih (by omega), ok_bind, pushChar, readLe_ok (by omega), ok_bind,
      List.range_succ, List.map_append, List.filterMap_append, List.map_singleton]
    cases hunit : Utf16.charFromU32 (field data (66 + n * 2) 2) with
    | none => rw [List.filterMap_cons_none hunit, List.filterMap_nil, List.append_nil]; rfl
    | some c =>
      rw [List.filterMap_cons_some hunit, List.filterMap_nil]
      apply congrArg Except.ok
      apply String.toList_injective
      simp

theorem parseFileName_ok (data : List Byte) : ∃ name, parseFileName data = .ok name := by
  rw [parseFileName]
  split_ifs with hshort
  · exact ⟨_, rfl⟩
  · rw [index_ok (by omega), ok_bind]
    split_ifs with hname
    · exact ⟨_, rfl⟩
    · exact ⟨_, foldlM_pushChar (not_lt.mp hname)⟩

theorem parseTimestamp_ok (data : List Byte) (offset : Nat) :
    ∃ time, parseTimestamp data offset = .ok time := by
  rw [parseTimestamp]
  split_ifs with hshort
  · exact ⟨_, rfl⟩
  · rw [readLe_ok (by omega)]
    exact ⟨_, rfl⟩

theorem scanAttribute_ok (s : Scan) (attr : NtfsAttribute) : ∃ t, scanAttribute s attr = .ok t ∧
    t.size = if attr.attrType = .data then attr.dataSize else s.size := by
  rw [scanAttribute]
  split
  · next data htype _ =>
    obtain ⟨name, hname⟩ := parseFileName_ok data
    rw [hname, ok_bind, htype]
    exact ⟨_, rfl, rfl⟩
  · next data htype _ =>
    obtain ⟨created, hcreated⟩ := parseTimestamp_ok data 0
    obtain ⟨modified, hmodified⟩ := parseTimestamp_ok data 8
    rw [hcreated, ok_bind, hmodified, ok_bind, htype]
    exact ⟨_, rfl, rfl⟩
  · next htype =>
    rw [if_pos htype]
    exact ⟨_, rfl, rfl⟩
  · next hother _ _ =>
    refine ⟨s, rfl, ?_⟩
    rw [if_neg hother]

theorem scan_ok (l : List NtfsAttribute) (s : Scan) : ∃ t, l.foldlM scanAttribute s = .ok t :=
  foldlM_ok (fun s attr => let ⟨t, ht, _⟩ := scanAttribute_ok s attr; ⟨t, ht⟩) l s

theorem scan_size (h : l.foldlM scanAttribute s = .ok t) (hother : ∀ b ∈ l, b.attrType ≠ .data) :
    t.size = s.size := by
  induction l generalizing s with
  | nil => cases h; rfl
  | cons a l ih =>
    obtain ⟨u, hu, hsize⟩ := scanAttribute_ok s a
    rw [List.foldlM_cons, hu, ok_bind] at h
    rw [ih h fun b hb => hother b (List.mem_cons_of_mem a hb), hsize,
      if_neg (hother a List.mem_cons_self)]

/-- The last `$DATA` attribute of a list, whatever its name. -/
def LastData (l : List NtfsAttribute) (a : NtfsAttribute) : Prop :=
  a.attrType = .data ∧ ∃ pre post : List NtfsAttribute, l = pre ++ a :: post ∧
    ∀ b ∈ post, b.attrType ≠ .data

theorem scan_last {a : NtfsAttribute} (h : l.foldlM scanAttribute s = .ok t) (ha : LastData l a) :
    t.size = a.dataSize := by
  obtain ⟨htype, pre, post, rfl, hpost⟩ := ha
  obtain ⟨u, hu⟩ := scan_ok pre s
  obtain ⟨v, hv, hsize⟩ := scanAttribute_ok u a
  rw [List.foldlM_append, hu, ok_bind, List.foldlM_cons, hv, ok_bind] at h
  rw [scan_size h hpost, hsize, if_pos htype]

theorem exists_lastData (l : List NtfsAttribute) : (∀ b ∈ l, b.attrType ≠ .data) ∨
    ∃ a, LastData l a := by
  induction l with
  | nil => exact .inl fun b hb => absurd hb List.not_mem_nil
  | cons a l ih =>
    obtain hnone | ⟨b, hb, pre, post, rfl, hpost⟩ := ih
    · by_cases ha : a.attrType = .data
      · exact .inr ⟨a, ha, [], l, rfl, hnone⟩
      · exact .inl (List.forall_mem_cons.mpr ⟨ha, hnone⟩)
    · exact .inr ⟨b, hb, a :: pre, post, rfl, hpost⟩

/-- The size of what `read` reads from. -/
def readableSize (inode : NtfsInode) : Nat := inode.getDataAttribute.elim 0 NtfsAttribute.dataSize

theorem readableSize_none {inode : NtfsInode} (h : ∀ b ∈ inode.attributes, b.attrType ≠ .data) :
    readableSize inode = 0 := by
  have hnone : inode.getDataAttribute = none := by
    refine List.find?_eq_none.mpr fun b hb hfound => h b hb ?_
    simp only [Bool.and_eq_true, beq_iff_eq] at hfound
    exact hfound.1
  rw [readableSize, hnone, Option.elim_none]

/-- The metadata report the size of the last `$DATA` attribute, and reads take the first one
without a name. -/
theorem size_readable_iff (record : MftRecord) (volume : NtfsVolume) : ∃ m, metadata record = .ok m ∧
    (m.size = readableSize (.fromMftRecord record volume) ↔
      ∀ a, LastData record.attributes a → a.dataSize = readableSize (.fromMftRecord record volume)) := by
  obtain ⟨s, hs⟩ := scan_ok record.attributes ⟨"unknown", 0, 0, 0⟩
  refine ⟨_, by rw [metadata, hs, ok_bind]; rfl, ?_⟩
  constructor
  · intro hsize a ha
    rw [← scan_last hs ha]
    exact hsize
  · intro hlast
    obtain hnone | ⟨a, ha⟩ := exists_lastData record.attributes
    · rw [readableSize_none hnone]
      exact scan_size hs hnone
    · rw [← hlast a ha]
      exact scan_last hs ha

/-- A file of four bytes with a stream of nine after it. -/
def streamed : MftRecord :=
  ⟨64, 0x0001, 1,
    [⟨.data, 32, false, none, some [1, 2, 3, 4], [], 4, 4⟩,
      ⟨.data, 48, false, some "zone", some [9, 8, 7, 6, 5, 4, 3, 2, 1], [], 9, 9⟩], 1024⟩

theorem streamed_size_not_readable :
    ∃ m, metadata streamed = .ok m ∧ m.size = 9 ∧ readableSize (.fromMftRecord streamed ⟨4096⟩) = 4 :=
  ⟨_, rfl, rfl, rfl⟩

/-- The bytes of a `$FILE_NAME` value that hold a name. -/
structure NameHeld (name : String) (data : List Byte) : Prop where
  room : 66 + (Utf16.encode name.toList).length * 2 ≤ data.length
  count : (byteAt data 64).toNat = (Utf16.encode name.toList).length
  unit : ∀ i (h : i < (Utf16.encode name.toList).length), field data (66 + i * 2) 2 =
    (Utf16.encode name.toList)[i]

/-- The name has no character that takes two units. -/
def InPlane (name : String) : Prop := ∀ c ∈ name.toList, c.toNat < 0x10000

variable {name : String}

theorem NameHeld.units_eq (h : NameHeld name data) :
    (List.range (byteAt data 64).toNat).map (fun i => field data (66 + i * 2) 2) =
      Utf16.encode name.toList := by
  apply List.ext_getElem
  · rw [List.length_map, List.length_range, h.count]
  · intro i _ hi
    rw [List.getElem_map, List.getElem_range]
    exact h.unit i hi

theorem NameHeld.parseFileName_eq (h : NameHeld name data) :
    parseFileName data = .ok (String.ofList (name.toList.filter fun c => c.toNat < 0x10000)) := by
  have hroom := h.room
  have hcount := h.count
  rw [parseFileName, if_neg (by omega), index_ok (by omega), ok_bind, if_neg (by omega),
    foldlM_pushChar (by omega), h.units_eq, ← Utf16.filterMap_encode]

theorem NameHeld.parseFileName_ok_iff (h : NameHeld name data) :
    parseFileName data = .ok name ↔ InPlane name := by
  rw [h.parseFileName_eq, Except.ok.injEq, ← String.toList_inj, String.toList_ofList,
    List.filter_eq_self]
  simp only [decide_eq_true_eq]
  rfl

/-- A name is read back exactly when each of its characters is one unit. -/
theorem parseFileName_faithful_iff (h : NameHeld name data) :
    (parseFileName data = .ok name ↔ InPlane name) ∧
    (InPlane name → ∀ other data', NameHeld other data' → InPlane other →
      parseFileName data = parseFileName data' → name = other) := by
  refine ⟨h.parseFileName_ok_iff, ?_⟩
  intro hname other data' hother hplane heq
  rw [h.parseFileName_ok_iff.mpr hname, hother.parseFileName_ok_iff.mpr hplane] at heq
  exact Except.ok.inj heq

def valueOf (units : List Nat) : List Byte :=
  List.replicate 64 0 ++ [BitVec.ofNat 8 units.length, 0] ++ units.flatMap (leBytes 2)

theorem nameHeld_ofList {cs : List Char} (hroom : 66 + (Utf16.encode cs).length * 2 ≤ data.length)
    (hcount : (byteAt data 64).toNat = (Utf16.encode cs).length)
    (hunit : ∀ i (h : i < (Utf16.encode cs).length), field data (66 + i * 2) 2 = (Utf16.encode cs)[i]) :
    NameHeld (String.ofList cs) data := by
  constructor
  · simpa only [String.toList_ofList] using hroom
  · simpa only [String.toList_ofList] using hcount
  · simpa only [String.toList_ofList] using hunit

theorem ab_held : NameHeld (String.ofList ['a', 'b']) (valueOf [0x61, 0x62]) :=
  nameHeld_ofList (by decide +kernel) (by decide +kernel) (by decide +kernel)

theorem ab_faithful : NameHeld (String.ofList ['a', 'b']) (valueOf [0x61, 0x62]) ∧
    parseFileName (valueOf [0x61, 0x62]) = .ok (String.ofList ['a', 'b']) := by
  refine ⟨ab_held, (parseFileName_faithful_iff ab_held).1.mpr ?_⟩
  simp [InPlane]

/-- The second character of the first name, above the basic plane, is lost. -/
theorem grin_not_faithful :
    NameHeld (String.ofList ['a', '😀']) (valueOf [0x61, 0xD83D, 0xDE00]) ∧
      NameHeld (String.ofList ['a']) (valueOf [0x61]) ∧
      parseFileName (valueOf [0x61, 0xD83D, 0xDE00]) = .ok (String.ofList ['a']) ∧
      parseFileName (valueOf [0x61]) = .ok (String.ofList ['a']) ∧
      String.ofList ['a', '😀'] ≠ String.ofList ['a'] := by
  have hgrin : NameHeld (String.ofList ['a', '😀']) (valueOf [0x61, 0xD83D, 0xDE00]) :=
    nameHeld_ofList (by decide +kernel) (by decide +kernel) (by decide +kernel)
  have ha : NameHeld (String.ofList ['a']) (valueOf [0x61]) :=
    nameHeld_ofList (by decide +kernel) (by decide +kernel) (by decide +kernel)
  refine ⟨hgrin, ha, ?_, ?_, ?_⟩
  · rw [hgrin.parseFileName_eq, String.toList_ofList]
    rfl
  · rw [ha.parseFileName_eq, String.toList_ofList]
    rfl
  · intro heq
    exact absurd (String.ofList_injective heq) (by decide)

end DeltaOS.NtfsMetadata
