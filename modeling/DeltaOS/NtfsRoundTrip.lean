import DeltaOS.Ntfs

namespace DeltaOS.NtfsRoundTrip

open ByteSlices Cursor Kernel Ntfs

/-- What an attribute holds: its bytes, or where on the disk they are. -/
inductive Contents
  | resident (content : List Byte)
  | nonResident (dataSize initializedSize : Nat) (runs : List Byte)

/-- An attribute, whatever the places its parts have in it. One without a name has no characters
there. -/
structure Attribute where
  code : Nat
  totalSize : Nat
  name : List Char
  contents : Contents

structure Record where
  sequenceNumber : Nat
  flags : Nat
  bytesInUse : Nat
  attributes : List Attribute

structure NameLaid (name : List Char) (bytes : List Byte) : Prop where
  length : (byteAt bytes 9).toNat = name.length
  inside : name ≠ [] → field bytes 10 2 + name.length * 2 ≤ bytes.length
  units : ∀ i (h : i < name.length), field bytes (field bytes 10 2 + i * 2) 2 = name[i].toNat

structure ResidentLaid (content bytes : List Byte) : Prop where
  flag : byteAt bytes 8 = 0
  header : 0x16 ≤ bytes.length
  length : field bytes 0x10 4 = content.length
  inside : field bytes 0x14 2 + content.length ≤ bytes.length
  content : (bytes.take (field bytes 0x14 2 + content.length)).drop (field bytes 0x14 2) = content

structure NonResidentLaid (dataSize initializedSize : Nat) (runs bytes : List Byte) : Prop where
  flag : byteAt bytes 8 ≠ 0
  header : 0x40 ≤ bytes.length
  dataSize : field bytes 0x30 8 = dataSize
  initializedSize : field bytes 0x38 8 = initializedSize
  inside : field bytes 0x20 2 ≤ bytes.length
  runs : bytes.drop (field bytes 0x20 2) = runs

def Contents.Laid : Contents → List Byte → Prop
  | .resident content, bytes => ResidentLaid content bytes
  | .nonResident dataSize initializedSize runs, bytes =>
    NonResidentLaid dataSize initializedSize runs bytes

structure Attribute.Laid (a : Attribute) (bytes : List Byte) : Prop where
  code : field bytes 0 4 = a.code
  notEnd : a.code ≠ 0xFFFFFFFF
  size : field bytes 4 4 = a.totalSize
  length : bytes.length = a.totalSize
  name : NameLaid a.name bytes
  contents : a.contents.Laid bytes

def endMarker : List Byte := [0xFF, 0xFF, 0xFF, 0xFF]

/-- The attributes lie one after the other from the given place on, with the end marker behind them. -/
def AttributesLaid (attributes : List Attribute) (bytes : List Byte) : Prop :=
  ∃ images rest, List.Forall₂ Attribute.Laid attributes images ∧
    bytes = images.flatten ++ (endMarker ++ rest)

structure Record.Laid (r : Record) (data : List Byte) : Prop where
  size : mftRecordSize ≤ data.length
  signature : field data 0 4 = mftRecordSignature
  sequenceNumber : field data 0x10 2 = r.sequenceNumber
  flags : field data 0x16 2 = r.flags
  bytesInUse : field data 0x18 4 = r.bytesInUse
  attributes : AttributesLaid r.attributes (data.drop (field data 0x14 2))

def parsedName (name : List Char) : Option String :=
  if name = [] then none else some (String.ofList name)

/-- The attribute as the parser returns it, with the run list that `parse_run_list` gives. -/
def Attribute.parsed (a : Attribute) : Except Panic NtfsAttribute :=
  match a.contents with
  | .resident content => .ok
      { attrType := .fromU32 a.code
        totalSize := a.totalSize
        nonResident := false
        name := parsedName a.name
        residentData := some content
        runList := []
        dataSize := content.length
        initializedSize := content.length }
  | .nonResident dataSize initializedSize runs => (fun runList =>
      { attrType := .fromU32 a.code
        totalSize := a.totalSize
        nonResident := true
        name := parsedName a.name
        residentData := none
        runList := runList
        dataSize := dataSize
        initializedSize := initializedSize }) <$> parseRunList .debug runs

def Record.parsed (r : Record) : Except Panic (KernelResult MftRecord) :=
  (fun attributes => .ok
    { recordNumber := 0
      flags := r.flags
      sequenceNumber := r.sequenceNumber
      attributes := attributes
      bytesInUse := r.bytesInUse }) <$> r.attributes.mapM Attribute.parsed

variable {data image : List Byte} {offset : Nat} {a : Attribute}

theorem fromU32_code (t : NtfsAttributeType) : NtfsAttributeType.fromU32 t.code = t := by
  cases t <;> rfl

theorem ofList_push (cs : List Char) (c : Char) :
    (String.ofList cs).push c = String.ofList (cs ++ [c]) := by
  apply String.toList_injective
  simp

theorem pushUnit_placed {name : List Char} (h : NameLaid name image)
    (hplaced : image <+: data.drop offset)
    (hdata : offset + image.length ≤ data.length) {i : Nat} (hi : i < name.length) (s : String) :
    pushUnit data (offset + field image 10 2) s i = .ok (s.push name[i]) := by
  have hinside := h.inside (List.ne_nil_of_length_pos (Nat.zero_lt_of_lt hi))
  have hunit : field data (offset + field image 10 2 + i * 2) 2 = name[i].toNat := by
    rw [Nat.add_assoc, field_placed hplaced (by omega), h.units i hi]
  rw [pushUnit, if_pos (by omega), readLe_ok (by omega), ok_bind, hunit, Utf16.charFromU32_toNat]
  rfl

theorem foldlM_pushUnit {name : List Char} (h : NameLaid name image)
    (hplaced : image <+: data.drop offset)
    (hdata : offset + image.length ≤ data.length) {n : Nat} (hn : n ≤ name.length) :
    (List.range n).foldlM (pushUnit data (offset + field image 10 2)) "" =
      .ok (String.ofList (name.take n)) := by
  induction n with
  | zero => rfl
  | succ n ih =>
    have hlt : n < name.length := hn
    rw [List.range_succ, List.foldlM_append, ih hlt.le, ok_bind, List.foldlM_cons,
      pushUnit_placed h hplaced hdata hlt, ok_bind, ofList_push, List.take_append_getElem]
    rfl

theorem parseName_placed {name : List Char} (h : NameLaid name image)
    (hplaced : image <+: data.drop offset) (hdata : offset + image.length ≤ data.length) :
    parseName data offset name.length (field image 10 2) image.length = .ok (parsedName name) := by
  rw [parseName, parsedName]
  by_cases hname : name = []
  · rw [hname]
    rfl
  · rw [if_pos ⟨List.length_pos_of_ne_nil hname, h.inside hname⟩, if_neg hname,
      foldlM_pushUnit h hplaced hdata le_rfl, List.take_length]
    rfl

theorem Attribute.Laid.header_le (h : a.Laid image) : 0x16 ≤ image.length := by
  have hcontents := h.contents
  cases hc : a.contents with
  | resident content =>
    rw [hc] at hcontents
    exact hcontents.header
  | nonResident dataSize initializedSize runs =>
    rw [hc] at hcontents
    exact le_trans (by decide) hcontents.header

structure HeaderPlaced (data image : List Byte) (offset : Nat) : Prop where
  code : field data offset 4 = field image 0 4
  size : sizeAt data offset = field image 4 4
  flag : byteAt data (offset + 8) = byteAt image 8
  nameLength : byteAt data (offset + 9) = byteAt image 9
  nameOffset : field data (offset + 10) 2 = field image 10 2

theorem headerPlaced (hplaced : image <+: data.drop offset) (hlen : 0x16 ≤ image.length) :
    HeaderPlaced data image offset where
  code := field_placed hplaced (show 0 + 4 ≤ _ by omega)
  size := field_placed hplaced (by omega)
  flag := byteAt_placed hplaced (by omega)
  nameLength := byteAt_placed hplaced (by omega)
  nameOffset := field_placed hplaced (by omega)

theorem parseContents_placed (h : a.Laid image) (hplaced : image <+: data.drop offset)
    (hdata : offset + image.length ≤ data.length) :
    parseContents data offset (headerAt data offset (parsedName a.name)) = a.parsed := by
  have hhead := headerPlaced hplaced h.header_le
  have hsize : sizeAt data offset = image.length := by rw [hhead.size, h.size, h.length]
  have hcontents := h.contents
  rw [parseContents_header, hhead.flag, Attribute.parsed]
  cases hc : a.contents with
  | resident content =>
    rw [hc] at hcontents
    have hcount : field data (offset + 0x10) 4 = content.length := by
      rw [field_placed hplaced (by have := hcontents.header; omega), hcontents.length]
    have hplace : field data (offset + 0x14) 2 = field image 0x14 2 :=
      field_placed hplaced (by have := hcontents.header; omega)
    have hinside := hcontents.inside
    have hslice : slice data (offset + field image 0x14 2)
        (offset + field image 0x14 2 + content.length) = .ok content := by
      rw [slice_ok (Nat.le_add_right _ _) (by omega), Nat.add_assoc,
        slice_placed hplaced hcontents.inside, hcontents.content]
    rw [if_neg (not_not.mpr hcontents.flag),
      parseResident_inside (by have := hcontents.header; omega) hcount
      (by rwa [hplace])]
    simp only [headerAt, hhead.code, h.code, hsize, h.length, hhead.flag, hcontents.flag,
      ne_eq, not_true, decide_false]
  | nonResident dataSize initializedSize runs =>
    rw [hc] at hcontents
    have hroom := hcontents.header
    have hplace : runOffsetAt data offset = field image 0x20 2 := field_placed hplaced (by omega)
    have hruns : slice data (offset + runOffsetAt data offset) (offset + sizeAt data offset) =
        .ok runs := by
      rw [hplace, hsize, slice_ok (Nat.add_le_add_left hcontents.inside _) hdata,
        slice_placed hplaced le_rfl, List.take_length, hcontents.runs]
    rw [if_pos hcontents.flag, parseNonResident_eq (by omega) rfl, hruns, ok_bind,
      field_placed hplaced (by omega), field_placed hplaced (by omega), hcontents.dataSize,
      hcontents.initializedSize]
    simp only [headerAt, hhead.code, h.code, hsize, h.length, hhead.flag, hcontents.flag, ne_eq,
      not_false_eq_true, decide_true]

theorem parseAttribute_placed (h : a.Laid image) (hplaced : image <+: data.drop offset)
    (hroom : offset + image.length + 4 ≤ data.length) :
    parseAttribute data offset = (fun attr => some (attr, offset + image.length)) <$> a.parsed := by
  have hlen := h.header_le
  have hhead := headerPlaced hplaced hlen
  have hsize : sizeAt data offset = image.length := by rw [hhead.size, h.size, h.length]
  have hattr : HasAttribute data offset := by
    refine ⟨by omega, ?_, by omega, by omega⟩
    rw [hhead.code, h.code]
    exact h.notEnd
  rw [parseAttribute_some hattr, hhead.nameLength, hhead.nameOffset, h.name.length, hsize,
    parseName_placed h.name hplaced (by omega), ok_bind, parseContents_placed h hplaced (by omega)]

theorem parseAttribute_endMarker (hplaced : endMarker <+: data.drop offset) :
    parseAttribute data offset = .ok none := by
  apply parseAttribute_none
  intro h
  have hcode : field data offset 4 = field endMarker 0 4 := field_placed hplaced (Nat.zero_add 4).le
  exact h.2.1 (hcode.trans (by decide))

theorem length_placed {bytes rest : List Byte} (h : data.drop offset = bytes ++ rest)
    (hpos : 0 < bytes.length) : offset + bytes.length + rest.length = data.length := by
  have hlen := congrArg List.length h
  rw [List.length_drop, List.length_append] at hlen
  omega

theorem chain_laid {attributes : List Attribute} {images : List (List Byte)} {rest : List Byte}
    (h : List.Forall₂ Attribute.Laid attributes images)
    (hdata : data.drop offset = images.flatten ++ (endMarker ++ rest)) :
    Chain (parseAttribute data) Attribute.parsed offset attributes := by
  induction h generalizing offset with
  | nil => exact .stop (parseAttribute_endMarker ⟨rest, hdata.symm⟩)
  | @cons a image attributes images ha _ ih =>
    rw [List.flatten_cons, List.append_assoc] at hdata
    have hlen := length_placed hdata (Nat.zero_lt_of_lt ha.header_le)
    have hmarker : endMarker.length = 4 := rfl
    rw [List.length_append, List.length_append, hmarker] at hlen
    refine .item (parseAttribute_placed ha ⟨_, hdata.symm⟩ (by omega)) (ih ?_)
    rw [← List.drop_drop, hdata, List.drop_left]

theorem length_le_flatten {attributes : List Attribute} {images : List (List Byte)}
    (h : List.Forall₂ Attribute.Laid attributes images) : attributes.length ≤ images.flatten.length := by
  induction h with
  | nil => exact le_rfl
  | cons ha _ ih =>
    have hlen := ha.header_le
    rw [List.length_cons, List.flatten_cons, List.length_append]
    omega

/-- A record is parsed into what is laid out in it, and the types are read as they are written. -/
theorem parse_laid (r : Record) (data : List Byte) (h : r.Laid data) :
    parseMftRecord data = r.parsed ∧ ∀ t : NtfsAttributeType, .fromU32 t.code = t := by
  refine ⟨?_, fromU32_code⟩
  obtain ⟨images, rest, himages, hdata⟩ := h.attributes
  have hcount : r.attributes.length < data.length + 1 := by
    have hle := length_le_flatten himages
    have hlen := congrArg List.length hdata
    rw [List.length_drop, List.length_append] at hlen
    omega
  rw [parseMftRecord_accepted h.size h.signature, (chain_laid himages hdata).collect_eq hcount,
    Record.parsed]
  simp only [recordAt, h.flags, h.sequenceNumber, h.bytesInUse]

def namedStream : Attribute where
  code := 0x80
  totalSize := 0x28
  name := ['z', 'o', 'n', 'e']
  contents := .resident [1, 2, 3]

def namedStreamBytes : List Byte :=
  [0x80, 0, 0, 0, 0x28, 0, 0, 0, 0, 4, 0x18, 0, 0, 0, 0, 0, 3, 0, 0, 0, 0x20, 0, 0, 0,
    0x7A, 0, 0x6F, 0, 0x6E, 0, 0x65, 0, 1, 2, 3, 0, 0, 0, 0, 0]

theorem namedStream_laid : namedStream.Laid namedStreamBytes :=
  ⟨by decide, by decide, by decide, by decide, ⟨by decide, by decide, by decide⟩,
    ⟨by decide, by decide, by decide, by decide, by decide⟩⟩

def fiveClusters : Attribute where
  code := 0x80
  totalSize := 0x48
  name := []
  contents := .nonResident 0x5000 0x4800 [0x11, 5, 7, 0, 0, 0, 0, 0]

def fiveClustersBytes : List Byte :=
  [0x80, 0, 0, 0, 0x48, 0, 0, 0, 1, 0, 0x40, 0] ++ List.replicate 20 0 ++ [0x40, 0] ++
    List.replicate 14 0 ++
    [0, 0x50, 0, 0, 0, 0, 0, 0] ++ [0, 0x48, 0, 0, 0, 0, 0, 0] ++ [0x11, 5, 7, 0, 0, 0, 0, 0]

theorem fiveClusters_laid : fiveClusters.Laid fiveClustersBytes :=
  ⟨by decide, by decide, by decide, by decide, ⟨by decide, by decide, by decide⟩,
    ⟨by decide, by decide, by decide, by decide, by decide, by decide⟩⟩

def twoStreams : Record where
  sequenceNumber := 3
  flags := 1
  bytesInUse := 0xB0
  attributes := [namedStream, fiveClusters]

def twoStreamsBytes : List Byte :=
  [0x46, 0x49, 0x4C, 0x45] ++ List.replicate 12 0 ++ [3, 0, 0, 0, 0x38, 0, 1, 0, 0xB0, 0, 0, 0] ++
    List.replicate 28 0 ++ ([namedStreamBytes, fiveClustersBytes].flatten ++
      (endMarker ++ List.replicate 852 0))

theorem twoStreams_laid : twoStreams.Laid twoStreamsBytes := by
  refine ⟨by
    decide +kernel, by decide +kernel, by decide +kernel, by decide +kernel, by decide +kernel, ?_⟩
  refine ⟨[namedStreamBytes, fiveClustersBytes], List.replicate 852 0, ?_, by decide +kernel⟩
  exact .cons namedStream_laid (.cons fiveClusters_laid .nil)

theorem twoStreams_parsed : parseMftRecord twoStreamsBytes = twoStreams.parsed ∧
    ∀ t : NtfsAttributeType, .fromU32 t.code = t := parse_laid _ _ twoStreams_laid

end DeltaOS.NtfsRoundTrip
