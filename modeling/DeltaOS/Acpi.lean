import DeltaOS.ByteMemory
import DeltaOS.Overflow
import DeltaOS.Traces

namespace DeltaOS.Acpi

open ByteMemory Overflow Traces

inductive Reader where
  | xsdt
  | rsdt
  | table
  | madt
  | hpet
  deriving DecidableEq, Repr

/-- Bytes that a function reads of a table, by their place in it. For an entry of a MADT, `entry` is
where it starts. -/
structure Access where
  reader : Reader
  table : Nat
  offset : Nat
  size : Nat
  entry : Option Nat
  deriving DecidableEq, Repr

/-- A computation on table memory; it stops without a value where the code panics. -/
abbrev Parse := Traced Access

variable (profile : Profile) (m : Memory) (addr : Nat)

/-- The little-endian number in the `n` bytes at `offset` of the table at `addr`. -/
def word (offset n : Nat) : Nat := readNat (fun a => m (a % usizeRange)) (addr + offset) n

def readField (reader : Reader) (offset n : Nat) : Parse Nat :=
  emit ⟨reader, addr, offset, n, none⟩ (word m addr offset n)

def readEntry (entry offset n : Nat) : Parse Nat :=
  emit ⟨.madt, addr, entry + offset, n, some entry⟩ (word m addr (entry + offset) n)

def sdtHeaderSize : Nat := 36

def madtSize : Nat := 44

def sdtLength : Nat := word m addr 4 4

def signature : List Byte := (List.range 4).map fun i => m ((addr + i) % usizeRange)

def readSignature (reader : Reader) : Parse (List Byte) :=
  emit ⟨reader, addr, 0, 4, none⟩ (signature m addr)

def checksum (n : Nat) : Byte := (List.range n).foldl (fun acc i => acc + m ((addr + i) % usizeRange)) 0

/-- `SdtHeader::validate`. -/
def validate (reader : Reader) : Parse Bool := do
  let length ← readField m addr reader 4 4
  emit ⟨reader, addr, 0, length, none⟩ (checksum m addr length == 0)

inductive MadtEntryType where
  | localApic
  | ioApic
  | interruptSourceOverride
  | nmiSource
  | localApicNmi
  | localApicAddressOverride
  | ioSapic
  | localSapic
  | platformInterruptSource
  | unknown
  deriving DecidableEq, Repr

def MadtEntryType.ofByte : Nat → MadtEntryType
  | 0 => localApic
  | 1 => ioApic
  | 2 => interruptSourceOverride
  | 3 => nmiSource
  | 4 => localApicNmi
  | 5 => localApicAddressOverride
  | 6 => ioSapic
  | 7 => localSapic
  | 8 => platformInterruptSource
  | _ => unknown

structure ProcessorInfo where
  processorId : Nat
  apicId : Nat
  isEnabled : Bool
  deriving DecidableEq, Repr

structure IntOverride where
  busSource : Nat
  irqSource : Nat
  globalSystemInterrupt : Nat
  flags : Nat
  deriving DecidableEq, Repr

structure AcpiInfo where
  localApicAddress : Nat
  ioApicAddress : Nat
  ioApicGsiBase : Nat
  hpetAddress : Nat
  hpetNumber : Nat
  hpetMinTick : Nat
  processorCount : BitVec 8
  processors : Vector ProcessorInfo 256
  intOverrides : Vector IntOverride 16
  intOverrideCount : Nat

def AcpiInfo.new : AcpiInfo where
  localApicAddress := 0xFEE00000
  ioApicAddress := 0xFEC00000
  ioApicGsiBase := 0
  hpetAddress := 0
  hpetNumber := 0
  hpetMinTick := 0
  processorCount := 0
  processors := Vector.replicate 256 ⟨0, 0, false⟩
  intOverrides := Vector.replicate 16 ⟨0, 0, 0, 0⟩
  intOverrideCount := 0

/-- `processor_count += 1` on a `u8`. -/
def countUp : Profile → BitVec 8 → Option (BitVec 8)
  | .release, n => some (n + 1)
  | .debug, n => if n.toNat + 1 < 256 then some (n + 1) else none

variable (entry : Nat) (info : AcpiInfo)

def parseLocalApic : Parse AcpiInfo := do
  let flags ← readEntry m addr entry 4 4
  let isEnabled := flags &&& 1 != 0
  if info.processorCount.toNat < 256 then do
    let processorId ← readEntry m addr entry 2 1
    let apicId ← readEntry m addr entry 3 1
    let processors :=
      info.processors.set info.processorCount.toNat ⟨processorId, apicId,
        isEnabled⟩ info.processorCount.isLt
    let processorCount ← ofOption (countUp profile info.processorCount)
    pure { info with processors := processors, processorCount := processorCount }
  else
    pure info

def parseIoApic : Parse AcpiInfo := do
  let ioApicAddress ← readEntry m addr entry 4 4
  let gsiBase ← readEntry m addr entry 8 4
  pure { info with ioApicAddress := ioApicAddress, ioApicGsiBase := gsiBase }

def parseIntSourceOverride : Parse AcpiInfo :=
  if h : info.intOverrideCount < 16 then do
    let busSource ← readEntry m addr entry 2 1
    let irqSource ← readEntry m addr entry 3 1
    let gsi ← readEntry m addr entry 4 4
    let flags ← readEntry m addr entry 8 2
    pure { info with
      intOverrides := info.intOverrides.set info.intOverrideCount ⟨busSource, irqSource, gsi, flags⟩ h
      intOverrideCount := info.intOverrideCount + 1 }
  else
    pure info

def parseLocalApicAddressOverride : Parse AcpiInfo := do
  let localApicAddress ← readEntry m addr entry 4 8
  pure { info with localApicAddress := localApicAddress }

def parseEntry : MadtEntryType → Parse AcpiInfo
  | .localApic => parseLocalApic profile m addr entry info
  | .ioApic => parseIoApic m addr entry info
  | .interruptSourceOverride => parseIntSourceOverride m addr entry info
  | .localApicAddressOverride => parseLocalApicAddressOverride m addr entry info
  | _ => pure info

/-- A pass of the loop of `parse_madt`; the state is the information so far and the offset. -/
def madtPass (totalLength : Nat) (s : AcpiInfo × Nat) : Parse ((AcpiInfo × Nat) ⊕ AcpiInfo) :=
  if s.2 < totalLength then do
    let _ ← ofOption (add profile addr s.2)
    let entryType ← readEntry m addr s.2 0 1
    let info ← parseEntry profile m addr s.2 s.1 (.ofByte entryType)
    let length ← readEntry m addr s.2 1 1
    if length = 0 then pure (.inr info) else pure (.inl (info, s.2 + length))
  else
    pure (.inr s.1)

def parseMadt : Parse AcpiInfo := do
  let localApicAddress ← readField m addr .madt 36 4
  let totalLength ← readField m addr .madt 4 4
  loop (madtPass profile m addr totalLength) (totalLength + 1)
    ({ info with localApicAddress := localApicAddress }, madtSize)

def parseHpet : Parse AcpiInfo := do
  let address ← readField m addr .hpet 44 8
  let number ← readField m addr .hpet 52 1
  let minimumTick ← readField m addr .hpet 53 2
  pure { info with hpetAddress := address, hpetNumber := number, hpetMinTick := minimumTick }

def madtSignature : List Byte := [0x41, 0x50, 0x49, 0x43]

def hpetSignature : List Byte := [0x48, 0x50, 0x45, 0x54]

/-- Nothing is read of a FADT or of an unknown table. -/
def parseTable : Parse AcpiInfo := do
  let sig ← readSignature m addr .table
  if sig = madtSignature then
    parseMadt profile m addr info
  else if sig = hpetSignature then
    parseHpet m addr info
  else
    pure info

/-- What `parse_xsdt` and `parse_rsdt` differ in. -/
structure Root where
  reader : Reader
  signature : List Byte
  entrySize : Nat
  badSignature : String
  badChecksum : String

def entryCount (entrySize length : Nat) : Option Nat :=
  (sub profile length sdtHeaderSize).map (· / entrySize)

variable (root : Root)

def visitEntry (info : AcpiInfo) (i : Nat) : Parse AcpiInfo := do
  let table ← readField m addr root.reader (sdtHeaderSize + root.entrySize * i) root.entrySize
  if table = 0 then pure info else parseTable profile m table info

/-- The part of `parse_xsdt` and `parse_rsdt` after the checks. -/
def visitEntries : Parse AcpiInfo := do
  let length ← readField m addr root.reader 4 4
  let count ← ofOption (entryCount profile root.entrySize length)
  let _ ← ofOption (add profile addr sdtHeaderSize)
  (List.range count).foldlM (visitEntry profile m addr root) info

def parseRoot : Parse (Except String Unit × AcpiInfo) := do
  let sig ← readSignature m addr root.reader
  if sig = root.signature then do
    let valid ← validate m addr root.reader
    if valid then do
      let info ← visitEntries profile m addr info root
      pure (.ok (), info)
    else
      pure (.error root.badChecksum, info)
  else
    pure (.error root.badSignature, info)

def xsdt : Root where
  reader := .xsdt
  signature := [0x58, 0x53, 0x44, 0x54]
  entrySize := 8
  badSignature := "Invalid XSDT signature"
  badChecksum := "XSDT checksum invalid"

def rsdt : Root where
  reader := .rsdt
  signature := [0x52, 0x53, 0x44, 0x54]
  entrySize := 4
  badSignature := "Invalid RSDT signature"
  badChecksum := "RSDT checksum invalid"

def parseXsdt : Parse (Except String Unit × AcpiInfo) := parseRoot profile m addr info xsdt

def parseRsdt : Parse (Except String Unit × AcpiInfo) := parseRoot profile m addr info rsdt

end DeltaOS.Acpi
