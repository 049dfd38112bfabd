import DeltaOS.ByteMemory
import DeltaOS.Kernel
import DeltaOS.Overflow

namespace DeltaOS.Paging

open ByteMemory Kernel Overflow

def pageEntries : Nat := 512
def vmmPagesEnd : Nat := 0x800000

def presentBit : Word := 1
def writableBit : Word := 2
def hugePageBit : Word := 0x80
def addrMask : Word := 0x000FFFFFFFFFF000

/-- The bits of the ten flags that `PageFlags` names. -/
def knownFlags : Word := 0x80000000000001FF

structure PageFlags where
  bits : Word
  known : bits &&& ~~~knownFlags = 0
deriving DecidableEq

def PageFlags.present (flags : PageFlags) : Bool := flags.bits &&& presentBit != 0

/-- The page tables of one address space: the `Vmm` value, the static `NEXT_PAGE_ADDR` and
the memory the tables live in. -/
structure Vmm where
  pml4Addr : Nat
  nextPageAddr : Nat
  mem : Memory

abbrev Index := Fin pageEntries

def index (virt shift : Nat) : Index :=
  ⟨virt >>> shift &&& 0x1FF, Nat.and_lt_two_pow _ (by decide : 0x1FF < 2 ^ 9)⟩

theorem index_val (virt shift : Nat) : (index virt shift).val = virt / 2 ^ shift % 512 := by
  rw [← Nat.shiftRight_eq_div_pow]
  exact Nat.and_two_pow_sub_one_eq_mod _ 9

def pml4Index (virt : Nat) : Index := index virt 39
def pdptIndex (virt : Nat) : Index := index virt 30
def pdIndex (virt : Nat) : Index := index virt 21
def ptIndex (virt : Nat) : Index := index virt 12

def getEntry (m : Memory) (table : Nat) (i : Index) : Word := read64 m (table + 8 * i.val)

def setEntry (m : Memory) (table : Nat) (i : Index) (value : Word) : Memory :=
  write64 m (table + 8 * i.val) value

def isPresent (m : Memory) (table : Nat) (i : Index) : Bool := getEntry m table i &&& presentBit != 0

def frameOf (entry : Word) : Nat := (entry &&& addrMask).toNat

def getNextTableAddr (m : Memory) (table : Nat) (i : Index) : Option Nat :=
  if getEntry m table i &&& presentBit = 0 then none else some (frameOf (getEntry m table i))

namespace Vmm

def writeEntry (s : Vmm) (table : Nat) (i : Index) (value : Word) : Vmm :=
  { s with mem := setEntry s.mem table i value }

/-- The `?` operator: an error ends the call and leaves the state as it is by then. -/
def andThen {α β : Type} (x : KernelResult α × Vmm) (f : α → Vmm → KernelResult β × Vmm) :
    KernelResult β × Vmm :=
  match x with
  | (.ok a, s) => f a s
  | (.error e, s) => (.error e, s)

def allocPageTable (s : Vmm) : KernelResult Nat × Vmm :=
  if s.nextPageAddr + pageSize > vmmPagesEnd then (.error .outOfMemory, s)
  else (.ok s.nextPageAddr,
    { s with
      nextPageAddr := s.nextPageAddr + pageSize
      mem := fill s.mem s.nextPageAddr 0 pageSize })

/-- One of the three levels of `map_page`: the table behind an entry, which is allocated
when the entry is absent. The entry is present at the `unwrap`. -/
def ensureTable (s : Vmm) (table : Nat) (i : Index) : KernelResult Nat × Vmm :=
  if isPresent s.mem table i then (.ok ((getNextTableAddr s.mem table i).getD 0), s)
  else andThen s.allocPageTable fun newTable s =>
    let s := s.writeEntry table i (BitVec.ofNat 64 newTable ||| presentBit ||| writableBit)
    (.ok ((getNextTableAddr s.mem table i).getD 0), s)

/-- The last level of `map_page`. -/
def mapEntry (s : Vmm) (pt virt phys : Nat) (flags : PageFlags) : KernelResult Unit × Vmm :=
  if isPresent s.mem pt (ptIndex virt) then (.error .pageAlreadyMapped, s)
  else (.ok (), s.writeEntry pt (ptIndex virt) (BitVec.ofNat 64 phys ||| flags.bits))

def mapPage (s : Vmm) (virt phys : Nat) (flags : PageFlags) : KernelResult Unit × Vmm :=
  if virt % pageSize ≠ 0 ∨ phys % pageSize ≠ 0 then (.error .invalidArgument, s)
  else
    andThen (s.ensureTable s.pml4Addr (pml4Index virt)) fun pdpt s =>
    andThen (s.ensureTable pdpt (pdptIndex virt)) fun pd s =>
    andThen (s.ensureTable pd (pdIndex virt)) fun pt s => s.mapEntry pt virt phys flags

/-- The page table that `unmap_page` and `update_flags` reach. -/
def findTable (s : Vmm) (virt : Nat) : Option Nat := do
  let pdpt ← getNextTableAddr s.mem s.pml4Addr (pml4Index virt)
  let pd ← getNextTableAddr s.mem pdpt (pdptIndex virt)
  getNextTableAddr s.mem pd (pdIndex virt)

/-- The common part of `unmap_page` and `update_flags`, which differ in the new entry. -/
def replaceEntry (s : Vmm) (virt : Nat) (f : Word → Word) : KernelResult Nat × Vmm :=
  if virt % pageSize ≠ 0 then (.error .invalidArgument, s)
  else match s.findTable virt with
    | none => (.error .pageNotMapped, s)
    | some pt =>
      if isPresent s.mem pt (ptIndex virt) then
        let old := getEntry s.mem pt (ptIndex virt)
        (.ok (frameOf old), s.writeEntry pt (ptIndex virt) (f old))
      else (.error .pageNotMapped, s)

def unmapPage (s : Vmm) (virt : Nat) : KernelResult Nat × Vmm := s.replaceEntry virt fun _ => 0

def updateFlags (s : Vmm) (virt : Nat) (flags : PageFlags) : KernelResult Unit × Vmm :=
  andThen (s.replaceEntry virt fun old => old &&& addrMask ||| flags.bits) fun _ s => (.ok (), s)

def checkHugePage (m : Memory) (table : Nat) (i : Index) (virt shift : Nat) : Option Nat :=
  let entry := getEntry m table i
  if entry &&& hugePageBit ≠ 0 ∧ entry &&& presentBit ≠ 0 then
    some (frameOf entry + (virt &&& (2 ^ shift - 1)))
  else none

def translate (s : Vmm) (virt : Nat) : Option Nat := do
  let pdpt ← getNextTableAddr s.mem s.pml4Addr (pml4Index virt)
  match checkHugePage s.mem pdpt (pdptIndex virt) virt 30 with
  | some phys => return phys
  | none =>
    let pd ← getNextTableAddr s.mem pdpt (pdptIndex virt)
    match checkHugePage s.mem pd (pdIndex virt) virt 21 with
    | some phys => return phys
    | none =>
      let pt ← getNextTableAddr s.mem pd (pdIndex virt)
      if isPresent s.mem pt (ptIndex virt) then
        return frameOf (getEntry s.mem pt (ptIndex virt)) + (virt &&& 0xFFF)
      else none

/-- The loop of `identity_map`, cut off after `fuel` rounds. -/
def identityMapLoop (flags : PageFlags) (stop : Nat) :
    Nat → Vmm → Nat → Option (KernelResult Unit × Vmm)
  | 0, _, _ => none
  | fuel + 1, s, addr =>
    if addr < stop then
      match s.mapPage addr addr flags with
      | (.ok (), s) => identityMapLoop flags stop fuel s ((addr + pageSize) % usizeRange)
      | (.error e, s) => some (.error e, s)
    else some (.ok (), s)

/-- There are `2 ^ 52` pages, so that a loop that does not wrap around ends in time. -/
def identityMap (s : Vmm) (start stop : Nat) (flags : PageFlags) :
    Option (KernelResult Unit × Vmm) :=
  identityMapLoop flags stop (2 ^ 52 + 1) s (alignDown start pageSize)

end Vmm

end DeltaOS.Paging
