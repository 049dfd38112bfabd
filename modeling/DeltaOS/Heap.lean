import DeltaOS.ByteMemory
import DeltaOS.Overflow

namespace DeltaOS.Heap

open ByteMemory Overflow

def slabMinSize : Nat := 8
def slabMaxSize : Nat := 4096
def slabClasses : Nat := 10
def maxBlocksPerClass : Nat := 1024

/-- A valid layout: the alignment is a power of two, and the size rounded up to it fits an
`isize`. -/
structure Layout where
  size : Nat
  align : Nat
  align_pow : ∃ k, align = 2 ^ k
  size_le : size + align ≤ 2 ^ 63
deriving DecidableEq

def Layout.alignedSize (l : Layout) : Nat := if l.size < l.align then l.align else l.size

/-- `freeList` is the part of `free_list` below `free_count`, the last entry first. -/
structure SlabClass where
  blockSize : Nat
  freeList : List Nat
  totalCount : Nat
  nextPage : Nat

def SlabClass.freeCount (slab : SlabClass) : Nat := slab.freeList.length

def SlabClass.new (blockSize : Nat) : SlabClass := ⟨blockSize, [], 0, 0⟩

def SlabClass.pop (slab : SlabClass) : Option (Nat × SlabClass) :=
  match slab.freeList with
  | [] => none
  | ptr :: rest => some (ptr, { slab with freeList := rest })

/-- A write to `free_list[free_count]`, which panics outside of the array. -/
def SlabClass.push (slab : SlabClass) (addr : Nat) : Option SlabClass :=
  if slab.freeCount < maxBlocksPerClass then some { slab with freeList := addr :: slab.freeList }
  else none

/-- The loops of `init` and `alloc_from_slab` that cut a page into blocks. -/
def SlabClass.addBlock (profile : Profile) (page : Nat) (slab : SlabClass) (j : Nat) :
    Option SlabClass := do
  let addr ← add profile page (j * slab.blockSize)
  let slab ← slab.push addr
  return { slab with totalCount := slab.totalCount + 1 }

def SlabClass.addBlocks (profile : Profile) (slab : SlabClass) (page n : Nat) : Option SlabClass :=
  (List.range n).foldlM (SlabClass.addBlock profile page) slab

/-- The statics `KERNEL_HEAP` and `HEAP_INITIALIZED`, and the memory the heap lives in. -/
structure SlabAllocator where
  heapStart : Nat
  heapSize : Nat
  bumpOffset : Nat
  slabs : Fin slabClasses → SlabClass
  initialized : Bool
  mem : Memory

namespace SlabAllocator

def new (mem : Memory) : SlabAllocator where
  heapStart := 0
  heapSize := 0
  bumpOffset := 0
  slabs := fun i => SlabClass.new (slabMinSize <<< i.val)
  initialized := false
  mem := mem

@[simps] def setSlab (h : SlabAllocator) (i : Fin slabClasses) (slab : SlabClass) : SlabAllocator :=
  { h with slabs := Function.update h.slabs i slab }

@[simp] theorem setSlab_setSlab (h : SlabAllocator) (i : Fin slabClasses) (slab slab' : SlabClass) :
    (h.setSlab i slab).setSlab i slab' = h.setSlab i slab' := by
  simp [setSlab]

def initClass (profile : Profile) (start : Nat) (s : SlabAllocator × Nat) (i : Fin slabClasses) :
    Option (SlabAllocator × Nat) := do
  let pageAddr ← add profile start s.2
  let slab := { s.1.slabs i with nextPage := pageAddr, freeList := [], totalCount := 0 }
  let blocksPerPage := 4096 / slab.blockSize
  let slab ← slab.addBlocks profile pageAddr (min blocksPerPage maxBlocksPerClass)
  let offset ← add profile s.2 4096
  return ({ s.1 with mem := fill s.1.mem pageAddr 0 4096 }.setSlab i slab, offset)

def init (profile : Profile) (h : SlabAllocator) (start size : Nat) : Option SlabAllocator :=
  if h.initialized then some h
  else do
    let h := { h with heapStart := start, heapSize := size, bumpOffset := 0 }
    let s ← (List.finRange slabClasses).foldlM (initClass profile start) (h, 0)
    return { s.1 with bumpOffset := s.2, initialized := true }

def findSlabClass (size : Nat) : Option (Fin slabClasses) :=
  if size > slabMaxSize ∨ size = 0 then none
  else (List.finRange slabClasses).find? fun i => size ≤ slabMinSize <<< i.val

/-- The null pointer is address zero. -/
def allocFromSlab (profile : Profile) (h : SlabAllocator) (i : Fin slabClasses) :
    Option (Nat × SlabAllocator) :=
  match (h.slabs i).pop with
  | some (ptr, slab) => some (ptr, h.setSlab i slab)
  | none => do
    let bumpOffset ← add profile h.bumpOffset 4096
    if bumpOffset > h.heapSize then return (0, h)
    let newPage ← add profile h.heapStart h.bumpOffset
    let blocksPerPage := 4096 / (h.slabs i).blockSize
    let room ← sub profile maxBlocksPerClass (h.slabs i).totalCount
    let slab ← (h.slabs i).addBlocks profile newPage (min blocksPerPage room)
    let h := { h with bumpOffset := bumpOffset, mem := fill h.mem newPage 0 4096 }
    match slab.pop with
    | some (ptr, slab) => return (ptr, h.setSlab i slab)
    | none => return (0, h.setSlab i slab)

def allocBump (profile : Profile) (h : SlabAllocator) (size align : Nat) :
    Option (Nat × SlabAllocator) := do
  let top ← add profile h.bumpOffset align
  let top ← sub profile top 1
  let alignedOffset := alignDown top align
  let newOffset ← add profile alignedOffset size
  if newOffset > h.heapSize then return (0, h)
  let ptr ← add profile h.heapStart alignedOffset
  return (ptr, { h with bumpOffset := newOffset })

def freeToSlab (h : SlabAllocator) (ptr : Nat) (i : Fin slabClasses) : SlabAllocator :=
  match (h.slabs i).push ptr with
  | some slab => h.setSlab i slab
  | none => h

def alloc (profile : Profile) (h : SlabAllocator) (l : Layout) : Option (Nat × SlabAllocator) :=
  match findSlabClass l.alignedSize with
  | some i =>
    if (h.slabs i).blockSize ≥ l.align then h.allocFromSlab profile i
    else h.allocBump profile l.alignedSize l.align
  | none => h.allocBump profile l.alignedSize l.align

def dealloc (h : SlabAllocator) (ptr : Nat) (l : Layout) : SlabAllocator :=
  match findSlabClass l.alignedSize with
  | some i => h.freeToSlab ptr i
  | none => h

end SlabAllocator

structure HeapStats where
  heapStart : Nat
  heapSize : Nat
  bumpUsed : Nat
  slabUsed : List Nat
  slabFree : List Nat
  slabBlockSize : List Nat
deriving DecidableEq

def heapStats (profile : Profile) (h : SlabAllocator) : Option HeapStats := do
  let slabUsed ← (List.finRange slabClasses).mapM fun i => sub profile (h.slabs i).totalCount
    (h.slabs i).freeCount
  return {
    heapStart := h.heapStart
    heapSize := h.heapSize
    bumpUsed := h.bumpOffset
    slabUsed := slabUsed
    slabFree := (List.finRange slabClasses).map fun i => (h.slabs i).freeCount
    slabBlockSize := (List.finRange slabClasses).map fun i => (h.slabs i).blockSize }

inductive Op
  | alloc (l : Layout)
  | dealloc (ptr : Nat) (l : Layout)

structure State where
  heap : SlabAllocator
  live : List (Nat × Layout)

/-- One call, where `none` is a panic. -/
def step (profile : Profile) : Option State → Op → Option State
  | none, _ => none
  | some s, .alloc l =>
    (s.heap.alloc profile l).map fun r => ⟨r.2, if r.1 = 0 then s.live else (r.1, l) :: s.live⟩
  | some s, .dealloc ptr l => some ⟨s.heap.dealloc ptr l, s.live.erase (ptr, l)⟩

def start (profile : Profile) (mem : Memory) (base size : Nat) : Option State :=
  ((SlabAllocator.new mem).init profile base size).map fun h => ⟨h, []⟩

/-- The contract of `GlobalAlloc`. -/
def Obeys : Option State → Op → Prop
  | some _, .alloc l => 0 < l.size
  | some s, .dealloc ptr l => (ptr, l) ∈ s.live
  | none, _ => True

instance (o : Option State) (op : Op) : Decidable (Obeys o op) :=
  match o, op with
  | some _, .alloc l => inferInstanceAs (Decidable (0 < l.size))
  | some s, .dealloc ptr l => inferInstanceAs (Decidable ((ptr, l) ∈ s.live))
  | none, _ => isTrue trivial

end DeltaOS.Heap
