import DeltaOS.HeapIsolation
import DeltaOS.Paging
import DeltaOS.PhysMemory
import DeltaOS.Tasks

namespace DeltaOS.MemoryMap

open ByteMemory Kernel Overflow Ranges Runs FirstFit Tasks Paging PhysMemory HeapIsolation

/-- The allocators of the kernel, all on one memory, and the ranges they have handed out. -/
structure Machine where
  pmm : Pmm
  tasks : Statics
  vmm : Vmm
  heap : Heap.State
  pmmPages : List Range
  taskStacks : List Range
  pageTables : List Range

def Machine.store (m : Machine) (mem : Memory) : Machine :=
  { m with
    pmm := { m.pmm with mem := mem }
    tasks := { m.tasks with mem := mem }
    vmm := { m.vmm with mem := mem }
    heap := { m.heap with heap := { m.heap.heap with mem := mem } } }

/-- The arguments of the `reserve_range` calls of `kernel_main`, for a kernel that ends at `kend`. -/
def reservedRanges (kend : Word) : List Range :=
  [⟨kernelBase, max (kend.toNat - kernelBase) (pmmBitmapBase - kernelBase)⟩,
    ⟨pmmBitmapBase, pmmBitmapSize⟩, ⟨vmmPagesBase, vmmPagesSize⟩, ⟨heapBase, heapSize⟩,
    ⟨taskStacksBase, 0x400000⟩]

def reserveAll (p : Pmm) (rs : List Range) : Pmm := rs.foldl (fun p r => p.reserveRange r.base r.len) p

def bootPmm (mem : Memory) (kend : Word) : Pmm :=
  reserveAll (.new mem kernelBase (64 * 1024 * 1024 * 1024)) (reservedRanges kend)

def startAllocators (pmm : Pmm) (pml4Addr : Nat) : Option Machine :=
  (Heap.start .release pmm.mem heapBase heapSize).map fun heap =>
    Machine.store ⟨pmm, { mem := pmm.mem }, ⟨pml4Addr, vmmPagesBase, pmm.mem⟩, heap, [], [], []⟩
      heap.heap.mem

/-- The memory phase of `kernel_main`. -/
def boot (mem : Memory) (kend : Word) (pml4Addr : Nat) : Option Machine :=
  startAllocators (bootPmm mem kend) pml4Addr

inductive Op
  | allocPage
  | allocPages (count : Nat)
  | allocStack
  | allocPageTable
  | heap (op : Heap.Op)

def handOut (r : KernelResult Nat) (len : Nat) (rs : List Range) : List Range :=
  match r with
  | .ok addr => ⟨addr, len⟩ :: rs
  | .error _ => rs

def Machine.takePages (m : Machine) (r : KernelResult Nat × Pmm) (count : Nat) : Machine :=
  { m with pmm := r.2, pmmPages := handOut r.1 (count * pageSize) m.pmmPages }.store r.2.mem

def Machine.takeStack (m : Machine) (r : Nat × Statics) : Machine :=
  let stack : Range := ⟨r.1 - taskStackSize, taskStackSize⟩
  { m with
    tasks := r.2
    taskStacks := if r.1 = 0 then m.taskStacks else stack :: m.taskStacks }.store r.2.mem

def Machine.takeTable (m : Machine) (r : KernelResult Nat × Vmm) : Machine :=
  { m with vmm := r.2, pageTables := handOut r.1 pageSize m.pageTables }.store r.2.mem

/-- One call of an allocator, where `none` is a panic. -/
def step : Option Machine → Op → Option Machine
  | none, _ => none
  | some m, .allocPage => some (m.takePages m.pmm.allocPage 1)
  | some m, .allocPages count => some (m.takePages (m.pmm.allocPages count) count)
  | some m, .allocStack => some (m.takeStack (allocStack m.tasks taskStackSize))
  | some m, .allocPageTable => some (m.takeTable m.vmm.allocPageTable)
  | some m, .heap op =>
    (Heap.step .release (some m.heap) op).map fun s => { m with heap := s }.store s.heap.mem

/-- The contract of `GlobalAlloc`; the other allocators ask nothing of their callers. -/
def Obeys (o : Option Machine) : Op → Prop
  | .heap op => Heap.Obeys (o.map Machine.heap) op
  | _ => True

def regions (m : Machine) : List Range :=
  ⟨bitmapBase, bitmapSize⟩ :: ⟨heapBase, heapSize⟩ :: (m.pageTables ++ m.taskStacks)

structure Isolated (m : Machine) : Prop where
  apart : (regions m).Pairwise Range.Apart
  pages : ∀ r ∈ m.pmmPages, ∀ q ∈ regions m, r.Apart q
  heap : ∀ a ∈ m.heap.live, Range.Within ⟨a.1, a.2.size⟩ heapBase (heapBase + heapSize)

/-- The first page that `kernel_main` leaves to the PMM. -/
def firstPage (kend : Word) : Nat :=
  (max kend.toNat (taskStacksBase + 0x400000) - kernelBase + pageSize - 1) / pageSize

def firstAddr (kend : Word) : Nat := kernelBase + firstPage kend * pageSize

def CanServe (kend : Word) (p : Pmm) (count : Nat) : Prop :=
  0 < count ∧ count ≤ p.freePageCount ∧ firstPage kend + count ≤ p.totalPages

/-- A stack may reach beyond the first page of the PMM only while no page is handed out,
and a page may be handed out only while no stack reaches there. -/
def Clear (kend : Word) (m : Machine) : Op → Prop
  | .allocPage => m.tasks.nextStack ≤ firstAddr kend ∨ ¬CanServe kend m.pmm 1
  | .allocPages count => m.tasks.nextStack ≤ firstAddr kend ∨ ¬CanServe kend m.pmm count
  | .allocStack => m.pmmPages = [] ∨ m.tasks.nextStack + taskStackSize ≤ firstAddr kend ∨
    stackRegionEnd < m.tasks.nextStack + taskStackSize
  | _ => True

end DeltaOS.MemoryMap
