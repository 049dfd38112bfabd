import DeltaOS.MemoryMap

namespace DeltaOS.MemoryIsolation

open ByteMemory Kernel Overflow Ranges Runs FirstFit Tasks Paging PhysMemory HeapIsolation MemoryMap

variable {kend : Word} {p p' : Pmm} {pages : List Range} {count : Nat}

theorem lt_firstPage_iff (kend : Word) (j : Nat) :
    j < firstPage kend ↔ kernelBase + j * pageSize < max kend.toNat (taskStacksBase + 0x400000) := by
  have hmax := le_max_right kend.toNat (taskStacksBase + 0x400000)
  have hpage : pageSize = 4096 := rfl
  have hbase : kernelBase = 0x100000 := rfl
  have hstacks : taskStacksBase = 0xA00000 := rfl
  rw [firstPage, hpage, hbase]
  omega

theorem firstPage_ge (kend : Word) : 0xD00 ≤ firstPage kend :=
  Nat.le_of_pred_lt ((lt_firstPage_iff kend 0xCFF).mpr (lt_max_of_lt_right (by decide)))

theorem firstAddr_ge (kend : Word) : taskStacksBase + 0x400000 ≤ firstAddr kend :=
  Nat.add_le_add_left (Nat.mul_le_mul_right pageSize (firstPage_ge kend)) kernelBase

theorem bitmap_le_firstAddr (kend : Word) : bitmapBase + bitmapSize ≤ firstAddr kend :=
  le_trans (by decide) (firstAddr_ge kend)

theorem sameRange_reserveAll (rs : List Range) (p : Pmm) : p.SameRange (reserveAll p rs) := by
  induction rs generalizing p with
  | nil => exact ⟨rfl, rfl, rfl⟩
  | cons r rs ih => exact (sameRange_reserveRange p r.base r.len).trans (ih _)

theorem getBit_reserveAll (rs : List Range) {j : Nat}
    (hpages : p.baseAddr + p.totalPages * pageSize ≤ p.endAddr)
    (htop : p.endAddr + pageSize ≤ usizeRange)
    (hrs : ∀ r ∈ rs, p.baseAddr ≤ r.base ∧ r.base + r.len < usizeRange) (hj : j < p.totalPages) :
    getBit (reserveAll p rs).mem j = (getBit p.mem j || decide (∃ r ∈ rs,
      r.base < p.baseAddr + (j + 1) * pageSize ∧ p.baseAddr + j * pageSize < r.base + r.len)) := by
  induction rs generalizing p with
  | nil => simp [reserveAll]
  | cons r rs ih =>
    obtain ⟨hr, hrest⟩ := List.forall_mem_cons.mp hrs
    obtain ⟨htotal, hbase, hend⟩ := sameRange_reserveRange p r.base r.len
    change getBit (reserveAll (p.reserveRange r.base r.len) rs).mem j = _
    rw [ih, getBit_reserveRange hpages htop hr.1 hr.2 hj, hbase, Bool.or_assoc, ← Bool.decide_or]
    · congr 2
      simp only [List.exists_mem_cons_iff]
    · rwa [htotal, hbase, hend]
    · rwa [hend]
    · rwa [hbase]
    · rwa [htotal]

theorem reservedRanges_fit (kend : Word) :
    ∀ r ∈ reservedRanges kend, kernelBase ≤ r.base ∧ r.base + r.len < usizeRange := by
  have hkend : kend.toNat < usizeRange := kend.isLt
  have hbase : pmmBitmapBase < usizeRange := by decide
  have hle : kernelBase ≤ pmmBitmapBase := by decide
  simp only [reservedRanges, List.forall_mem_cons]
  refine ⟨⟨le_rfl, ?_⟩, by decide, by decide, by decide, by decide, by simp⟩
  omega

theorem reservedRanges_cover (kend : Word) (j : Nat) : (∃ r ∈ reservedRanges kend,
    r.base < kernelBase + (j + 1) * pageSize ∧ kernelBase + j * pageSize < r.base + r.len) ↔
      j < firstPage kend := by
  rw [lt_firstPage_iff]
  simp only [reservedRanges, List.exists_mem_cons_iff, List.not_mem_nil, false_and, exists_false,
    or_false]
  simp only [kernelBase, pmmBitmapBase, pmmBitmapSize, vmmPagesBase, vmmPagesSize, heapBase, heapSize,
    taskStacksBase, pageSize]
  omega

theorem bootPmm_range (mem : Memory) (kend : Word) :
    (bootPmm mem kend).totalPages = maxPages ∧ (bootPmm mem kend).baseAddr = kernelBase := by
  obtain ⟨htotal, hbase, -⟩ := sameRange_new mem kernelBase (64 * 1024 * 1024 * 1024)
  have hsame := sameRange_reserveAll (reservedRanges kend)
    (Pmm.new mem kernelBase (64 * 1024 * 1024 * 1024))
  exact ⟨hsame.totalPages.trans htotal, hsame.baseAddr.trans hbase⟩

theorem getBit_bootPmm (mem : Memory) (kend : Word) {j : Nat} (hj : j < maxPages) :
    getBit (bootPmm mem kend).mem j = decide (j < firstPage kend) := by
  obtain ⟨htotal, hbase, hend⟩ := sameRange_new mem kernelBase (64 * 1024 * 1024 * 1024)
  have hnew : getBit (Pmm.new mem kernelBase (64 * 1024 * 1024 * 1024)).mem j =
      decide ((bitmapBase - kernelBase) / pageSize ≤ j ∧
        j < (bitmapBase - kernelBase) / pageSize + bitmapSize / pageSize) :=
    getBit_new mem (by decide) hj (by decide)
  rw [bootPmm, getBit_reserveAll, hnew, hbase, ← Bool.decide_or]
  · rw [decide_eq_decide, reservedRanges_cover, or_iff_right_iff_imp]
    intro hbitmap
    exact hbitmap.2.trans_le (le_trans (by decide) (firstPage_ge kend))
  · rw [htotal, hbase, hend]
    decide
  · rw [hend]
    decide
  · rw [hbase]
    exact reservedRanges_fit kend
  · exact htotal ▸ hj

/-- The PMM after some allocations: its pages start at the first page it was left, and with
the lowest window always the next one, that page is the first to go. -/
structure PagesAbove (kend : Word) (p : Pmm) (pages : List Range) : Prop where
  total : p.totalPages = maxPages
  base : p.baseAddr = kernelBase
  reserved : ∀ j < firstPage kend, getBit p.mem j = true
  untouched : pages = [] → ∀ j, firstPage kend ≤ j → j < maxPages → getBit p.mem j = false
  above : ∀ r ∈ pages, firstAddr kend ≤ r.base
  first : pages ≠ [] → ∃ r ∈ pages, r.base = firstAddr kend ∧ 0 < r.len

theorem pagesAbove_boot (mem : Memory) (kend : Word) : PagesAbove kend (bootPmm mem kend) [] := by
  obtain ⟨htotal, hbase⟩ := bootPmm_range mem kend
  refine ⟨htotal, hbase, fun j hj => ?_, fun _ j hl hu => ?_, by simp, by simp⟩
  · obtain hlt | hge := lt_or_ge j maxPages
    · rw [getBit_bootPmm mem kend hlt, decide_eq_true hj]
    · exact getBit_beyond _ hge
  · rw [getBit_bootPmm mem kend hu, decide_eq_false (not_lt.mpr hl)]

theorem PagesAbove.store (h : PagesAbove kend p pages) {mem : Memory}
    (hmem : ∀ a, bitmapBase ≤ a → a < bitmapBase + bitmapSize → mem a = p.mem a) :
    PagesAbove kend { p with mem := mem } pages := by
  have hbit : ∀ j, getBit mem j = getBit p.mem j := getBit_congr hmem
  refine ⟨h.total, h.base, fun j hj => ?_, fun hnil j hl hu => ?_, h.above, h.first⟩
  · rw [hbit, h.reserved j hj]
  · rw [hbit, h.untouched hnil j hl hu]

section Allocates

variable {start : Nat} {r : KernelResult Nat × Pmm}

theorem PagesAbove.start_ge (h : PagesAbove kend p pages) (hcount : 0 < count)
    (hfits : Fits (getBit p.mem) count p.totalPages (some start)) :
    firstPage kend ≤ start ∧ firstPage kend + count ≤ p.totalPages := by
  have hle : firstPage kend ≤ start := hfits.le hcount h.reserved
  exact ⟨hle, (Nat.add_le_add_right hle count).trans hfits.2.1⟩

theorem PagesAbove.start_eq (h : PagesAbove kend p []) (hcount : 0 < count)
    (hfits : Fits (getBit p.mem) count p.totalPages (some start)) : start = firstPage kend := by
  have hroom := (h.start_ge hcount hfits).2
  exact Option.some.inj (hfits.eq_some hcount h.reserved (h.total ▸ h.untouched rfl) hroom)

theorem PagesAbove.addr_lt (h : PagesAbove kend p pages)
    (hfits : Fits (getBit p.mem) count p.totalPages (some start)) :
    p.baseAddr + start * pageSize < usizeRange := by
  have hroom : start + count ≤ maxPages := h.total ▸ hfits.2.1
  have hmul : start * pageSize ≤ maxPages * pageSize := Nat.mul_le_mul_right _ (by omega)
  exact (Nat.add_le_add h.base.le hmul).trans_lt (by decide)

theorem PagesAbove.take_addr (h : PagesAbove kend p pages)
    (hfits : Fits (getBit p.mem) count p.totalPages (some start)) :
    (p.take start count).1 = .ok (kernelBase + start * pageSize) := by
  have hlt := h.addr_lt hfits
  rw [h.base] at hlt
  simp only [Pmm.take, h.base, Nat.mod_eq_of_lt hlt]

theorem PagesAbove.allocates (h : PagesAbove kend p pages) (hr : p.Allocates count r) :
    PagesAbove kend r.2 (handOut r.1 (count * pageSize) pages) := by
  cases hr with
  | refused => exact h
  | @taken start hcount hfree hfits =>
    have hle := Nat.mul_le_mul_right pageSize (h.start_ge hcount hfits).1
    have hge : firstAddr kend ≤ kernelBase + start * pageSize := Nat.add_le_add_left hle kernelBase
    have hbit := getBit_take count (h.addr_lt hfits)
      (.inr ((bitmap_le_firstAddr kend).trans (hge.trans_eq (h.base ▸ rfl))))
    rw [h.take_addr hfits, handOut]
    refine ⟨h.total, h.base, fun j hj => ?_, by simp, ?_, fun _ => ?_⟩
    · rw [hbit, h.reserved j hj, Bool.true_or]
    · exact List.forall_mem_cons.mpr ⟨hge, h.above⟩
    · cases pages with
      | nil =>
        refine ⟨_, List.mem_cons_self, ?_, Nat.mul_pos hcount (by decide)⟩
        rw [h.start_eq hcount hfits, firstAddr]
      | cons q rest =>
        obtain ⟨r, hr, hbase⟩ := h.first (List.cons_ne_nil q rest)
        exact ⟨r, List.mem_cons_of_mem _ hr, hbase⟩

theorem PagesAbove.refused (h : PagesAbove kend p pages) (hr : p.Allocates count r)
    (hno : ¬CanServe kend p count) : r = (.error .outOfMemory, p) := by
  cases hr with
  | refused => rfl
  | taken hcount hfree hfits => exact absurd ⟨hcount, hfree, (h.start_ge hcount hfits).2⟩ hno

theorem PagesAbove.served (h : PagesAbove kend p []) (hr : p.Allocates count r)
    (hserve : CanServe kend p count) : r.1 = .ok (firstAddr kend) := by
  obtain ⟨hcount, hfree, hroom⟩ := hserve
  cases hr with
  | refused hwhy =>
    have hwindow : Window (getBit p.mem) (firstPage kend) count :=
      fun j hl hu => h.untouched rfl j hl (h.total ▸ hu.trans_le hroom)
    obtain hfew | hzero | hnone := hwhy
    · omega
    · omega
    · exact absurd hwindow (hnone _ hroom)
  | taken _ _ hfits => rw [h.take_addr hfits, h.start_eq hcount hfits, firstAddr]

end Allocates

structure StacksTiled (g : Statics) (rs : List Range) : Prop where
  base_le : taskStacksBase ≤ g.nextStack
  packed : Packed taskStacksBase g.nextStack rs
  covered : ∀ a, taskStacksBase ≤ a → a < g.nextStack → ∃ r ∈ rs, r.base ≤ a ∧ a < r.base + r.len

structure TablesPacked (s : Vmm) (rs : List Range) : Prop where
  base_le : vmmPagesBase ≤ s.nextPageAddr
  next_le : s.nextPageAddr ≤ vmmPagesEnd
  packed : Packed vmmPagesBase s.nextPageAddr rs

variable {g : Statics} {v : Vmm} {rs : List Range}

theorem StacksTiled.push (h : StacksTiled g rs) (size : Nat) (mem : Memory) :
    StacksTiled { g with nextStack := g.nextStack + size, mem := mem } (⟨g.nextStack, size⟩ :: rs) := by
  refine ⟨h.base_le.trans (Nat.le_add_right _ _), h.packed.push h.base_le, fun a hl hu => ?_⟩
  obtain hlt | hge := lt_or_ge a g.nextStack
  · obtain ⟨r, hr, hin⟩ := h.covered a hl hlt
    exact ⟨r, List.mem_cons_of_mem _ hr, hin⟩
  · exact ⟨_, List.mem_cons_self, hge, hu⟩

theorem TablesPacked.allocPageTable (h : TablesPacked v rs) :
    TablesPacked v.allocPageTable.2 (handOut v.allocPageTable.1 pageSize rs) ∧
      ∀ a < vmmPagesBase, v.allocPageTable.2.mem a = v.mem a := by
  rw [Vmm.allocPageTable]
  split_ifs with hfull
  · exact ⟨h, fun _ _ => rfl⟩
  · refine ⟨⟨h.base_le.trans (Nat.le_add_right _ _), not_lt.mp hfull, h.packed.push h.base_le⟩, ?_⟩
    intro a ha
    exact fill_apply_of_outside (.inl (ha.trans_le h.base_le))

variable {m : Machine}

/-- The reachable states of the allocators, as long as stacks and pages keep clear of each other. -/
structure Inv (kend : Word) (m : Machine) : Prop where
  above : PagesAbove kend m.pmm m.pmmPages
  tiled : StacksTiled m.tasks m.taskStacks
  tables : TablesPacked m.vmm m.pageTables
  heap : Sound heapBase heapSize m.heap
  tasks_mem : m.tasks.mem = m.pmm.mem
  vmm_mem : m.vmm.mem = m.pmm.mem
  heap_mem : m.heap.heap.mem = m.pmm.mem
  clear : m.pmmPages = [] ∨ m.tasks.nextStack ≤ firstAddr kend

theorem inv_store {mem : Memory} (habove : PagesAbove kend m.pmm m.pmmPages)
    (htiled : StacksTiled m.tasks m.taskStacks) (htables : TablesPacked m.vmm m.pageTables)
    (hheap : Sound heapBase heapSize m.heap)
    (hmem : ∀ a, bitmapBase ≤ a → a < bitmapBase + bitmapSize → mem a = m.pmm.mem a)
    (hclear : m.pmmPages = [] ∨ m.tasks.nextStack ≤ firstAddr kend) : Inv kend (m.store mem) where
  above := habove.store hmem
  tiled := ⟨htiled.base_le, htiled.packed, htiled.covered⟩
  tables := ⟨htables.base_le, htables.next_le, htables.packed⟩
  heap := ⟨hheap.heapStart, hheap.heapSize, hheap.bump_le,
    ⟨hheap.carved.blockSize, hheap.carved.total, hheap.carved.packed⟩⟩
  tasks_mem := rfl
  vmm_mem := rfl
  heap_mem := rfl
  clear := hclear

theorem bitmap_outside_heap {a : Nat} (h : a < bitmapBase + bitmapSize) :
    a < heapBase ∨ heapBase + heapSize ≤ a := .inl (h.trans_le (by decide))

theorem startAllocators_inv (hp : PagesAbove kend p []) (pml4Addr : Nat) :
    ∃ m, startAllocators p pml4Addr = some m ∧ Inv kend m ∧ m.pmmPages = [] ∧
      m.tasks.nextStack = taskStacksBase ∧ m.pmm.freePageCount = p.freePageCount := by
  obtain ⟨s, hstart, hsound, hmem⟩ := start_debug p.mem
    (show 10 * 4096 ≤ heapSize by decide) (show heapBase + heapSize ≤ usizeRange by decide)
  refine ⟨_, by rw [startAllocators, HeapProfiles.start_release hstart,
    Option.map_some], ?_, rfl, rfl, rfl⟩
  apply inv_store
  · exact hp
  · exact ⟨le_rfl, packed_nil _ _, fun a hl hu => absurd hl (not_le.mpr hu)⟩
  · exact ⟨le_rfl, (by decide : vmmPagesBase ≤ vmmPagesEnd), packed_nil _ _⟩
  · exact hsound
  · intro a _ hu
    exact hmem a (bitmap_outside_heap hu)
  · exact .inl rfl

theorem Inv.packed (h : Inv kend m) : Packed bitmapBase m.tasks.nextStack (regions m) := by
  have hbitmap : Packed bitmapBase vmmPagesBase [⟨bitmapBase, bitmapSize⟩] :=
    packed_singleton ⟨le_rfl, by decide⟩
  have htables : Packed vmmPagesBase heapBase m.pageTables := h.tables.packed.mono h.tables.next_le
  have hheap : Packed heapBase taskStacksBase [⟨heapBase, heapSize⟩] :=
    packed_singleton ⟨le_rfl, by decide⟩
  have hlow := (hbitmap.append htables (by decide) (by decide)).append hheap (by decide) (by decide)
  have hall := hlow.append h.tiled.packed (by decide) h.tiled.base_le
  refine hall.perm ?_
  rw [regions, ← List.cons_append, ← List.cons_append]
  refine List.Perm.append_right m.taskStacks ?_
  exact (List.perm_append_singleton _ _).symm.cons _

theorem Inv.isolated (h : Inv kend m) : Isolated m := by
  refine ⟨h.packed.apart, fun r hr q hq => ?_, h.heap.isolated.within⟩
  have hclear : m.tasks.nextStack ≤ firstAddr kend :=
    h.clear.resolve_left (List.ne_nil_of_mem hr)
  exact .inr (((h.packed.within q hq).2.trans hclear).trans (h.above.above r hr))

theorem Inv.takePages (h : Inv kend m) {r : KernelResult Nat × Pmm} (hr : m.pmm.Allocates count r)
    (hclear : m.tasks.nextStack ≤ firstAddr kend ∨ ¬CanServe kend m.pmm count) :
    Inv kend (m.takePages r count) := by
  refine inv_store (h.above.allocates hr) h.tiled h.tables h.heap (fun _ _ _ => rfl) ?_
  obtain hlow | hno := hclear
  · exact .inr hlow
  · rw [h.above.refused hr hno]
    exact h.clear

def withStack (m : Machine) : Machine :=
  let mem := fill m.tasks.mem m.tasks.nextStack 0 taskStackSize
  { m with
    tasks := { m.tasks with nextStack := m.tasks.nextStack + taskStackSize, mem := mem }
    taskStacks := ⟨m.tasks.nextStack, taskStackSize⟩ :: m.taskStacks }.store mem

theorem takeStack_served (h : m.tasks.nextStack + taskStackSize ≤ stackRegionEnd) :
    m.takeStack (allocStack m.tasks taskStackSize) = withStack m := by
  have hne : m.tasks.nextStack + taskStackSize ≠ 0 := Nat.ne_of_gt (Nat.add_pos_right _ (by decide))
  simp only [Machine.takeStack, allocStack_served h, if_neg hne, Nat.add_sub_cancel, withStack]

theorem Inv.withStack (h : Inv kend m)
    (hclear : m.pmmPages = [] ∨ m.tasks.nextStack + taskStackSize ≤ firstAddr kend) :
    Inv kend (withStack m) := by
  refine inv_store h.above (h.tiled.push taskStackSize _) h.tables h.heap (fun a _ hu => ?_) hclear
  have hlt : a < m.tasks.nextStack := (hu.trans_le (by decide)).trans_le h.tiled.base_le
  rw [fill_apply_of_outside (.inl hlt), h.tasks_mem]

theorem Inv.takeStack (h : Inv kend m) (hclear : Clear kend m .allocStack) :
    Inv kend (m.takeStack (allocStack m.tasks taskStackSize)) := by
  obtain hfull | hroom := lt_or_ge stackRegionEnd (m.tasks.nextStack + taskStackSize)
  · rw [allocStack_refused hfull]
    exact inv_store h.above h.tiled h.tables h.heap (fun a _ _ => by rw [h.tasks_mem]) h.clear
  · rw [takeStack_served hroom]
    obtain hnil | hlow | hfull := hclear
    · exact h.withStack (.inl hnil)
    · exact h.withStack (.inr hlow)
    · exact absurd hroom (not_le.mpr hfull)

theorem Inv.takeTable (h : Inv kend m) : Inv kend (m.takeTable m.vmm.allocPageTable) := by
  obtain ⟨htables, hmem⟩ := h.tables.allocPageTable
  rw [Machine.takeTable]
  generalize m.vmm.allocPageTable = r at htables hmem
  refine inv_store h.above h.tiled htables h.heap (fun a _ hu => ?_) h.clear
  rw [hmem a (hu.trans_le (by decide)), h.vmm_mem]

theorem Inv.heapStep (h : Inv kend m) {op : Heap.Op} (hop : Heap.Obeys (some m.heap) op) :
    ∃ m', step (some m) (.heap op) = some m' ∧ Inv kend m' := by
  obtain ⟨s, hrun, hsound, hk⟩ := step_debug h.heap (show heapSize ≤ 2 ^ 63 by decide)
    (show heapBase + heapSize ≤ usizeRange by decide) op hop
  refine ⟨_, by rw [step, HeapProfiles.step_release hrun, Option.map_some], ?_⟩
  refine inv_store h.above h.tiled h.tables hsound (fun a _ hu => ?_) h.clear
  rw [hk.outside a (by rw [h.heap.heapStart, h.heap.heapSize]; exact bitmap_outside_heap hu), h.heap_mem]

theorem Inv.step (h : Inv kend m) {op : Op} (hobeys : Obeys (some m) op) (hclear : Clear kend m op) :
    ∃ m', step (some m) op = some m' ∧ Inv kend m' := by
  cases op with
  | allocPage => exact ⟨_, rfl, h.takePages (allocPage_spec _) hclear⟩
  | allocPages count => exact ⟨_, rfl, h.takePages (allocPages_spec _ _) hclear⟩
  | allocStack => exact ⟨_, rfl, h.takeStack hclear⟩
  | allocPageTable => exact ⟨_, rfl, h.takeTable⟩
  | heap op => exact h.heapStep hobeys

theorem not_isolated {r q : Range} {a : Nat} (hr : r ∈ m.pmmPages) (hq : q ∈ m.taskStacks)
    (har : r.base ≤ a ∧ a < r.base + r.len) (haq : q.base ≤ a ∧ a < q.base + q.len) : ¬Isolated m := by
  intro h
  have hmem : q ∈ regions m :=
    List.mem_cons_of_mem _ (List.mem_cons_of_mem _ (List.mem_append_right _ hq))
  exact (h.pages r hr q hmem).not_mem har haq

theorem Inv.takePages_clear (h : Inv kend m) {r : KernelResult Nat × Pmm}
    (hr : m.pmm.Allocates count r) (hiso : Isolated (m.takePages r count)) :
    m.tasks.nextStack ≤ firstAddr kend ∨ ¬CanServe kend m.pmm count := by
  by_contra hbad
  obtain ⟨hbeyond, hserve⟩ : firstAddr kend < m.tasks.nextStack ∧ CanServe kend m.pmm count := by
    simpa [not_or] using hbad
  have hnil : m.pmmPages = [] := h.clear.resolve_right (not_le.mpr hbeyond)
  have hok := (hnil ▸ h.above).served hr hserve
  have hpage : ⟨firstAddr kend, count * pageSize⟩ ∈ (m.takePages r count).pmmPages := by
    change _ ∈ handOut r.1 (count * pageSize) m.pmmPages
    rw [hok]
    exact List.mem_cons_self
  have hge : taskStacksBase ≤ firstAddr kend := le_trans (by decide) (firstAddr_ge kend)
  obtain ⟨q, hq, hin⟩ := h.tiled.covered (firstAddr kend) hge hbeyond
  have hlen : 0 < count * pageSize := Nat.mul_pos hserve.1 (by decide)
  exact not_isolated hpage hq ⟨le_rfl, Nat.lt_add_of_pos_right hlen⟩ hin hiso

theorem Inv.takeStack_clear (h : Inv kend m)
    (hiso : Isolated (m.takeStack (allocStack m.tasks taskStackSize))) : Clear kend m .allocStack := by
  by_contra hbad
  obtain ⟨hne, hbeyond, hroom⟩ : m.pmmPages ≠ [] ∧
      firstAddr kend < m.tasks.nextStack + taskStackSize ∧
      m.tasks.nextStack + taskStackSize ≤ stackRegionEnd := by
    simpa [Clear, not_or] using hbad
  rw [takeStack_served hroom] at hiso
  obtain ⟨r, hr, hbase, hlen⟩ := h.above.first hne
  have hlow : m.tasks.nextStack ≤ firstAddr kend := h.clear.resolve_left hne
  have hpage : r ∈ (MemoryIsolation.withStack m).pmmPages := hr
  have hstack : ⟨m.tasks.nextStack, taskStackSize⟩ ∈ (MemoryIsolation.withStack m).taskStacks :=
    List.mem_cons_self
  exact not_isolated hpage hstack ⟨hbase.le, by omega⟩ ⟨hlow, hbeyond⟩ hiso

theorem Inv.clear_of_isolated (h : Inv kend m) {op : Op} {m' : Machine}
    (hrun : MemoryMap.step (some m) op = some m') (hiso : Isolated m') : Clear kend m op := by
  cases op with
  | allocPage =>
    cases hrun
    exact h.takePages_clear (allocPage_spec _) hiso
  | allocPages count =>
    cases hrun
    exact h.takePages_clear (allocPages_spec _ _) hiso
  | allocStack =>
    cases hrun
    exact h.takeStack_clear hiso
  | allocPageTable => trivial
  | heap op => trivial

/-- The allocators keep to their own memory exactly as long as the stacks and the pages of the
PMM keep clear of each other at every call. -/
theorem allocators_isolated_iff (mem : Memory) (kend : Word) (pml4Addr : Nat) (ops : List Op)
    (hobeys : Guarded step Obeys (boot mem kend pml4Addr) ops) :
    Always step (fun o => ∃ m, o = some m ∧ Isolated m) (boot mem kend pml4Addr) ops ↔
      Guarded step (fun o op => ∃ m, o = some m ∧ Clear kend m op) (boot mem kend pml4Addr) ops := by
  refine always_iff_guarded_of (I := fun o => ∃ m, o = some m ∧ Inv kend m) hobeys ?_ ?_ ?_ ?_
  · rintro _ ⟨m, rfl, h⟩
    exact ⟨m, rfl, h.isolated⟩
  · rintro _ op ⟨m, rfl, h⟩ hop ⟨_, ⟨⟩, hclear⟩
    exact h.step hop hclear
  · rintro _ op ⟨m, rfl, h⟩ - ⟨m', hrun, hiso⟩
    exact ⟨m, rfl, h.clear_of_isolated hrun hiso⟩
  · obtain ⟨m, hboot, h, -⟩ := startAllocators_inv (pagesAbove_boot mem kend) pml4Addr
    exact ⟨m, hboot, h⟩

def isStack : Op → Bool
  | .allocStack => true
  | _ => false

theorem takeTable_nextStack (m : Machine) (r : KernelResult Nat × Vmm) :
    (m.takeTable r).tasks.nextStack = m.tasks.nextStack := rfl

theorem step_nextStack {op : Op} {m' : Machine} (hrun : step (some m) op = some m') :
    m'.tasks.nextStack ≤ m.tasks.nextStack + [op].countP isStack * taskStackSize := by
  cases op with
  | allocPage =>
    cases hrun
    exact Nat.le_add_right _ _
  | allocPages count =>
    cases hrun
    exact Nat.le_add_right _ _
  | allocStack =>
    cases hrun
    obtain hfull | hroom := lt_or_ge stackRegionEnd (m.tasks.nextStack + taskStackSize)
    · rw [allocStack_refused hfull]
      exact Nat.le_add_right _ _
    · have hone : [Op.allocStack].countP isStack = 1 := rfl
      rw [takeStack_served hroom, hone, Nat.one_mul]
      exact le_rfl
  | allocPageTable =>
    cases hrun
    rw [takeTable_nextStack]
    exact Nat.le_add_right _ _
  | heap op =>
    obtain ⟨s, -, rfl⟩ := Option.map_eq_some_iff.mp hrun
    exact Nat.le_add_right _ _

theorem clear_of_low {op : Op}
    (hlow : m.tasks.nextStack + [op].countP isStack * taskStackSize ≤ firstAddr kend) :
    Clear kend m op := by
  have hnext : m.tasks.nextStack ≤ firstAddr kend := (Nat.le_add_right _ _).trans hlow
  cases op with
  | allocPage => exact .inl hnext
  | allocPages count => exact .inl hnext
  | allocStack => exact .inr (.inl (Nat.one_mul taskStackSize ▸ hlow))
  | allocPageTable => trivial
  | heap op => trivial

theorem guarded_of_low (h : Inv kend m) (ops : List Op) (hobeys : Guarded step Obeys (some m) ops)
    (hlow : m.tasks.nextStack + ops.countP isStack * taskStackSize ≤ firstAddr kend) :
    Guarded step (fun o op => ∃ m, o = some m ∧ Clear kend m op) (some m) ops := by
  induction ops generalizing m with
  | nil => trivial
  | cons op ops ih =>
    rw [← List.singleton_append, List.countP_append, Nat.add_mul, ← Nat.add_assoc] at hlow
    have hclear := clear_of_low ((Nat.le_add_right _ _).trans hlow)
    obtain ⟨m', hrun, h'⟩ := h.step hobeys.1 hclear
    have hobeys' := hobeys.2
    have hnext := step_nextStack hrun
    refine ⟨⟨m, rfl, hclear⟩, ?_⟩
    rw [hrun] at hobeys' ⊢
    exact ih h' hobeys' ((Nat.add_le_add_right hnext _).trans hlow)

theorem guarded_of_few_stacks (mem : Memory) (kend : Word) (pml4Addr : Nat) (ops : List Op)
    (hobeys : Guarded step Obeys (boot mem kend pml4Addr) ops) (hfew : ops.countP isStack ≤ 64) :
    Guarded step (fun o op => ∃ m, o = some m ∧ Clear kend m op) (boot mem kend pml4Addr) ops := by
  obtain ⟨m, hboot, h, -, hnext, -⟩ := startAllocators_inv (pagesAbove_boot mem kend) pml4Addr
  rw [boot, hboot] at hobeys ⊢
  refine guarded_of_low h ops hobeys ?_
  rw [hnext]
  exact (Nat.add_le_add_left (Nat.mul_le_mul_right _ hfew) _).trans (firstAddr_ge kend)

def oneOfEach : List Op :=
  [.allocPage, .allocStack, .allocPageTable, .heap (.alloc smallLayout), .allocPages 2]

theorem oneOfEach_obeys (o : Option Machine) : Guarded step Obeys o oneOfEach := by
  have halloc : ∀ o : Option Machine, Obeys o (.heap (.alloc smallLayout)) := by
    intro o
    cases o with
    | none => trivial
    | some m => exact (by decide : 0 < smallLayout.size)
  exact ⟨trivial, trivial, trivial, halloc _, trivial, trivial⟩

theorem oneOfEach_isolated :
    Always step (fun o => ∃ m, o = some m ∧ Isolated m) (boot (fun _ => 0) 0x200000 0x1000) oneOfEach :=
  (allocators_isolated_iff _ 0x200000 0x1000 oneOfEach (oneOfEach_obeys _)).mpr
    (guarded_of_few_stacks _ 0x200000 0x1000 oneOfEach (oneOfEach_obeys _) (by decide))

theorem run_allocStacks (n : Nat) (h : Inv kend m) (hnil : m.pmmPages = [])
    (hroom : m.tasks.nextStack + n * taskStackSize ≤ stackRegionEnd) :
    ∃ m', run step (some m) (List.replicate n .allocStack) = some m' ∧ Inv kend m' ∧ m'.pmmPages = [] ∧
      m'.tasks.nextStack = m.tasks.nextStack + n * taskStackSize ∧
      m'.pmm.freePageCount = m.pmm.freePageCount := by
  induction n generalizing m with
  | zero => exact ⟨m, rfl, h, hnil, by simp, rfl⟩
  | succ n ih =>
    have hsum : m.tasks.nextStack + (n + 1) * taskStackSize =
        m.tasks.nextStack + taskStackSize + n * taskStackSize := by
      rw [Nat.succ_mul, Nat.add_assoc, Nat.add_comm taskStackSize]
    rw [hsum] at hroom ⊢
    obtain ⟨m', hrun, h', hnil', hnext, hfree⟩ := ih (h.withStack (.inl hnil)) hnil hroom
    refine ⟨m', ?_, h', hnil', hnext, hfree⟩
    have hserved := takeStack_served ((Nat.le_add_right _ _).trans hroom)
    rw [List.replicate_succ, run_cons, MemoryMap.step, hserved, hrun]

theorem le_freePageCount_reserveAll (rs : List Range) (htop : p.endAddr + pageSize ≤ usizeRange)
    (hrs : ∀ r ∈ rs, p.baseAddr ≤ r.base ∧ r.base + r.len ≤ p.endAddr) :
    p.freePageCount ≤ (reserveAll p rs).freePageCount + (rs.map fun r => r.len / pageSize + 2).sum := by
  induction rs generalizing p with
  | nil => exact le_rfl
  | cons r rs ih =>
    obtain ⟨hr, hrest⟩ := List.forall_mem_cons.mp hrs
    obtain ⟨-, hbase, hend⟩ := sameRange_reserveRange p r.base r.len
    have hhead := le_freePageCount_reserveRange htop hr.1 hr.2
    have htail := ih (p := p.reserveRange r.base r.len) (hend ▸ htop) (by rwa [hbase, hend])
    change _ ≤ (reserveAll (p.reserveRange r.base r.len) rs).freePageCount + _
    rw [List.map_cons, List.sum_cons]
    omega

theorem bootPmm_free (mem : Memory) : 0 < (bootPmm mem 0x200000).freePageCount := by
  obtain ⟨-, hbase, hend⟩ := sameRange_new mem kernelBase (64 * 1024 * 1024 * 1024)
  have hnew := le_freePageCount_new mem kernelBase (64 * 1024 * 1024 * 1024)
  have hall := le_freePageCount_reserveAll (p := .new mem kernelBase (64 * 1024 * 1024 * 1024))
    (reservedRanges 0x200000) (hend ▸ by decide) (by rw [hbase, hend]; decide)
  have hle := hnew.trans (Nat.add_le_add_right hall _)
  rw [← bootPmm] at hle
  refine Nat.pos_of_ne_zero fun hzero => ?_
  rw [hzero] at hle
  exact absurd hle (by decide)

/-- After 65 stacks the first page of the PMM lies in the last of them. -/
theorem manyStacks_not_isolated :
    Guarded step Obeys (boot (fun _ => 0) 0x200000 0x1000)
        (List.replicate 65 .allocStack ++ [.allocPage]) ∧
      ¬Always step (fun o => ∃ m, o = some m ∧ Isolated m) (boot (fun _ => 0) 0x200000 0x1000)
        (List.replicate 65 .allocStack ++ [.allocPage]) := by
  obtain ⟨m, hboot, h, hnil, hnext, hfree⟩ :=
    startAllocators_inv (pagesAbove_boot (fun _ => 0) 0x200000) 0x1000
  constructor
  · have hops : ∀ op ∈ List.replicate 65 Op.allocStack ++ [.allocPage], ∀ o, Obeys o op := by
      intro op hop o
      obtain hstack | hpage := List.mem_append.mp hop
      · cases List.eq_of_mem_replicate hstack
        trivial
      · cases List.mem_singleton.mp hpage
        trivial
    exact (guarded_of_forall hops).imp (I := fun _ => True) (fun _ _ _ _ => trivial)
      (fun o _ _ hop => hop o) trivial
  · intro halways
    obtain ⟨m₁, hrun, h₁, hnil₁, hnext₁, hfree₁⟩ := run_allocStacks 65 h hnil (hnext ▸ by decide)
    obtain ⟨m₂, hlast, hiso⟩ := halways.last
    rw [run_append, boot, hboot, hrun] at hlast
    have hbeyond : firstAddr 0x200000 < m₁.tasks.nextStack := by
      rw [hnext₁, hnext]
      decide
    have hserve : CanServe 0x200000 m₁.pmm 1 := by
      refine ⟨one_pos, ?_, ?_⟩
      · rw [hfree₁, hfree]
        exact bootPmm_free _
      · rw [h₁.above.total]
        decide
    have hclear : Clear 0x200000 m₁ .allocPage := h₁.clear_of_isolated hlast hiso
    obtain hlow | hno := hclear
    · exact absurd hlow (not_le.mpr hbeyond)
    · exact hno hserve

end DeltaOS.MemoryIsolation
