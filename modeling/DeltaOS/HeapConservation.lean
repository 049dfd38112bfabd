import DeltaOS.HeapIsolation

namespace DeltaOS.HeapConservation

open ByteMemory Overflow Runs Heap HeapBlocks HeapProfiles HeapIsolation SlabAllocator

def liveBlocks (live : List (Nat × Layout)) (i : Fin slabClasses) : Nat :=
  live.countP fun a => findSlabClass a.2.alignedSize = some i

structure Conserved (s : State) : Prop where
  blocks : ∀ i, liveBlocks s.live i + (s.heap.slabs i).freeCount = (s.heap.slabs i).totalCount
  bounded : ∀ i, (s.heap.slabs i).totalCount ≤ maxBlocksPerClass
  stats : ∀ profile, (heapStats profile s.heap).map HeapStats.slabUsed =
    some ((List.finRange slabClasses).map (liveBlocks s.live))

/-- The free list has room for the block that a call gives back. -/
def KeepsBlock : Option State → Op → Prop
  | some s, .dealloc ptr l => ∀ i, findSlabClass l.alignedSize = some i →
    (s.heap.slabs i).push ptr ≠ none
  | _, _ => True

/-- A class of which `n` blocks are in use, none of them at address zero. -/
structure SlabCounted (n : Nat) (i : Fin slabClasses) (slab : SlabClass) : Prop where
  blockSize : slab.blockSize = classSize i
  blocks : n + slab.freeCount = slab.totalCount
  bounded : slab.totalCount ≤ maxBlocksPerClass
  nonzero : 0 ∉ slab.freeList

structure HeapCounted (base size : Nat) (used : Fin slabClasses → Nat) (h : SlabAllocator) : Prop where
  heapStart : h.heapStart = base
  heapSize : h.heapSize = size
  bump_le : h.bumpOffset ≤ max size (10 * 4096)
  slab : ∀ i, SlabCounted (used i) i (h.slabs i)

variable {n k base size page ptr : Nat} {i : Fin slabClasses} {slab slab' : SlabClass}
    {h : SlabAllocator}
  {used : Fin slabClasses → Nat}

theorem SlabCounted.pop (hs : SlabCounted n i slab) (hpop : slab.pop = some (ptr, slab')) :
    ptr ≠ 0 ∧ SlabCounted (n + 1) i slab' := by
  obtain ⟨hlist, hsize, htotal⟩ := pop_eq_some hpop
  have hblocks := hs.blocks
  have hnonzero := hs.nonzero
  rw [SlabClass.freeCount, hlist, List.length_cons] at hblocks
  rw [hlist, List.mem_cons, not_or] at hnonzero
  refine ⟨Ne.symm hnonzero.1, hsize.trans hs.blockSize, ?_, htotal.trans_le hs.bounded, hnonzero.2⟩
  rw [SlabClass.freeCount, htotal]
  omega

theorem SlabCounted.push (hs : SlabCounted (n + 1) i slab) (hptr : ptr ≠ 0) :
    ∃ slab', slab.push ptr = some slab' ∧ SlabCounted n i slab' := by
  have hblocks := hs.blocks
  have hroom : slab.freeCount < maxBlocksPerClass := by
    have hbounded := hs.bounded
    omega
  refine ⟨_, if_pos hroom, hs.blockSize, ?_, hs.bounded, ?_⟩
  · rw [SlabClass.freeCount] at hblocks ⊢
    rw [List.length_cons, ← hblocks]
    omega
  · rw [List.mem_cons, not_or]
    exact ⟨Ne.symm hptr, hs.nonzero⟩

theorem SlabCounted.withBlocks (hs : SlabCounted n i slab) (hk : slab.totalCount + k ≤ maxBlocksPerClass)
    (hpage : 0 < page) : SlabCounted n i (withBlocks slab page k) := by
  have hblocks := hs.blocks
  refine ⟨hs.blockSize, ?_, hk, ?_⟩
  · simp only [SlabClass.freeCount, HeapIsolation.withBlocks, List.length_append, List.length_reverse,
      List.length_map, List.length_range] at hblocks ⊢
    omega
  · simp only [HeapIsolation.withBlocks, List.mem_append, List.mem_reverse, List.mem_map, not_or]
    refine ⟨?_, hs.nonzero⟩
    rintro ⟨j, -, hzero⟩
    omega

theorem SlabCounted.addBlocks (hs : SlabCounted n i slab) (hk : slab.totalCount + k ≤ maxBlocksPerClass)
    (hpage : 0 < page) (hfit : page + k * classSize i ≤ usizeRange) :
    ∃ slab', slab.addBlocks .release page k = some slab' ∧ SlabCounted n i slab' := by
  have hblocks := hs.blocks
  have hrun : slab.addBlocks .debug page k = some (HeapIsolation.withBlocks slab page k) := by
    apply addBlocks_debug
    · omega
    · rw [hs.blockSize]
      exact classSize_pos i
    · rwa [hs.blockSize]
  exact ⟨_, addBlocks_release hrun, hs.withBlocks hk hpage⟩

theorem HeapCounted.setSlab (hh : HeapCounted base size used h) (hs : SlabCounted n i slab) :
    HeapCounted base size (Function.update used i n) (h.setSlab i slab) := by
  refine ⟨hh.heapStart, hh.heapSize, hh.bump_le, fun j => ?_⟩
  by_cases hj : j = i
  · subst j
    rwa [setSlab_slabs, Function.update_self, Function.update_self]
  · rw [setSlab_slabs, Function.update_of_ne hj, Function.update_of_ne hj]
    exact hh.slab j

theorem initClass_counted (hbase : 0 < base) (hh : HeapCounted base size 0 h) {offset : Nat}
    (hfit : base + offset + 4096 ≤ usizeRange) (i : Fin slabClasses) :
    ∃ h', initClass .release base (h, offset) i = some (h', offset + 4096) ∧
      HeapCounted base size 0 h' := by
  obtain ⟨hmul, hcount⟩ := pageBlocks_le i
  have hsize := (hh.slab i).blockSize
  have hroom : 4096 / classSize i ≤ maxBlocksPerClass := hcount.trans (by decide)
  have hempty : SlabCounted 0 i ⟨classSize i, [], 0, base + offset⟩ :=
    ⟨rfl, rfl, Nat.zero_le _, List.not_mem_nil⟩
  obtain ⟨slab, hrun, hs⟩ := hempty.addBlocks ((Nat.zero_add _).trans_le hroom)
    (Nat.add_pos_left hbase offset)
    ((Nat.add_le_add_left hmul _).trans hfit)
  have hpage : add .release base offset = some (base + offset) := add_ok (by omega)
  have hoffset : add .release offset 4096 = some (offset + 4096) := add_ok (by omega)
  have hh' : HeapCounted base size 0 { h with mem := fill h.mem (base + offset) 0 4096 } :=
    ⟨hh.heapStart, hh.heapSize, hh.bump_le, hh.slab⟩
  refine ⟨{ h with mem := fill h.mem (base + offset) 0 4096 }.setSlab i slab, ?_, ?_⟩
  · simp only [initClass, hpage, hoffset, hsize, min_eq_left hroom, Option.bind_eq_bind,
      Option.bind_some]
    rw [hrun]
    rfl
  · have hset := hh'.setSlab hs
    have hnone : Function.update (0 : Fin slabClasses → Nat) i 0 = 0 := Function.update_eq_self i 0
    rwa [hnone] at hset

theorem initClasses_counted (hbase : 0 < base) (hh : HeapCounted base size 0 h)
    (hfit : base + 10 * 4096 ≤ usizeRange) :
    ∃ h', (List.finRange slabClasses).foldlM (initClass .release base) (h, 0) = some (h', 10 * 4096) ∧
      HeapCounted base size 0 h' := by
  let P : List (Fin slabClasses) → SlabAllocator × Nat → Prop := fun is s =>
    HeapCounted base size 0 s.1 ∧ s.2 + 4096 * is.length = 10 * 4096
  have hstep : ∀ i is s, P (i :: is) s → ∃ s', initClass .release base s i = some s' ∧ P is s' := by
    rintro i is ⟨h, offset⟩ ⟨hh, hlen⟩
    dsimp only at hh hlen
    rw [List.length_cons] at hlen
    have hpage : base + offset + 4096 ≤ usizeRange := by omega
    obtain ⟨h', hrun, hh'⟩ := initClass_counted hbase hh hpage i
    exact ⟨(h', offset + 4096), hrun, hh', show offset + 4096 + 4096 * is.length = _ by omega⟩
  have hlen : 0 + 4096 * (List.finRange slabClasses).length = 10 * 4096 := by
    rw [List.length_finRange]
    decide
  have hstart : P (List.finRange slabClasses) (h, 0) := ⟨hh, hlen⟩
  obtain ⟨⟨h', offset⟩, hrun, hh', hoffset⟩ := foldlM_total hstep _ hstart
  obtain rfl : offset = 10 * 4096 := hoffset
  exact ⟨h', hrun, hh'⟩

theorem allocBump_counted (hh : HeapCounted base size used h) (len align : Nat) :
    ∃ r, h.allocBump .release len align = some r ∧ HeapCounted base size used r.2 := by
  obtain ⟨sum, hsum⟩ := add_release_total h.bumpOffset align
  obtain ⟨top, htop⟩ := sub_release_total sum 1
  obtain ⟨offset, hoffset⟩ := add_release_total (alignDown top align) len
  obtain ⟨ptr, hptr⟩ := add_release_total h.heapStart (alignDown top align)
  by_cases hfull : h.heapSize < offset
  · exact ⟨(0, h), allocBump_full hsum htop hoffset hfull, hh⟩
  · refine ⟨_, allocBump_served hsum htop hoffset hfull hptr, hh.heapStart, hh.heapSize, ?_, hh.slab⟩
    rw [hh.heapSize] at hfull
    exact (not_lt.mp hfull).trans (le_max_left _ _)

theorem bump_fits {bump range : Nat} (h : bump ≤ max size (10 * 4096)) (hsize : size + 4096 < range)
    (hrange : 11 * 4096 < range) : bump + 4096 < range := by
  omega

theorem HeapCounted.takePage (hh : HeapCounted base size used h) (hroom : h.bumpOffset + 4096 ≤ size) :
    HeapCounted base size used (withPage h) :=
  ⟨hh.heapStart, hh.heapSize, hroom.trans (le_max_left _ _), hh.slab⟩

theorem HeapCounted.refilled (hh : HeapCounted base size used h) (hbase : 0 < base)
    (i : Fin slabClasses) : SlabCounted (used i) i (refilled h i) := by
  have hle : refillCount h i ≤ maxBlocksPerClass - (h.slabs i).totalCount := min_le_right _ _
  apply (hh.slab i).withBlocks (Nat.add_le_of_le_sub' (hh.slab i).bounded hle)
  rw [hh.heapStart]
  exact Nat.add_pos_left hbase _

theorem allocFromSlab_cases (profile : Profile) (hfit : base + max size (10 * 4096) ≤ usizeRange)
    (hsize : size + 4096 < usizeRange) (hh : HeapCounted base size used h) (i : Fin slabClasses) :
    (∃ ptr slab, (h.slabs i).pop = some (ptr, slab) ∧
      h.allocFromSlab profile i = some (ptr, h.setSlab i slab)) ∨
      (h.slabs i).pop = none ∧ size < h.bumpOffset + 4096 ∧ h.allocFromSlab profile i = some (0, h) ∨
      (h.slabs i).pop = none ∧ h.bumpOffset + 4096 ≤ size ∧
        ((∃ ptr slab, (HeapIsolation.refilled h i).pop = some (ptr, slab) ∧
            h.allocFromSlab profile i = some (ptr, (withPage h).setSlab i slab)) ∨
          (HeapIsolation.refilled h i).pop = none ∧
            h.allocFromSlab profile i = some
              (0, (withPage h).setSlab i (HeapIsolation.refilled h i))) := by
  have htop : h.bumpOffset + 4096 < usizeRange := bump_fits hh.bump_le hsize (by decide)
  have hslab := hh.slab i
  cases hpop : (h.slabs i).pop with
  | some p => exact .inl ⟨p.1, p.2, rfl, by simp only [allocFromSlab, hpop]⟩
  | none =>
    refine .inr ?_
    by_cases hfull : size < h.bumpOffset + 4096
    · exact .inl ⟨rfl, hfull, allocFromSlab_full hpop (add_ok htop) (hh.heapSize.trans_lt hfull)⟩
    · have hroom : h.bumpOffset + 4096 ≤ size := not_lt.mp hfull
      have hend : h.heapStart + h.heapSize ≤ usizeRange := by
        rw [hh.heapStart, hh.heapSize]
        exact (Nat.add_le_add_left (le_max_left _ _) _).trans hfit
      have hrun := allocFromSlab_refill hslab.blockSize hslab.bounded (pop_eq_none_iff.mp hpop)
        (hroom.trans_eq hh.heapSize.symm) htop hend
      refine .inr ⟨rfl, hroom, ?_⟩
      cases hpop' : (HeapIsolation.refilled h i).pop with
      | some p =>
        rw [hpop'] at hrun
        exact .inl ⟨p.1, p.2, rfl, allocFromSlab_of_debug hrun profile⟩
      | none =>
        rw [hpop'] at hrun
        exact .inr ⟨rfl, allocFromSlab_of_debug hrun profile⟩

theorem allocFromSlab_counted (hbase : 0 < base) (hfit : base + max size (10 * 4096) ≤ usizeRange)
    (hsize : size + 4096 < usizeRange) (hh : HeapCounted base size used h) (i : Fin slabClasses) :
    ∃ r, h.allocFromSlab .release i = some r ∧
      (r.1 = 0 ∧ HeapCounted base size used r.2 ∨
        r.1 ≠ 0 ∧ HeapCounted base size (Function.update used i (used i + 1)) r.2) := by
  have hrefilled := hh.refilled hbase i
  obtain ⟨ptr, slab, hpop, hrun⟩ | ⟨-, -, hrun⟩ | ⟨-, hroom, hpage⟩ :=
    allocFromSlab_cases .release hfit hsize hh i
  · obtain ⟨hptr, hslab⟩ := (hh.slab i).pop hpop
    exact ⟨_, hrun, .inr ⟨hptr, hh.setSlab hslab⟩⟩
  · exact ⟨_, hrun, .inl ⟨rfl, hh⟩⟩
  · have hh' : HeapCounted base size used (withPage h) := hh.takePage hroom
    obtain ⟨ptr, slab, hpop, hrun⟩ | ⟨-, hrun⟩ := hpage
    · obtain ⟨hptr, hslab⟩ := hrefilled.pop hpop
      exact ⟨_, hrun, .inr ⟨hptr, hh'.setSlab hslab⟩⟩
    · have hset := hh'.setSlab hrefilled
      rw [Function.update_eq_self] at hset
      exact ⟨_, hrun, .inl ⟨rfl, hset⟩⟩

theorem alloc_of_class {profile : Profile} {l : Layout} (hh : HeapCounted base size used h)
    (hclass : findSlabClass l.alignedSize = some i) : h.alloc profile l = h.allocFromSlab profile i := by
  have halign : (h.slabs i).blockSize ≥ l.align := by
    rw [(hh.slab i).blockSize]
    exact (align_le_alignedSize l).trans (le_classSize hclass)
  rw [SlabAllocator.alloc, hclass]
  exact if_pos halign

structure Counted (base size : Nat) (s : State) : Prop where
  heap : HeapCounted base size (liveBlocks s.live) s.heap
  live : ∀ a ∈ s.live, a.1 ≠ 0

variable {s s' : State} {live : List (Nat × Layout)} {l : Layout}

theorem liveBlocks_cons (hclass : findSlabClass l.alignedSize = some i) :
    liveBlocks ((ptr, l) :: live) = Function.update (liveBlocks live) i (liveBlocks live i + 1) := by
  funext j
  by_cases hj : j = i
  · subst j
    simp [liveBlocks, hclass]
  · simp [liveBlocks, hclass, hj, Ne.symm hj]

theorem liveBlocks_cons_none (hclass : findSlabClass l.alignedSize = none) :
    liveBlocks ((ptr, l) :: live) = liveBlocks live := by
  funext j
  simp [liveBlocks, hclass]

theorem Counted.served (hs : Counted base size s) {r : Nat × SlabAllocator}
    (hnull : r.1 = 0 → HeapCounted base size (liveBlocks s.live) r.2)
    (hptr : r.1 ≠ 0 → HeapCounted base size (liveBlocks ((r.1, l) :: s.live)) r.2) :
    Counted base size ⟨r.2, if r.1 = 0 then s.live else (r.1, l) :: s.live⟩ := by
  by_cases hzero : r.1 = 0
  · rw [if_pos hzero]
    exact ⟨hnull hzero, hs.live⟩
  · rw [if_neg hzero]
    exact ⟨hptr hzero, List.forall_mem_cons.mpr ⟨hzero, hs.live⟩⟩

theorem alloc_counted (hbase : 0 < base) (hfit : base + max size (10 * 4096) ≤ usizeRange)
    (hsize : size + 4096 < usizeRange) (hs : Counted base size s) (l : Layout) :
    ∃ r, s.heap.alloc .release l = some r ∧
      Counted base size ⟨r.2, if r.1 = 0 then s.live else (r.1, l) :: s.live⟩ := by
  cases hclass : findSlabClass l.alignedSize with
  | none =>
    obtain ⟨r, hrun, hh⟩ := allocBump_counted hs.heap l.alignedSize l.align
    refine ⟨r, by rw [SlabAllocator.alloc, hclass]; exact hrun, hs.served (fun _ => hh) fun _ => ?_⟩
    rwa [liveBlocks_cons_none hclass]
  | some i =>
    rw [alloc_of_class hs.heap hclass]
    obtain ⟨r, hrun, ⟨hzero, hh⟩ | ⟨hne, hh⟩⟩ := allocFromSlab_counted hbase hfit hsize hs.heap i
    · refine ⟨r, hrun, hs.served (fun _ => hh) fun hne => absurd hzero hne⟩
    · refine ⟨r, hrun, hs.served (fun hzero => absurd hzero hne) fun _ => ?_⟩
      rwa [liveBlocks_cons hclass]

theorem liveBlocks_erase (ha : (ptr, l) ∈ live) :
    liveBlocks live = liveBlocks ((ptr, l) :: live.erase (ptr, l)) := by
  funext i
  exact (List.perm_cons_erase ha).countP_eq _

theorem Counted.push (hs : Counted base size s) (ha : (ptr, l) ∈ s.live)
    (hclass : findSlabClass l.alignedSize = some i) :
    ∃ slab, (s.heap.slabs i).push ptr = some slab ∧
      SlabCounted (liveBlocks (s.live.erase (ptr, l)) i) i slab := by
  have hslab := hs.heap.slab i
  rw [liveBlocks_erase ha, liveBlocks_cons hclass, Function.update_self] at hslab
  exact hslab.push (hs.live _ ha)

theorem Counted.dealloc (hs : Counted base size s) (ha : (ptr, l) ∈ s.live) :
    Counted base size ⟨s.heap.dealloc ptr l, s.live.erase (ptr, l)⟩ := by
  refine ⟨?_, fun a hmem => hs.live a (List.mem_of_mem_erase hmem)⟩
  have hh := hs.heap
  rw [liveBlocks_erase ha] at hh
  unfold SlabAllocator.dealloc
  cases hclass : findSlabClass l.alignedSize with
  | none => rwa [liveBlocks_cons_none hclass] at hh
  | some i =>
    obtain ⟨slab, hpush, hslab⟩ := hs.push ha hclass
    have hset := hh.setSlab hslab
    rw [liveBlocks_cons hclass, Function.update_idem, Function.update_eq_self] at hset
    simpa only [SlabAllocator.freeToSlab, hpush] using hset

theorem step_counted (hbase : 0 < base) (hfit : base + max size (10 * 4096) ≤ usizeRange)
    (hsize : size + 4096 < usizeRange) (hs : Counted base size s) {op : Op} (hop : Obeys (some s) op) :
    ∃ s', step .release (some s) op = some s' ∧ Counted base size s' := by
  cases op with
  | dealloc ptr l => exact ⟨_, rfl, hs.dealloc hop⟩
  | alloc l =>
    obtain ⟨r, hrun, hr⟩ := alloc_counted hbase hfit hsize hs l
    exact ⟨_, by rw [step, hrun, Option.map_some], hr⟩

theorem start_counted (mem : Memory) (hbase : 0 < base)
    (hfit : base + max size (10 * 4096) ≤ usizeRange) :
    ∃ s, start .release mem base size = some s ∧ Counted base size s := by
  have hnew : HeapCounted base size 0
    { SlabAllocator.new mem with heapStart := base, heapSize := size } :=
    ⟨rfl, rfl, Nat.zero_le _, fun i => ⟨rfl, rfl, Nat.zero_le _, List.not_mem_nil⟩⟩
  obtain ⟨h, hrun, hh⟩ := initClasses_counted hbase hnew
    ((Nat.add_le_add_left (le_max_right _ _) _).trans hfit)
  refine ⟨⟨{ h with bumpOffset := 10 * 4096, initialized := true }, []⟩, ?_, ⟨?_, nofun⟩⟩
  · simp only [start, init, SlabAllocator.new, Bool.false_eq_true, if_false] at hrun ⊢
    rw [hrun]
    rfl
  · exact ⟨hh.heapStart, hh.heapSize, le_max_right _ _, hh.slab⟩

theorem Counted.conserved (hs : Counted base size s) : Conserved s := by
  refine ⟨fun i => (hs.heap.slab i).blocks, fun i => (hs.heap.slab i).bounded, fun profile => ?_⟩
  have hused : (fun i => sub profile (s.heap.slabs i).totalCount (s.heap.slabs i).freeCount) =
      fun i => pure (liveBlocks s.live i) := by
    funext i
    have hblocks := (hs.heap.slab i).blocks
    have hbounded : (s.heap.slabs i).totalCount < usizeRange :=
      (hs.heap.slab i).bounded.trans_lt (by decide)
    rw [sub_ok hbounded (by omega), ← hblocks, Nat.add_sub_cancel]
    rfl
  rw [heapStats, hused, List.mapM_pure]
  rfl

theorem Counted.keepsBlock (hs : Counted base size s) {op : Op} (hop : Obeys (some s) op) :
    KeepsBlock (some s) op := by
  cases op with
  | alloc l => trivial
  | dealloc ptr l =>
    intro i hclass
    obtain ⟨slab, hpush, -⟩ := hs.push hop hclass
    rw [hpush]
    exact nofun

section Reachable

variable (profile : Profile) (mem : Memory) (hbase : 0 < base)
    (hfit : base + max size (10 * 4096) ≤ usizeRange)
  (hsize : size + 4096 < usizeRange)

/-- A release build is in a counted state, and so is a debug build as long as it has not panicked. -/
def AllCounted (profile : Profile) (base size : Nat) (o : Option State) : Prop :=
  (profile = .release → o ≠ none) ∧ ∀ s, o = some s → Counted base size s

include hbase hfit in
theorem start_allCounted : AllCounted profile base size (start profile mem base size) :=
  forall_profile (fun p => start p mem base size) (fun _ => start_release)
    (start_counted mem hbase hfit) profile

include hbase hfit hsize in
theorem step_allCounted (o : Option State) (op : Op) (ho : AllCounted profile base size o)
    (hop : Obeys o op) : AllCounted profile base size (step profile o op) := by
  cases o with
  | none => exact ⟨fun hp => absurd rfl (ho.1 hp), nofun⟩
  | some s =>
    have hcounted := step_counted hbase hfit hsize (ho.2 s rfl) hop
    exact forall_profile (fun p => step p (some s) op) (fun _ => step_release) hcounted profile

end Reachable

/-- On a region of addresses without zero the blocks of each class are conserved, and a release build
does not panic. -/
theorem heap_conserved (profile : Profile) (mem : Memory) (base size : Nat) (hbase : 0 < base)
    (hfit : base + max size (10 * 4096) ≤ 2 ^ 64) (hsize : size + 4096 < 2 ^ 64) (ops : List Op)
    (hobeys : Guarded (step profile) Obeys (start profile mem base size) ops) :
    Always (step profile) (fun o => (profile = .release → o ≠ none) ∧ ∀ s, o = some s → Conserved s)
        (start profile mem base size) ops ∧
      Guarded (step profile) KeepsBlock (start profile mem base size) ops := by
  have hstart := start_allCounted profile mem hbase hfit
  have hstep := step_allCounted profile hbase hfit hsize
  constructor
  · refine (hobeys.always hstep hstart).mono fun o ho => ⟨ho.1, fun s hs => (ho.2 s hs).conserved⟩
  · refine hobeys.imp hstep ?_ hstart
    intro o op ho hop
    cases o with
    | none => trivial
    | some s => exact (ho.2 s rfl).keepsBlock hop

theorem wordLayout_align : ∃ k, 8 = 2 ^ k := ⟨3, rfl⟩

theorem wordLayout_size : 8 + 8 ≤ 2 ^ 63 := by decide

def wordLayout : Layout := ⟨8, 8, wordLayout_align, wordLayout_size⟩

theorem oneWord_conserved :
    Always (step .release) (fun o => (Profile.release = .release → o ≠ none) ∧
      ∀ s, o = some s → Conserved s)
        (start .release (fun _ => 0) 0x800000 0x200000)
        [.alloc wordLayout, .dealloc 0x800FF8 wordLayout] ∧
      Guarded (step .release) KeepsBlock (start .release (fun _ => 0) 0x800000 0x200000)
        [.alloc wordLayout, .dealloc 0x800FF8 wordLayout] :=
  heap_conserved .release _ _ _ (by decide) (by decide) (by decide) _ (by decide +kernel)

theorem obeys_allocs {profile : Profile} (hl : 0 < l.size) (n : Nat) (o : Option State) :
    Guarded (step profile) Obeys o (List.replicate n (.alloc l)) := by
  induction n generalizing o with
  | zero => trivial
  | succ n ih =>
    refine ⟨?_, ih _⟩
    cases o with
    | none => trivial
    | some s => exact hl

def wordClass : Fin slabClasses := ⟨0, by decide⟩

theorem wordsFromZero_counts :
    (run (step .release) (start .release (fun _ => 0) 0 0x200000)
      (List.replicate 512 (.alloc wordLayout))).map
      (fun s => (liveBlocks s.live wordClass, (s.heap.slabs wordClass).freeCount,
        (s.heap.slabs wordClass).totalCount)) = some (511, 0, 512) := by
  decide +kernel

theorem wordsFromZero_lost :
    Guarded (step .release) Obeys (start .release (fun _ => 0) 0 0x200000)
    (List.replicate 512 (.alloc wordLayout)) ∧
      ¬Always (step .release) (fun o => ∀ s, o = some s → Conserved s)
      (start .release (fun _ => 0) 0 0x200000)
        (List.replicate 512 (.alloc wordLayout)) := by
  refine ⟨obeys_allocs (by decide) 512 _, fun h => ?_⟩
  obtain ⟨s, hrun, hcounts⟩ := Option.map_eq_some_iff.mp wordsFromZero_counts
  have hblocks := (h.last s hrun).blocks wordClass
  simp only [Prod.mk.injEq] at hcounts
  omega

end DeltaOS.HeapConservation
