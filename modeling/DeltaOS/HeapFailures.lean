import DeltaOS.HeapConservation

namespace DeltaOS.HeapFailures

open ByteMemory Overflow Runs Heap HeapBlocks HeapProfiles HeapIsolation HeapConservation SlabAllocator

/-- Null is returned for want of memory, and nothing else comes of it. -/
structure Honest (profile : Profile) (h : SlabAllocator) (l : Layout) : Prop where
  exhausted : ∀ h', h.alloc profile l = some (0, h') → max l.size l.align ≤ slabMaxSize →
    ∃ i, findSlabClass l.alignedSize = some i ∧ (h.slabs i).freeList = [] ∧
      h.heapSize < h.bumpOffset + 4096
  harmless : ∀ h', h.alloc profile l = some (0, h') → h' = h

/-- The class has all the blocks it may have, none of them free, and there is a page left to be taken
in vain. -/
def Capped (h : SlabAllocator) (l : Layout) : Prop :=
  ∃ i, findSlabClass l.alignedSize = some i ∧ (h.slabs i).freeList = [] ∧
    (h.slabs i).totalCount = maxBlocksPerClass ∧ h.bumpOffset + 4096 ≤ h.heapSize

variable {profile : Profile} {base size : Nat} {used : Fin slabClasses → Nat} {h h' : SlabAllocator}
  {i : Fin slabClasses} {l : Layout}

theorem alignedSize_eq_max (l : Layout) : l.alignedSize = max l.size l.align := by
  unfold Layout.alignedSize
  split_ifs with hlt
  · exact (max_eq_right hlt.le).symm
  · exact (max_eq_left (not_lt.mp hlt)).symm

theorem alignedSize_pos (l : Layout) : 0 < l.alignedSize := by
  obtain ⟨k, hk⟩ := l.align_pow
  refine lt_of_lt_of_le ?_ (align_le_alignedSize l)
  rw [hk]
  exact Nat.two_pow_pos k

theorem exists_slabClass (hl : max l.size l.align ≤ slabMaxSize) :
    ∃ i, findSlabClass l.alignedSize = some i := by
  rw [← alignedSize_eq_max] at hl
  have hclass : ¬(l.alignedSize > slabMaxSize ∨ l.alignedSize = 0) := by
    have hpos := alignedSize_pos l
    omega
  rw [findSlabClass, if_neg hclass, ← Option.isSome_iff_exists, List.find?_isSome]
  exact ⟨⟨9, by decide⟩, List.mem_finRange _, decide_eq_true hl⟩

theorem layout_cases (l : Layout) : ∃ k ≤ 63, l.align = 2 ^ k ∧
    (l.alignedSize + l.align ≤ 2 ^ 63 ∨ l.alignedSize = 2 ^ 63 ∧ k = 63) := by
  obtain ⟨k, hk⟩ := l.align_pow
  have hsum := l.size_le
  have hk63 : k ≤ 63 := by
    apply (Nat.pow_le_pow_iff_right (by decide : 1 < 2)).mp
    omega
  refine ⟨k, hk63, hk, ?_⟩
  unfold Layout.alignedSize
  split_ifs with hlt
  · obtain rfl | hlow := eq_or_ne k 63
    · exact .inr ⟨hk, rfl⟩
    · have hpow : 2 ^ k ≤ 2 ^ 62 := Nat.pow_le_pow_right (by decide) (by omega)
      omega
  · exact .inl hsum

theorem capped_of_refilled (hh : HeapCounted base size used h) (hpop : (refilled h i).pop = none) :
    (h.slabs i).totalCount = maxBlocksPerClass := by
  have hnil := pop_eq_none_iff.mp hpop
  simp only [refilled, withBlocks, List.append_eq_nil_iff, List.reverse_eq_nil_iff, List.map_eq_nil_iff,
    List.range_eq_nil] at hnil
  have hblocks := pageBlocks_pos i
  have hbounded := (hh.slab i).bounded
  have hcount := hnil.1
  rw [refillCount] at hcount
  omega

section Region

variable (hbase : 0 < base) (hfit : base + max size (10 * 4096) ≤ usizeRange) (hsize : size < 2 ^ 63)

include hbase hfit hsize

theorem allocFromSlab_null (hh : HeapCounted base size used h)
    (hrun : h.allocFromSlab profile i = some (0, h')) :
    (h.slabs i).freeList = [] ∧ (h' = h ∧ h.heapSize < h.bumpOffset + 4096 ∨
      (h.slabs i).totalCount = maxBlocksPerClass ∧ h.bumpOffset + 4096 ≤ h.heapSize) := by
  have hrange : usizeRange = 2 ^ 64 := rfl
  have hsize' : size + 4096 < usizeRange := by omega
  rw [hh.heapSize]
  obtain ⟨ptr, slab, hpop, heq⟩ | ⟨hpop, hfull, heq⟩ |
      ⟨hpop, hroom, ⟨ptr, slab, hpop', heq⟩ | ⟨hpop', heq⟩⟩ :=
    allocFromSlab_cases profile hfit hsize' hh i
  · rw [hrun, Option.some.injEq, Prod.mk.injEq] at heq
    exact absurd heq.1.symm ((hh.slab i).pop hpop).1
  · rw [hrun, Option.some.injEq, Prod.mk.injEq] at heq
    exact ⟨pop_eq_none_iff.mp hpop, .inl ⟨heq.2, hfull⟩⟩
  · rw [hrun, Option.some.injEq, Prod.mk.injEq] at heq
    exact absurd heq.1.symm ((hh.refilled hbase i).pop hpop').1
  · exact ⟨pop_eq_none_iff.mp hpop, .inr ⟨capped_of_refilled hh hpop', hroom⟩⟩

theorem bumpPtr_ne_zero {bump offset len align : Nat} (hmiddle : base ≠ 2 ^ 63)
    (hbump : bump ≤ max size (10 * 4096)) (hoffset : offset < bump + align) (hlen : 0 < len)
    (hlayout : len + align ≤ 2 ^ 63 ∨ len = 2 ^ 63 ∧ 2 ^ 63 ∣ offset)
    (hfits : ¬size < (offset + len) % usizeRange) : (base + offset) % usizeRange ≠ 0 := by
  rw [show usizeRange = 2 ^ 64 from rfl] at *
  omega

theorem allocBump_null (hmiddle : base ≠ 2 ^ 63) (hh : HeapCounted base size used h)
    (hrun : h.allocBump profile l.alignedSize l.align = some (0, h')) : h' = h := by
  have hrange : usizeRange = 2 ^ 64 := rfl
  have hrelease : h.allocBump .release l.alignedSize l.align = some (0, h') := by
    cases profile with
    | release => exact hrun
    | debug => exact allocBump_release hrun
  obtain ⟨k, hk, halign, hlayout⟩ := layout_cases l
  have hpow : 0 < 2 ^ k ∧ 2 ^ k ≤ 2 ^ 63 := ⟨Nat.two_pow_pos k, Nat.pow_le_pow_right (by decide) hk⟩
  have hbump := hh.bump_le
  have hsum : add .release h.bumpOffset l.align = some (h.bumpOffset + l.align) := add_ok (by omega)
  have htop : sub .release (h.bumpOffset + l.align) 1 = some (h.bumpOffset + l.align - 1) :=
    sub_ok (by omega) (by omega)
  have hlt : h.bumpOffset + l.align - 1 < usizeRange := by omega
  have hoffset : add .release (alignDown (h.bumpOffset + l.align - 1) l.align) l.alignedSize = some _ :=
    rfl
  have hptr : add .release h.heapStart (alignDown (h.bumpOffset + l.align - 1) l.align) = some _ := rfl
  by_cases hfull : h.heapSize < (alignDown (h.bumpOffset + l.align - 1) l.align +
    l.alignedSize) % usizeRange
  · rw [allocBump_full hsum htop hoffset hfull, Option.some.injEq, Prod.mk.injEq] at hrelease
    exact hrelease.2.symm
  · rw [allocBump_served hsum htop hoffset hfull hptr, Option.some.injEq, Prod.mk.injEq, hh.heapStart]
      at hrelease
    rw [hh.heapSize] at hfull
    rw [halign] at hlt
    have hle := alignDown_le hlt (by omega : k ≤ 64)
    have hdvd := dvd_alignDown hlt (by omega : k ≤ 64)
    rw [← halign] at hle hdvd
    have hlast : alignDown (h.bumpOffset + l.align - 1) l.align < h.bumpOffset + l.align :=
      hle.trans_lt (Nat.sub_one_lt_of_lt (by omega : 0 < h.bumpOffset + l.align))
    refine absurd hrelease.1 (bumpPtr_ne_zero hbase hfit hsize hmiddle hbump hlast
      (alignedSize_pos l) ?_ hfull)
    refine hlayout.imp_right fun ⟨hlen, hk⟩ => ⟨hlen, ?_⟩
    rwa [halign, hk] at hdvd ⊢

theorem alloc_null (hmiddle : base ≠ 2 ^ 63) (hh : HeapCounted base size used h)
    (hrun : h.alloc profile l = some (0, h')) : Capped h l ∨ h' = h ∧
      ∀ i, findSlabClass l.alignedSize = some i → (h.slabs i).freeList = [] ∧
        h.heapSize < h.bumpOffset + 4096 := by
  cases hclass : findSlabClass l.alignedSize with
  | none =>
    rw [SlabAllocator.alloc, hclass] at hrun
    refine .inr ⟨allocBump_null hbase hfit hsize hmiddle hh hrun, ?_⟩
    rintro i ⟨⟩
  | some i =>
    rw [alloc_of_class hh hclass] at hrun
    obtain ⟨hfree, ⟨hsame, hfull⟩ | ⟨htotal, hroom⟩⟩ := allocFromSlab_null hbase hfit hsize hh hrun
    · refine .inr ⟨hsame, ?_⟩
      rintro j ⟨rfl⟩
      exact ⟨hfree, hfull⟩
    · exact .inl ⟨i, hclass, hfree, htotal, hroom⟩

omit hbase in
theorem alloc_capped (hh : HeapCounted base size used h) (hcap : Capped h l) :
    ∃ h', h.alloc profile l = some (0, h') ∧ h'.bumpOffset = h.bumpOffset + 4096 := by
  have hrange : usizeRange = 2 ^ 64 := rfl
  have hsize' : size + 4096 < usizeRange := by omega
  obtain ⟨i, hclass, hfree, htotal, hroom⟩ := hcap
  have hempty : (refilled h i).pop = none := by
    rw [pop_eq_none_iff, refilled, withBlocks, refillCount, htotal, Nat.sub_self, Nat.min_zero, hfree]
    rfl
  rw [alloc_of_class hh hclass]
  rw [hh.heapSize] at hroom
  obtain ⟨ptr, slab, hpop, -⟩ | ⟨-, hfull, -⟩ | ⟨-, -, ⟨ptr, slab, hpop, -⟩ | ⟨-, hrun⟩⟩ :=
    allocFromSlab_cases profile hfit hsize' hh i
  · rw [pop_eq_none_iff.mpr hfree] at hpop
    cases hpop
  · exact absurd hroom (not_le.mpr hfull)
  · rw [hempty] at hpop
    cases hpop
  · exact ⟨_, hrun, rfl⟩

theorem honest_iff (hmiddle : base ≠ 2 ^ 63) (hh : HeapCounted base size used h) :
    Honest profile h l ↔ ¬Capped h l := by
  constructor
  · intro hhonest hcap
    obtain ⟨h', hrun, hbump⟩ := alloc_capped hfit hsize hh hcap
    rw [hhonest.harmless h' hrun] at hbump
    omega
  · intro hcap
    constructor
    · intro h' hrun hl
      obtain ⟨i, hclass⟩ := exists_slabClass hl
      obtain ⟨-, hempty⟩ := (alloc_null hbase hfit hsize hmiddle hh hrun).resolve_left hcap
      exact ⟨i, hclass, hempty i hclass⟩
    · intro h' hrun
      exact ((alloc_null hbase hfit hsize hmiddle hh hrun).resolve_left hcap).1

end Region

/-- A failed allocation is honest and harmless, except for a class that has reached its cap. -/
theorem failures_honest_iff (profile : Profile) (mem : Memory) (base size : Nat) (hbase : 0 < base)
    (hmiddle : base ≠ 2 ^ 63) (hfit : base + max size (10 * 4096) ≤ 2 ^ 64) (hsize : size < 2 ^ 63)
    (ops : List Op) (hobeys : Guarded (step profile) Obeys (start profile mem base size) ops) :
    Always (step profile) (fun o => ∀ s, o = some s → ∀ l, Honest profile s.heap l ↔ ¬Capped s.heap l)
      (start profile mem base size) ops := by
  have hsize' : size + 4096 < 2 ^ 64 := by omega
  have hstart := start_allCounted profile mem hbase hfit
  have hstep := step_allCounted profile hbase hfit hsize'
  refine (hobeys.always hstep hstart).mono fun o ho s hs l => ?_
  exact honest_iff hbase hfit hsize hmiddle (ho.2 s hs).heap

theorem emptyHeap_honest_iff :
    Always (step .release) (fun o => ∀ s, o = some s → ∀ l, Honest .release s.heap l ↔ ¬Capped s.heap l)
      (start .release (fun _ => 0) 0x800000 0x200000)
      [.alloc wordLayout, .dealloc 0x800FF8 wordLayout] :=
  failures_honest_iff .release _ _ _ (by decide) (by decide) (by decide) (by decide) _
    (by decide +kernel)

theorem thousandWords_counts :
    (run (step .release) (start .release (fun _ => 0) 0x800000 0x200000)
      (List.replicate 1024 (.alloc wordLayout))).map
      (fun s => ((s.heap.slabs wordClass).freeList, (s.heap.slabs wordClass).totalCount,
        s.heap.bumpOffset, s.heap.heapSize)) = some ([], 1024, 0xB000, 0x200000) := by
  decide +kernel

/-- With 1024 words in use the next word is refused while most of the heap is left, and costs a page. -/
theorem thousandWords_dishonest :
    Guarded (step .release) Obeys (start .release (fun _ => 0) 0x800000 0x200000)
        (List.replicate 1024 (.alloc wordLayout)) ∧
      ∃ s, run (step .release) (start .release (fun _ => 0) 0x800000 0x200000)
        (List.replicate 1024 (.alloc wordLayout)) = some s ∧ ¬Honest .release s.heap wordLayout := by
  have hobeys : Guarded (step .release) Obeys (start .release (fun _ => 0) 0x800000 0x200000)
      (List.replicate 1024 (.alloc wordLayout)) := obeys_allocs (by decide) 1024 _
  have hfit : 0x800000 + max 0x200000 (10 * 4096) ≤ usizeRange := by decide
  have hcounted := hobeys.always (step_allCounted .release (by decide) hfit (by decide))
    (start_allCounted .release _ (by decide) hfit)
  obtain ⟨s, hrun, hcounts⟩ := Option.map_eq_some_iff.mp thousandWords_counts
  simp only [Prod.mk.injEq] at hcounts
  obtain ⟨hfree, htotal, hbump, hsize⟩ := hcounts
  have hcap : Capped s.heap wordLayout :=
    ⟨wordClass, by decide, hfree, htotal, by rw [hbump, hsize]; decide⟩
  refine ⟨hobeys, s, hrun, fun hhonest => ?_⟩
  exact (honest_iff (by decide) hfit (by decide) (by decide) (hcounted.last.2 s hrun).heap).mp hhonest
    hcap

end DeltaOS.HeapFailures
