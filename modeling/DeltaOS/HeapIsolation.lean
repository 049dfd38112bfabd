import DeltaOS.HeapBlocks
import DeltaOS.HeapProfiles
import DeltaOS.Runs

namespace DeltaOS.HeapIsolation

open ByteMemory Overflow Ranges Runs Heap HeapBlocks HeapProfiles SlabAllocator

variable {h : SlabAllocator} {i : Fin slabClasses} {slab : SlabClass} {frontier : Nat}
  {live : List (Nat × Layout)}

/-- The class after the loop that cuts `n` blocks off a page. -/
def withBlocks (slab : SlabClass) (page n : Nat) : SlabClass :=
  { slab with
    freeList := ((List.range n).map fun j => page + j * slab.blockSize).reverse ++ slab.freeList
    totalCount := slab.totalCount + n }

theorem addBlocks_debug {page n : Nat} (hfree : slab.freeCount + n ≤ maxBlocksPerClass)
    (hpos : 0 < slab.blockSize) (hpage : page + n * slab.blockSize ≤ usizeRange) :
    slab.addBlocks .debug page n = some (withBlocks slab page n) := by
  induction n with
  | zero => simp [SlabClass.addBlocks, withBlocks]
  | succ n ih =>
    have hmul : (n + 1) * slab.blockSize = n * slab.blockSize + slab.blockSize := Nat.succ_mul _ _
    have hrest := ih (by omega) (by omega)
    rw [SlabClass.addBlocks] at hrest ⊢
    rw [List.range_succ, List.foldlM_append, hrest]
    have haddr : add .debug page (n * slab.blockSize) = some (page + n * slab.blockSize) :=
      add_ok (by omega)
    have hroom : (withBlocks slab page n).freeCount < maxBlocksPerClass := by
      simp only [withBlocks, SlabClass.freeCount, List.length_append, List.length_reverse,
        List.length_map, List.length_range] at hfree ⊢
      omega
    simp only [Option.bind_eq_bind, Option.bind_some, List.foldlM_cons, List.foldlM_nil,
      SlabClass.addBlock, SlabClass.push, if_pos hroom]
    simp [withBlocks, haddr, List.range_succ, Nat.add_assoc]

theorem classBlocks_withBlocks (hsize : slab.blockSize = classSize i) (hfree : slab.freeList = [])
    (page n : Nat) :
    classBlocks i (withBlocks slab page n) = (blocks page (classSize i) n).reverse := by
  simp [classBlocks, withBlocks, blocks, hsize, hfree, List.map_reverse, Function.comp_def]

/-- What `init` and the calls keep fixed: the region, and the memory outside of it. -/
structure Kept (h h' : SlabAllocator) : Prop where
  heapStart : h'.heapStart = h.heapStart
  heapSize : h'.heapSize = h.heapSize
  outside : ∀ a, a < h.heapStart ∨ h.heapStart + h.heapSize ≤ a → h'.mem a = h.mem a

theorem Kept.refl (h : SlabAllocator) : Kept h h := ⟨rfl, rfl, fun _ _ => rfl⟩

theorem Kept.trans {h₁ h₂ : SlabAllocator} (hk₁ : Kept h h₁) (hk₂ : Kept h₁ h₂) : Kept h h₂ := by
  refine ⟨hk₂.heapStart.trans hk₁.heapStart, hk₂.heapSize.trans hk₁.heapSize, fun a ha => ?_⟩
  have ha₁ : a < h₁.heapStart ∨ h₁.heapStart + h₁.heapSize ≤ a := by
    rwa [hk₁.heapStart, hk₁.heapSize]
  exact (hk₂.outside a ha₁).trans (hk₁.outside a ha)

theorem fill_page_outside {off : Nat} (hin : off + 4096 ≤ h.heapSize) {a : Nat}
    (ha : a < h.heapStart ∨ h.heapStart + h.heapSize ≤ a) :
    fill h.mem (h.heapStart + off) 0 4096 a = h.mem a :=
  fill_apply_of_outside (by omega)

theorem initClass_debug (hc : Carved h frontier []) (hin : frontier + 4096 ≤ h.heapSize)
    (hfit : h.heapStart + frontier + 4096 ≤ usizeRange) (hlt : frontier + 4096 < usizeRange)
    (i : Fin slabClasses) :
    ∃ h', initClass .debug h.heapStart (h, frontier) i = some (h', frontier + 4096) ∧
      Kept h h' ∧ Carved h' (frontier + 4096) [] := by
  obtain ⟨hmul, hcount⟩ := pageBlocks_le i
  have hsize := hc.blockSize i
  have hroom : 4096 / classSize i ≤ maxBlocksPerClass := hcount.trans (by decide)
  have hpage : add .debug h.heapStart frontier = some (h.heapStart + frontier) :=
    add_ok (by omega)
  have hoffset : add .debug frontier 4096 = some (frontier + 4096) := add_ok hlt
  let slab : SlabClass := ⟨classSize i, [], 0, h.heapStart + frontier⟩
  have hblocks : slab.addBlocks .debug (h.heapStart + frontier) (4096 / classSize i) =
      some (withBlocks slab (h.heapStart + frontier) (4096 / classSize i)) := by
    apply addBlocks_debug
    · exact (Nat.zero_add _).trans_le hroom
    · exact classSize_pos i
    · exact (Nat.add_le_add_left hmul _).trans hfit
  have hc' : Carved { h with mem := fill h.mem (h.heapStart + frontier) 0 4096 } frontier [] :=
    ⟨hc.blockSize, hc.total, hc.packed⟩
  refine ⟨{ h with mem := fill h.mem (h.heapStart + frontier) 0 4096 }.setSlab i
    (withBlocks slab (h.heapStart + frontier) (4096 / classSize i)), ?_,
    ⟨rfl, rfl, fun a => fill_page_outside hin⟩, ?_⟩
  · simp only [initClass, hpage, hoffset, hsize, min_eq_left hroom, Option.bind_eq_bind,
      Option.bind_some]
    rw [hblocks]
    rfl
  · exact hc'.page rfl ((Nat.zero_add _).trans_le hroom) hmul (classBlocks_withBlocks rfl rfl _ _)

/-- The state of the loop of `init` with the classes `is` ahead. -/
def InitState (h : SlabAllocator) (is : List (Fin slabClasses)) (s : SlabAllocator × Nat) : Prop :=
  Kept h s.1 ∧ Carved s.1 s.2 [] ∧ s.2 + 4096 * is.length = 10 * 4096

theorem initState_step (hin : 10 * 4096 ≤ h.heapSize) (hfit : h.heapStart + 10 * 4096 ≤ usizeRange)
    (i : Fin slabClasses) (is : List (Fin slabClasses)) (s : SlabAllocator × Nat)
    (hs : InitState h (i :: is) s) :
    ∃ s', initClass .debug h.heapStart s i = some s' ∧ InitState h is s' := by
  obtain ⟨h₁, frontier⟩ := s
  obtain ⟨hk, hc, hlen⟩ := hs
  dsimp only at hk hc hlen
  rw [List.length_cons] at hlen
  have hend : frontier + 4096 ≤ 10 * 4096 := by omega
  have hin₁ : frontier + 4096 ≤ h₁.heapSize := (hend.trans hin).trans_eq hk.heapSize.symm
  have hfit₁ : h₁.heapStart + frontier + 4096 ≤ usizeRange := by
    rw [hk.heapStart]
    omega
  obtain ⟨h₂, hrun, hk₂, hc₂⟩ := initClass_debug hc hin₁ hfit₁ (hend.trans_lt (by decide)) i
  rw [hk.heapStart] at hrun
  exact ⟨(h₂, frontier + 4096), hrun, hk.trans hk₂, hc₂, show frontier + 4096 +
    4096 * is.length = _ by omega⟩

theorem initClasses_debug (hc : Carved h 0 []) (hin : 10 * 4096 ≤ h.heapSize)
    (hfit : h.heapStart + 10 * 4096 ≤ usizeRange) :
    ∃ h', (List.finRange slabClasses).foldlM (initClass .debug h.heapStart)
    (h, 0) = some (h', 10 * 4096) ∧
      Kept h h' ∧ Carved h' (10 * 4096) [] := by
  have hlen : 0 + 4096 * (List.finRange slabClasses).length = 10 * 4096 := by
    rw [List.length_finRange]
    decide
  have hstart : InitState h (List.finRange slabClasses) (h, 0) := ⟨.refl h, hc, hlen⟩
  obtain ⟨⟨h', frontier⟩, hrun, hk, hc', hfrontier⟩ := foldlM_total (initState_step hin hfit) _ hstart
  obtain rfl : frontier = 10 * 4096 := hfrontier
  exact ⟨h', hrun, hk, hc'⟩

theorem carved_new (mem : Memory) (start size : Nat) :
    Carved { SlabAllocator.new mem with heapStart := start, heapSize := size } 0 [] := by
  refine ⟨fun i => rfl, fun i => Nat.zero_le _, ?_⟩
  have hnil : extents { SlabAllocator.new mem with heapStart := start, heapSize := size } [] = [] := by
    simp [extents, freeBlocks, classBlocks, SlabAllocator.new, SlabClass.new]
  rw [hnil]
  exact packed_nil _ _

/-- The reachable states of a heap on the region `[base, base + size)`. -/
structure Sound (base size : Nat) (s : State) : Prop where
  heapStart : s.heap.heapStart = base
  heapSize : s.heap.heapSize = size
  bump_le : s.heap.bumpOffset ≤ size
  carved : Carved s.heap s.heap.bumpOffset s.live

variable {base size : Nat}

theorem start_debug (mem : Memory) (hsize : 10 * 4096 ≤ size) (hfit : base + size ≤ usizeRange) :
    ∃ s, start .debug mem base size = some s ∧ Sound base size s ∧
      ∀ a, a < base ∨ base + size ≤ a → s.heap.mem a = mem a := by
  obtain ⟨h, hrun, hk, hc⟩ := initClasses_debug (carved_new mem base size) hsize
    ((Nat.add_le_add_left hsize base).trans hfit)
  refine ⟨⟨{ h with bumpOffset := 10 * 4096, initialized := true }, []⟩, ?_, ⟨hk.heapStart, hk.heapSize,
    hsize, ⟨hc.blockSize, hc.total, hc.packed⟩⟩, hk.outside⟩
  simp only [start, init, SlabAllocator.new, Bool.false_eq_true, if_false] at hrun ⊢
  rw [hrun]
  rfl

/-- The result of an allocation of `len` bytes: the block is apart from all others. -/
structure Served (h : SlabAllocator) (live : List (Nat × Layout)) (len : Nat)
    (r : Nat × SlabAllocator) : Prop where
  kept : Kept h r.2
  bump_le : r.2.bumpOffset ≤ h.heapSize
  carved : Carved r.2 r.2.bumpOffset live
  packed : r.1 ≠ 0 → Packed r.2.heapStart (r.2.heapStart + r.2.bumpOffset)
    (⟨r.1, len⟩ :: extents r.2 live)

theorem served_null (hbump : h.bumpOffset ≤ h.heapSize) (hc : Carved h h.bumpOffset live) (len : Nat) :
    Served h live len (0, h) :=
  ⟨.refl h, hbump, hc, fun hne => absurd rfl hne⟩

theorem served_pop {ptr : Nat} (hbump : h.bumpOffset ≤ h.heapSize) (hc : Carved h h.bumpOffset live)
    (hpop : (h.slabs i).pop = some (ptr, slab)) :
    Served h live (classSize i) (ptr, h.setSlab i slab) := by
  obtain ⟨hc', hp⟩ := hc.pop hpop
  exact ⟨⟨rfl, rfl, fun _ _ => rfl⟩, hbump, hc', fun _ => hp⟩

/-- The heap after `alloc_from_slab` has taken a page for a class, and that class with the
blocks of the page. -/
def withPage (h : SlabAllocator) : SlabAllocator :=
  { h with
    bumpOffset := h.bumpOffset + 4096
    mem := fill h.mem (h.heapStart + h.bumpOffset) 0 4096 }

def refillCount (h : SlabAllocator) (i : Fin slabClasses) : Nat :=
  min (4096 / classSize i) (maxBlocksPerClass - (h.slabs i).totalCount)

def refilled (h : SlabAllocator) (i : Fin slabClasses) : SlabClass :=
  withBlocks (h.slabs i) (h.heapStart + h.bumpOffset) (refillCount h i)

theorem refillCount_mul_le (h : SlabAllocator) (i : Fin slabClasses) :
    refillCount h i * classSize i ≤ 4096 :=
  (Nat.mul_le_mul_right _ (min_le_left _ _)).trans (pageBlocks_le i).1

theorem carved_refilled (hc : Carved h frontier live) (hf : h.bumpOffset = frontier)
    (hfree : (h.slabs i).freeList = []) :
    Carved ((withPage h).setSlab i (refilled h i)) (frontier + 4096) live := by
  subst frontier
  have hc' : Carved (withPage h) h.bumpOffset live := ⟨hc.blockSize, hc.total, hc.packed⟩
  have htotal := hc.total i
  have hcount : refillCount h i ≤ maxBlocksPerClass - (h.slabs i).totalCount := min_le_right _ _
  refine hc'.page (hc.blockSize i) ?_ (refillCount_mul_le h i)
    (classBlocks_withBlocks (hc.blockSize i) hfree _ _)
  change (h.slabs i).totalCount + refillCount h i ≤ _
  omega

theorem allocFromSlab_refill (hblock : (h.slabs i).blockSize = classSize i)
    (htotal : (h.slabs i).totalCount ≤ maxBlocksPerClass) (hfree : (h.slabs i).freeList = [])
    (hroom : h.bumpOffset + 4096 ≤ h.heapSize) (htop : h.bumpOffset + 4096 < usizeRange)
    (hfit : h.heapStart + h.heapSize ≤ usizeRange) :
    h.allocFromSlab .debug i = match (refilled h i).pop with
      | some (ptr, slab) => some (ptr, (withPage h).setSlab i slab)
      | none => some (0, (withPage h).setSlab i (refilled h i)) := by
  have hpop := pop_eq_none_iff.mpr hfree
  have hnext : add .debug h.bumpOffset 4096 = some (h.bumpOffset + 4096) := add_ok htop
  have hpage : add .debug h.heapStart h.bumpOffset = some (h.heapStart + h.bumpOffset) :=
    add_ok (by omega)
  have hleft : sub .debug maxBlocksPerClass (h.slabs i).totalCount =
      some (maxBlocksPerClass - (h.slabs i).totalCount) := sub_debug htotal
  have hmul := refillCount_mul_le h i
  have hcount : refillCount h i ≤ maxBlocksPerClass - (h.slabs i).totalCount := min_le_right _ _
  have hblocks : (h.slabs i).addBlocks .debug (h.heapStart + h.bumpOffset) (refillCount h i) =
      some (refilled h i) := by
    apply addBlocks_debug
    · rw [SlabClass.freeCount, hfree, List.length_nil]
      omega
    · rw [hblock]
      exact classSize_pos i
    · rw [hblock]
      omega
  simp only [allocFromSlab, hpop, hnext, not_lt.mpr hroom, hpage, hleft, hblock,
    Option.bind_eq_bind, Option.bind_some, if_false, gt_iff_lt]
  rw [← refillCount, hblocks]
  rfl

theorem allocFromSlab_full {profile : Profile} (hpop : (h.slabs i).pop = none)
    (hnext : add profile h.bumpOffset 4096 = some (h.bumpOffset + 4096))
    (hfull : h.heapSize < h.bumpOffset + 4096) : h.allocFromSlab profile i = some (0, h) := by
  unfold allocFromSlab
  rw [hpop]
  dsimp only
  rw [hnext, Option.bind_eq_bind, Option.bind_some, if_pos hfull]
  rfl

theorem allocFromSlab_debug (hbump : h.bumpOffset ≤ h.heapSize) (hmax : h.heapSize ≤ 2 ^ 63)
    (hfit : h.heapStart + h.heapSize ≤ usizeRange) (hc : Carved h h.bumpOffset live)
    (i : Fin slabClasses) :
    ∃ r, h.allocFromSlab .debug i = some r ∧ Served h live (classSize i) r := by
  have hrange : usizeRange = 2 ^ 64 := rfl
  cases hlist : (h.slabs i).freeList with
  | cons ptr rest =>
    have hpop : (h.slabs i).pop = some (ptr, { h.slabs i with freeList := rest }) := by
      simp [SlabClass.pop, hlist]
    exact ⟨_, by simp only [allocFromSlab, hpop], served_pop hbump hc hpop⟩
  | nil =>
    by_cases hfull : h.heapSize < h.bumpOffset + 4096
    · have hpop := pop_eq_none_iff.mpr hlist
      have hnext : add .debug h.bumpOffset 4096 = some (h.bumpOffset + 4096) := add_ok (by omega)
      exact ⟨(0, h), allocFromSlab_full hpop hnext hfull, served_null hbump hc _⟩
    have hc' := carved_refilled hc rfl hlist
    have hbump' : h.bumpOffset + 4096 ≤ h.heapSize := not_lt.mp hfull
    have hk : ∀ slab, Kept h ((withPage h).setSlab i slab) :=
      fun _ => ⟨rfl, rfl, fun a => fill_page_outside hbump'⟩
    rw [allocFromSlab_refill (hc.blockSize i) (hc.total i) hlist hbump' (by omega) hfit]
    cases hpop : (refilled h i).pop with
    | none =>
      have hs := served_null (h := (withPage h).setSlab i (refilled h i)) hbump' hc' (classSize i)
      exact ⟨_, rfl, hk _, hs.bump_le, hs.carved, hs.packed⟩
    | some r =>
      have hpop' : (((withPage h).setSlab i (refilled h i)).slabs i).pop = some r := by
        rwa [setSlab_slabs, Function.update_self]
      have hs := served_pop hbump' hc' hpop'
      rw [setSlab_setSlab] at hs
      exact ⟨_, rfl, hk _, hs.bump_le, hs.carved, hs.packed⟩

theorem Layout.align_le_of_size_pos (l : Layout) (hpos : 0 < l.size) : ∃ k ≤ 62, l.align = 2 ^ k := by
  obtain ⟨k, hk⟩ := l.align_pow
  have hle := l.size_le
  refine ⟨k, ?_, hk⟩
  have hlt : 2 ^ k < 2 ^ 63 := by omega
  have := (Nat.pow_lt_pow_iff_right (by decide : 1 < 2)).mp hlt
  omega

section

variable {profile : Profile} {len align sum top offset ptr : Nat}

theorem allocBump_full (hsum : add profile h.bumpOffset align = some sum)
    (htop : sub profile sum 1 = some top)
    (hoffset : add profile (alignDown top align) len = some offset) (hfull : h.heapSize < offset) :
    h.allocBump profile len align = some (0, h) := by
  unfold allocBump
  rw [hsum, Option.bind_eq_bind, Option.bind_some, htop, Option.bind_some]
  dsimp only
  rw [hoffset, Option.bind_some, if_pos hfull]
  rfl

theorem allocBump_served (hsum : add profile h.bumpOffset align = some sum)
    (htop : sub profile sum 1 = some top)
    (hoffset : add profile (alignDown top align) len = some offset) (hfits : ¬h.heapSize < offset)
    (hptr : add profile h.heapStart (alignDown top align) = some ptr) :
    h.allocBump profile len align = some (ptr, { h with bumpOffset := offset }) := by
  unfold allocBump
  rw [hsum, Option.bind_eq_bind, Option.bind_some, htop, Option.bind_some]
  dsimp only
  rw [hoffset, Option.bind_some, if_neg hfits, hptr]
  rfl

end

theorem allocBump_debug (hbump : h.bumpOffset ≤ h.heapSize) (hmax : h.heapSize ≤ 2 ^ 63)
    (hfit : h.heapStart + h.heapSize ≤ usizeRange) (hc : Carved h h.bumpOffset live)
    (l : Layout) (hpos : 0 < l.size) :
    ∃ r, h.allocBump .debug l.alignedSize l.align = some r ∧ Served h live l.alignedSize r := by
  have hrange : usizeRange = 2 ^ 64 := rfl
  obtain ⟨k, hk, halign⟩ := Layout.align_le_of_size_pos l hpos
  have hpow : 0 < 2 ^ k ∧ 2 ^ k ≤ 2 ^ 62 := ⟨Nat.two_pow_pos k, Nat.pow_le_pow_right (by decide) hk⟩
  have hlayout := l.size_le
  have hsize : l.size ≤ l.alignedSize ∧ l.alignedSize + l.align ≤ 2 ^ 63 := by
    refine ⟨size_le_alignedSize l, ?_⟩
    unfold Layout.alignedSize
    split <;> omega
  rw [halign] at hsize hlayout ⊢
  let top := h.bumpOffset + 2 ^ k - 1
  have htop : top < usizeRange := by omega
  have hle : alignDown top (2 ^ k) ≤ top := alignDown_le htop (by omega)
  have hge : top < alignDown top (2 ^ k) + 2 ^ k := lt_alignDown_add htop (by omega)
  have h₁ : add .debug h.bumpOffset (2 ^ k) = some (h.bumpOffset + 2 ^ k) := add_ok (by omega)
  have h₂ : sub .debug (h.bumpOffset + 2 ^ k) 1 = some top := sub_debug (by omega)
  have h₃ : add .debug (alignDown top (2 ^ k)) l.alignedSize =
      some (alignDown top (2 ^ k) + l.alignedSize) := add_ok (by omega)
  by_cases hfull : h.heapSize < alignDown top (2 ^ k) + l.alignedSize
  · exact ⟨(0, h), allocBump_full h₁ h₂ h₃ hfull, served_null hbump hc _⟩
  have h₄ : add .debug h.heapStart (alignDown top (2 ^ k)) =
      some (h.heapStart + alignDown top (2 ^ k)) := add_ok (by omega)
  refine ⟨(h.heapStart + alignDown top (2 ^ k),
    { h with bumpOffset := alignDown top (2 ^ k) + l.alignedSize }),
    allocBump_served h₁ h₂ h₃ hfull h₄, ?_⟩
  have hnew : Packed (h.heapStart + h.bumpOffset)
      (h.heapStart + (alignDown top (2 ^ k) + l.alignedSize))
      [⟨h.heapStart + alignDown top (2 ^ k), l.alignedSize⟩] :=
    packed_singleton ⟨show h.heapStart + h.bumpOffset ≤ h.heapStart + alignDown top (2 ^ k) by omega,
      (Nat.add_assoc _ _ _).le⟩
  have hall := (hc.packed.append hnew (by omega) (by omega)).perm
    (List.perm_append_singleton _ _).symm
  exact ⟨⟨rfl, rfl, fun _ _ => rfl⟩, not_lt.mp hfull,
    ⟨hc.blockSize, hc.total, hall.subperm (List.sublist_cons_self _ _).subperm⟩, fun _ => hall⟩

variable {s : State}

theorem alloc_debug (hs : Sound base size s) (hmax : size ≤ 2 ^ 63) (hfit : base + size ≤ usizeRange)
    (l : Layout) (hpos : 0 < l.size) :
    ∃ r, s.heap.alloc .debug l = some r ∧ Served s.heap s.live (footprint l) r := by
  have hbump := hs.bump_le
  rw [← hs.heapSize] at hmax hbump hfit
  rw [← hs.heapStart] at hfit
  unfold SlabAllocator.alloc footprint
  cases hclass : findSlabClass l.alignedSize with
  | none => exact allocBump_debug hbump hmax hfit hs.carved l hpos
  | some i =>
    have halign : (s.heap.slabs i).blockSize ≥ l.align := by
      rw [hs.carved.blockSize]
      exact (align_le_alignedSize l).trans (le_classSize hclass)
    simp only [if_pos halign]
    exact allocFromSlab_debug hbump hmax hfit hs.carved i

theorem carved_erase (hc : Carved h frontier live) (a : Nat × Layout) :
    Carved h frontier (live.erase a) :=
  ⟨hc.blockSize, hc.total, hc.packed.subperm ((List.erase_sublist.map _).append_right _).subperm⟩

theorem carved_freeToSlab {a : Nat × Layout} (hc : Carved h frontier live) (ha : a ∈ live)
    (hclass : findSlabClass a.2.alignedSize = some i) :
    Carved (h.freeToSlab a.1 i) frontier (live.erase a) := by
  unfold SlabAllocator.freeToSlab SlabClass.push
  split_ifs with hroom
  · have hextent : extent a = ⟨a.1, classSize i⟩ := by simp [extent, footprint, hclass]
    have hlive := (List.perm_cons_erase ha).map extent
    rw [List.map_cons, hextent] at hlive
    apply hc.setSlab
    · exact hc.blockSize i
    · exact hc.total i
    · apply hc.packed.perm
      refine List.Perm.trans ?_ (extents_perm h i live).symm
      simp only [classBlocks, List.map_cons, List.cons_append]
      exact List.perm_middle.symm.trans ((hlive.append_right _).symm.append_left _)
  · exact carved_erase hc a

theorem kept_freeToSlab (h : SlabAllocator) (ptr : Nat) (i : Fin slabClasses) :
    Kept h (h.freeToSlab ptr i) ∧ (h.freeToSlab ptr i).bumpOffset = h.bumpOffset := by
  unfold SlabAllocator.freeToSlab
  split <;> exact ⟨⟨rfl, rfl, fun _ _ => rfl⟩, rfl⟩

theorem Sound.dealloc (hs : Sound base size s) {ptr : Nat} {l : Layout} (ha : (ptr, l) ∈ s.live) :
    Sound base size ⟨s.heap.dealloc ptr l, s.live.erase (ptr, l)⟩ := by
  unfold SlabAllocator.dealloc
  cases hclass : findSlabClass l.alignedSize with
  | none => exact ⟨hs.heapStart, hs.heapSize, hs.bump_le, carved_erase hs.carved _⟩
  | some i =>
    obtain ⟨hk, hbump⟩ := kept_freeToSlab s.heap ptr i
    refine ⟨hk.heapStart.trans hs.heapStart, hk.heapSize.trans hs.heapSize,
      hbump.trans_le hs.bump_le, ?_⟩
    change Carved _ (s.heap.freeToSlab ptr i).bumpOffset _
    rw [hbump]
    exact carved_freeToSlab hs.carved ha hclass

theorem kept_dealloc (h : SlabAllocator) (ptr : Nat) (l : Layout) : Kept h (h.dealloc ptr l) := by
  unfold SlabAllocator.dealloc
  cases findSlabClass l.alignedSize with
  | none => exact .refl h
  | some i => exact (kept_freeToSlab h ptr i).1

theorem Served.sound {r : Nat × SlabAllocator} {l : Layout} (hs : Sound base size s)
    (hr : Served s.heap s.live (footprint l) r) :
    Sound base size ⟨r.2, if r.1 = 0 then s.live else (r.1, l) :: s.live⟩ := by
  refine ⟨hr.kept.heapStart.trans hs.heapStart, hr.kept.heapSize.trans hs.heapSize,
    hs.heapSize ▸ hr.bump_le, ?_⟩
  split_ifs with hnull
  · exact hr.carved
  · exact ⟨hr.carved.blockSize, hr.carved.total, hr.packed hnull⟩

theorem step_debug (hs : Sound base size s) (hmax : size ≤ 2 ^ 63) (hfit : base + size ≤ usizeRange)
    (op : Op) (hop : Obeys (some s) op) :
    ∃ s', step .debug (some s) op = some s' ∧ Sound base size s' ∧ Kept s.heap s'.heap := by
  cases op with
  | alloc l =>
    obtain ⟨r, hrun, hr⟩ := alloc_debug hs hmax hfit l hop
    exact ⟨_, by rw [step, hrun, Option.map_some], hr.sound hs, hr.kept⟩
  | dealloc ptr l => exact ⟨_, rfl, hs.dealloc hop, kept_dealloc s.heap ptr l⟩

/-- The live allocations overlap neither each other nor a free block, and lie in the heap. -/
structure Isolated (base size : Nat) (s : State) : Prop where
  apart : s.live.Pairwise fun a b => Range.Apart ⟨a.1, a.2.size⟩ ⟨b.1, b.2.size⟩
  within : ∀ a ∈ s.live, Range.Within ⟨a.1, a.2.size⟩ base (base + size)
  free : ∀ a ∈ s.live, ∀ i, ∀ addr ∈ (s.heap.slabs i).freeList,
    Range.Apart ⟨a.1, a.2.size⟩ ⟨addr, (s.heap.slabs i).blockSize⟩

theorem mem_freeBlocks {addr : Nat} (haddr : addr ∈ (h.slabs i).freeList) :
    (⟨addr, classSize i⟩ : Range) ∈ freeBlocks h :=
  List.mem_flatMap.mpr ⟨i, List.mem_finRange i, List.mem_map.mpr ⟨addr, haddr, rfl⟩⟩

theorem Sound.isolated (hs : Sound base size s) : Isolated base size s := by
  obtain ⟨happart, hwithin⟩ := hs.carved.packed
  obtain ⟨hlive, -, hfree⟩ := List.pairwise_append.mp happart
  have hshrink : ∀ {a : Nat × Layout} {r : Range}, (extent a).Apart r →
      Range.Apart ⟨a.1, a.2.size⟩ r := fun hr => hr.shrink (size_le_footprint _)
  refine ⟨?_, fun a ha => ?_, fun a ha i addr haddr => ?_⟩
  · refine (List.pairwise_map.mp hlive).imp fun hab => ?_
    exact (hshrink (hshrink hab).symm).symm
  · have hin := hwithin (extent a) (List.mem_append_left _ (List.mem_map_of_mem ha))
    have hsize := size_le_footprint a.2
    have hbump := hs.bump_le
    rw [hs.heapStart] at hin
    have hend : a.1 + footprint a.2 ≤ base + s.heap.bumpOffset := hin.2
    exact ⟨hin.1, show a.1 + a.2.size ≤ base + size by omega⟩
  · rw [hs.carved.blockSize]
    exact hshrink (hfree _ (List.mem_map_of_mem ha) _ (mem_freeBlocks haddr))

/-- On a region of at most `2 ^ 63` bytes the heap keeps its allocations apart, and a build
with overflow checks goes through the same states, so that nothing wraps around. -/
theorem heap_isolated (mem : Memory) (base size : Nat) (hmin : 10 * 4096 ≤ size) (hmax : size ≤ 2 ^ 63)
    (hfit : base + size ≤ 2 ^ 64) (ops : List Op)
    (hobeys : Guarded (step .release) Obeys (start .release mem base size) ops) :
    Always (step .release) (fun o => ∃ s, o = some s ∧ Isolated base size s)
        (start .release mem base size) ops ∧
      run (step .debug) (start .debug mem base size) ops =
        run (step .release) (start .release mem base size) ops := by
  obtain ⟨s₀, hstart, hsound, -⟩ := start_debug mem hmin hfit
  have hstart' := start_release hstart
  have hstep : ∀ o op, (∃ s, o = some s ∧ Sound base size s) → Obeys o op →
      (∃ s, step .release o op = some s ∧ Sound base size s) ∧
        step .debug o op = step .release o op := by
    rintro _ op ⟨s, rfl, hs⟩ hop
    obtain ⟨s', hrun, hs', -⟩ := step_debug hs hmax hfit op hop
    exact ⟨⟨s', step_release hrun, hs'⟩, hrun.trans (step_release hrun).symm⟩
  have h0 : ∃ s, start .release mem base size = some s ∧ Sound base size s := ⟨s₀, hstart', hsound⟩
  constructor
  · refine (hobeys.always (fun o op h hop => (hstep o op h hop).1) h0).mono ?_
    rintro _ ⟨s, rfl, hs⟩
    exact ⟨s, rfl, hs.isolated⟩
  · rw [hstart, ← hstart']
    exact hobeys.run_congr (fun o op h hop => (hstep o op h hop).1)
      (fun o op h hop => (hstep o op h hop).2) h0

def smallLayout : Layout := ⟨100, 8, ⟨3, rfl⟩, by decide⟩

def allocAndFree : List Op := [.alloc smallLayout, .dealloc 0x804F80 smallLayout]

theorem allocAndFree_isolated :
    Always (step .release) (fun o => ∃ s, o = some s ∧ Isolated 0x800000 0x200000 s)
        (start .release (fun _ => 0) 0x800000 0x200000) allocAndFree ∧
      run (step .debug) (start .debug (fun _ => 0) 0x800000 0x200000) allocAndFree =
        run (step .release) (start .release (fun _ => 0) 0x800000 0x200000) allocAndFree :=
  heap_isolated _ 0x800000 0x200000 (by decide) (by decide) (by decide) allocAndFree (by decide +kernel)

theorem bytes_align : ∃ k, 1 = 2 ^ k := ⟨0, rfl⟩

theorem hugeAllocs_size : 2 ^ 63 - 40959 + 1 ≤ 2 ^ 63 ∧ 2 ^ 63 - 1 + 1 ≤ 2 ^ 63 := by decide

/-- Two allocations that fill a heap of `2 ^ 63 + 1` bytes and then wrap its bump offset. -/
def hugeAllocs : List Op :=
  [.alloc ⟨2 ^ 63 - 40959, 1, bytes_align, hugeAllocs_size.1⟩,
    .alloc ⟨2 ^ 63 - 1, 1, bytes_align, hugeAllocs_size.2⟩]

theorem hugeAllocs_not_isolated :
    10 * 4096 ≤ 2 ^ 63 + 1 ∧ 0x800000 + (2 ^ 63 + 1) ≤ 2 ^ 64 ∧
      Guarded (step .release) Obeys (start .release (fun _ => 0) 0x800000 (2 ^ 63 + 1)) hugeAllocs ∧
      ¬Always (step .release) (fun o => ∃ s, o = some s ∧ Isolated 0x800000 (2 ^ 63 + 1) s)
        (start .release (fun _ => 0) 0x800000 (2 ^ 63 + 1)) hugeAllocs := by
  refine ⟨by decide, by decide, by decide +kernel, fun h => ?_⟩
  obtain ⟨s, hs, hi⟩ := h.last
  have hlive : (run (step .release) (start .release (fun _ => 0) 0x800000 (2 ^ 63 + 1))
      hugeAllocs).map (fun s => s.live.map fun a => (a.1, a.2.size)) =
      some [(0x800000 + (2 ^ 63 + 1), 2 ^ 63 - 1), (0x800000 + 40960, 2 ^ 63 - 40959)] := by
    decide +kernel
  rw [hs, Option.map_some, Option.some.injEq] at hlive
  obtain ⟨a, rest, hcons, ha, -⟩ := List.map_eq_cons_iff.mp hlive
  have hin := (hi.within a (hcons ▸ List.mem_cons_self)).2
  obtain ⟨hptr, hsize⟩ := Prod.mk.inj ha
  simp only [hptr, hsize] at hin
  omega

end DeltaOS.HeapIsolation
