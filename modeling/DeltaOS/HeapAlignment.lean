import DeltaOS.HeapBlocks
import DeltaOS.Runs

namespace DeltaOS.HeapAlignment

open ByteMemory Overflow Runs Heap HeapBlocks SlabAllocator

theorem classSize_eq (i : Fin slabClasses) : classSize i = 2 ^ (3 + i.val) := by
  rw [classSize, Nat.shiftLeft_eq, pow_add]
  rfl

theorem classExponent_le (i : Fin slabClasses) : 3 + i.val ≤ 12 :=
  Nat.add_le_add_left (Nat.lt_succ_iff.mp i.isLt) 3

theorem classSize_dvd_page (i : Fin slabClasses) : classSize i ∣ 4096 := by
  rw [classSize_eq]
  exact Nat.pow_dvd_pow 2 (classExponent_le i)

theorem Layout.align_dvd_usizeRange (l : Layout) : ∃ k ≤ 64, l.align = 2 ^ k := by
  obtain ⟨k, hk⟩ := l.align_pow
  have hle : 2 ^ k ≤ 2 ^ 63 := by
    have := l.size_le
    omega
  exact ⟨k, ((Nat.pow_le_pow_iff_right (by decide : 1 < 2)).mp hle).trans (by decide), hk⟩

theorem align_dvd_classSize {l : Layout} {i : Fin slabClasses}
    (hclass : findSlabClass l.alignedSize = some i) : l.align ∣ classSize i := by
  obtain ⟨k, hk⟩ := l.align_pow
  have hle := (align_le_alignedSize l).trans (le_classSize hclass)
  rw [classSize_eq] at hle ⊢
  rw [hk] at hle ⊢
  exact Nat.pow_dvd_pow 2 ((Nat.pow_le_pow_iff_right (by decide)).mp hle)

theorem dvd_add_release {d k a b c : Nat} (hd : d = 2 ^ k) (hk : k ≤ 64) (ha : d ∣ a) (hb : d ∣ b)
    (hadd : add .release a b = some c) : d ∣ c := by
  simp only [add, Option.some.injEq] at hadd
  rw [← hadd]
  have hrange : d ∣ usizeRange := hd ▸ Nat.pow_dvd_pow 2 hk
  exact (Nat.dvd_mod_iff hrange).mpr (dvd_add ha hb)

theorem addBlocks_spec {profile : Profile} {slab slab' : SlabClass} {page n : Nat}
    (h : slab.addBlocks profile page n = some slab') :
    slab'.blockSize = slab.blockSize ∧ slab'.totalCount = slab.totalCount + n ∧
      ∀ addr ∈ slab'.freeList, addr ∈ slab.freeList ∨
        ∃ j, j < n ∧ add profile page (j * slab.blockSize) = some addr := by
  induction n generalizing slab' with
  | zero =>
    cases h
    exact ⟨rfl, rfl, fun _ => .inl⟩
  | succ n ih =>
    rw [SlabClass.addBlocks, List.range_succ, List.foldlM_append] at h
    simp only [Option.bind_eq_bind, Option.bind_eq_some_iff, List.foldlM_cons, List.foldlM_nil,
      SlabClass.addBlock, SlabClass.push, Option.ite_none_right_eq_some] at h
    obtain ⟨slab₁, hrun, _, ⟨addr, hadd, _, ⟨-, hpush⟩, hcount⟩, hret⟩ := h
    cases hpush
    cases hcount
    cases hret
    obtain ⟨hsize, htotal, hfree⟩ := ih hrun
    refine ⟨hsize, ?_, fun a ha => ?_⟩
    · change slab₁.totalCount + 1 = _
      omega
    obtain rfl | ha := List.mem_cons.mp ha
    · exact .inr ⟨n, Nat.lt_succ_self n, hsize ▸ hadd⟩
    · obtain ha | ⟨j, hj, ha⟩ := hfree a ha
      · exact .inl ha
      · exact .inr ⟨j, by omega, ha⟩

/-- Every free block of a class is a multiple of the class's block size. -/
structure SlabAligned (i : Fin slabClasses) (slab : SlabClass) : Prop where
  blockSize : slab.blockSize = classSize i
  total : slab.totalCount ≤ maxBlocksPerClass
  free : ∀ addr ∈ slab.freeList, classSize i ∣ addr

structure HeapAligned (base : Nat) (h : SlabAllocator) : Prop where
  heapStart : h.heapStart = base
  slab : ∀ i, SlabAligned i (h.slabs i)

variable {i : Fin slabClasses} {slab slab' : SlabClass} {h : SlabAllocator} {base page n : Nat}

theorem SlabAligned.pop {ptr : Nat} (hs : SlabAligned i slab) (hpop : slab.pop = some (ptr, slab')) :
    classSize i ∣ ptr ∧ SlabAligned i slab' := by
  obtain ⟨hlist, hsize, htotal⟩ := pop_eq_some hpop
  have hfree := hs.free
  rw [hlist] at hfree
  exact ⟨hfree ptr List.mem_cons_self, hsize.trans hs.blockSize, htotal.trans_le hs.total,
    fun addr ha => hfree addr (List.mem_cons_of_mem _ ha)⟩

theorem SlabAligned.addBlocks (hs : SlabAligned i slab) (hn : slab.totalCount + n ≤ maxBlocksPerClass)
    (hpage : 0 < n → classSize i ∣ page) (hrun : slab.addBlocks .release page n = some slab') :
    SlabAligned i slab' := by
  obtain ⟨hsize, htotal, hfree⟩ := addBlocks_spec hrun
  refine ⟨hsize.trans hs.blockSize, htotal.trans_le hn, fun addr ha => ?_⟩
  obtain ha | ⟨j, hj, hadd⟩ := hfree addr ha
  · exact hs.free addr ha
  · rw [hs.blockSize] at hadd
    exact dvd_add_release (classSize_eq i) ((classExponent_le i).trans (by decide))
      (hpage (by omega)) (Dvd.intro_left j rfl) hadd

theorem HeapAligned.setSlab (hh : HeapAligned base h) (hs : SlabAligned i slab) :
    HeapAligned base (h.setSlab i slab) := by
  refine ⟨hh.heapStart, fun j => ?_⟩
  by_cases hj : j = i
  · subst j
    rwa [setSlab_slabs, Function.update_self]
  · rw [setSlab_slabs, Function.update_of_ne hj]
    exact hh.slab j

theorem initClass_aligned (hbase : 4096 ∣ base) {s s' : SlabAllocator × Nat}
    (hs : HeapAligned base s.1 ∧ 4096 ∣ s.2) (hrun : initClass .release base s i = some s') :
    HeapAligned base s'.1 ∧ 4096 ∣ s'.2 := by
  simp only [initClass, Option.bind_eq_bind, Option.bind_eq_some_iff] at hrun
  obtain ⟨page, hpage, slab, hblocks, offset, hoffset, hret⟩ := hrun
  cases hret
  have hsize := (hs.1.slab i).blockSize
  have hdvd : classSize i ∣ page :=
    (classSize_dvd_page i).trans (dvd_add_release (k := 12) rfl (by decide) hbase hs.2 hpage)
  refine ⟨?_, dvd_add_release (k := 12) rfl (by decide) hs.2 dvd_rfl hoffset⟩
  have hempty : SlabAligned i ⟨(s.1.slabs i).blockSize, [], 0, page⟩ :=
    ⟨hsize, Nat.zero_le _, by simp⟩
  apply HeapAligned.setSlab
  · exact ⟨hs.1.heapStart, hs.1.slab⟩
  · exact hempty.addBlocks ((Nat.zero_add _).trans_le (min_le_right _ _)) (fun _ => hdvd) hblocks

theorem start_aligned (mem : Memory) (hbase : 4096 ∣ base) {size : Nat} {s : State}
    (hrun : start .release mem base size = some s) : HeapAligned base s.heap ∧ s.live = [] := by
  obtain ⟨h, hinit, rfl⟩ := Option.map_eq_some_iff.mp hrun
  simp only [init, SlabAllocator.new, Bool.false_eq_true, if_false, Option.bind_eq_bind,
    Option.bind_eq_some_iff] at hinit
  obtain ⟨s, hfold, hret⟩ := hinit
  cases hret
  have hnew : ∀ i, SlabAligned i (SlabClass.new (slabMinSize <<< i.val)) := fun i =>
    ⟨rfl, Nat.zero_le _, by simp [SlabClass.new]⟩
  have hs := foldlM_invariant (P := fun s : SlabAllocator × Nat => HeapAligned base s.1 ∧ 4096 ∣ s.2)
    (fun s i s' => initClass_aligned hbase) _ ⟨⟨rfl, hnew⟩, dvd_zero _⟩ hfold
  exact ⟨⟨hs.1.heapStart, hs.1.slab⟩, rfl⟩

def RefillsAligned (h : SlabAllocator) (i : Fin slabClasses) : Prop :=
  (h.slabs i).freeList = [] → (h.bumpOffset + 4096) % usizeRange ≤ h.heapSize →
    (h.slabs i).totalCount < maxBlocksPerClass → (h.slabs i).blockSize ∣ h.bumpOffset

instance (h : SlabAllocator) (i : Fin slabClasses) : Decidable (RefillsAligned h i) :=
  inferInstanceAs (Decidable (_ → _ → _ → _))

theorem refilled_aligned (hbase : 4096 ∣ base) (hslab : SlabAligned i (h.slabs i))
    (hfree : (h.slabs i).freeList = [])
    (hsize : (h.bumpOffset + 4096) % usizeRange ≤ h.heapSize) (hrefill : RefillsAligned h i)
    {page room : Nat} (hpage : add .release base h.bumpOffset = some page)
    (hroom : sub .release maxBlocksPerClass (h.slabs i).totalCount = some room)
    (hblocks : (h.slabs i).addBlocks .release page (min (4096 / (h.slabs i).blockSize) room) =
      some slab) :
    SlabAligned i slab := by
  have htotal := hslab.total
  have hroom' : room = maxBlocksPerClass - (h.slabs i).totalCount :=
    Option.some.inj (hroom.symm.trans (sub_release_of_debug (by decide) (sub_debug htotal)))
  refine hslab.addBlocks ?_ (fun hpos => ?_) hblocks
  · omega
  · have hbump := hrefill hfree hsize (by omega)
    rw [hslab.blockSize] at hbump
    exact dvd_add_release (classSize_eq i) ((classExponent_le i).trans (by decide))
      ((classSize_dvd_page i).trans hbase) hbump hpage

theorem allocFromSlab_aligned (hbase : 4096 ∣ base) (hh : HeapAligned base h)
    (hrefill : RefillsAligned h i) {r : Nat × SlabAllocator}
    (hrun : h.allocFromSlab .release i = some r) : classSize i ∣ r.1 ∧ HeapAligned base r.2 := by
  have hslab := hh.slab i
  cases hpop : (h.slabs i).pop with
  | some p =>
    simp only [allocFromSlab, hpop, Option.some.injEq] at hrun
    subst r
    obtain ⟨hptr, hslab'⟩ := hslab.pop hpop
    exact ⟨hptr, hh.setSlab hslab'⟩
  | none =>
    have hfree := pop_eq_none_iff.mp hpop
    simp only [allocFromSlab, hpop, Option.bind_eq_bind, Option.bind_eq_some_iff] at hrun
    obtain ⟨next, hnext, hrest⟩ := hrun
    split_ifs at hrest with hfull
    · cases hrest
      exact ⟨dvd_zero _, hh⟩
    simp only [Option.bind_eq_some_iff] at hrest
    obtain ⟨page, hpage, room, hroom, slab, hblocks, hret⟩ := hrest
    simp only [add, Option.some.injEq] at hnext
    rw [hh.heapStart] at hpage
    have hslab' := refilled_aligned hbase hslab hfree (by omega) hrefill hpage hroom hblocks
    have hh' : HeapAligned base
        { h with bumpOffset := next, mem := fill h.mem page 0 4096 } := ⟨hh.heapStart, hh.slab⟩
    cases hpop' : slab.pop with
    | none =>
      rw [hpop'] at hret
      cases hret
      exact ⟨dvd_zero _, hh'.setSlab hslab'⟩
    | some p =>
      rw [hpop'] at hret
      cases hret
      obtain ⟨hptr, hslab''⟩ := hslab'.pop hpop'
      exact ⟨hptr, hh'.setSlab hslab''⟩

theorem allocBump_aligned (hh : HeapAligned base h) {l : Layout} {r : Nat × SlabAllocator}
    (hrun : h.allocBump .release l.alignedSize l.align = some r) :
    (l.align ∣ base → l.align ∣ r.1) ∧ HeapAligned base r.2 := by
  obtain ⟨k, hk, halign⟩ := Layout.align_dvd_usizeRange l
  simp only [allocBump, Option.bind_eq_bind, Option.bind_eq_some_iff] at hrun
  obtain ⟨sum, -, top, htop, offset, -, hrest⟩ := hrun
  split_ifs at hrest
  · cases hrest
    exact ⟨fun _ => dvd_zero _, hh⟩
  simp only [Option.bind_eq_some_iff] at hrest
  obtain ⟨ptr, hptr, hret⟩ := hrest
  cases hret
  refine ⟨fun hbase => ?_, hh.heapStart, hh.slab⟩
  have htop' : top < usizeRange := by
    simp only [sub, Option.some.injEq] at htop
    rw [← htop]
    exact Nat.mod_lt _ (by decide)
  rw [hh.heapStart] at hptr
  rw [halign] at hbase hptr ⊢
  exact dvd_add_release rfl hk hbase (dvd_alignDown htop' hk) hptr

/-- The live blocks of the slab classes are multiples of their block size. -/
structure Aligned (base : Nat) (s : State) : Prop where
  heap : HeapAligned base s.heap
  live : ∀ a ∈ s.live, ∀ i, findSlabClass a.2.alignedSize = some i → classSize i ∣ a.1

def RefillAligned : Option State → Op → Prop
  | some s, .alloc l => ∀ i, findSlabClass l.alignedSize = some i → RefillsAligned s.heap i
  | _, _ => True

instance (o : Option State) (op : Op) : Decidable (RefillAligned o op) :=
  match o, op with
  | some s, .alloc l =>
    inferInstanceAs (Decidable (∀ i, findSlabClass l.alignedSize = some i → RefillsAligned s.heap i))
  | some _, .dealloc _ _ => isTrue trivial
  | none, _ => isTrue trivial

/-- What `alloc` owes a caller whose alignment divides the start of the heap. -/
def AlignedCall (base : Nat) (o : Option State) (op : Op) : Prop :=
  ∀ s l, o = some s → op = .alloc l → l.align ∣ base →
    ∀ ptr h', s.heap.alloc .release l = some (ptr, h') → ptr ≠ 0 → l.align ∣ ptr

variable {s : State}

theorem alloc_aligned (hbase : 4096 ∣ base) (hs : Aligned base s) {l : Layout}
    (hrefill : RefillAligned (some s) (.alloc l)) {r : Nat × SlabAllocator}
    (hrun : s.heap.alloc .release l = some r) :
    (l.align ∣ base → l.align ∣ r.1) ∧ HeapAligned base r.2 ∧
      ∀ i, findSlabClass l.alignedSize = some i → classSize i ∣ r.1 := by
  unfold SlabAllocator.alloc at hrun
  cases hclass : findSlabClass l.alignedSize with
  | none =>
    simp only [hclass] at hrun
    obtain ⟨hptr, hh⟩ := allocBump_aligned hs.heap hrun
    exact ⟨hptr, hh, by simp⟩
  | some i =>
    have halign : (s.heap.slabs i).blockSize ≥ l.align := by
      rw [(hs.heap.slab i).blockSize]
      exact (align_le_alignedSize l).trans (le_classSize hclass)
    simp only [hclass, if_pos halign] at hrun
    obtain ⟨hptr, hh⟩ := allocFromSlab_aligned hbase hs.heap (hrefill i hclass) hrun
    refine ⟨fun _ => (align_dvd_classSize hclass).trans hptr, hh, fun j hj => ?_⟩
    cases hj
    exact hptr

theorem Aligned.dealloc (hs : Aligned base s) {ptr : Nat} {l : Layout} (ha : (ptr, l) ∈ s.live) :
    Aligned base ⟨s.heap.dealloc ptr l, s.live.erase (ptr, l)⟩ := by
  refine ⟨?_, fun a ha => hs.live a (List.mem_of_mem_erase ha)⟩
  unfold SlabAllocator.dealloc
  cases hclass : findSlabClass l.alignedSize with
  | none => exact hs.heap
  | some i =>
    simp only [SlabAllocator.freeToSlab, SlabClass.push]
    split_ifs
    · have hslab := hs.heap.slab i
      apply hs.heap.setSlab
      refine ⟨hslab.blockSize, hslab.total, fun addr haddr => ?_⟩
      obtain rfl | haddr := List.mem_cons.mp haddr
      · exact hs.live _ ha i hclass
      · exact hslab.free addr haddr
    · exact hs.heap

theorem step_aligned (hbase : 4096 ∣ base) (hs : Aligned base s) {op : Op} {s' : State}
    (hop : Obeys (some s) op) (hrefill : RefillAligned (some s) op)
    (hrun : step .release (some s) op = some s') : Aligned base s' := by
  cases op with
  | dealloc ptr l =>
    cases hrun
    exact hs.dealloc hop
  | alloc l =>
    obtain ⟨r, halloc, rfl⟩ := Option.map_eq_some_iff.mp hrun
    obtain ⟨-, hh, hptr⟩ := alloc_aligned hbase hs hrefill halloc
    refine ⟨hh, fun a ha => ?_⟩
    change a ∈ (if r.1 = 0 then s.live else (r.1, l) :: s.live) at ha
    split_ifs at ha
    · exact hs.live a ha
    · obtain rfl | ha := List.mem_cons.mp ha
      · exact hptr
      · exact hs.live a ha

theorem heap_aligned (mem : Memory) (base size : Nat) (hbase : 4096 ∣ base) (ops : List Op)
    (hops : Guarded (step .release) (fun o op => Obeys o op ∧ RefillAligned o op)
      (start .release mem base size) ops) :
    Guarded (step .release) (AlignedCall base) (start .release mem base size) ops := by
  refine hops.imp (I := fun o => ∀ s, o = some s → Aligned base s) ?_ ?_ ?_
  · intro o op ho hop s' hs'
    cases o with
    | none => cases hs'
    | some s => exact step_aligned hbase (ho s rfl) hop.1 hop.2 hs'
  · rintro _ _ ho hop s l rfl rfl halign ptr h' hrun -
    exact (alloc_aligned hbase (ho s rfl) hop.2 hrun).1 halign
  · intro s hs
    obtain ⟨hh, hlive⟩ := start_aligned mem hbase hs
    exact ⟨hh, by simp [hlive]⟩

theorem not_alignedCall {o : Option State} {l : Layout} {p : Nat}
    (hp : (o.bind fun s => (s.heap.alloc .release l).map Prod.fst) = some p) (hbase : l.align ∣ base)
    (hne : p ≠ 0) (hndvd : ¬l.align ∣ p) : ¬AlignedCall base o (.alloc l) := by
  intro hcall
  obtain ⟨s, rfl, hmap⟩ := Option.bind_eq_some_iff.mp hp
  obtain ⟨r, halloc, rfl⟩ := Option.map_eq_some_iff.mp hmap
  exact hndvd (hcall s l rfl rfl hbase r.1 r.2 halloc hne)

def pageLayout : Layout := ⟨4096, 4096, ⟨12, rfl⟩, by decide⟩

def oddLayout : Layout := ⟨4097, 1, ⟨0, rfl⟩, by decide⟩

theorem pages_aligned :
    Guarded (step .release) (AlignedCall 0x800000) (start .release (fun _ => 0) 0x800000 0x200000)
      [.alloc pageLayout, .alloc pageLayout] :=
  heap_aligned _ 0x800000 0x200000 (by decide) _ (by decide +kernel)

/-- After an allocation of odd size the next page for a class starts at an odd address. -/
theorem oddThenPages_misaligned :
    Guarded (step .release) Obeys (start .release (fun _ => 0) 0x800000 0x200000)
        [.alloc oddLayout, .alloc pageLayout, .alloc pageLayout] ∧
      ¬Guarded (step .release) (AlignedCall 0x800000) (start .release (fun _ => 0) 0x800000 0x200000)
        [.alloc oddLayout, .alloc pageLayout, .alloc pageLayout] := by
  refine ⟨by decide +kernel, fun hg => ?_⟩
  refine not_alignedCall (p := 0x80B001) ?_ ?_ ?_ ?_ (hg.middle [.alloc oddLayout, .alloc pageLayout])
  all_goals decide +kernel

end DeltaOS.HeapAlignment
