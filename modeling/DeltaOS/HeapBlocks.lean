import DeltaOS.Heap
import DeltaOS.Ranges

namespace DeltaOS.HeapBlocks

open Ranges Heap SlabAllocator

def classSize (i : Fin slabClasses) : Nat := slabMinSize <<< i.val

/-- The bytes an allocation takes: a whole block of its class, or its own size above them. -/
def footprint (l : Layout) : Nat :=
  match findSlabClass l.alignedSize with
  | some i => classSize i
  | none => l.alignedSize

theorem le_classSize {n : Nat} {i : Fin slabClasses} (h : findSlabClass n = some i) :
    n ≤ classSize i := by
  simp only [findSlabClass, Option.ite_none_left_eq_some] at h
  simpa [classSize] using List.find?_some h.2

theorem size_le_alignedSize (l : Layout) : l.size ≤ l.alignedSize := by
  unfold Layout.alignedSize
  split <;> omega

theorem align_le_alignedSize (l : Layout) : l.align ≤ l.alignedSize := by
  unfold Layout.alignedSize
  split <;> omega

theorem size_le_footprint (l : Layout) : l.size ≤ footprint l := by
  unfold footprint
  split
  · next i hi => exact (size_le_alignedSize l).trans (le_classSize hi)
  · exact size_le_alignedSize l

theorem classSize_pos (i : Fin slabClasses) : 0 < classSize i := by
  rw [classSize, Nat.shiftLeft_eq]
  exact Nat.mul_pos (by decide) (Nat.two_pow_pos _)

theorem pageBlocks_le (i : Fin slabClasses) :
    4096 / classSize i * classSize i ≤ 4096 ∧ 4096 / classSize i ≤ 512 := by
  refine ⟨Nat.div_mul_le_self _ _, ?_⟩
  revert i
  decide

theorem pageBlocks_pos (i : Fin slabClasses) : 0 < 4096 / classSize i := by
  revert i
  decide

def classBlocks (i : Fin slabClasses) (slab : SlabClass) : List Range :=
  slab.freeList.map fun addr => ⟨addr, classSize i⟩

def freeBlocks (h : SlabAllocator) : List Range :=
  (List.finRange slabClasses).flatMap fun i => classBlocks i (h.slabs i)

def otherBlocks (h : SlabAllocator) (i : Fin slabClasses) : List Range :=
  ((List.finRange slabClasses).erase i).flatMap fun j => classBlocks j (h.slabs j)

variable {h : SlabAllocator} {i : Fin slabClasses} {slab : SlabClass}

theorem freeBlocks_perm (h : SlabAllocator) (i : Fin slabClasses) :
    (freeBlocks h).Perm (classBlocks i (h.slabs i) ++ otherBlocks h i) :=
  (List.perm_cons_erase (List.mem_finRange i)).flatMap_right _

theorem otherBlocks_setSlab (h : SlabAllocator) (i : Fin slabClasses) (slab : SlabClass) :
    otherBlocks (h.setSlab i slab) i = otherBlocks h i := by
  unfold otherBlocks
  apply List.flatMap_congr
  intro j hj
  have hne : j ≠ i := ((List.nodup_finRange _).mem_erase_iff.mp hj).1
  rw [setSlab_slabs, Function.update_of_ne hne]

def extent (a : Nat × Layout) : Range := ⟨a.1, footprint a.2⟩

def extents (h : SlabAllocator) (live : List (Nat × Layout)) : List Range :=
  live.map extent ++ freeBlocks h

theorem extents_perm (h : SlabAllocator) (i : Fin slabClasses) (live : List (Nat × Layout)) :
    (extents h live).Perm (classBlocks i (h.slabs i) ++ (live.map extent ++ otherBlocks h i)) := by
  refine ((freeBlocks_perm h i).append_left _).trans ?_
  rw [← List.append_assoc, ← List.append_assoc]
  exact List.perm_append_comm.append_right _

theorem extents_setSlab (h : SlabAllocator) (i : Fin slabClasses) (slab : SlabClass)
    (live : List (Nat × Layout)) :
    (extents (h.setSlab i slab) live).Perm
      (classBlocks i slab ++ (live.map extent ++ otherBlocks h i)) := by
  have hperm := extents_perm (h.setSlab i slab) i live
  rwa [otherBlocks_setSlab, setSlab_slabs, Function.update_self] at hperm

/-- Below the frontier the heap is cut into the live and the free blocks without overlap. -/
structure Carved (h : SlabAllocator) (frontier : Nat) (live : List (Nat × Layout)) : Prop where
  blockSize : ∀ i, (h.slabs i).blockSize = classSize i
  total : ∀ i, (h.slabs i).totalCount ≤ maxBlocksPerClass
  packed : Packed h.heapStart (h.heapStart + frontier) (extents h live)

variable {frontier : Nat} {live : List (Nat × Layout)}

theorem Carved.setSlab (hc : Carved h frontier live) (hsize : slab.blockSize = classSize i)
    (htotal : slab.totalCount ≤ maxBlocksPerClass) {frontier' : Nat} {live' : List (Nat × Layout)}
    (hp : Packed h.heapStart (h.heapStart + frontier')
      (classBlocks i slab ++ (live'.map extent ++ otherBlocks h i))) :
    Carved (h.setSlab i slab) frontier' live' := by
  refine ⟨fun j => ?_, fun j => ?_, hp.perm (extents_setSlab h i slab live')⟩
  · by_cases hj : j = i
    · subst j; simpa using hsize
    · simpa [hj] using hc.blockSize j
  · by_cases hj : j = i
    · subst j; simpa using htotal
    · simpa [hj] using hc.total j

theorem pop_eq_none_iff {slab : SlabClass} : slab.pop = none ↔ slab.freeList = [] := by
  rw [SlabClass.pop]
  cases slab.freeList <;> simp

theorem pop_eq_some {slab slab' : SlabClass} {ptr : Nat} (h : slab.pop = some (ptr, slab')) :
    slab.freeList = ptr :: slab'.freeList ∧ slab'.blockSize = slab.blockSize ∧
      slab'.totalCount = slab.totalCount := by
  unfold SlabClass.pop at h
  split at h
  · cases h
  next addr rest hlist =>
    cases h
    exact ⟨hlist, rfl, rfl⟩

theorem Carved.pop {ptr : Nat} (hc : Carved h frontier live)
    (hpop : (h.slabs i).pop = some (ptr, slab)) :
    Carved (h.setSlab i slab) frontier live ∧
      Packed h.heapStart (h.heapStart + frontier)
        (⟨ptr, classSize i⟩ :: extents (h.setSlab i slab) live) := by
  obtain ⟨hlist, hsize, htotal⟩ := pop_eq_some hpop
  have hp := hc.packed.perm (extents_perm h i live).symm
  rw [classBlocks, hlist, List.map_cons, List.cons_append] at hp
  constructor
  · refine hc.setSlab (hsize.trans (hc.blockSize i)) (htotal.trans_le (hc.total i)) ?_
    exact hp.subperm (List.sublist_cons_self _ _).subperm
  · exact hp.perm ((extents_setSlab h i slab live).cons _)

theorem Carved.page {n : Nat} (hc : Carved h frontier live) (hsize : slab.blockSize = classSize i)
    (htotal : slab.totalCount ≤ maxBlocksPerClass) (hn : n * classSize i ≤ 4096)
    (hblocks : classBlocks i slab = (blocks (h.heapStart + frontier) (classSize i) n).reverse) :
    Carved (h.setSlab i slab) (frontier + 4096) live := by
  have hold : Packed h.heapStart (h.heapStart + frontier) (live.map extent ++ otherBlocks h i) :=
    hc.packed.subperm
      ((List.sublist_append_right _ _).subperm.trans (extents_perm h i live).symm.subperm)
  have hnew := packed_blocks (h.heapStart + frontier) (classSize i) n
  refine hc.setSlab hsize htotal ?_
  have hall := hold.append (hnew.perm (List.reverse_perm _)) (by omega) (by omega)
  rw [hblocks]
  exact (hall.mono (by omega)).perm List.perm_append_comm

end DeltaOS.HeapBlocks
