import DeltaOS.HugePages

namespace DeltaOS.BootPaging

open ByteMemory Kernel Paging Vmm PageTables HugePages

/-- The frames that `boot.asm` reserves for its tables. -/
structure BootTables where
  p4 : Nat
  p3 : Nat
  p2 : Nat
  p4_aligned : p4 % pageSize = 0
  p3_aligned : p3 % pageSize = 0
  p2_aligned : p2 % pageSize = 0
  p4_lt : p4 < 2 ^ 32
  p3_lt : p3 < 2 ^ 32
  p2_lt : p2 < 2 ^ 32
  p4_ne_p3 : p4 ≠ p3
  p4_ne_p2 : p4 ≠ p2
  p3_ne_p2 : p3 ≠ p2

/-- `rep stosd`, upwards, with 32-bit addresses. -/
def repStosd (eax : BitVec 32) : Nat → Nat → Memory → Memory
  | 0, _, m => m
  | ecx + 1, edi, m => repStosd eax ecx ((edi + 4) % 2 ^ 32) (write32 m edi eax)

/-- A pass of the loop `.map_p2_table`. -/
def mapP2Entry (p2 : Nat) (m : Memory) (ecx : Nat) : Memory :=
  write32 m (p2 + ecx * 8) (BitVec.ofNat 32 (0x200000 * ecx) ||| 0b10000011)

def setupPageTables (t : BootTables) (m : Memory) : Memory :=
  let m := repStosd 0 0x1000 t.p4 m
  let m := repStosd 0 0x1000 t.p3 m
  let m := repStosd 0 0x1000 t.p2 m
  let m := write32 m t.p4 (BitVec.ofNat 32 t.p3 ||| 0b11)
  let m := write32 m t.p3 (BitVec.ofNat 32 t.p2 ||| 0b11)
  (List.range 512).foldl (mapP2Entry t.p2) m

/-- The address space that `Vmm::new` finds in CR3. -/
def bootVmm (t : BootTables) (m : Memory) (nextPageAddr : Nat) : Vmm :=
  ⟨t.p4, nextPageAddr, setupPageTables t m⟩

variable {m : Memory} {t u edi n b : Nat} {i j : Index} {v : BitVec 32}

theorem write32_zero (h : m b = 0) : write32 m edi 0 b = 0 := by
  rw [write32, writeNat]
  split_ifs
  · simp
  · exact h

theorem repStosd_keeps (h : m b = 0) : repStosd 0 n edi m b = 0 := by
  induction n generalizing edi m with
  | zero => exact h
  | succ n ih => exact ih (write32_zero h)

theorem repStosd_clears (hl : edi ≤ b) (hu : b < edi + 4 * n) (hword : b < 2 ^ 32) :
    repStosd 0 n edi m b = 0 := by
  induction n generalizing edi m with
  | zero => omega
  | succ n ih =>
    rw [repStosd]
    by_cases hhere : b < edi + 4
    · apply repStosd_keeps
      rw [write32, writeNat, if_pos ⟨hl, hhere⟩]
      simp
    · rw [Nat.mod_eq_of_lt (by omega)]
      exact ih (by omega) (by omega)

/-- All bytes of the table are zero. -/
def Clear (m : Memory) (t : Nat) : Prop := ∀ b, t ≤ b → b < t + pageSize → m b = 0

theorem clear_repStosd (ht : t % pageSize = 0) (hlt : t < 2 ^ 32) : Clear (repStosd 0 0x1000 t m) t := by
  intro b hl hu
  rw [pageSize] at ht hu
  exact repStosd_clears hl (by omega) (by omega)

theorem Clear.repStosd (h : Clear m t) : Clear (repStosd 0 n edi m) t :=
  fun b hl hu => repStosd_keeps (h b hl hu)

theorem Clear.getEntry (h : Clear m t) (i : Index) : getEntry m t i = 0 := by
  have hi : i.val < 512 := i.isLt
  rw [Paging.getEntry, read64, readNat_of_zero]
  · rfl
  · intro b hl hu
    exact h b (by omega) (by rw [pageSize]; omega)

theorem getEntry_write32 (ht : t % pageSize = 0) (hu : u % pageSize = 0) (hzero : getEntry m t i = 0) :
    getEntry (write32 m (t + 8 * i.val) v) u j = if u = t ∧
      j = i then v.setWidth 64 else getEntry m u j := by
  split_ifs with h
  · obtain ⟨rfl, rfl⟩ := h
    exact read64_write32_same hzero
  · have hapart := entries_apart ht hu h
    exact read64_write32_of_disjoint (by omega)

def hugeEntry (i : Index) : Word := BitVec.ofNat 64 (0x200000 * i.val) ||| 0x83

theorem setWidth_low {f : Nat} (hlt : f < 2 ^ 32) (c : BitVec 32) :
    (BitVec.ofNat 32 f ||| c).setWidth 64 = BitVec.ofNat 64 f ||| c.setWidth 64 := by
  rw [BitVec.setWidth_or]
  congr 1
  apply BitVec.eq_of_toNat_eq
  rw [BitVec.toNat_setWidth, BitVec.toNat_ofNat, BitVec.toNat_ofNat, Nat.mod_eq_of_lt hlt]

theorem mapP2Entry_eq (ht : t % pageSize = 0) (hu : u % pageSize = 0) (hzero : getEntry m t i = 0) :
    getEntry (mapP2Entry t m i.val) u j = if u = t ∧ j = i then hugeEntry i else getEntry m u j := by
  have hi : i.val < 512 := i.isLt
  rw [mapP2Entry, Nat.mul_comm i.val, getEntry_write32 ht hu hzero, setWidth_low (by omega)]
  rfl

theorem getEntry_foldl (ht : t % pageSize = 0) (hu : u % pageSize = 0) (hzero : ∀ i, getEntry m t i = 0)
    (hn : n ≤ 512) : getEntry ((List.range n).foldl (mapP2Entry t) m) u j =
      if u = t ∧ j.val < n then hugeEntry j else getEntry m u j := by
  induction n generalizing u j with
  | zero => simp
  | succ n ih =>
    have hlt : n < 512 := hn
    have hrest := fun {u j} (hu : u % pageSize = 0) => ih (u := u) (j := j) hu hlt.le
    rw [List.range_succ, List.foldl_append, List.foldl_cons, List.foldl_nil]
    rw [mapP2Entry_eq (i := ⟨n, hlt⟩) ht hu (by rw [hrest ht, if_neg (by simp), hzero]), hrest hu]
    have hcase : u = t ∧ j.val < n + 1 ↔ (u = t ∧ j = ⟨n, hlt⟩) ∨ (u = t ∧ j.val < n) := by
      rw [Fin.ext_iff, ← and_or_left, Nat.lt_succ_iff_lt_or_eq, or_comm]
    by_cases hnew : u = t ∧ j = ⟨n, hlt⟩
    · rw [if_pos hnew, if_pos (hcase.mpr (.inl hnew)), hnew.2]
    · rw [if_neg hnew]
      by_cases hold : u = t ∧ j.val < n
      · rw [if_pos hold, if_pos (hcase.mpr (.inr hold))]
      · rw [if_neg hold, if_neg fun h => (hcase.mp h).elim hnew hold]

def first : Index := ⟨0, by decide⟩

theorem getEntry_write32_first (ht : t % pageSize = 0) (hu : u % pageSize = 0)
    (hzero : getEntry m t first = 0) :
    getEntry (write32 m t v) u j = if u = t ∧ j = first then v.setWidth 64 else getEntry m u j :=
  getEntry_write32 (i := first) ht hu hzero

theorem setWidth_link {f : Nat} (hlt : f < 2 ^ 32) :
    (BitVec.ofNat 32 f ||| 0b11).setWidth 64 = tableEntry f := by
  rw [setWidth_low hlt, tableEntry, BitVec.or_assoc]
  rfl

def clearTables (t : BootTables) (m : Memory) : Memory :=
  repStosd 0 0x1000 t.p2 (repStosd 0 0x1000 t.p3 (repStosd 0 0x1000 t.p4 m))

def linkTables (t : BootTables) (m : Memory) : Memory :=
  write32 (write32 m t.p4 (BitVec.ofNat 32 t.p3 ||| 0b11)) t.p3 (BitVec.ofNat 32 t.p2 ||| 0b11)

theorem setupPageTables_eq (t : BootTables) (m : Memory) :
    setupPageTables t m = (List.range 512).foldl (mapP2Entry t.p2) (linkTables t (clearTables t m)) :=
  rfl

/-- All three tables are empty. -/
structure Empty (t : BootTables) (m : Memory) : Prop where
  p4 : ∀ i, getEntry m t.p4 i = 0
  p3 : ∀ i, getEntry m t.p3 i = 0
  p2 : ∀ i, getEntry m t.p2 i = 0

theorem empty_clearTables (t : BootTables) (m : Memory) : Empty t (clearTables t m) where
  p4 := (clear_repStosd t.p4_aligned t.p4_lt).repStosd.repStosd.getEntry
  p3 := (clear_repStosd t.p3_aligned t.p3_lt).repStosd.getEntry
  p2 := (clear_repStosd t.p2_aligned t.p2_lt).getEntry

section Tables

variable {t : BootTables} (h : Empty t m)

include h

theorem Empty.linkTables (hu : u % pageSize = 0) (j : Index) : getEntry (linkTables t m) u j =
    if u = t.p3 ∧ j = first then tableEntry t.p2 else if u = t.p4 ∧ j = first then tableEntry t.p3
    else getEntry m u j := by
  have hp4 : ∀ {u : Nat} {j : Index}, u % pageSize = 0 →
      getEntry (write32 m t.p4 (BitVec.ofNat 32 t.p3 ||| 0b11)) u j =
        if u = t.p4 ∧ j = first then tableEntry t.p3 else getEntry m u j := by
    intro u j hu
    rw [← setWidth_link t.p3_lt, getEntry_write32_first t.p4_aligned hu (h.p4 first)]
  have hzero : getEntry (write32 m t.p4 (BitVec.ofNat 32 t.p3 ||| 0b11)) t.p3 first = 0 := by
    rw [hp4 t.p3_aligned, if_neg fun h => t.p4_ne_p3 h.1.symm, h.p3]
  rw [← hp4 hu, ← setWidth_link t.p2_lt, BootPaging.linkTables,
    getEntry_write32_first t.p3_aligned hu hzero]

theorem Empty.filled (hu : u % pageSize = 0) (j : Index) :
    getEntry ((List.range 512).foldl (mapP2Entry t.p2) (BootPaging.linkTables t m)) u j =
      if u = t.p2 then hugeEntry j else getEntry (BootPaging.linkTables t m) u j := by
  have hzero : ∀ i, getEntry (BootPaging.linkTables t m) t.p2 i = 0 := by
    intro i
    rw [h.linkTables t.p2_aligned, if_neg fun h => t.p3_ne_p2 h.1.symm,
      if_neg fun h => t.p4_ne_p2 h.1.symm, h.p2]
  have hj : j.val < 512 := j.isLt
  rw [getEntry_foldl t.p2_aligned hu hzero le_rfl]
  simp only [hj, and_true]

end Tables

section Entries

variable (t : BootTables) (m : Memory) (j : Index)

theorem entry_p4 : getEntry (setupPageTables t m) t.p4 j = if j = first then tableEntry t.p3 else 0 := by
  have h := empty_clearTables t m
  rw [setupPageTables_eq, h.filled t.p4_aligned, if_neg t.p4_ne_p2, h.linkTables t.p4_aligned,
    if_neg fun h => t.p4_ne_p3 h.1, h.p4]
  simp only [true_and]

theorem entry_p3 : getEntry (setupPageTables t m) t.p3 j = if j = first then tableEntry t.p2 else 0 := by
  have h := empty_clearTables t m
  have hne : ¬(t.p3 = t.p4 ∧ j = first) := fun h => t.p4_ne_p3 h.1.symm
  rw [setupPageTables_eq, h.filled t.p3_aligned, if_neg t.p3_ne_p2, h.linkTables t.p3_aligned,
    if_neg hne, h.p3]
  simp only [true_and]

theorem entry_p2 : getEntry (setupPageTables t m) t.p2 j = hugeEntry j := by
  rw [setupPageTables_eq, (empty_clearTables t m).filled t.p2_aligned, if_pos rfl]

end Entries

theorem hugeEntry_spec (i : Index) : hugeEntry i &&& presentBit ≠ 0 ∧ hugeEntry i &&& hugePageBit ≠ 0 ∧
    frameOf (hugeEntry i) = 0x200000 * i.val := by
  have hi : i.val < 512 := i.isLt
  have haligned : 0x200000 * i.val % pageSize = 0 := by rw [pageSize]; omega
  have hbit : ∀ bit : Word, 0x83 &&& bit ≠ 0 → hugeEntry i &&& bit ≠ 0 := by
    intro bit hbit hzero
    rw [hugeEntry, BitVec.and_comm, BitVec.and_or_distrib_left] at hzero
    rw [BitVec.and_comm] at hbit
    exact hbit (BitVec.or_eq_zero_iff.mp hzero).2
  exact ⟨hbit _ (by decide), hbit _ (by decide), frameOf_or haligned (by omega) (by decide)⟩

theorem isHuge_iff {i : Index} : isHuge m n i = true ↔ getEntry m n i &&& hugePageBit ≠ 0 := by
  simp [isHuge]

section Walk

variable (t : BootTables) (m : Memory) {i : Index}

theorem walk_p4 :
    getNextTableAddr (setupPageTables t m) t.p4 i = if i = first then some t.p3 else none := by
  have hentry := entry_p4 t m i
  split_ifs at hentry ⊢
  · rw [getNextTableAddr_eq_some, isPresent_iff, hentry]
    exact ⟨tableEntry_present _, frameOf_tableEntry t.p3_aligned (t.p3_lt.trans (by decide))⟩
  · exact getNextTableAddr_eq_none.mpr (isPresent_of_zero hentry)

theorem walk_p3 (virt shift : Nat) (rest : Nat → Option Nat) :
    descend (setupPageTables t m) virt shift t.p3 i rest = if i = first then rest t.p2 else none := by
  have hentry := entry_p3 t m i
  rw [descend_eq]
  by_cases hfirst : i = first
  · rw [if_pos hfirst] at hentry
    have hpresent : isPresent (setupPageTables t m) t.p3 i = true := by
      rw [isPresent_iff, hentry]
      exact tableEntry_present _
    have hflat : ¬isHuge (setupPageTables t m) t.p3 i = true := by
      rw [isHuge_iff, hentry, not_not]
      exact tableEntry_not_huge t.p2_aligned
    rw [if_pos hfirst, if_pos hpresent, if_neg hflat, hentry,
      frameOf_tableEntry t.p2_aligned (t.p2_lt.trans (by decide))]
  · rw [if_neg hfirst] at hentry
    rw [if_neg hfirst, isPresent_of_zero hentry, if_neg Bool.false_ne_true]

theorem walk_p2 (virt : Nat) (rest : Nat → Option Nat) :
    descend (setupPageTables t m) virt 21 t.p2 i rest = some (0x200000 * i.val + virt % 2 ^ 21) := by
  obtain ⟨hpresent, hhuge, hframe⟩ := hugeEntry_spec i
  rw [← entry_p2 t m] at hpresent hhuge hframe
  rw [descend_eq, if_pos (isPresent_iff.mpr hpresent), if_pos (isHuge_iff.mpr hhuge), hframe,
    Nat.and_two_pow_sub_one_eq_mod]

end Walk

theorem index_eq_first (virt shift : Nat) : index virt shift = first ↔ virt / 2 ^ shift % 512 = 0 := by
  rw [Fin.ext_iff, index_val]
  rfl

/-- The first gigabyte is mapped to itself, and nothing else is mapped. -/
theorem translate_boot (t : BootTables) (m : Memory) (nextPageAddr : Nat) {virt : Nat}
    (hvirt : virt < 2 ^ 48) :
    (bootVmm t m nextPageAddr).translate virt = if virt < 2 ^ 30 then some virt else none := by
  have hpml4 : pml4Index virt = first ↔ virt < 2 ^ 39 := by
    rw [pml4Index, index_eq_first]
    omega
  have hpdpt : virt < 2 ^ 39 → (pdptIndex virt = first ↔ virt < 2 ^ 30) := by
    intro hlow
    rw [pdptIndex, index_eq_first]
    omega
  have hpd : (pdIndex virt).val = virt / 2 ^ 21 % 512 := index_val virt 21
  rw [translate_eq_descend]
  simp only [bootVmm]
  rw [walk_p4]
  by_cases hlow : virt < 2 ^ 39
  · rw [if_pos (hpml4.mpr hlow), Option.bind_some, walk_p3]
    by_cases hfirst : virt < 2 ^ 30
    · rw [if_pos ((hpdpt hlow).mpr hfirst), if_pos hfirst, walk_p2, hpd]
      congr 1
      omega
    · rw [if_neg (mt (hpdpt hlow).mp hfirst), if_neg hfirst]
  · have hhigh : ¬virt < 2 ^ 30 := by omega
    rw [if_neg (mt hpml4.mp hlow), if_neg hhigh, Option.bind_none]

/-- The tables as the linker lays them out, one after the other. -/
def linkedTables : BootTables where
  p4 := 0x109000
  p3 := 0x10A000
  p2 := 0x10B000
  p4_aligned := by decide
  p3_aligned := by decide
  p2_aligned := by decide
  p4_lt := by decide
  p3_lt := by decide
  p2_lt := by decide
  p4_ne_p3 := by decide
  p4_ne_p2 := by decide
  p3_ne_p2 := by decide

theorem linkedTables_translate :
    (bootVmm linkedTables (fun _ => 0xFF) vmmPagesBase).translate 0xB8000 = some 0xB8000 ∧
      (bootVmm linkedTables (fun _ => 0xFF) vmmPagesBase).translate 0xFEE00000 = none := by
  have hvga : (0xB8000 : Nat) < 2 ^ 48 := by decide
  have hapic : (0xFEE00000 : Nat) < 2 ^ 48 := by decide
  exact ⟨translate_boot linkedTables _ vmmPagesBase hvga,
    translate_boot linkedTables _ vmmPagesBase hapic⟩

end DeltaOS.BootPaging
