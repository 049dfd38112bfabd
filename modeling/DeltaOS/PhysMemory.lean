import DeltaOS.ByteMemory
import DeltaOS.FirstFit
import DeltaOS.Kernel
import DeltaOS.Overflow

namespace DeltaOS.PhysMemory

open ByteMemory FirstFit Kernel Overflow

def maxPhysMemory : Nat := 64 * 1024 * 1024 * 1024
def maxPages : Nat := maxPhysMemory / pageSize
def bitmapSize : Nat := maxPages / 8
def bitmapBase : Nat := pmmBitmapBase

/-- The bitmap is the part of the memory from `bitmapBase` on. -/
structure Pmm where
  totalPages : Nat
  freePageCount : Nat
  baseAddr : Nat
  endAddr : Nat
  mem : Memory

def getBit (m : Memory) (index : Nat) : Bool :=
  if index / 8 ≥ bitmapSize then true
  else m (bitmapBase + index / 8) >>> (index % 8) &&& 1 == 1

def setBit (m : Memory) (index : Nat) : Memory :=
  if index / 8 < bitmapSize then
    Function.update m (bitmapBase + index / 8) (m (bitmapBase + index / 8) ||| 1#8 <<< (index % 8))
  else m

def clearBit (m : Memory) (index : Nat) : Memory :=
  if index / 8 < bitmapSize then
    Function.update m (bitmapBase + index / 8) (m (bitmapBase + index / 8) &&& ~~~(1#8 <<< (index % 8)))
  else m

namespace Pmm

def markBitmapPage (p : Pmm) (i : Nat) : Pmm :=
  if i < p.totalPages then { p with mem := setBit p.mem i, freePageCount := p.freePageCount - 1 } else p

def new (mem : Memory) (baseAddr memorySize : Nat) : Pmm :=
  let totalPages := memorySize / pageSize
  let pmm : Pmm :=
    { totalPages := totalPages
      freePageCount := totalPages
      baseAddr := baseAddr
      endAddr := (baseAddr + memorySize) % usizeRange
      mem := fill mem bitmapBase 0 bitmapSize }
  let bitmapStartPage := (bitmapBase + usizeRange - baseAddr) % usizeRange / pageSize
  let bitmapPages := (bitmapSize + pageSize - 1) / pageSize
  (List.range' bitmapStartPage bitmapPages).foldl markBitmapPage pmm

/-- What `alloc_page` and `alloc_pages` do with the pages they found. -/
def take (p : Pmm) (start count : Nat) : KernelResult Nat × Pmm :=
  let addr := (p.baseAddr + start * pageSize) % usizeRange
  (.ok addr,
    { p with
      freePageCount := p.freePageCount - count
      mem := fill ((List.range' start count).foldl setBit p.mem) addr 0 (count * pageSize) })

def allocPage (p : Pmm) : KernelResult Nat × Pmm :=
  if p.freePageCount = 0 then (.error .outOfMemory, p)
  else match firstFree (getBit p.mem) p.totalPages 0 with
    | some i => p.take i 1
    | none => (.error .outOfMemory, p)

def allocPages (p : Pmm) (count : Nat) : KernelResult Nat × Pmm :=
  if p.freePageCount < count then (.error .outOfMemory, p)
  else match firstRun (getBit p.mem) count p.totalPages 0 none 0 with
    | some start => p.take start count
    | none => (.error .outOfMemory, p)

def freePage (p : Pmm) (addr : Nat) : KernelResult Unit × Pmm :=
  if addr < p.baseAddr ∨ addr ≥ p.endAddr then (.error .invalidAddress, p)
  else if addr % pageSize ≠ 0 then (.error .invalidArgument, p)
  else
    let index := (addr - p.baseAddr) / pageSize
    if !getBit p.mem index then (.error .pageNotMapped, p)
    else (.ok (), { p with mem := clearBit p.mem index, freePageCount := p.freePageCount + 1 })

/-- The pages from the `i`-th on, of which `n` are left. -/
def freePagesFrom (addr : Nat) : Nat → Nat → Pmm → KernelResult Unit × Pmm
  | 0, _, p => (.ok (), p)
  | n + 1, i, p =>
    match p.freePage ((addr + i * pageSize) % usizeRange) with
    | (.ok (), p) => freePagesFrom addr n (i + 1) p
    | (.error e, p) => (.error e, p)

def freePagesRange (p : Pmm) (addr count : Nat) : KernelResult Unit × Pmm :=
  freePagesFrom addr count 0 p

def reservePage (p : Pmm) (i : Nat) : Pmm :=
  if i < p.totalPages ∧ !getBit p.mem i then
    { p with mem := setBit p.mem i, freePageCount := p.freePageCount - 1 }
  else p

def reserveRange (p : Pmm) (start size : Nat) : Pmm :=
  if start < p.baseAddr then p
  else
    let startPage := (start - p.baseAddr) / pageSize
    let endAddr := (start + size) % usizeRange
    let endPage :=
      if endAddr > p.endAddr then p.totalPages
      else (endAddr + usizeRange - p.baseAddr + pageSize - 1) % usizeRange / pageSize
    (List.range' startPage (endPage - startPage)).foldl reservePage p

end Pmm

variable {m m' : Memory} {p : Pmm}

theorem testBit_byte (b : BitVec 8) (k : Nat) : (b >>> k &&& 1 == 1) = b.getLsbD k := by
  have hone : b >>> k &&& 1#8 = (BitVec.ofBool (b.getLsbD k)).setWidth 8 := by
    rw [BitVec.and_one_eq_setWidth_ofBool_getLsbD, BitVec.getLsbD_ushiftRight, Nat.add_zero]
  change (b >>> k &&& 1#8 == 1#8) = _
  rw [hone]
  cases b.getLsbD k <;> rfl

theorem getBit_eq (m : Memory) (index : Nat) : getBit m index =
    (decide (bitmapSize ≤ index / 8) || (m (bitmapBase + index / 8)).getLsbD (index % 8)) := by
  rw [getBit, testBit_byte]
  split_ifs with h
  · simp [h]
  · simp [h]

theorem getBit_congr (h : ∀ a, bitmapBase ≤ a → a < bitmapBase + bitmapSize → m a = m' a) (j : Nat) :
    getBit m j = getBit m' j := by
  rw [getBit, getBit]
  split_ifs with hj
  · rfl
  · rw [h _ (Nat.le_add_right _ _) (Nat.add_lt_add_left (not_le.mp hj) _)]

theorem getBit_beyond (m : Memory) {j : Nat} (hj : maxPages ≤ j) : getBit m j = true := by
  have hbyte : bitmapSize ≤ j / 8 := (Nat.div_le_div_right hj : maxPages / 8 ≤ j / 8)
  rw [getBit, if_pos hbyte]

theorem getBit_setBit (m : Memory) (i j : Nat) :
    getBit (setBit m i) j = (getBit m j || decide (j = i)) := by
  rw [getBit_eq, getBit_eq, setBit]
  by_cases hi : i / 8 < bitmapSize
  · rw [if_pos hi]
    by_cases hbyte : j / 8 = i / 8
    · have hbit : (1#8 <<< (i % 8)).getLsbD (j % 8) = decide (j = i) := by
        rw [← BitVec.twoPow_eq, BitVec.getLsbD_twoPow, Bool.eq_iff_iff]
        simp only [Bool.and_eq_true, decide_eq_true_eq]
        omega
      rw [hbyte, Function.update_self, BitVec.getLsbD_or, hbit, Bool.or_assoc]
    · have hne : bitmapBase + j / 8 ≠ bitmapBase + i / 8 := by omega
      have hji : j ≠ i := fun h => hbyte (h ▸ rfl)
      rw [Function.update_of_ne hne]
      simp [hji]
  · rw [if_neg hi]
    obtain rfl | hne := eq_or_ne j i
    · simp [not_lt.mp hi]
    · simp [hne]

theorem getBit_clearBit (m : Memory) {i : Nat} (hi : i / 8 < bitmapSize) (j : Nat) :
    getBit (clearBit m i) j = (getBit m j && !decide (j = i)) := by
  rw [getBit_eq, getBit_eq, clearBit, if_pos hi]
  by_cases hbyte : j / 8 = i / 8
  · have hbit : (~~~(1#8 <<< (i % 8))).getLsbD (j % 8) = !decide (j = i) := by
      have hlt : j % 8 < 8 := Nat.mod_lt j (by decide)
      rw [← BitVec.twoPow_eq, BitVec.getLsbD_not, BitVec.getLsbD_twoPow, Bool.eq_iff_iff]
      simp only [hlt, decide_true, Bool.true_and, Bool.not_eq_true', Bool.and_eq_false_iff,
        decide_eq_false_iff_not]
      omega
    rw [hbyte, Function.update_self, BitVec.getLsbD_and, hbit]
    simp [not_le.mpr hi]
  · have hne : bitmapBase + j / 8 ≠ bitmapBase + i / 8 := by omega
    have hji : j ≠ i := fun h => hbyte (h ▸ rfl)
    rw [Function.update_of_ne hne]
    simp [hji]

theorem getBit_clearBit_of_ne (m : Memory) {i j : Nat} (hne : j ≠ i) :
    getBit (clearBit m i) j = getBit m j := by
  by_cases hi : i / 8 < bitmapSize
  · simp [getBit_clearBit m hi, hne]
  · rw [clearBit, if_neg hi]

theorem getBit_foldl_setBit (m : Memory) (a n j : Nat) :
    getBit ((List.range' a n).foldl setBit m) j = (getBit m j || decide (a ≤ j ∧ j < a + n)) := by
  induction n generalizing a m with
  | zero => simp
  | succ n ih =>
    rw [List.range'_succ, List.foldl_cons, ih, getBit_setBit, Bool.or_assoc, ← Bool.decide_or]
    congr 2
    exact propext (by omega)

theorem getBit_fill_outside {a n : Nat} {v : BitVec 8}
    (h : a + n ≤ bitmapBase ∨ bitmapBase + bitmapSize ≤ a) (j : Nat) :
    getBit (fill m a v n) j = getBit m j :=
  getBit_congr (fun _ _ _ => fill_apply_of_outside (by omega)) j

theorem getBit_fill_zero {j : Nat} (hj : j / 8 < bitmapSize) :
    getBit (fill m bitmapBase 0 bitmapSize) j = false := by
  have hin : bitmapBase ≤ bitmapBase + j / 8 ∧ bitmapBase + j / 8 < bitmapBase + bitmapSize := by omega
  rw [getBit_eq, fill, if_pos hin]
  simp [hj]

/-- The operations leave the range of managed pages as it is. -/
structure Pmm.SameRange (p p' : Pmm) : Prop where
  totalPages : p'.totalPages = p.totalPages
  baseAddr : p'.baseAddr = p.baseAddr
  endAddr : p'.endAddr = p.endAddr

theorem Pmm.SameRange.refl (p : Pmm) : p.SameRange p := ⟨rfl, rfl, rfl⟩

theorem Pmm.SameRange.trans {p₁ p₂ : Pmm} (h₁ : SameRange p p₁) (h₂ : SameRange p₁ p₂) :
    SameRange p p₂ :=
  ⟨h₂.totalPages.trans h₁.totalPages, h₂.baseAddr.trans h₁.baseAddr, h₂.endAddr.trans h₁.endAddr⟩

/-- The round of a loop that takes one page, as far as there is such a page. -/
structure Marks (f : Pmm → Nat → Pmm) : Prop where
  same : ∀ (p : Pmm) (i : Nat), p.SameRange (f p i)
  bit : ∀ (p : Pmm) (i j : Nat),
    getBit (f p i).mem j = (getBit p.mem j || decide (j = i ∧ i < p.totalPages))
  count : ∀ (p : Pmm) (i : Nat), p.freePageCount ≤ (f p i).freePageCount + 1

theorem marks_markBitmapPage : Marks Pmm.markBitmapPage := by
  constructor
  · intro p i
    rw [Pmm.markBitmapPage]
    split_ifs <;> exact ⟨rfl, rfl, rfl⟩
  · intro p i j
    rw [Pmm.markBitmapPage]
    split_ifs with hi
    · simp [getBit_setBit, hi]
    · simp [hi]
  · intro p i
    rw [Pmm.markBitmapPage]
    split_ifs
    · exact Nat.le_add_of_sub_le le_rfl
    · exact Nat.le_succ _

theorem reservePage_eq (p : Pmm) (i : Nat) :
    p.reservePage i = if getBit p.mem i then p else p.markBitmapPage i := by
  rw [Pmm.reservePage, Pmm.markBitmapPage]
  cases getBit p.mem i <;> simp

theorem marks_reservePage : Marks Pmm.reservePage := by
  constructor
  · intro p i
    rw [reservePage_eq]
    split_ifs
    · exact .refl p
    · exact marks_markBitmapPage.same p i
  · intro p i j
    rw [reservePage_eq]
    split_ifs with hset
    · obtain rfl | hne := eq_or_ne j i
      · rw [hset, Bool.true_or]
      · simp [hne]
    · exact marks_markBitmapPage.bit p i j
  · intro p i
    rw [reservePage_eq]
    split_ifs
    · exact Nat.le_succ _
    · exact marks_markBitmapPage.count p i

variable {f : Pmm → Nat → Pmm}

theorem Marks.same_foldl (hf : Marks f) (is : List Nat) (p : Pmm) : p.SameRange (is.foldl f p) := by
  induction is generalizing p with
  | nil => exact .refl p
  | cons i is ih => exact (hf.same p i).trans (ih (f p i))

theorem Marks.bit_foldl (hf : Marks f) (p : Pmm) (a n j : Nat) :
    getBit ((List.range' a n).foldl f p).mem j =
      (getBit p.mem j || decide (a ≤ j ∧ j < a + n ∧ j < p.totalPages)) := by
  induction n generalizing a p with
  | zero =>
    have hnone : ¬(a ≤ j ∧ j < a + 0 ∧ j < p.totalPages) := by omega
    rw [decide_eq_false hnone, Bool.or_false]
    rfl
  | succ n ih =>
    rw [List.range'_succ, List.foldl_cons, ih, hf.bit, (hf.same p a).totalPages, Bool.or_assoc,
      ← Bool.decide_or]
    congr 2
    exact propext (by omega)

theorem Marks.count_foldl (hf : Marks f) (is : List Nat) (p : Pmm) :
    p.freePageCount ≤ (is.foldl f p).freePageCount + is.length := by
  induction is generalizing p with
  | nil => exact le_rfl
  | cons i is ih =>
    have hhead := hf.count p i
    have htail := ih (f p i)
    rw [List.foldl_cons, List.length_cons]
    omega

theorem sameRange_reserveRange (p : Pmm) (start size : Nat) :
    p.SameRange (p.reserveRange start size) := by
  rw [Pmm.reserveRange]
  split_ifs
  · exact .refl p
  · exact marks_reservePage.same_foldl _ p

theorem endPage_eq {base limit : Nat} (hbase : base ≤ limit) (hlimit : limit + pageSize ≤ usizeRange) :
    (limit + usizeRange - base + pageSize - 1) % usizeRange / pageSize =
      (limit - base + pageSize - 1) / pageSize := by
  have hpage : pageSize = 4096 := rfl
  rw [show limit + usizeRange - base + pageSize - 1 = limit - base + pageSize - 1 + usizeRange by omega,
    Nat.add_mod_right, Nat.mod_eq_of_lt (by omega)]

theorem getBit_reserveRange {start size j : Nat}
    (hpages : p.baseAddr + p.totalPages * pageSize ≤ p.endAddr)
    (htop : p.endAddr + pageSize ≤ usizeRange) (hstart : p.baseAddr ≤ start)
    (hend : start + size < usizeRange) (hj : j < p.totalPages) :
    getBit (p.reserveRange start size).mem j = (getBit p.mem j ||
      decide (start < p.baseAddr + (j + 1) * pageSize ∧ p.baseAddr + j * pageSize < start + size)) := by
  have hpage : pageSize = 4096 := rfl
  rw [Pmm.reserveRange, if_neg (not_lt.mpr hstart), Nat.mod_eq_of_lt hend, marks_reservePage.bit_foldl]
  congr 2
  rw [eq_iff_iff]
  split_ifs with hbeyond
  · rw [hpage] at hpages ⊢
    omega
  · have hle := not_lt.mp hbeyond
    rw [endPage_eq (by omega) (by omega), hpage]
    omega

theorem sameRange_new (mem : Memory) (base size : Nat) :
    (Pmm.new mem base size).totalPages = size / pageSize ∧ (Pmm.new mem base size).baseAddr = base ∧
      (Pmm.new mem base size).endAddr = (base + size) % usizeRange := by
  obtain ⟨htotal, hbase, hend⟩ := marks_markBitmapPage.same_foldl
    (List.range' ((bitmapBase + usizeRange - base) % usizeRange / pageSize)
      ((bitmapSize + pageSize - 1) / pageSize)) (Pmm.mk (size / pageSize) (size / pageSize) base
        ((base + size) % usizeRange) (fill mem bitmapBase 0 bitmapSize))
  exact ⟨htotal, hbase, hend⟩

theorem getBit_new {base size j : Nat} (mem : Memory) (hbase : base ≤ bitmapBase)
    (hj : j < size / pageSize) (hmax : size ≤ maxPhysMemory) :
    getBit (Pmm.new mem base size).mem j = decide ((bitmapBase - base) / pageSize ≤ j ∧
      j < (bitmapBase - base) / pageSize + bitmapSize / pageSize) := by
  have hstart : (bitmapBase + usizeRange - base) % usizeRange = bitmapBase - base := by
    have hlt : bitmapBase < usizeRange := by decide
    rw [show bitmapBase + usizeRange - base = bitmapBase - base + usizeRange by omega,
      Nat.add_mod_right, Nat.mod_eq_of_lt (by omega)]
  have hbyte : j / 8 < bitmapSize := by
    have hpages : size / pageSize ≤ maxPages := Nat.div_le_div_right hmax
    exact Nat.div_lt_of_lt_mul ((hj.trans_le hpages).trans_eq (by decide))
  simp only [Pmm.new]
  rw [marks_markBitmapPage.bit_foldl, hstart, getBit_fill_zero hbyte, Bool.false_or]
  congr 1
  rw [eq_iff_iff, show (bitmapSize + pageSize - 1) / pageSize = bitmapSize / pageSize by decide]
  exact ⟨fun h => ⟨h.1, h.2.1⟩, fun h => ⟨h.1, h.2, hj⟩⟩

theorem le_freePageCount_new (mem : Memory) (base size : Nat) :
    size / pageSize ≤ (Pmm.new mem base size).freePageCount + bitmapSize / pageSize := by
  have hloop := marks_markBitmapPage.count_foldl
    (List.range' ((bitmapBase + usizeRange - base) % usizeRange / pageSize)
      ((bitmapSize + pageSize - 1) / pageSize)) (Pmm.mk (size / pageSize) (size / pageSize) base
        ((base + size) % usizeRange) (fill mem bitmapBase 0 bitmapSize))
  rwa [List.length_range'] at hloop

theorem le_freePageCount_reserveRange {start size : Nat} (htop : p.endAddr + pageSize ≤ usizeRange)
    (hstart : p.baseAddr ≤ start) (hend : start + size ≤ p.endAddr) :
    p.freePageCount ≤ (p.reserveRange start size).freePageCount + (size / pageSize + 2) := by
  have hpage : pageSize = 4096 := rfl
  have hlt : start + size < usizeRange := by omega
  rw [Pmm.reserveRange, if_neg (not_lt.mpr hstart), Nat.mod_eq_of_lt hlt]
  dsimp only
  rw [if_neg (not_lt.mpr hend), endPage_eq (by omega) (by omega)]
  refine (marks_reservePage.count_foldl _ p).trans (Nat.add_le_add_left ?_ _)
  rw [List.length_range', hpage]
  omega

/-- What an allocation of `count` pages does: it takes the lowest free window, if the counter
allows it and there is one. -/
inductive Pmm.Allocates (p : Pmm) (count : Nat) : KernelResult Nat × Pmm → Prop
  | refused (h : p.freePageCount < count ∨ count = 0 ∨ Fits (getBit p.mem) count p.totalPages none) :
      Allocates p count (.error .outOfMemory, p)
  | taken {start : Nat} (hcount : 0 < count) (hfree : count ≤ p.freePageCount)
      (hfits : Fits (getBit p.mem) count p.totalPages (some start)) :
      Allocates p count (p.take start count)

theorem allocPage_spec (p : Pmm) : p.Allocates 1 p.allocPage := by
  have hfits := firstFree_fits (getBit p.mem) p.totalPages
  rw [Pmm.allocPage]
  split_ifs with hzero
  · exact .refused (.inl (by omega))
  cases hfind : firstFree (getBit p.mem) p.totalPages 0 with
  | none => exact .refused (.inr (.inr (hfind ▸ hfits)))
  | some i => exact .taken one_pos (Nat.one_le_iff_ne_zero.mpr hzero) (hfind ▸ hfits)

theorem allocPages_spec (p : Pmm) (count : Nat) : p.Allocates count (p.allocPages count) := by
  rw [Pmm.allocPages]
  split_ifs with hfew
  · exact .refused (.inl hfew)
  obtain rfl | hcount := Nat.eq_zero_or_pos count
  · rw [firstRun_zero]
    exact .refused (.inr (.inl rfl))
  have hfits := firstRun_fits (getBit p.mem) p.totalPages hcount
  cases hfind : firstRun (getBit p.mem) count p.totalPages 0 none 0 with
  | none => exact .refused (.inr (.inr (hfind ▸ hfits)))
  | some start => exact .taken hcount (not_lt.mp hfew) (hfind ▸ hfits)

theorem getBit_take {start : Nat} (count : Nat) (hbelow : p.baseAddr + start * pageSize < usizeRange)
    (hapart : p.baseAddr + start * pageSize + count * pageSize ≤ bitmapBase ∨
      bitmapBase + bitmapSize ≤ p.baseAddr + start * pageSize) (j : Nat) :
    getBit (p.take start count).2.mem j =
      (getBit p.mem j || decide (start ≤ j ∧ j < start + count)) := by
  simp only [Pmm.take, Nat.mod_eq_of_lt hbelow]
  rw [getBit_fill_outside hapart, getBit_foldl_setBit]

theorem freePage_cases (p : Pmm) (addr : Nat) : (∃ e, p.freePage addr = (.error e, p)) ∨
    p.baseAddr ≤ addr ∧ addr < p.endAddr ∧ addr % pageSize = 0 ∧
      getBit p.mem ((addr - p.baseAddr) / pageSize) = true ∧
      p.freePage addr = (.ok (), { p with
        mem := clearBit p.mem ((addr - p.baseAddr) / pageSize), freePageCount :=
  p.freePageCount + 1 }) := by
  rw [Pmm.freePage]
  dsimp only
  split_ifs with hrange halign hbit
  · exact .inl ⟨_, rfl⟩
  · exact .inl ⟨_, rfl⟩
  · exact .inl ⟨_, rfl⟩
  · obtain ⟨hlo, hhi⟩ := not_or.mp hrange
    exact .inr ⟨not_lt.mp hlo, not_le.mp hhi, not_ne_iff.mp halign, by simpa using hbit, rfl⟩

theorem freePagesFrom_preserves {I : Pmm → Prop} {addr n i : Nat} (h : I p)
    (hround : ∀ q j, i ≤ j → j < i + n → I q → I (q.freePage ((addr + j * pageSize) % usizeRange)).2) :
    I (Pmm.freePagesFrom addr n i p).2 := by
  induction n generalizing i p with
  | zero => exact h
  | succ n ih =>
    have hfirst := hround p i le_rfl (by omega) h
    rw [Pmm.freePagesFrom]
    split
    · next q heq =>
      rw [heq] at hfirst
      exact ih hfirst fun q j hl hu => hround q j (by omega) (by omega)
    · next e q heq =>
      rw [heq] at hfirst
      exact hfirst

end DeltaOS.PhysMemory
