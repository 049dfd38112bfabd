import DeltaOS.PhysMemory
import DeltaOS.Runs

namespace DeltaOS.PmmAccounting

open ByteMemory FirstFit Kernel Overflow PhysMemory Runs

inductive Op
  | allocPage
  | allocPages (count : Nat)
  | freePage (addr : Nat)
  | freePagesRange (addr count : Nat)
  | reserveRange (start size : Nat)

def step (p : Pmm) : Op → Pmm
  | .allocPage => p.allocPage.2
  | .allocPages count => (p.allocPages count).2
  | .freePage addr => (p.freePage addr).2
  | .freePagesRange addr count => (p.freePagesRange addr count).2
  | .reserveRange start size => p.reserveRange start size

def InBitmap (addr : Nat) : Prop := bitmapBase ≤ addr ∧ addr < bitmapBase + bitmapSize

instance (addr : Nat) : Decidable (InBitmap addr) := inferInstanceAs (Decidable (_ ∧ _))

/-- The call does not give back a page of the bitmap itself. -/
def KeepsBitmap (_ : Pmm) : Op → Prop
  | .freePage addr => ¬InBitmap addr
  | .freePagesRange addr count => ∀ i < count, ¬InBitmap ((addr + i * pageSize) % usizeRange)
  | _ => True

def freePages (p : Pmm) : Finset Nat := {i ∈ Finset.range p.totalPages | getBit p.mem i = false}

/-- The counter is the number of clear bits of managed pages, and no other bit is set. -/
structure Accounted (p : Pmm) : Prop where
  count : p.freePageCount = (freePages p).card
  beyond : ∀ i, p.totalPages ≤ i → i < maxPages → getBit p.mem i = false

/-- Whatever pages the loop of `reserve_range` goes through, it takes none from a counter at zero. -/
def CountsDown (p : Pmm) : Op → Prop
  | .allocPage => ∀ addr, p.allocPage.1 = .ok addr → p.allocPage.2.freePageCount + 1 = p.freePageCount
  | .allocPages count => ∀ addr, (p.allocPages count).1 = .ok addr →
      (p.allocPages count).2.freePageCount + count = p.freePageCount
  | .reserveRange _ _ => ∀ is, Guarded Pmm.reservePage
      (fun q i => i < q.totalPages → getBit q.mem i = false → 0 < q.freePageCount) p is
  | _ => True

/-- The counter is exact, and so is what the manager concludes from it. -/
structure Exact (p : Pmm) : Prop extends Accounted p where
  fails : (∃ e, p.allocPage.1 = .error e) ↔ ∀ i < p.totalPages, getBit p.mem i = true
  used : p.freePageCount ≤ p.totalPages

def zeroed (mem : Memory) (base size : Nat) : Pmm :=
  ⟨size / pageSize, size / pageSize, base, (base + size) % usizeRange, fill mem bitmapBase 0 bitmapSize⟩

def bitmapPages (base : Nat) : List Nat :=
  List.range' ((bitmapBase + usizeRange - base) % usizeRange / pageSize)
    ((bitmapSize + pageSize - 1) / pageSize)

/-- A range of whole pages that starts at or below the bitmap, with the pages of the bitmap taken. -/
structure Managed (p : Pmm) : Prop where
  aligned : p.baseAddr % pageSize = 0
  base : p.baseAddr ≤ bitmapBase
  pages : p.baseAddr + p.totalPages * pageSize ≤ p.endAddr
  top : p.endAddr < usizeRange
  bitmap : ∀ i < p.totalPages, InBitmap (p.baseAddr + i * pageSize) → getBit p.mem i = true

variable {p p' : Pmm} {count start i : Nat}

theorem mem_freePages : i ∈ freePages p ↔ i < p.totalPages ∧ getBit p.mem i = false := by
  simp [freePages]

theorem window_subset_freePages (hwindow : Window (getBit p.mem) start count)
    (hroom : start + count ≤ p.totalPages) : Finset.Ico start (start + count) ⊆ freePages p := by
  intro j hj
  obtain ⟨hlo, hhi⟩ := Finset.mem_Ico.mp hj
  exact mem_freePages.mpr ⟨hhi.trans_le hroom, hwindow j hlo hhi⟩

theorem Managed.of_bits (h : Managed p) (hsame : p.SameRange p')
    (hbits : ∀ i, getBit p.mem i = true → InBitmap (p.baseAddr + i * pageSize) →
      getBit p'.mem i = true) :
    Managed p' := by
  obtain ⟨htotal, hbase, hend⟩ := hsame
  refine ⟨hbase ▸ h.aligned, hbase ▸ h.base, ?_, hend ▸ h.top, ?_⟩
  · rw [hbase, htotal, hend]
    exact h.pages
  · rw [hbase, htotal]
    exact fun i hi hin => hbits i (h.bitmap i hi hin) hin

theorem Managed.addr_lt (h : Managed p) (hi : i ≤ p.totalPages) :
    p.baseAddr + i * pageSize < usizeRange :=
  (Nat.add_le_add_left (Nat.mul_le_mul_right pageSize hi) _).trans_lt (h.pages.trans_lt h.top)

theorem Managed.exists_index (h : Managed p) {a : Nat} (halign : a % pageSize = 0)
    (hlo : p.baseAddr ≤ a) (hhi : a < p.baseAddr + p.totalPages * pageSize) :
    ∃ i < p.totalPages, a = p.baseAddr + i * pageSize := by
  have hbase := h.aligned
  have hpage : pageSize = 4096 := rfl
  refine ⟨(a - p.baseAddr) / pageSize, ?_, ?_⟩
  all_goals
    rw [hpage] at halign hhi hbase ⊢
    omega

theorem Managed.window_apart (h : Managed p) (hcount : 0 < count)
    (hwindow : Window (getBit p.mem) start count) (hroom : start + count ≤ p.totalPages) :
    p.baseAddr + start * pageSize + count * pageSize ≤ bitmapBase ∨
      bitmapBase + bitmapSize ≤ p.baseAddr + start * pageSize := by
  have hpage : pageSize = 4096 := rfl
  have hsize : bitmapSize = 512 * 4096 := rfl
  have hbitmap : bitmapBase = 0x500 * 4096 := rfl
  have haligned := h.aligned
  have hbase := h.base
  by_contra hmeet
  obtain ⟨hleft, hright⟩ := not_or.mp hmeet
  rw [hpage] at haligned hleft hright
  have hin : InBitmap (p.baseAddr + max start ((bitmapBase - p.baseAddr) / 4096) * pageSize) := by
    rw [InBitmap, hpage]
    omega
  have hset := h.bitmap _ (by omega) hin
  rw [hwindow _ (le_max_left _ _) (by omega)] at hset
  cases hset

theorem Managed.getBit_take (h : Managed p) (hcount : 0 < count)
    (hfits : Fits (getBit p.mem) count p.totalPages (some start)) (j : Nat) :
    getBit (p.take start count).2.mem j =
      (getBit p.mem j || decide (start ≤ j ∧ j < start + count)) := by
  obtain ⟨hwindow, hroom, -⟩ := hfits
  exact PhysMemory.getBit_take count (h.addr_lt (by omega)) (h.window_apart hcount hwindow hroom) j

theorem Managed.take (h : Managed p) (hcount : 0 < count)
    (hfits : Fits (getBit p.mem) count p.totalPages (some start)) : Managed (p.take start count).2 := by
  refine h.of_bits ⟨rfl, rfl, rfl⟩ fun i hset _ => ?_
  rw [h.getBit_take hcount hfits, hset, Bool.true_or]

theorem Managed.allocates (h : Managed p) {r : KernelResult Nat × Pmm} (hr : p.Allocates count r) :
    Managed r.2 := by
  cases hr with
  | refused => exact h
  | taken hcount hfree hfits => exact h.take hcount hfits

theorem Managed.freePage (h : Managed p) {addr : Nat} (hout : ¬InBitmap addr) :
    Managed (p.freePage addr).2 := by
  obtain ⟨e, hfail⟩ | ⟨hlo, -, halign, -, hok⟩ := freePage_cases p addr
  · rw [hfail]
    exact h
  · rw [hok]
    refine h.of_bits ⟨rfl, rfl, rfl⟩ fun i hset hin => ?_
    have hne : i ≠ (addr - p.baseAddr) / pageSize := by
      rintro rfl
      have haligned := h.aligned
      have hpage : pageSize = 4096 := rfl
      have haddr : p.baseAddr + (addr - p.baseAddr) / pageSize * pageSize = addr := by
        rw [hpage] at halign haligned ⊢
        omega
      exact hout (haddr ▸ hin)
    rw [getBit_clearBit_of_ne _ hne, hset]

theorem Managed.reserveRange (h : Managed p) (start size : Nat) :
    Managed (p.reserveRange start size) := by
  refine h.of_bits (sameRange_reserveRange p start size) fun i hset _ => ?_
  rw [Pmm.reserveRange]
  split_ifs
  · exact hset
  · rw [marks_reservePage.bit_foldl, hset, Bool.true_or]

theorem inBitmap_iff {base : Nat} (halign : base % pageSize = 0) (hbase : base ≤ bitmapBase) :
    InBitmap (base + i * pageSize) ↔ (bitmapBase - base) / pageSize ≤ i ∧
      i < (bitmapBase - base) / pageSize + (bitmapSize + pageSize - 1) / pageSize := by
  have hpage : pageSize = 4096 := rfl
  have hsize : bitmapSize = 512 * 4096 := rfl
  have hbitmap : bitmapBase = 0x500 * 4096 := rfl
  rw [hpage] at halign
  rw [InBitmap, hpage]
  omega

theorem bitmapStart_eq {base : Nat} (hbase : base ≤ bitmapBase) :
    (bitmapBase + usizeRange - base) % usizeRange = bitmapBase - base := by
  have hlt : bitmapBase < usizeRange := by decide
  rw [show bitmapBase + usizeRange - base = bitmapBase - base + usizeRange by omega,
    Nat.add_mod_right, Nat.mod_eq_of_lt (by omega)]

theorem getBit_new_bitmap (mem : Memory) {base size : Nat} (halign : base % pageSize = 0)
    (hbase : base ≤ bitmapBase) (hi : i < size / pageSize) (hin : InBitmap (base + i * pageSize)) :
    getBit (Pmm.new mem base size).mem i = true := by
  obtain ⟨hlo, hhi⟩ := (inBitmap_iff halign hbase).mp hin
  rw [Pmm.new, marks_markBitmapPage.bit_foldl, bitmapStart_eq hbase,
    decide_eq_true ⟨hlo, hhi, hi⟩, Bool.or_true]

theorem managed_new (mem : Memory) {base size : Nat} (halign : base % pageSize = 0)
    (hbase : base ≤ bitmapBase) (hfit : base + size < usizeRange) : Managed (.new mem base size) := by
  obtain ⟨htotal, hb, hend⟩ := sameRange_new mem base size
  have hbitmap : ∀ i < size / pageSize, InBitmap (base + i * pageSize) → _ := fun i =>
    getBit_new_bitmap mem halign hbase
  have hpages : size / pageSize * pageSize ≤ size := Nat.div_mul_le_self size pageSize
  rw [Nat.mod_eq_of_lt hfit] at hend
  generalize Pmm.new mem base size = p at *
  refine ⟨hb ▸ halign, hb ▸ hbase, ?_, hend ▸ hfit, ?_⟩
  · rw [hb, htotal, hend]
    omega
  · rwa [hb, htotal]

def Covered (p : Pmm) : Prop := p.endAddr ≤ p.baseAddr + maxPhysMemory

theorem sameRange_freePage (p : Pmm) (addr : Nat) : p.SameRange (p.freePage addr).2 := by
  obtain ⟨e, hfail⟩ | ⟨-, -, -, -, hok⟩ := freePage_cases p addr
  · rw [hfail]
    exact .refl p
  · rw [hok]
    exact ⟨rfl, rfl, rfl⟩

theorem Allocates.sameRange {r : KernelResult Nat × Pmm} (hr : p.Allocates count r) :
    p.SameRange r.2 := by
  cases hr with
  | refused => exact .refl p
  | taken => exact ⟨rfl, rfl, rfl⟩

theorem sameRange_step (p : Pmm) (op : Op) : p.SameRange (step p op) := by
  cases op with
  | allocPage => exact Allocates.sameRange (allocPage_spec p)
  | allocPages count => exact Allocates.sameRange (allocPages_spec p count)
  | freePage addr => exact sameRange_freePage p addr
  | freePagesRange addr count =>
    exact freePagesFrom_preserves (.refl p) fun q _ _ _ hq => hq.trans (sameRange_freePage q _)
  | reserveRange start size => exact sameRange_reserveRange p start size

theorem Covered.step (h : Covered p) (op : Op) : Covered (step p op) := by
  obtain ⟨-, hbase, hend⟩ := sameRange_step p op
  rwa [Covered, hbase, hend]

theorem Managed.totalPages_le (h : Managed p) (hcover : Covered p) : p.totalPages ≤ maxPages := by
  have hpages := h.pages
  rw [Covered, show maxPhysMemory = maxPages * pageSize from rfl] at hcover
  exact Nat.le_of_mul_le_mul_right (by omega : p.totalPages * pageSize ≤ maxPages * pageSize) (by decide)

theorem Accounted.le_totalPages (h : Accounted p) : p.freePageCount ≤ p.totalPages := by
  rw [h.count, ← Finset.card_range p.totalPages]
  exact Finset.card_filter_le _ _

theorem Accounted.pos (h : Accounted p) (hi : i < p.totalPages) (hfree : getBit p.mem i = false) :
    0 < p.freePageCount := by
  rw [h.count]
  exact Finset.card_pos.mpr ⟨i, mem_freePages.mpr ⟨hi, hfree⟩⟩

theorem Accounted.markBitmapPage (h : Accounted p) (hclear : i < p.totalPages → getBit p.mem i = false) :
    Accounted (p.markBitmapPage i) := by
  have hbit := marks_markBitmapPage.bit p i
  rw [Pmm.markBitmapPage] at hbit ⊢
  split_ifs at hbit ⊢ with hi
  · refine ⟨?_, fun j hlo hhi => ?_⟩
    · have hset : freePages { p with mem := setBit p.mem i, freePageCount := p.freePageCount - 1 } =
          (freePages p).erase i := by
        ext j
        rw [Finset.mem_erase, mem_freePages, mem_freePages]
        dsimp only at hbit ⊢
        simp only [hbit, hi, and_true, Bool.or_eq_false_iff, decide_eq_false_iff_not]
        tauto
      rw [hset, Finset.card_erase_of_mem (mem_freePages.mpr ⟨hi, hclear hi⟩), h.count]
    · dsimp only at hlo hbit ⊢
      have hne : j ≠ i := by omega
      rw [hbit, h.beyond j hlo hhi]
      simp [hne]
  · exact h

theorem Accounted.reservePage (h : Accounted p) (i : Nat) : Accounted (p.reservePage i) := by
  rw [reservePage_eq]
  split_ifs with hset
  · exact h
  · exact h.markBitmapPage fun _ => Bool.eq_false_iff.mpr hset

theorem Accounted.foldl_reservePage (h : Accounted p) (is : List Nat) :
    Accounted (is.foldl Pmm.reservePage p) := by
  induction is generalizing p with
  | nil => exact h
  | cons i is ih => exact ih (h.reservePage i)

theorem Accounted.reserveRange (h : Accounted p) (start size : Nat) :
    Accounted (p.reserveRange start size) := by
  rw [Pmm.reserveRange]
  split_ifs
  · exact h
  · exact h.foldl_reservePage _

theorem Accounted.take (h : Accounted p) (hm : Managed p) (hcount : 0 < count)
    (hfits : Fits (getBit p.mem) count p.totalPages (some start)) :
    Accounted (p.take start count).2 := by
  have hbit := hm.getBit_take hcount hfits
  obtain ⟨hwindow, hroom, -⟩ := hfits
  have hsub := window_subset_freePages hwindow hroom
  have hset : freePages (p.take start count).2 = freePages p \ Finset.Ico start (start + count) := by
    ext j
    rw [Finset.mem_sdiff, mem_freePages, mem_freePages, hbit, Bool.or_eq_false_iff,
      decide_eq_false_iff_not, Finset.mem_Ico, and_assoc]
    rfl
  refine ⟨?_, fun j hlo hhi => ?_⟩
  · rw [hset, Finset.card_sdiff_of_subset hsub, Nat.card_Ico, Nat.add_sub_cancel_left, ← h.count]
    rfl
  · have hout : ¬(start ≤ j ∧ j < start + count) :=
      fun hin => absurd (hin.2.trans_le hroom) (not_lt.mpr hlo)
    rw [hbit, h.beyond j hlo hhi, decide_eq_false hout]
    rfl

theorem Accounted.allocates (h : Accounted p) (hm : Managed p) {r : KernelResult Nat × Pmm}
    (hr : p.Allocates count r) : Accounted r.2 := by
  cases hr with
  | refused => exact h
  | taken hcount hfree hfits => exact h.take hm hcount hfits

theorem Accounted.index_lt (ha : Accounted p) (hcover : Covered p) {addr : Nat}
    (hlo : p.baseAddr ≤ addr) (hhi : addr < p.endAddr)
    (hset : getBit p.mem ((addr - p.baseAddr) / pageSize) = true) :
    (addr - p.baseAddr) / pageSize < p.totalPages := by
  by_contra hge
  have hmax : (addr - p.baseAddr) / pageSize < maxPages := by
    rw [Covered] at hcover
    exact Nat.div_lt_of_lt_mul (by
      rw [Nat.mul_comm]; exact (by omega : addr - p.baseAddr < maxPhysMemory))
  rw [ha.beyond _ (not_lt.mp hge) hmax] at hset
  cases hset

theorem Accounted.freePage (ha : Accounted p) (h : Managed p) (hcover : Covered p) (addr : Nat) :
    Accounted (p.freePage addr).2 := by
  obtain ⟨e, hfail⟩ | ⟨hlo, hhi, -, hset, hok⟩ := freePage_cases p addr
  · rw [hfail]
    exact ha
  · have hlt := ha.index_lt hcover hlo hhi hset
    have hmax := h.totalPages_le hcover
    rw [hok]
    generalize (addr - p.baseAddr) / pageSize = i at hset hlt ⊢
    have hbyte : i / 8 < bitmapSize :=
      Nat.div_lt_of_lt_mul ((hlt.trans_le hmax).trans_eq (by decide))
    have hbit := getBit_clearBit p.mem hbyte
    have hnot : i ∉ freePages p := fun hmem => by
      rw [(mem_freePages.mp hmem).2] at hset
      cases hset
    have hinsert : freePages { p with mem := clearBit p.mem i, freePageCount := p.freePageCount + 1 } =
        insert i (freePages p) := by
      ext j
      rw [Finset.mem_insert, mem_freePages, mem_freePages]
      dsimp only
      rw [hbit, Bool.and_eq_false_iff, Bool.not_eq_false', decide_eq_true_eq]
      obtain rfl | hne := eq_or_ne j i
      · simp [hlt]
      · simp [hne]
    refine ⟨?_, fun j hjlo hjhi => ?_⟩
    · rw [hinsert, Finset.card_insert_of_notMem hnot, ← ha.count]
    · dsimp only at hjlo ⊢
      rw [hbit, ha.beyond j hjlo hjhi, Bool.false_and]

theorem Accounted.allocPage_fails_iff (h : Accounted p) :
    (∃ e, p.allocPage.1 = .error e) ↔ ∀ i < p.totalPages, getBit p.mem i = true := by
  have hspec := allocPage_spec p
  constructor
  · rintro ⟨e, he⟩ i hi
    cases hr : p.allocPage with
    | mk result p' =>
      rw [hr] at hspec he
      cases hspec with
      | refused hnone =>
        by_contra hfree
        have hfree : getBit p.mem i = false := Bool.eq_false_iff.mpr hfree
        obtain hlt | hzero | hfits := hnone
        · exact absurd (h.pos hi hfree) (by omega)
        · cases hzero
        · refine hfits i hi fun j hlo hhi => ?_
          rw [show j = i by omega, hfree]
      | taken => cases he
  · intro hfull
    cases hr : p.allocPage with
    | mk result p' =>
      rw [hr] at hspec
      cases hspec with
      | refused => exact ⟨_, rfl⟩
      | @taken start hcount hfree hfits =>
        have hclear := hfits.1 start le_rfl (Nat.lt_succ_self start)
        rw [hfull start hfits.2.1] at hclear
        cases hclear

theorem new_eq (mem : Memory) (base size : Nat) :
    Pmm.new mem base size = (bitmapPages base).foldl Pmm.markBitmapPage (zeroed mem base size) := rfl

theorem accounted_zeroed (mem : Memory) (base : Nat) {size : Nat} (hsize : size ≤ maxPhysMemory) :
    Accounted (zeroed mem base size) := by
  have hclear : ∀ i < maxPages, getBit (zeroed mem base size).mem i = false := fun i hi =>
    getBit_fill_zero (Nat.div_lt_of_lt_mul (hi.trans_eq (by decide)))
  have hpages : size / pageSize ≤ maxPages := Nat.div_le_div_right hsize
  refine ⟨?_, fun i _ hi => hclear i hi⟩
  have hall : freePages (zeroed mem base size) = Finset.range (size / pageSize) := by
    refine Finset.filter_true_of_mem fun i hi => hclear i ?_
    exact (Finset.mem_range.mp hi).trans_le hpages
  rw [hall, Finset.card_range]
  rfl

theorem Accounted.foldl_markBitmapPage {a n : Nat} (h : Accounted p)
    (hclear : ∀ i, a ≤ i → i < p.totalPages → getBit p.mem i = false) :
    Accounted ((List.range' a n).foldl Pmm.markBitmapPage p) ∧
      Guarded Pmm.markBitmapPage (fun q i => i < q.totalPages → 0 < q.freePageCount) p
        (List.range' a n) := by
  induction n generalizing a p with
  | zero => exact ⟨h, trivial⟩
  | succ n ih =>
    have hnext : ∀ i, a + 1 ≤ i → i < (p.markBitmapPage a).totalPages →
        getBit (p.markBitmapPage a).mem i = false := by
      intro i hlo hhi
      rw [(marks_markBitmapPage.same p a).totalPages] at hhi
      have hne : i ≠ a := by omega
      rw [marks_markBitmapPage.bit, hclear i (by omega) hhi]
      simp [hne]
    obtain ⟨hacc, hguard⟩ := ih (h.markBitmapPage (hclear a le_rfl)) hnext
    rw [List.range'_succ]
    exact ⟨hacc, fun ha => h.pos ha (hclear a le_rfl ha), hguard⟩

theorem new_accounted (mem : Memory) (base : Nat) {size : Nat} (hsize : size ≤ maxPhysMemory) :
    Accounted (.new mem base size) ∧
      Guarded Pmm.markBitmapPage (fun q i => i < q.totalPages → 0 < q.freePageCount)
        (zeroed mem base size) (bitmapPages base) := by
  rw [new_eq]
  refine (accounted_zeroed mem base hsize).foldl_markBitmapPage fun i _ hi => ?_
  have hpages : size / pageSize ≤ maxPages := Nat.div_le_div_right hsize
  exact getBit_fill_zero (Nat.div_lt_of_lt_mul ((hi.trans_le hpages).trans_eq (by decide)))

structure Inv (p : Pmm) : Prop where
  managed : Managed p
  covered : Covered p
  accounted : Accounted p

theorem inv_step (p : Pmm) (op : Op) (h : Inv p) (hg : KeepsBitmap p op) : Inv (step p op) := by
  have hcover := h.covered.step op
  cases op with
  | allocPage =>
    have hspec := allocPage_spec p
    exact ⟨h.managed.allocates hspec, hcover, h.accounted.allocates h.managed hspec⟩
  | allocPages count =>
    have hspec := allocPages_spec p count
    exact ⟨h.managed.allocates hspec, hcover, h.accounted.allocates h.managed hspec⟩
  | freePage addr =>
    exact ⟨h.managed.freePage hg, hcover, h.accounted.freePage h.managed h.covered addr⟩
  | freePagesRange addr count =>
    refine freePagesFrom_preserves h fun q j _ hj hq => ?_
    exact ⟨hq.managed.freePage (hg j (by omega)), hq.covered.step (.freePage _),
      hq.accounted.freePage hq.managed hq.covered _⟩
  | reserveRange start size =>
    exact ⟨h.managed.reserveRange start size, hcover, h.accounted.reserveRange start size⟩

theorem inv_new (mem : Memory) {base size : Nat} (halign : base % pageSize = 0)
    (hbase : base ≤ bitmapBase) (hsize : size ≤ maxPhysMemory) : Inv (.new mem base size) := by
  have hfit : base + size < usizeRange := (Nat.add_le_add hbase hsize).trans_lt (by decide)
  obtain ⟨-, hb, hend⟩ := sameRange_new mem base size
  refine ⟨managed_new mem halign hbase hfit, ?_, (new_accounted mem base hsize).1⟩
  rw [Covered, hb, hend, Nat.mod_eq_of_lt hfit]
  omega

theorem Accounted.exact (h : Accounted p) : Exact p := ⟨h, h.allocPage_fails_iff, h.le_totalPages⟩

theorem Accounted.guarded_reservePage (h : Accounted p) (is : List Nat) : Guarded Pmm.reservePage
    (fun q i => i < q.totalPages → getBit q.mem i = false → 0 < q.freePageCount) p is :=
  guarded_of_step (fun _ i hq => Accounted.reservePage hq i) (fun _ _ hq hi hfree => hq.pos hi hfree) h

theorem Allocates.countsDown {r : KernelResult Nat × Pmm} {addr : Nat} (hr : p.Allocates count r)
    (hok : r.1 = .ok addr) : r.2.freePageCount + count = p.freePageCount := by
  cases hr with
  | refused => cases hok
  | taken hcount hfree hfits => exact Nat.sub_add_cancel hfree

theorem Accounted.countsDown (h : Accounted p) (op : Op) : CountsDown p op := by
  cases op with
  | allocPage => exact fun addr => Allocates.countsDown (allocPage_spec p)
  | allocPages count => exact fun addr => Allocates.countsDown (allocPages_spec p count)
  | freePage | freePagesRange => trivial
  | reserveRange => exact h.guarded_reservePage

/-- The counter of free pages is exact as long as the pages of the bitmap are not given back. -/
theorem freePageCount_exact (mem : Memory) {base size : Nat} (halign : base % pageSize = 0)
    (hbase : base ≤ bitmapBase) (hsize : size ≤ maxPhysMemory) (ops : List Op)
    (hg : Guarded step KeepsBitmap (.new mem base size) ops) :
    Guarded Pmm.markBitmapPage (fun q i => i < q.totalPages → 0 < q.freePageCount)
        (zeroed mem base size) (bitmapPages base) ∧
      Always step Exact (.new mem base size) ops ∧ Guarded step CountsDown (.new mem base size) ops := by
  have h0 := inv_new mem halign hbase hsize
  refine ⟨(new_accounted mem base hsize).2, ?_, ?_⟩
  · exact (hg.always inv_step h0).mono fun _ h => h.accounted.exact
  · exact hg.imp inv_step (fun _ op h _ => h.accounted.countsDown op) h0

theorem freePageCount_exact_twoPages :
    let ops := [.allocPage, .reserveRange 0x101000 1, .freePagesRange 0x100000 2, .allocPages 2]
    Guarded Pmm.markBitmapPage (fun q i => i < q.totalPages → 0 < q.freePageCount)
        (zeroed (fun _ => 0) 0x100000 0x2000) (bitmapPages 0x100000) ∧
      Always step Exact (.new (fun _ => 0) 0x100000 0x2000) ops ∧
      Guarded step CountsDown (.new (fun _ => 0) 0x100000 0x2000) ops :=
  freePageCount_exact (fun _ => 0) (by decide) (by decide) (by decide) _
    ⟨trivial, trivial, by rw [KeepsBitmap]; decide, trivial, trivial⟩

/-- `free_page` takes back a page of the bitmap, and `alloc_page` then clears that page. -/
theorem freedBitmap_not_exact : bitmapBase % pageSize = 0 ∧ 2 * pageSize ≤ maxPhysMemory ∧
    ¬Always step Exact (.new (fun _ => 0) bitmapBase (2 * pageSize))
    [.freePage bitmapBase, .allocPage] := by
  refine ⟨by decide, by decide, fun h => ?_⟩
  have hcount := h.last.count
  revert hcount
  decide +kernel

end DeltaOS.PmmAccounting
