import DeltaOS.PmmWindows

namespace DeltaOS.PmmRanges

open ByteMemory FirstFit Kernel Overflow PhysMemory PmmAccounting PmmWindows Runs

variable {p p' q : Pmm} {addr count n i j s : Nat}

def SameBitmap (p p' : Pmm) : Prop := ∀ a, InBitmap a → p'.mem a = p.mem a

/-- A call that fails has changed nothing. -/
def Atomic (p : Pmm) (r : KernelResult Unit × Pmm) : Prop :=
  ∀ e, r.1 = .error e → SameBitmap p r.2 ∧ r.2.freePageCount = p.freePageCount

/-- `free_page` accepts the address: it is the one of a managed page that is in use. -/
structure Freeable (p : Pmm) (addr : Nat) : Prop where
  low : p.baseAddr ≤ addr
  high : addr < p.endAddr
  aligned : addr % pageSize = 0
  used : getBit p.mem ((addr - p.baseAddr) / pageSize) = true

/-- The addresses that the loop of `free_pages_range` goes through. -/
def pagesFrom (addr i n : Nat) : List Nat :=
  (List.range' i n).map fun j => (addr + j * pageSize) % usizeRange

/-- All of the pages can be freed, and none of them comes twice unless it is beyond the bitmap. -/
structure Returnable (p : Pmm) (addrs : List Nat) : Prop where
  each : ∀ a ∈ addrs, Freeable p a
  once : addrs.Pairwise fun a b => a = b → maxPages ≤ (a - p.baseAddr) / pageSize

/-- Giving back what was just allocated undoes the allocation, and cannot be done twice. -/
def Inverse (p : Pmm) (count : Nat) : Prop :=
  ∀ a p₁, p.allocPages count = (.ok a, p₁) → ∃ p₂, p₁.freePagesRange a count = (.ok (), p₂) ∧
    SameBitmap p p₂ ∧ p₂.freePageCount = p.freePageCount ∧
      ∃ e, p₂.freePagesRange a count = (.error e, p₂)

/-- The address of the page is one that `free_page` accepts. -/
def Inside (p : Pmm) (j : Nat) : Prop := p.baseAddr ≤ pageAddr p j ∧ pageAddr p j < p.endAddr

theorem sameBitmap_iff : SameBitmap p p' ↔ ∀ j, getBit p'.mem j = getBit p.mem j := by
  constructor
  · intro h j
    apply getBit_congr
    exact fun a hlo hhi => h a ⟨hlo, hhi⟩
  · rintro h a ⟨hlo, hhi⟩
    obtain ⟨b, rfl⟩ := Nat.exists_eq_add_of_le hlo
    have hb : b < bitmapSize := Nat.lt_of_add_lt_add_left hhi
    apply BitVec.eq_of_getLsbD_eq
    intro k hk
    have hbit := h (8 * b + k)
    have hdiv : (8 * b + k) / 8 = b := by omega
    have hmod : (8 * b + k) % 8 = k := by omega
    rwa [getBit_eq, getBit_eq, hdiv, hmod, decide_eq_false (not_le.mpr hb), Bool.false_or, Bool.false_or]
      at hbit

theorem freePagesFrom_ok (h : Pmm.freePagesFrom addr n i p = (.ok (), p')) :
    p'.freePageCount = p.freePageCount + n := by
  induction n generalizing i p with
  | zero =>
    cases h
    rfl
  | succ n ih =>
    rw [Pmm.freePagesFrom] at h
    obtain ⟨e, hfail⟩ | ⟨-, -, -, -, hok⟩ := freePage_cases p ((addr + i * pageSize) % usizeRange)
    · rw [hfail] at h
      cases h
    · rw [hok] at h
      rw [ih h]
      exact Nat.add_right_comm _ _ _

theorem freePagesFrom_error {e : KernelError} (h : Pmm.freePagesFrom addr n i p = (.error e, p')) :
    ∃ k < n, Pmm.freePagesFrom addr k i p = (.ok (), p') ∧
      p'.freePage ((addr + (i + k) * pageSize) % usizeRange) = (.error e, p') := by
  induction n generalizing i p with
  | zero => cases h
  | succ n ih =>
    rw [Pmm.freePagesFrom] at h
    obtain ⟨e', hfail⟩ | ⟨-, -, -, -, hok⟩ := freePage_cases p ((addr + i * pageSize) % usizeRange)
    · rw [hfail] at h
      cases h
      exact ⟨0, Nat.succ_pos n, rfl, hfail⟩
    · rw [hok] at h
      obtain ⟨k, hk, hrun, hlast⟩ := ih h
      refine ⟨k + 1, Nat.succ_lt_succ hk, ?_, ?_⟩
      · rw [Pmm.freePagesFrom, hok]
        exact hrun
      · rwa [show i + (k + 1) = i + 1 + k by omega]

def freed (p : Pmm) (addr : Nat) : Pmm :=
  { p with mem := clearBit p.mem ((addr - p.baseAddr) / pageSize), freePageCount := p.freePageCount + 1 }

theorem Freeable.freePage_eq (h : Freeable p addr) : p.freePage addr = (.ok (), freed p addr) := by
  have hin : ¬(addr < p.baseAddr ∨ addr ≥ p.endAddr) := not_or.mpr ⟨not_lt.mpr h.low, not_le.mpr h.high⟩
  simp only [Pmm.freePage, if_neg hin, h.aligned, h.used, freed]
  rfl

theorem freePage_eq_of_not (h : ¬Freeable p addr) : ∃ e, p.freePage addr = (.error e, p) := by
  obtain hfail | ⟨hlo, hhi, haligned, hset, -⟩ := freePage_cases p addr
  · exact hfail
  · exact absurd ⟨hlo, hhi, haligned, hset⟩ h

theorem Freeable.index_inj {a b : Nat} (ha : Freeable p a) (hb : Freeable p b)
    (h : (b - p.baseAddr) / pageSize = (a - p.baseAddr) / pageSize) : b = a := by
  have hpage : pageSize = 4096 := rfl
  obtain ⟨ha, -, haligned, -⟩ := ha
  obtain ⟨hb, -, hbligned, -⟩ := hb
  rw [hpage] at h haligned hbligned
  omega

theorem freeable_freed_iff {a b : Nat} (ha : Freeable p a) :
    Freeable (freed p a) b ↔ Freeable p b ∧ (a = b → maxPages ≤ (a - p.baseAddr) / pageSize) := by
  have hsplit : maxPages ≤ (a - p.baseAddr) / pageSize ↔ ¬(a - p.baseAddr) / pageSize / 8 <
      bitmapSize := by
    have hmax : maxPages = 8 * bitmapSize := by decide
    omega
  constructor
  · rintro ⟨hlo, hhi, haligned, hset⟩
    change getBit (clearBit p.mem ((a - p.baseAddr) / pageSize)) ((b - p.baseAddr) / pageSize) = true
      at hset
    obtain rfl | hne := eq_or_ne a b
    · refine ⟨ha, fun _ => hsplit.mpr fun hbyte => ?_⟩
      rw [getBit_clearBit p.mem hbyte, decide_eq_true rfl, Bool.not_true, Bool.and_false] at hset
      cases hset
    · refine ⟨⟨hlo, hhi, haligned, ?_⟩, fun h => absurd h hne⟩
      by_cases hbyte : (a - p.baseAddr) / pageSize / 8 < bitmapSize
      · rw [getBit_clearBit p.mem hbyte, Bool.and_eq_true] at hset
        exact hset.1
      · rwa [clearBit, if_neg hbyte] at hset
  · rintro ⟨hb, htwice⟩
    refine ⟨hb.low, hb.high, hb.aligned, ?_⟩
    change getBit (clearBit p.mem ((a - p.baseAddr) / pageSize)) ((b - p.baseAddr) / pageSize) = true
    obtain rfl | hne := eq_or_ne a b
    · rw [clearBit, if_neg (hsplit.mp (htwice rfl))]
      exact hb.used
    · rw [getBit_clearBit_of_ne p.mem fun h => hne (ha.index_inj hb h).symm]
      exact hb.used

theorem returnable_cons_iff {a : Nat} {addrs : List Nat} :
    Returnable p (a :: addrs) ↔ Freeable p a ∧ Returnable (freed p a) addrs := by
  constructor
  · rintro ⟨heach, honce⟩
    obtain ⟨ha, hrest⟩ := List.forall_mem_cons.mp heach
    obtain ⟨hfirst, honce⟩ := List.pairwise_cons.mp honce
    exact ⟨ha, fun b hb => (freeable_freed_iff ha).mpr ⟨hrest b hb, hfirst b hb⟩, honce⟩
  · rintro ⟨ha, heach, honce⟩
    refine ⟨List.forall_mem_cons.mpr ⟨ha, fun b hb => ?_⟩,
      List.pairwise_cons.mpr ⟨fun b hb => ?_, honce⟩⟩
    · exact ((freeable_freed_iff ha).mp (heach b hb)).1
    · exact ((freeable_freed_iff ha).mp (heach b hb)).2

theorem freePagesFrom_ok_iff :
    (Pmm.freePagesFrom addr n i p).1 = .ok () ↔ Returnable p (pagesFrom addr i n) := by
  induction n generalizing i p with
  | zero => exact iff_of_true rfl ⟨List.forall_mem_nil _, .nil⟩
  | succ n ih =>
    rw [Pmm.freePagesFrom, pagesFrom, List.range'_succ, List.map_cons, returnable_cons_iff]
    by_cases hfree : Freeable p ((addr + i * pageSize) % usizeRange)
    · rw [hfree.freePage_eq, and_iff_right hfree]
      exact ih
    · obtain ⟨e, hfail⟩ := freePage_eq_of_not hfree
      rw [hfail]
      exact iff_of_false (fun h => by cases h) fun h => hfree h.1

/-- A range is given back as a whole or not at all exactly if each of its pages can be freed, or the
first one cannot. -/
theorem freePagesRange_atomic_iff (p : Pmm) (addr count : Nat) : Atomic p (p.freePagesRange addr count) ↔
    Returnable p (pagesFrom addr 0 count) ∨ ¬Freeable p (addr % usizeRange) := by
  rw [← freePagesFrom_ok_iff]
  obtain ⟨r, p', hr⟩ : ∃ r p', p.freePagesRange addr count = (r, p') := ⟨_, _, rfl⟩
  have hfrom : Pmm.freePagesFrom addr count 0 p = (r, p') := hr
  rw [hr, hfrom]
  cases r with
  | ok => exact iff_of_true (fun e he => by cases he) (.inl rfl)
  | error e =>
    rw [or_iff_right fun h : (Except.error e : KernelResult Unit) = .ok () => by cases h]
    obtain ⟨k, -, hrun, hlast⟩ := freePagesFrom_error hfrom
    have hcount : p'.freePageCount = p.freePageCount + k := freePagesFrom_ok hrun
    cases k with
    | zero =>
      cases hrun
      rw [Nat.add_zero, Nat.zero_mul, Nat.add_zero] at hlast
      refine iff_of_true (fun _ _ => ⟨fun _ _ => rfl, rfl⟩) fun hfree => ?_
      rw [hfree.freePage_eq] at hlast
      cases hlast
    | succ k =>
      -- the first page has been freed
      have hok := freePagesFrom_ok_iff.mp (congrArg Prod.fst hrun)
      refine iff_of_false (fun h => ?_) (not_not.mpr (hok.each _ List.mem_cons_self))
      have hsame : p'.freePageCount = p.freePageCount := (h e rfl).2
      omega

def oneTaken : Pmm := (Pmm.new (fun _ => 0) 0x100000 0x2000).allocPage.2

/-- The first of the two pages is given back before the second one fails. -/
theorem oneTaken_not_atomic : ¬Atomic oneTaken (oneTaken.freePagesRange 0x100000 2) := by
  intro h
  have hcount := (h .pageNotMapped (by decide +kernel)).2
  revert hcount
  decide +kernel

theorem pageAddr_add (p : Pmm) (s i : Nat) :
    (pageAddr p s + i * pageSize) % usizeRange = pageAddr p (s + i) := by
  rw [pageAddr, pageAddr, Nat.mod_add_mod, Nat.add_assoc, ← Nat.add_mul]

theorem lt_maxPages (h : getBit p.mem j = false) : j < maxPages := by
  by_contra hge
  rw [getBit_beyond _ (not_lt.mp hge)] at h
  cases h

theorem Inside.pageAddr_eq (h : Inside p j) (hj : j < maxPages) :
    pageAddr p j = p.baseAddr + j * pageSize := by
  -- an address that wraps around lies below the base
  have hsize : j * pageSize < usizeRange :=
    (Nat.mul_lt_mul_of_pos_right hj (by decide)).trans (by decide)
  have hlo := h.1
  rw [pageAddr] at hlo ⊢
  have hbase : p.baseAddr < usizeRange := hlo.trans_lt (Nat.mod_lt _ (by decide))
  obtain hlt | hge := lt_or_ge (p.baseAddr + j * pageSize) usizeRange
  · exact Nat.mod_eq_of_lt hlt
  · rw [Nat.mod_eq_sub_mod hge, Nat.mod_eq_of_lt (by omega)] at hlo
    omega

theorem freePage_pageAddr (halign : p.baseAddr % pageSize = 0) (hj : j < maxPages) :
    Inside p j ∧ getBit p.mem j = true ∧ p.freePage (pageAddr p j) = (.ok (), { p with
        mem := clearBit p.mem j, freePageCount := p.freePageCount + 1 }) ∨
      ¬(Inside p j ∧ getBit p.mem j = true) ∧ ∃ e, p.freePage (pageAddr p j) = (.error e, p) := by
  have haligned : pageAddr p j % pageSize = 0 := by
    rw [pageAddr, Nat.mod_mod_of_dvd _ (by decide), Nat.add_mul_mod_self_right, halign]
  have hindex : Inside p j → (pageAddr p j - p.baseAddr) / pageSize = j := by
    intro hin
    rw [hin.pageAddr_eq hj, Nat.add_sub_cancel_left]
    exact Nat.mul_div_cancel _ (by decide)
  by_cases hin : Inside p j
  · have hrange : ¬(pageAddr p j < p.baseAddr ∨ pageAddr p j ≥ p.endAddr) :=
      not_or.mpr ⟨not_lt.mpr hin.1, not_le.mpr hin.2⟩
    simp only [Pmm.freePage, if_neg hrange, haligned, hindex hin]
    cases hbit : getBit p.mem j with
    | true => exact .inl ⟨hin, rfl, rfl⟩
    | false => exact .inr ⟨(fun h => by cases h.2), _, rfl⟩
  · have hrange : pageAddr p j < p.baseAddr ∨ pageAddr p j ≥ p.endAddr := by
      rw [Inside] at hin
      omega
    exact .inr ⟨fun h => hin h.1, _, if_pos hrange⟩

theorem freePagesFrom_pageAddr (halign : q.baseAddr % pageSize = 0) (hmax : s + i + n ≤ maxPages) :
    (∀ j, s + i ≤ j → j < s + i + n → Inside q j ∧ getBit q.mem j = true) ∧
      (∃ q', Pmm.freePagesFrom (pageAddr q s) n i q = (.ok (), q') ∧ q.SameRange q' ∧
        ∀ j, getBit q'.mem j = (getBit q.mem j && !decide (s + i ≤ j ∧ j < s + i + n))) ∨
    (∃ j, s + i ≤ j ∧ j < s + i + n ∧ ¬(Inside q j ∧ getBit q.mem j = true)) ∧
      ∃ e, (Pmm.freePagesFrom (pageAddr q s) n i q).1 = .error e := by
  induction n generalizing q i with
  | zero =>
    refine .inl ⟨fun j hlo hhi => absurd hlo (not_le.mpr hhi), q, rfl, .refl q, fun j => ?_⟩
    have hnone : ¬(s + i ≤ j ∧ j < s + i + 0) := by omega
    rw [decide_eq_false hnone, Bool.not_false, Bool.and_true]
  | succ n ih =>
    have hfirst : s + i < maxPages := by omega
    rw [Pmm.freePagesFrom, pageAddr_add]
    obtain ⟨hin, hset, hok⟩ | ⟨hnot, e, hfail⟩ := freePage_pageAddr halign hfirst
    · have hclear := getBit_clearBit q.mem (Nat.div_lt_of_lt_mul (hfirst.trans_eq (by decide)))
      rw [hok]
      obtain ⟨hall, q', hrun, hsame, hbits⟩ | ⟨⟨j, hlo, hhi, hnot⟩, hfail⟩ := @ih { q with
        mem := clearBit q.mem (s + i), freePageCount := q.freePageCount + 1 } (i + 1) halign (by omega)
      · refine .inl ⟨fun j hlo hhi => ?_, q', hrun,
          ⟨hsame.totalPages, hsame.baseAddr, hsame.endAddr⟩, fun j => ?_⟩
        · obtain rfl | hne := eq_or_ne j (s + i)
          · exact ⟨hin, hset⟩
          · obtain ⟨hin', hset'⟩ := hall j (by omega) (by omega)
            rw [hclear, Bool.and_eq_true] at hset'
            exact ⟨hin', hset'.1⟩
        · rw [hbits, hclear, Bool.and_assoc, ← Bool.not_or, ← Bool.decide_or]
          congr 3
          exact propext (by omega)
      · refine .inr ⟨⟨j, by omega, by omega, fun h => hnot ⟨h.1, ?_⟩⟩, hfail⟩
        have hne : j ≠ s + i := by omega
        rw [hclear, h.2, decide_eq_false hne]
        rfl
    · rw [hfail]
      exact .inr ⟨⟨s + i, le_rfl, by omega, hnot⟩, e, rfl⟩

theorem freePagesRange_pageAddr (halign : q.baseAddr % pageSize = 0) (hmax : s + n ≤ maxPages) :
    (∀ j, s ≤ j → j < s + n → Inside q j ∧ getBit q.mem j = true) ∧
      (∃ q', q.freePagesRange (pageAddr q s) n = (.ok (), q') ∧ q.SameRange q' ∧
        ∀ j, getBit q'.mem j = (getBit q.mem j && !decide (s ≤ j ∧ j < s + n))) ∨
    (∃ j, s ≤ j ∧ j < s + n ∧ ¬(Inside q j ∧ getBit q.mem j = true)) ∧
      ∃ e, (q.freePagesRange (pageAddr q s) n).1 = .error e :=
  freePagesFrom_pageAddr (i := 0) halign hmax

theorem allocPages_of_fits (hcount : 1 ≤ count) (hfree : count ≤ p.freePageCount)
    (hfits : Fits (getBit p.mem) count p.totalPages (some s)) : p.allocPages count = p.take s count := by
  have hspec := allocPages_spec p count
  generalize p.allocPages count = r at hspec ⊢
  cases hspec with
  | refused hno =>
    obtain hfew | hzero | hnone := hno
    · exact absurd hfree (not_le.mpr hfew)
    · omega
    · exact absurd hfits.1 (hnone s hfits.2.1)
  | taken hpos _ hfits' => rw [hfits.unique hfits']

theorem window_le_maxPages (hcount : 1 ≤ count) (hwindow : Window (getBit p.mem) s count) :
    s + count ≤ maxPages := by
  have hlast := lt_maxPages (hwindow (s + count - 1) (by omega) (by omega))
  omega

theorem freePagesRange_refused (halign : q.baseAddr % pageSize = 0) (hs : s < maxPages)
    (hcount : 1 ≤ count)
    (hclear : getBit q.mem s = false) : ∃ e, q.freePagesRange (pageAddr q s) count = (.error e, q) := by
  obtain ⟨n, rfl⟩ := Nat.exists_eq_add_of_le' hcount
  obtain ⟨-, hset, -⟩ | ⟨-, e, hfail⟩ := freePage_pageAddr halign hs
  · rw [hclear] at hset
    cases hset
  · refine ⟨e, ?_⟩
    rw [Pmm.freePagesRange, Pmm.freePagesFrom, pageAddr_add, Nat.add_zero, hfail]

theorem take_inverse (halign : p.baseAddr % pageSize = 0) (hcount : 1 ≤ count)
    (hfree : count ≤ p.freePageCount)
    (hwindow : Window (getBit p.mem) s count) (hin : ∀ j, s ≤ j → j < s + count → Inside p j)
    (htakes : Takes p s count (p.take s count).2) :
    ∃ p₂, (p.take s count).2.freePagesRange (pageAddr p s) count = (.ok (), p₂) ∧ SameBitmap p p₂ ∧
      p₂.freePageCount = p.freePageCount ∧
      ∃ e, p₂.freePagesRange (pageAddr p s) count = (.error e, p₂) := by
  have hmax := window_le_maxPages hcount hwindow
  have hall : ∀ j, s ≤ j → j < s + count →
      Inside (p.take s count).2 j ∧ getBit (p.take s count).2.mem j = true := by
    intro j hlo hhi
    refine ⟨hin j hlo hhi, ?_⟩
    rw [htakes j, decide_eq_true ⟨hlo, hhi⟩, Bool.or_true]
  obtain ⟨-, p₂, hrun, hsame, hbits⟩ | ⟨⟨j, hlo, hhi, hnot⟩, -⟩ :=
    freePagesRange_pageAddr (q := (p.take s count).2) halign hmax
  · have hrestored : ∀ j, getBit p₂.mem j = getBit p.mem j := by
      intro j
      rw [hbits, htakes j]
      by_cases hj : s ≤ j ∧ j < s + count
      · rw [decide_eq_true hj, hwindow j hj.1 hj.2]
        rfl
      · rw [decide_eq_false hj, Bool.or_false, Bool.not_false, Bool.and_true]
    refine ⟨p₂, hrun, sameBitmap_iff.mpr hrestored, ?_, ?_⟩
    · rw [freePagesFrom_ok hrun]
      exact Nat.sub_add_cancel hfree
    · -- the first page of the window is free again
      have hclear : getBit p₂.mem s = false := (hrestored s).trans (hwindow s le_rfl (by omega))
      have haddr : pageAddr p₂ s = pageAddr p s := by
        rw [pageAddr, pageAddr, hsame.baseAddr]
        rfl
      have halign₂ : p₂.baseAddr % pageSize = 0 := (congrArg (· % pageSize) hsame.baseAddr).trans halign
      rw [← haddr]
      exact freePagesRange_refused halign₂ (by omega) hcount hclear
  · exact absurd (hall j hlo hhi) hnot

/-- Allocation and release are inverse exactly if the pages that are handed out can be given back by
their addresses, and hold no part of the bitmap that matters. -/
theorem allocPages_inverse_iff (halign : p.baseAddr % pageSize = 0) (hcount : 1 ≤ count) :
    Inverse p count ↔ ∀ s, count ≤ p.freePageCount → Fits (getBit p.mem) count p.totalPages (some s) →
      (∀ j, s ≤ j → j < s + count → Inside p j) ∧ Spared p s count := by
  constructor
  · intro h s hfree hfits
    obtain ⟨p₂, hrun, hrestored, -⟩ := h _ _ (allocPages_of_fits hcount hfree hfits)
    have hmax := window_le_maxPages hcount hfits.1
    obtain ⟨hall, p₂', hrun', -, hbits⟩ | ⟨-, e, hfail⟩ :=
      freePagesRange_pageAddr (q := (p.take s count).2) halign hmax
    · obtain rfl : p₂ = p₂' := (Prod.mk.inj (hrun.symm.trans hrun')).2
      refine ⟨fun j hlo hhi => (hall j hlo hhi).1, (take_takes_iff p s count).mp fun j => ?_⟩
      by_cases hj : s ≤ j ∧ j < s + count
      · rw [(hall j hj.1 hj.2).2, decide_eq_true hj, Bool.or_true]
      · have hback := (hbits j).symm.trans (sameBitmap_iff.mp hrestored j)
        rw [decide_eq_false hj, Bool.not_false, Bool.and_true] at hback
        rw [hback, decide_eq_false hj, Bool.or_false]
    · exact absurd (hfail.symm.trans (congrArg Prod.fst hrun)) nofun
  · rintro h a p₁ halloc
    have hspec := allocPages_spec p count
    rw [halloc] at hspec
    generalize hr : ((.ok a, p₁) : KernelResult Nat × Pmm) = r at hspec
    cases hspec with
    | refused => cases hr
    | @taken s hpos hfree hfits =>
      obtain ⟨hin, hspared⟩ := h s hfree hfits
      cases hr
      exact take_inverse halign hcount hfree hfits.1 hin ((take_takes_iff p s count).mpr hspared)

theorem inside_of_managed (hm : Managed p) (hj : j < p.totalPages) : Inside p j := by
  have htop :=
    (Nat.add_le_add_left (Nat.mul_le_mul_right pageSize (Nat.succ_le_of_lt hj)) p.baseAddr).trans
      hm.pages
  rw [Nat.succ_mul, pageSize] at htop
  rw [Inside, pageAddr, Nat.mod_eq_of_lt (hm.addr_lt hj.le), pageSize]
  omega

theorem twoPages_inverse : Inverse (.new (fun _ => 0) 0x100000 0x2000) 2 := by
  have hinv : Inv (.new (fun _ => 0) 0x100000 0x2000) := inv_new _ (by decide) (by decide) (by decide)
  apply (allocPages_inverse_iff hinv.managed.aligned (by decide)).mpr
  intro s _ hfits
  refine ⟨fun j _ hhi => inside_of_managed hinv.managed ?_,
    spared_of_managed hinv.managed (by decide) hfits⟩
  exact hhi.trans_le hfits.2.1

theorem not_inverse_of_fails {a : Nat} (halloc : (p.allocPages count).1 = .ok a)
    (hfails : ((p.allocPages count).2.freePagesRange a count).1 ≠ .ok ()) : ¬Inverse p count := by
  intro h
  obtain ⟨p₂, hrun, -⟩ := h a (p.allocPages count).2 (Prod.ext halloc rfl)
  rw [hrun] at hfails
  exact hfails rfl

/-- The page of the bitmap that was given back is handed out again, and cannot be given back any more. -/
theorem givenBack_not_inverse :
    Accounted givenBack ∧ givenBack.baseAddr % pageSize = 0 ∧ ¬Inverse givenBack 1 := by
  have hinv : Inv (.new (fun _ => 0) bitmapBase (2 * pageSize)) :=
    inv_new _ (by decide) (by decide) (by decide)
  refine ⟨hinv.accounted.freePage hinv.managed hinv.covered bitmapBase, by decide +kernel, ?_⟩
  apply not_inverse_of_fails (a := bitmapBase)
  · decide +kernel
  · decide +kernel

end DeltaOS.PmmRanges
