import DeltaOS.PmmAccounting

namespace DeltaOS.PmmWindows

open ByteMemory FirstFit Kernel Overflow PhysMemory PmmAccounting

variable {p : Pmm} {s count : Nat}

def pageAddr (p : Pmm) (i : Nat) : Nat := (p.baseAddr + i * pageSize) % usizeRange

def Takes (p : Pmm) (s count : Nat) (p' : Pmm) : Prop := ∀ j,
  getBit p'.mem j = (getBit p.mem j || decide (s ≤ j ∧ j < s + count))

/-- Contiguous allocation is complete first fit. -/
structure Complete (p : Pmm) (count : Nat) (r : KernelResult Nat × Pmm) : Prop where
  found : (∃ addr, r.1 = .ok addr) ↔ ∃ s, s + count ≤ p.totalPages ∧ Window (getBit p.mem) s count
  lowest : ∀ addr, r.1 = .ok addr →
    ∃ s, Fits (getBit p.mem) count p.totalPages (some s) ∧ addr = pageAddr p s ∧ Takes p s count r.2
  failed : ∀ e, r.1 = .error e → r.2 = p

/-- The pages of the window hold no byte of the bitmap with a bit that is to be set. -/
def Spared (p : Pmm) (s count : Nat) : Prop := ∀ j < maxPages,
  pageAddr p s ≤ bitmapBase + j / 8 → bitmapBase + j / 8 < pageAddr p s + count * pageSize →
    getBit p.mem j = false ∧ ¬(s ≤ j ∧ j < s + count)

theorem getBit_fill {m : Memory} {a n j : Nat} (hj : j < maxPages) : getBit (fill m a 0 n) j =
    (getBit m j && !decide (a ≤ bitmapBase + j / 8 ∧ bitmapBase + j / 8 < a + n)) := by
  have hbyte : ¬bitmapSize ≤ j / 8 := not_le.mpr (Nat.div_lt_of_lt_mul (hj.trans_eq (by decide)))
  rw [getBit_eq, getBit_eq, fill]
  split_ifs with hin
  · simp [hbyte, hin]
  · simp [hbyte, hin]

theorem take_takes_iff (p : Pmm) (s count : Nat) :
    Takes p s count (p.take s count).2 ↔ Spared p s count := by
  have hbit : ∀ j < maxPages, getBit (p.take s count).2.mem j =
      ((getBit p.mem j || decide (s ≤ j ∧ j < s + count)) && !decide (pageAddr p s ≤ bitmapBase + j / 8 ∧
        bitmapBase + j / 8 < pageAddr p s + count * pageSize)) := by
    intro j hj
    rw [← getBit_foldl_setBit, ← getBit_fill hj]
    rfl
  constructor
  · intro h j hj hlo hhi
    have hin : pageAddr p s ≤ bitmapBase + j / 8 ∧ bitmapBase + j / 8 < pageAddr p s +
        count * pageSize := ⟨hlo, hhi⟩
    have hclear := h j
    rw [hbit j hj, decide_eq_true hin, Bool.not_true, Bool.and_false, eq_comm, Bool.or_eq_false_iff,
      decide_eq_false_iff_not] at hclear
    exact hclear
  · intro h j
    obtain hj | hj := lt_or_ge j maxPages
    · rw [hbit j hj]
      by_cases hin : pageAddr p s ≤ bitmapBase + j / 8 ∧ bitmapBase + j / 8 < pageAddr p s +
        count * pageSize
      · obtain ⟨hfree, hout⟩ := h j hj hin.1 hin.2
        rw [hfree, decide_eq_false hout]
        rfl
      · rw [decide_eq_false hin, Bool.not_false, Bool.and_true]
    · rw [getBit_beyond _ hj, getBit_beyond _ hj, Bool.true_or]

theorem le_freePageCount (h : p.freePageCount = (freePages p).card) (hroom : s + count ≤ p.totalPages)
    (hwindow : Window (getBit p.mem) s count) : count ≤ p.freePageCount := by
  have hcard := Finset.card_le_card (window_subset_freePages hwindow hroom)
  rwa [Nat.card_Ico, Nat.add_sub_cancel_left, ← h] at hcard

theorem complete_refused (hnone : ∀ s, s + count ≤ p.totalPages → ¬Window (getBit p.mem) s count) :
    Complete p count (.error .outOfMemory, p) where
  found := by
    constructor
    · rintro ⟨addr, hok⟩
      cases hok
    · rintro ⟨s, hroom, hwindow⟩
      exact absurd hwindow (hnone s hroom)
  lowest := nofun
  failed _ _ := rfl

theorem complete_taken_iff (hfits : Fits (getBit p.mem) count p.totalPages (some s)) :
    Complete p count (p.take s count) ↔ Spared p s count := by
  constructor
  · intro h
    obtain ⟨s', hfits', -, htakes⟩ := h.lowest _ rfl
    obtain rfl := hfits.unique hfits'
    exact (take_takes_iff p s count).mp htakes
  · intro h
    refine ⟨iff_of_true ⟨_, rfl⟩ ⟨s, hfits.2.1, hfits.1⟩, ?_, nofun⟩
    rintro addr ⟨rfl⟩
    exact ⟨s, hfits, rfl, (take_takes_iff p s count).mpr h⟩

/-- Allocation of pages in a row is complete first fit, except where it clears its own bitmap. -/
theorem allocPages_complete_iff (h : p.freePageCount = (freePages p).card) (hcount : 1 ≤ count) :
    Complete p count (p.allocPages count) ↔
      ∀ s, Fits (getBit p.mem) count p.totalPages (some s) → Spared p s count := by
  have hspec := allocPages_spec p count
  generalize p.allocPages count = r at hspec ⊢
  cases hspec with
  | refused hno =>
    have hnone : ∀ s, s + count ≤ p.totalPages → ¬Window (getBit p.mem) s count := by
      intro s hroom hwindow
      obtain hfew | hzero | hfits := hno
      · exact absurd (le_freePageCount h hroom hwindow) (not_le.mpr hfew)
      · omega
      · exact hfits s hroom hwindow
    refine iff_of_true (complete_refused hnone) fun s hfits => ?_
    exact absurd hfits.1 (hnone s hfits.2.1)
  | @taken start hpos hfree hfits =>
    rw [complete_taken_iff hfits]
    constructor
    · intro hspared s hs
      obtain rfl := hfits.unique hs
      exact hspared
    · exact fun hspared => hspared start hfits

theorem spared_of_managed (hm : Managed p) (hcount : 1 ≤ count)
    (hfits : Fits (getBit p.mem) count p.totalPages (some s)) : Spared p s count := by
  intro j hj hlo hhi
  have hbyte : j / 8 < bitmapSize := Nat.div_lt_of_lt_mul (hj.trans_eq (by decide))
  have hroom := hfits.2.1
  rw [pageAddr, Nat.mod_eq_of_lt (hm.addr_lt (by omega))] at hlo hhi
  obtain hbelow | habove := hm.window_apart hcount hfits.1 hroom
  · omega
  · omega

theorem twoPages_complete :
    Complete (.new (fun _ => 0) 0x100000 0x2000) 2
      ((Pmm.new (fun _ => 0) 0x100000 0x2000).allocPages 2) := by
  have hinv : Inv (.new (fun _ => 0) 0x100000 0x2000) := inv_new _ (by decide) (by decide) (by decide)
  apply (allocPages_complete_iff hinv.accounted.count (by decide)).mpr
  exact fun s hfits => spared_of_managed hinv.managed (by decide) hfits

def givenBack : Pmm := ((Pmm.new (fun _ => 0) bitmapBase (2 * pageSize)).freePage bitmapBase).2

/-- The page that is allocated is the page of the bitmap, and its bit is cleared with it. -/
theorem givenBack_not_complete :
    Accounted givenBack ∧ ¬Complete givenBack 1 (givenBack.allocPages 1) := by
  have hinv : Inv (.new (fun _ => 0) bitmapBase (2 * pageSize)) :=
    inv_new _ (by decide) (by decide) (by decide)
  refine ⟨hinv.accounted.freePage hinv.managed hinv.covered bitmapBase, fun h => ?_⟩
  obtain ⟨s, hfits, -, htakes⟩ := h.lowest bitmapBase (by decide +kernel)
  have hcleared : ∀ s < 2, getBit (givenBack.allocPages 1).2.mem s = false := by decide +kernel
  have htotal : givenBack.totalPages = 2 := by decide +kernel
  have hroom := hfits.2.1
  rw [htotal] at hroom
  have hset := htakes s
  rw [hcleared s (by omega)] at hset
  simp at hset

end DeltaOS.PmmWindows
