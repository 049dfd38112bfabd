import DeltaOS.PmmAccounting
import DeltaOS.Ranges

namespace DeltaOS.PmmReserved

open ByteMemory FirstFit Kernel Overflow PhysMemory PmmAccounting Ranges Runs

variable {p q : Pmm} {r : Range} {j : Nat}

def page (p : Pmm) (j : Nat) : Range := ⟨p.baseAddr + j * pageSize, pageSize⟩

/-- Exactly the pages that overlap the range are marked. -/
structure Reserves (p : Pmm) (r : Range) : Prop where
  used : ∀ j < p.totalPages, (page p j).Meets r → getBit (p.reserveRange r.base r.len).mem j = true
  others : ∀ j, ¬(j < p.totalPages ∧ (page p j).Meets r) →
    getBit (p.reserveRange r.base r.len).mem j = getBit p.mem j

/-- A range that starts below the managed memory has no free page in it, and an empty one does not
start inside of a free page. -/
structure Reservable (p : Pmm) (r : Range) : Prop where
  low : r.base < p.baseAddr → ∀ j < p.totalPages, (page p j).Meets r → getBit p.mem j = true
  empty : r.len = 0 → ∀ j < p.totalPages, p.baseAddr + j * pageSize < r.base →
    r.base < p.baseAddr + (j + 1) * pageSize → getBit p.mem j = true

/-- The call gives back no page of the range. -/
def Spares (r : Range) (_ : Pmm) : Op → Prop
  | .freePage addr => ¬Range.Meets ⟨addr, pageSize⟩ r
  | .freePagesRange addr count => ∀ i < count,
      ¬Range.Meets ⟨(addr + i * pageSize) % usizeRange, pageSize⟩ r
  | _ => True

/-- The call hands out no address of the range. -/
def Avoids (r : Range) (q : Pmm) : Op → Prop
  | .allocPage => ∀ addr, q.allocPage.1 = .ok addr → ¬Range.Meets ⟨addr, pageSize⟩ r
  | .allocPages count => ∀ addr, (q.allocPages count).1 = .ok addr →
      ¬Range.Meets ⟨addr, count * pageSize⟩ r
  | _ => True

theorem page_meets_iff : (page p j).Meets r ↔
    r.base < p.baseAddr + (j + 1) * pageSize ∧ p.baseAddr + j * pageSize < r.base + r.len ∧
      0 < r.len := by
  have hpage : pageSize = 4096 := rfl
  rw [Range.meets_iff, page, hpage]
  dsimp only
  omega

theorem getBit_reserveRange_low (hlow : r.base < p.baseAddr) (j : Nat) :
    getBit (p.reserveRange r.base r.len).mem j = getBit p.mem j := by
  rw [Pmm.reserveRange, if_pos hlow]

theorem getBit_reserveRange_beyond (r : Range) (hj : p.totalPages ≤ j) :
    getBit (p.reserveRange r.base r.len).mem j = getBit p.mem j := by
  rw [Pmm.reserveRange]
  split_ifs with hlow
  · rfl
  · have hnot : ¬j < p.totalPages := not_lt.mpr hj
    simp only [marks_reservePage.bit_foldl, hnot, and_false, decide_false, Bool.or_false]

theorem reserves_iff (hpages : p.baseAddr + p.totalPages * pageSize ≤ p.endAddr)
    (htop : p.endAddr + pageSize ≤ usizeRange) (hend : r.base + r.len < usizeRange) :
    Reserves p r ↔ Reservable p r := by
  obtain hlow | hin := lt_or_ge r.base p.baseAddr
  · -- nothing is done at all
    have hbit := fun j => getBit_reserveRange_low (r := r) hlow j
    constructor
    · intro h
      refine ⟨fun _ j hj hm => (hbit j).symm.trans (h.used j hj hm), fun _ j _ hlt _ => ?_⟩
      omega
    · intro h
      exact ⟨fun j hj hm => (hbit j).trans (h.low hlow j hj hm), fun j _ => hbit j⟩
  · have hbit := fun j hj => getBit_reserveRange (j := j) hpages htop hin hend hj
    constructor
    · intro h
      refine ⟨fun hlow => absurd hin (not_le.mpr hlow), fun hempty j hj hlo hhi => ?_⟩
      have hnot : ¬(j < p.totalPages ∧ (page p j).Meets r) := fun hm => by
        rw [page_meets_iff] at hm
        omega
      rw [← h.others j hnot, hbit j hj, decide_eq_true ⟨hhi, by omega⟩, Bool.or_true]
    · intro h
      refine ⟨fun j hj hm => ?_, fun j hnot => ?_⟩
      · obtain ⟨hlo, hhi, -⟩ := page_meets_iff.mp hm
        rw [hbit j hj, decide_eq_true ⟨hlo, hhi⟩, Bool.or_true]
      · obtain hj | hj := lt_or_ge j p.totalPages
        · rw [hbit j hj]
          by_cases hmarked : r.base < p.baseAddr + (j + 1) * pageSize ∧
            p.baseAddr + j * pageSize < r.base + r.len
          · -- the range is empty and starts inside of the page
            have hempty : r.len = 0 := by
              by_contra hlen
              exact hnot ⟨hj, page_meets_iff.mpr ⟨hmarked.1, hmarked.2, Nat.pos_of_ne_zero hlen⟩⟩
            rw [h.empty hempty j hj (by omega) hmarked.1, Bool.true_or]
          · rw [decide_eq_false hmarked, Bool.or_false]
        · exact getBit_reserveRange_beyond r hj

/-- What keeps a range reserved: the manager keeps its bitmap, and the pages of the range stay marked. -/
structure Reserved (r : Range) (q : Pmm) : Prop where
  managed : Managed q
  marked : ∀ j < q.totalPages, (page q j).Meets r → getBit q.mem j = true

theorem Reserved.of_bits {q' : Pmm} (h : Reserved r q) (hm : Managed q') (hsame : q.SameRange q')
    (hbits : ∀ j < q.totalPages, (page q j).Meets r → getBit q.mem j = true → getBit q'.mem j = true) :
    Reserved r q' := by
  refine ⟨hm, fun j hj hmeets => ?_⟩
  rw [hsame.totalPages] at hj
  have hpage : page q' j = page q j := by rw [page, page, hsame.baseAddr]
  rw [hpage] at hmeets
  exact hbits j hj hmeets (h.marked j hj hmeets)

theorem Reserved.allocates {count : Nat} {x : KernelResult Nat × Pmm} (h : Reserved r q)
    (hx : q.Allocates count x) : Reserved r x.2 := by
  cases hx with
  | refused => exact h
  | taken hcount hfree hfits =>
    refine h.of_bits (h.managed.take hcount hfits) ⟨rfl, rfl, rfl⟩ fun j _ _ hset => ?_
    rw [h.managed.getBit_take hcount hfits, hset, Bool.true_or]

theorem Reserved.freePage {addr : Nat} (h : Reserved r q) (hbitmap : ¬InBitmap addr)
    (hspared : ¬Range.Meets ⟨addr, pageSize⟩ r) : Reserved r (q.freePage addr).2 := by
  refine h.of_bits (h.managed.freePage hbitmap) (sameRange_freePage q addr) fun j _ hmeets hset => ?_
  obtain ⟨e, hfail⟩ | ⟨hlo, -, haligned, -, hok⟩ := freePage_cases q addr
  · rw [hfail]
    exact hset
  · rw [hok, getBit_clearBit_of_ne _ ?_, hset]
    -- a page of the range has another address
    rintro rfl
    have hbase := h.managed.aligned
    have haddr : q.baseAddr + (addr - q.baseAddr) / pageSize * pageSize = addr := by
      rw [pageSize] at haligned hbase ⊢
      omega
    rw [page, haddr] at hmeets
    exact hspared hmeets

theorem Reserved.reserveRange (h : Reserved r q) (start size : Nat) :
    Reserved r (q.reserveRange start size) := by
  refine h.of_bits (h.managed.reserveRange start size) (sameRange_reserveRange q start size)
    fun j _ _ hset => ?_
  rw [Pmm.reserveRange]
  split_ifs
  · exact hset
  · rw [marks_reservePage.bit_foldl, hset, Bool.true_or]

theorem reserved_step (q : Pmm) (op : Op) (h : Reserved r q) (hop : KeepsBitmap q op ∧ Spares r q op) :
    Reserved r (step q op) := by
  obtain ⟨hbitmap, hspared⟩ := hop
  cases op with
  | allocPage => exact h.allocates (allocPage_spec q)
  | allocPages count => exact h.allocates (allocPages_spec q count)
  | freePage addr => exact h.freePage hbitmap hspared
  | freePagesRange addr count =>
    exact freePagesFrom_preserves h fun q' i _ hi hq =>
      hq.freePage (hbitmap i (by omega)) (hspared i (by omega))
  | reserveRange start size => exact h.reserveRange start size

theorem Reserved.allocates_avoids {count addr : Nat} {x : KernelResult Nat × Pmm} (h : Reserved r q)
    (hx : q.Allocates count x) (hok : x.1 = .ok addr) : ¬Range.Meets ⟨addr, count * pageSize⟩ r := by
  cases hx with
  | refused => cases hok
  | @taken s hcount hfree hfits =>
    obtain ⟨hwindow, hroom, -⟩ := hfits
    obtain rfl : (q.baseAddr + s * pageSize) % usizeRange = addr := Except.ok.inj hok
    rw [Nat.mod_eq_of_lt (h.managed.addr_lt (by omega))]
    rintro ⟨a, ⟨hlo, hhi⟩, hholds⟩
    have hlo' : q.baseAddr + s * 4096 ≤ a := hlo
    have hhi' : a < q.baseAddr + s * 4096 + count * 4096 := hhi
    have hin : s ≤ (a - q.baseAddr) / 4096 ∧ (a - q.baseAddr) / 4096 < s + count := by omega
    have hset := h.marked ((a - q.baseAddr) / 4096) (by omega) ⟨a, ?_, hholds⟩
    · rw [hwindow _ hin.1 hin.2] at hset
      cases hset
    · change q.baseAddr + (a - q.baseAddr) / 4096 * 4096 ≤ a ∧
        a < q.baseAddr + (a - q.baseAddr) / 4096 * 4096 + 4096
      omega

theorem Reserved.avoids (h : Reserved r q) (op : Op) : Avoids r q op := by
  cases op with
  | allocPage => exact fun addr => h.allocates_avoids (allocPage_spec q)
  | allocPages count => exact fun addr => h.allocates_avoids (allocPages_spec q count)
  | freePage | freePagesRange | reserveRange => trivial

/-- A range is reserved exactly if it is reservable, and then nothing of it is handed out until it is
given back. -/
theorem reserveRange_reserves_iff (hpages : p.baseAddr + p.totalPages * pageSize ≤ p.endAddr)
    (htop : p.endAddr + pageSize ≤ usizeRange) (hend : r.base + r.len < usizeRange) :
    (Reserves p r ↔ Reservable p r) ∧ (Managed p → Reservable p r → ∀ ops,
      Guarded step (fun q op => KeepsBitmap q op ∧ Spares r q op) (p.reserveRange r.base r.len) ops →
        Guarded step (Avoids r) (p.reserveRange r.base r.len) ops) := by
  have hiff := reserves_iff hpages htop hend
  refine ⟨hiff, fun hm hr ops hops => ?_⟩
  have hsame := sameRange_reserveRange p r.base r.len
  have h0 : Reserved r (p.reserveRange r.base r.len) := by
    refine ⟨hm.reserveRange _ _, fun j hj hmeets => ?_⟩
    rw [hsame.totalPages] at hj
    rw [page, hsame.baseAddr] at hmeets
    exact (hiff.mpr hr).used j hj hmeets
  exact hops.imp reserved_step (fun q op h _ => h.avoids op) h0

/-- The second of four pages is reserved and cannot be had, although the first is given back. -/
theorem secondPage_reserved :
    let p := Pmm.new (fun _ => 0) 0x100000 0x4000
    Reserves p ⟨0x101200, 0x100⟩ ∧ Guarded step (Avoids ⟨0x101200, 0x100⟩)
    (p.reserveRange 0x101200 0x100)
      [.allocPage, .freePage 0x100000, .allocPages 2] := by
  have hinv : Inv (.new (fun _ => 0) 0x100000 0x4000) := inv_new _ (by decide) (by decide) (by decide)
  have hreservable : Reservable (.new (fun _ => 0) 0x100000 0x4000) ⟨0x101200, 0x100⟩ :=
    ⟨fun hlow => absurd hlow (by decide +kernel), nofun⟩
  obtain ⟨hiff, hkept⟩ := reserveRange_reserves_iff (r := ⟨0x101200, 0x100⟩) hinv.managed.pages
    (by decide +kernel)
    (by decide)
  refine ⟨hiff.mpr hreservable, hkept hinv.managed hreservable _ ?_⟩
  exact ⟨⟨trivial, trivial⟩, ⟨by rw [KeepsBitmap]; decide, by rw [Spares]; decide⟩,
    ⟨trivial, trivial⟩, trivial⟩

/-- The first page is in the range, which starts below it. -/
theorem lowRange_not_reserved : ¬Reserves (.new (fun _ => 0) 0x100000 0x4000) ⟨0xFF000, 0x2000⟩ := by
  intro h
  have hused := h.used 0 (by decide +kernel) (by decide +kernel)
  revert hused
  decide +kernel

end DeltaOS.PmmReserved
