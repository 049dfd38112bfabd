import DeltaOS.MemoryMap
import DeltaOS.PmmAccounting

namespace DeltaOS.PmmIsolation

open ByteMemory FirstFit Kernel Overflow PhysMemory Ranges Runs PmmAccounting
open MemoryMap (handOut)

/-- The manager with the ranges its callers hold and those they have reserved. -/
structure Pool where
  pmm : Pmm
  live : List Range
  reserved : List Range

namespace Pool

def start (mem : Memory) (base size : Nat) : Pool := ⟨.new mem base size, [], []⟩

def grant (s : Pool) (r : KernelResult Nat × Pmm) (count : Nat) : Pool :=
  { s with pmm := r.2, live := handOut r.1 (count * pageSize) s.live }

def freePage (s : Pool) (addr : Nat) : KernelResult Unit × Pool :=
  match s.pmm.freePage addr with
  | (.ok (), pmm) => (.ok (), { s with pmm := pmm, live := s.live.flatMap fun r => r.cut addr pageSize })
  | (.error e, pmm) => (.error e, { s with pmm := pmm })

def freePagesFrom (addr : Nat) : Nat → Nat → Pool → Pool
  | 0, _, s => s
  | n + 1, i, s =>
    match s.freePage ((addr + i * pageSize) % usizeRange) with
    | (.ok (), s) => freePagesFrom addr n (i + 1) s
    | (.error _, s) => s

def Holds (s : Pool) (addr : Nat) : Prop := (s.pmm.freePage addr).1 = .ok () → ∃ r ∈ s.live, r.Holds addr

def HoldsFrom (addr : Nat) : Nat → Nat → Pool → Prop
  | 0, _, _ => True
  | n + 1, i, s =>
    s.Holds ((addr + i * pageSize) % usizeRange) ∧
      match s.freePage ((addr + i * pageSize) % usizeRange) with
      | (.ok (), s) => HoldsFrom addr n (i + 1) s
      | (.error _, _) => True

end Pool

def step (s : Pool) : Op → Pool
  | .allocPage => s.grant s.pmm.allocPage 1
  | .allocPages count => s.grant (s.pmm.allocPages count) count
  | .freePage addr => (s.freePage addr).2
  | .freePagesRange addr count => Pool.freePagesFrom addr count 0 s
  | .reserveRange start size =>
    { s with pmm := s.pmm.reserveRange start size, reserved := ⟨start, size⟩ :: s.reserved }

/-- Pages are freed by those who hold them. A range is reserved while nobody holds a page yet; it
starts in the managed memory and does not wrap around. -/
def Proper (s : Pool) : Op → Prop
  | .freePage addr => s.Holds addr
  | .freePagesRange addr count => Pool.HoldsFrom addr count 0 s
  | .reserveRange start size => s.pmm.baseAddr ≤ start ∧ start + size < usizeRange ∧ s.live = []
  | _ => True

structure Isolated (base limit : Nat) (s : Pool) : Prop where
  apart : s.live.Pairwise Range.Apart
  aligned : ∀ r ∈ s.live, r.base % pageSize = 0
  within : ∀ r ∈ s.live, r.Within base limit
  bitmap : ∀ r ∈ s.live, r.Apart ⟨bitmapBase, bitmapSize⟩
  reserved : ∀ r ∈ s.live, ∀ q ∈ s.reserved, ¬r.Meets q

theorem freePagesFrom_pmm (addr n i : Nat) (s : Pool) :
    (Pool.freePagesFrom addr n i s).pmm = (Pmm.freePagesFrom addr n i s.pmm).2 := by
  induction n generalizing i s with
  | zero => rfl
  | succ n ih =>
    rw [Pool.freePagesFrom, Pmm.freePagesFrom, Pool.freePage]
    cases s.pmm.freePage ((addr + i * pageSize) % usizeRange) with
    | mk result pmm =>
      cases result with
      | ok => exact ih (i + 1) _
      | error e => rfl

theorem step_pmm (s : Pool) (op : Op) : (step s op).pmm = PmmAccounting.step s.pmm op := by
  cases op with
  | freePage addr =>
    simp only [step, PmmAccounting.step, Pool.freePage]
    split
    · next heq => rw [heq]
    · next heq => rw [heq]
  | freePagesRange addr count => exact freePagesFrom_pmm addr count 0 s
  | allocPage | allocPages | reserveRange => rfl

/-- A page that stays taken: it belongs to the bitmap or to a reserved range. -/
def Kept (reserved : List Range) (a : Nat) : Prop :=
  InBitmap a ∨ ∃ q ∈ reserved, ∃ b, q.Holds b ∧ a ≤ b ∧ b < a + pageSize

def WholePages (r : Range) : Prop := r.base % pageSize = 0 ∧ r.len % pageSize = 0 ∧ 0 < r.len

structure Owned (p : Pmm) (reserved live : List Range) : Prop where
  managed : Managed p
  room : p.endAddr + pageSize ≤ usizeRange
  apart : live.Pairwise Range.Apart
  pages : ∀ r ∈ live, WholePages r
  within : ∀ r ∈ live, r.Within p.baseAddr (p.baseAddr + p.totalPages * pageSize)
  used : ∀ r ∈ live, ∀ i, r.Holds (p.baseAddr + i * pageSize) → getBit p.mem i = true
  kept : ∀ i < p.totalPages, Kept reserved (p.baseAddr + i * pageSize) → getBit p.mem i = true
  foreign : ∀ r ∈ live, ∀ a, r.Holds a → a % pageSize = 0 → ¬Kept reserved a

variable {p : Pmm} {reserved live : List Range} {count start : Nat}

def pageRange (p : Pmm) (start count : Nat) : Range := ⟨p.baseAddr + start * pageSize, count * pageSize⟩

theorem pageRange_holds {i : Nat} :
    (pageRange p start count).Holds (p.baseAddr + i * pageSize) ↔ start ≤ i ∧ i < start + count := by
  have hpage : pageSize = 4096 := rfl
  rw [Range.Holds, pageRange, hpage]
  dsimp only
  omega

theorem pageRange_within (hroom : start + count ≤ p.totalPages) :
    (pageRange p start count).Within p.baseAddr (p.baseAddr + p.totalPages * pageSize) := by
  have hmul := Nat.mul_le_mul_right pageSize hroom
  rw [Nat.add_mul] at hmul
  unfold Range.Within pageRange
  dsimp only
  omega

theorem WholePages.cut {r t : Range} {a : Nat} (h : WholePages r) (halign : a % pageSize = 0)
    (ht : t ∈ r.cut a pageSize) : WholePages t := by
  obtain ⟨-, rfl⟩ | ⟨⟨hlo, hhi⟩, hpos, heq⟩ := Range.mem_cut ht
  · exact h
  · obtain ⟨hbase, hlen, -⟩ := h
    have hpage : pageSize = 4096 := rfl
    rw [hpage] at halign hbase hlen heq
    refine ⟨?_, ?_, hpos⟩
    all_goals
      obtain rfl | rfl := heq
      all_goals
        rw [hpage]
        dsimp only at hpos ⊢
        omega

section Take

variable (h : Owned p reserved live) (hcount : 0 < count)
  (hfits : Fits (getBit p.mem) count p.totalPages (some start))

include h hfits

theorem Owned.window_free {a : Nat} (halign : a % pageSize = 0)
    (ha : (pageRange p start count).Holds a) :
    ∃ i < p.totalPages, a = p.baseAddr + i * pageSize ∧ getBit p.mem i = false := by
  obtain ⟨hwindow, hroom, -⟩ := hfits
  obtain ⟨hlo, hhi⟩ := pageRange_within hroom
  obtain ⟨i, hi, rfl⟩ := h.managed.exists_index halign (hlo.trans ha.1) (ha.2.trans_le hhi)
  obtain ⟨hstart, hend⟩ := pageRange_holds.mp ha
  exact ⟨i, hi, rfl, hwindow i hstart hend⟩

include hcount

theorem Owned.apart_window {r : Range} (hr : r ∈ live) : (pageRange p start count).Apart r := by
  by_contra hmeet
  have hlen : 0 < (pageRange p start count).len := Nat.mul_pos hcount (by decide)
  obtain ⟨hwin, hold⟩ := Range.holds_max_base hmeet hlen (h.pages r hr).2.2
  have halign : max (pageRange p start count).base r.base % pageSize = 0 := by
    obtain hmax | hmax := max_choice (pageRange p start count).base r.base
    · rw [hmax, pageRange, Nat.add_mul_mod_self_right, h.managed.aligned]
    · rw [hmax, (h.pages r hr).1]
  obtain ⟨i, -, heq, hfree⟩ := h.window_free hfits halign hwin
  rw [heq] at hold
  rw [h.used r hr i hold] at hfree
  cases hfree

theorem Owned.take : Owned (p.take start count).2 reserved (pageRange p start count :: live) := by
  have hbit := h.managed.getBit_take hcount hfits
  refine ⟨h.managed.take hcount hfits, h.room, ?_, ?_, ?_, ?_, ?_, ?_⟩
  · exact List.pairwise_cons.mpr ⟨fun r hr => h.apart_window hcount hfits hr, h.apart⟩
  · refine List.forall_mem_cons.mpr ⟨⟨?_, ?_, Nat.mul_pos hcount (by decide)⟩, h.pages⟩
    · rw [pageRange, Nat.add_mul_mod_self_right, h.managed.aligned]
    · exact Nat.mul_mod_left _ _
  · exact List.forall_mem_cons.mpr ⟨pageRange_within hfits.2.1, h.within⟩
  · refine List.forall_mem_cons.mpr ⟨fun i hi => ?_, fun r hr i hi => ?_⟩
    · rw [hbit, decide_eq_true (pageRange_holds.mp hi), Bool.or_true]
    · rw [hbit, h.used r hr i hi, Bool.true_or]
  · intro i hi hkept
    rw [hbit, h.kept i hi hkept, Bool.true_or]
  · refine List.forall_mem_cons.mpr ⟨fun a ha halign hkept => ?_, h.foreign⟩
    obtain ⟨i, hi, rfl, hfree⟩ := h.window_free hfits halign ha
    rw [h.kept i hi hkept] at hfree
    cases hfree

end Take

theorem Owned.allocates (h : Owned p reserved live) {r : KernelResult Nat × Pmm}
    (hr : p.Allocates count r) : Owned r.2 reserved (handOut r.1 (count * pageSize) live) := by
  cases hr with
  | refused => exact h
  | @taken start hcount hfree hfits =>
    have haddr := Nat.mod_eq_of_lt (h.managed.addr_lt (Nat.le_of_add_right_le hfits.2.1))
    have htaken := h.take hcount hfits
    rw [pageRange, ← haddr] at htaken
    exact htaken

theorem Owned.freePage (h : Owned p reserved live) {addr : Nat} {p' : Pmm}
    (hok : p.freePage addr = (.ok (), p')) (hheld : ∃ r ∈ live, r.Holds addr) :
    Owned p' reserved (live.flatMap fun r => r.cut addr pageSize) := by
  obtain ⟨e, hfail⟩ | ⟨hlo, hhi, halign, hset, hp⟩ := freePage_cases p addr
  · rw [hfail] at hok
    cases hok
  rw [hp] at hok
  cases hok
  obtain ⟨s, hs, hsaddr⟩ := hheld
  obtain ⟨k, hk, rfl⟩ := h.managed.exists_index halign hlo (hsaddr.2.trans_le (h.within s hs).2)
  have hindex : (p.baseAddr + k * pageSize - p.baseAddr) / pageSize = k := by
    rw [Nat.add_sub_cancel_left, Nat.mul_div_cancel _ (by decide)]
  rw [hindex] at hset ⊢
  have hforeign := h.foreign s hs _ hsaddr halign
  have hbit : ∀ i ≠ k, getBit (clearBit p.mem k) i = getBit p.mem i := fun i hne =>
    getBit_clearBit_of_ne p.mem hne
  refine ⟨?_, h.room, pairwise_apart_cut h.apart _ _, ?_, ?_, ?_, ?_, ?_⟩
  · have hout : ¬InBitmap (p.baseAddr + k * pageSize) := fun hin => hforeign (.inl hin)
    have hm := h.managed.freePage hout
    rwa [hp, hindex] at hm
  · intro t ht
    obtain ⟨r, hr, hcut⟩ := List.mem_flatMap.mp ht
    exact (h.pages r hr).cut halign hcut
  · intro t ht
    obtain ⟨r, hr, hcut⟩ := List.mem_flatMap.mp ht
    obtain ⟨hlo, hhi⟩ := Range.cut_within hcut
    exact ⟨(h.within r hr).1.trans hlo, hhi.trans (h.within r hr).2⟩
  · intro t ht i hi
    obtain ⟨r, hr, hcut⟩ := List.mem_flatMap.mp ht
    have hne : i ≠ k := by
      rintro rfl
      exact Range.cut_not_holds (by decide) hcut hi
    dsimp only at hi ⊢
    rw [hbit i hne]
    exact h.used r hr i (Range.holds_of_cut hcut hi)
  · intro i hi hkept
    have hne : i ≠ k := by
      rintro rfl
      exact hforeign hkept
    dsimp only at hi hkept ⊢
    rw [hbit i hne]
    exact h.kept i hi hkept
  · intro t ht a ha
    obtain ⟨r, hr, hcut⟩ := List.mem_flatMap.mp ht
    exact h.foreign r hr a (Range.holds_of_cut hcut ha)

theorem Owned.freePage_step {s : Pool} (h : Owned s.pmm s.reserved s.live) {addr : Nat}
    (hheld : s.Holds addr) :
    Owned (s.freePage addr).2.pmm (s.freePage addr).2.reserved (s.freePage addr).2.live := by
  rw [Pool.freePage]
  split
  · next p' heq => exact h.freePage heq (hheld (by rw [heq]))
  · next e p' heq =>
    obtain ⟨e, hfail⟩ | ⟨-, -, -, -, hok⟩ := freePage_cases s.pmm addr
    · rw [hfail] at heq
      cases heq
      exact h
    · rw [hok] at heq
      cases heq

theorem Owned.freePagesFrom {s : Pool} (h : Owned s.pmm s.reserved s.live) {addr n i : Nat}
    (hheld : Pool.HoldsFrom addr n i s) :
    Owned (Pool.freePagesFrom addr n i s).pmm (Pool.freePagesFrom addr n i s).reserved
      (Pool.freePagesFrom addr n i s).live := by
  induction n generalizing i s with
  | zero => exact h
  | succ n ih =>
    obtain ⟨hfirst, hrest⟩ := hheld
    have hnext := h.freePage_step hfirst
    rw [Pool.freePagesFrom]
    split
    · next s' heq =>
      rw [heq] at hnext hrest
      exact ih hnext hrest
    · next e s' heq =>
      rw [heq] at hnext
      exact hnext

theorem getBit_reserveRange_kept (h : Managed p) (hroom : p.endAddr + pageSize ≤ usizeRange)
    {size i b : Nat}
    (hstart : p.baseAddr ≤ start) (hend : start + size < usizeRange) (hi : i < p.totalPages)
    (hb : Range.Holds ⟨start, size⟩ b) (hlo : p.baseAddr + i * pageSize ≤ b)
    (hhi : b < p.baseAddr + i * pageSize + pageSize) :
    getBit (p.reserveRange start size).mem i = true := by
  obtain ⟨hsb, hbe⟩ := hb
  have hmeets : start < p.baseAddr + (i + 1) * pageSize ∧ p.baseAddr + i * pageSize < start + size := by
    rw [Nat.add_mul, Nat.one_mul]
    dsimp only at hsb hbe
    omega
  rw [getBit_reserveRange h.pages hroom hstart hend hi, decide_eq_true hmeets, Bool.or_true]

theorem Owned.reserveRange (h : Owned p reserved []) {size : Nat} (hstart : p.baseAddr ≤ start)
    (hend : start + size < usizeRange) : Owned (p.reserveRange start size)
    (⟨start, size⟩ :: reserved) [] := by
  obtain ⟨htotal, hbase, htop⟩ := sameRange_reserveRange p start size
  refine ⟨h.managed.reserveRange start size, htop ▸ h.room, .nil, by simp, by simp, by simp, ?_, by simp⟩
  rw [htotal, hbase]
  intro i hi hkept
  have hmono : getBit p.mem i = true → getBit (p.reserveRange start size).mem i = true := by
    intro hset
    rw [Pmm.reserveRange, if_neg (not_lt.mpr hstart), marks_reservePage.bit_foldl, hset, Bool.true_or]
  obtain hin | ⟨q, hq, b, hb, hlo, hhi⟩ := hkept
  · exact hmono (h.kept i hi (.inl hin))
  · obtain rfl | hq := List.mem_cons.mp hq
    · exact getBit_reserveRange_kept h.managed h.room hstart hend hi hb hlo hhi
    · exact hmono (h.kept i hi (.inr ⟨q, hq, b, hb, hlo, hhi⟩))

theorem Owned.isolated {s : Pool} (h : Owned s.pmm s.reserved s.live) :
    Isolated s.pmm.baseAddr s.pmm.endAddr s := by
  refine ⟨h.apart, fun r hr => (h.pages r hr).1, fun r hr => ?_, fun r hr => ?_,
    fun r hr q hq hmeet => ?_⟩
  · exact (h.within r hr).mono le_rfl h.managed.pages
  · by_contra hmeet
    obtain ⟨hbase, -, hpos⟩ := h.pages r hr
    obtain ⟨hold, hin⟩ := Range.holds_max_base hmeet hpos (by decide)
    refine h.foreign r hr _ hold ?_ (.inl hin)
    obtain hmax | hmax := max_choice r.base bitmapBase
    · rw [hmax, hbase]
    · rw [hmax]
      decide
  · obtain ⟨hbase, -, -⟩ := h.pages r hr
    have hpage : pageSize = 4096 := rfl
    obtain ⟨a, ⟨hlo, hhi⟩, hres⟩ := hmeet
    rw [hpage] at hbase
    refine h.foreign r hr (a - a % 4096) ?_ ?_ (.inr ⟨q, hq, a, hres, ?_⟩)
    · constructor <;> omega
    · rw [hpage]
      omega
    · rw [hpage]
      omega

theorem owned_step (s : Pool) (op : Op) (h : Owned s.pmm s.reserved s.live) (hp : Proper s op) :
    Owned (step s op).pmm (step s op).reserved (step s op).live := by
  cases op with
  | allocPage => simpa only [step, Pool.grant, Nat.one_mul] using h.allocates (allocPage_spec s.pmm)
  | allocPages count => exact h.allocates (allocPages_spec s.pmm count)
  | freePage addr => exact h.freePage_step hp
  | freePagesRange addr count => exact h.freePagesFrom hp
  | reserveRange start size =>
    obtain ⟨hstart, hend, hnil⟩ := hp
    rw [hnil] at h
    have hreserve := h.reserveRange hstart hend
    rwa [← hnil] at hreserve

theorem owned_start (mem : Memory) {base size : Nat} (halign : base % pageSize = 0)
    (hbase : base ≤ bitmapBase) (hfit : base + size + pageSize ≤ usizeRange) :
    Owned (.new mem base size) [] [] := by
  have hpos : 0 < pageSize := by decide
  have hlt : base + size < usizeRange := by omega
  have hm := managed_new mem halign hbase hlt
  obtain ⟨-, -, hend⟩ := sameRange_new mem base size
  rw [Nat.mod_eq_of_lt hlt] at hend
  generalize Pmm.new mem base size = p at hm hend ⊢
  refine ⟨hm, hend ▸ hfit, .nil, by simp, by simp, by simp, fun i hi hkept => ?_, by simp⟩
  obtain hin | ⟨q, hq, -⟩ := hkept
  · exact hm.bitmap i hi hin
  · cases hq

theorem Owned.always {s : Pool} (h : Owned s.pmm s.reserved s.live) {ops : List Op}
    (hg : Guarded step Proper s ops) :
    Always step (Isolated s.pmm.baseAddr s.pmm.endAddr) s ops := by
  have hinv : Always step (fun t => Owned t.pmm t.reserved t.live ∧ s.pmm.SameRange t.pmm) s ops := by
    refine hg.always (fun t op ht hp => ?_) ⟨h, .refl s.pmm⟩
    refine ⟨owned_step t op ht.1 hp, ht.2.trans ?_⟩
    rw [step_pmm]
    exact sameRange_step t.pmm op
  refine hinv.mono fun t ht => ?_
  rw [← ht.2.baseAddr, ← ht.2.endAddr]
  exact ht.1.isolated

/-- The ranges in the hands of the callers are apart from each other, from the bitmap and from
everything reserved, whatever is allocated, freed by its holder and allocated again. -/
theorem pages_isolated (mem : Memory) (base size : Nat) (halign : base % pageSize = 0)
    (hbase : base ≤ bitmapBase) (hfit : base + size + pageSize ≤ usizeRange) (ops : List Op)
    (hg : Guarded step Proper (Pool.start mem base size) ops) :
    Always step (Isolated base (base + size)) (Pool.start mem base size) ops := by
  have hpos : 0 < pageSize := by decide
  have howned := owned_start mem halign hbase hfit
  obtain ⟨-, hb, hend⟩ := sameRange_new mem base size
  rw [Nat.mod_eq_of_lt (by omega)] at hend
  rw [Pool.start] at hg ⊢
  generalize Pmm.new mem base size = p at howned hb hend hg ⊢
  have halways := Owned.always (s := ⟨p, [], []⟩) howned hg
  rwa [hb, hend] at halways

theorem fourPages_isolated :
    let ops := [.reserveRange 0x100800 0x10, .allocPages 2, .freePage 0x101000, .allocPage]
    (run step (.start (fun _ => 0) 0x100000 0x4000) ops).live =
      [⟨0x101000, 0x1000⟩, ⟨0x102000, 0x1000⟩] ∧
      Always step (Isolated 0x100000 0x104000) (.start (fun _ => 0) 0x100000 0x4000) ops := by
  refine ⟨by decide +kernel,
    pages_isolated _ 0x100000 0x4000 (by decide) (by decide) (by decide) _ ?_⟩
  refine ⟨⟨by decide +kernel, by decide, rfl⟩, trivial, fun _ => ⟨⟨0x101000, 0x2000⟩, ?_, by decide⟩,
    trivial, trivial⟩
  decide +kernel

/-- A range that wraps around is not reserved, and a base inside of a page makes every address one. -/
theorem wrapped_not_isolated :
    ¬Isolated 0x100000 0x104000 (run step (.start (fun _ => 0) 0x100000 0x4000)
      [.reserveRange 0x100000 (2 ^ 64 - 1), .allocPage]) ∧
    ¬Isolated 0x100800 0x104800 (run step (.start (fun _ => 0) 0x100800 0x4000) [.allocPage]) := by
  constructor
  · intro h
    refine h.reserved ⟨0x100000, 0x1000⟩ ?_ ⟨0x100000, 2 ^ 64 - 1⟩ ?_ ⟨0x100000, by decide, by decide⟩
    · decide +kernel
    · decide +kernel
  · intro h
    have haligned := h.aligned ⟨0x100800, 0x1000⟩ (by decide +kernel)
    revert haligned
    decide

end DeltaOS.PmmIsolation
