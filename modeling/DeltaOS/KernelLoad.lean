import DeltaOS.Moves

namespace DeltaOS.KernelLoad

open ByteMemory Moves

/-- `mov word [sleft], 0` starts here, as `build_img.py` recognizes it. -/
def isPlace (mbr : List Byte) (i : Nat) : Bool :=
  mbr.getD i 0 = 0xC7 && mbr.getD (i + 1) 0 = 0x06 && mbr.getD (i + 4) 0 =
    0x00 && mbr.getD (i + 5) 0 = 0x00 &&
    !(0 < i && mbr.getD (i - 1) 0 = 0x66)

def place (mbr : List Byte) : Option Nat := (List.range (mbr.length - 5)).find? (isPlace mbr)

/-- The boot sector with the number of sectors in it. There is none when the number does not fit in
the format `<H`. -/
def patch (mbr : List Byte) (kernelSectors : Nat) : Option (List Byte) :=
  match place mbr with
  | none => some mbr
  | some i =>
    if kernelSectors < 65536 then
      some ((mbr.set (i + 4) (BitVec.ofNat 8 kernelSectors)).set (i + 5)
        (BitVec.ofNat 8 (kernelSectors / 256)))
    else none

def immediate (mbr : List Byte) (i : Nat) : BitVec 16 := mbr.getD (i + 5) 0 ++ mbr.getD (i + 4) 0

/-- A request to read sectors from the disk. -/
structure Request where
  lba : Nat
  count : Nat
deriving DecidableEq, Repr

/-- The variables of the boot sector, the memory, and the requests so far. The variables lie below the
addresses that are written to. -/
structure Loader where
  tgt : BitVec 32
  clba : BitVec 32
  sleft : BitVec 16
  dcnt : BitVec 16
  dlba : BitVec 32
  memory : Memory
  requests : List Request

/-- Where the segment `0x8000` of the address packet begins. -/
def buffer : BitVec 32 := 0x80000

def int13 (disk : Nat → Byte) (s : Loader) : Loader :=
  { s with
    memory := fun a =>
      if buffer.toNat ≤ a ∧ a < buffer.toNat + s.dcnt.toNat * 512
        then disk (s.dlba.toNat * 512 + (a - buffer.toNat))
      else s.memory a
    requests := s.requests ++ [⟨s.dlba.toNat, s.dcnt.toNat⟩] }

/-- `cmp ax, 32` and `jle`, which compares signed numbers. -/
def chunk (sleft : BitVec 16) : BitVec 16 := if sleft.sle 32 then sleft else 32

/-- `movzx ecx, word [dcnt]`, `shl ecx, 9` and `shr ecx, 2`. -/
def words (dcnt : BitVec 16) : BitVec 32 := (dcnt.setWidth 32 <<< 9) >>> 2

/-- The loop `.cpy`. It reads through DS, where an access behind the limit of the segment faults, and
writes through FS, which covers all addresses. -/
def cpy (dsLimit : Nat) : Nat → BitVec 32 → BitVec 32 → BitVec 32 → Memory → Option (BitVec 32 × Memory)
  | 0, _, _, _, _ => none
  | fuel + 1, ecx, esi, edi, m =>
    if esi.toNat + 3 ≤ dsLimit then
      let m := write32 m edi.toNat (BitVec.ofNat 32 (readNat m esi.toNat 4))
      if ecx - 1 = 0 then some (edi + 4, m) else cpy dsLimit fuel (ecx - 1) (esi + 4) (edi + 4) m
    else none

/-- The request of a round of the loop `.rl`. -/
def ask (disk : Nat → Byte) (s : Loader) : Loader :=
  int13 disk { s with dcnt := chunk s.sleft, dlba := s.clba }

def advance (s : Loader) (edi : BitVec 32) (m : Memory) : Loader :=
  { s with tgt := edi, memory := m, clba := s.clba + s.dcnt.setWidth 32, sleft := s.sleft - s.dcnt }

/-- A round of the loop `.rl` with sectors left. The counter of `.cpy` comes to zero after `2 ^ 32`
rounds at most. -/
def round (disk : Nat → Byte) (dsLimit : Nat) (s : Loader) : Option Loader := do
  let s := ask disk s
  let (edi, m) ← cpy dsLimit (2 ^ 32) (words s.dcnt) buffer s.tgt s.memory
  return advance s edi m

/-- The loop `.rl` up to `.ldone`. -/
def rl (disk : Nat → Byte) (dsLimit : Nat) : Nat → Loader → Option Loader
  | 0, _ => none
  | fuel + 1, s => if s.sleft = 0 then some s else (round disk dsLimit s).bind (rl disk dsLimit fuel)

def start (m : Memory) (kernelSectors : BitVec 16) : Loader := ⟨0x100000, 1, kernelSectors, 32, 1, m, []⟩

def load (disk : Nat → Byte) (dsLimit : Nat) (m : Memory) (kernelSectors : BitVec 16) : Option Loader :=
  rl disk dsLimit 65536 (start m kernelSectors)

/-- The sectors from 1 to `n` are in memory from one megabyte on, and none of the requests was for
more than 32. -/
def Loads (disk : Nat → Byte) (n : Nat) (after : Option Loader) : Prop :=
  ∃ s, after = some s ∧ (∀ k < n * 512, s.memory (0x100000 + k) = disk (512 + k)) ∧
    ∀ r ∈ s.requests, r.count ≤ 32

variable {mbr : List Byte} {disk : Nat → Byte} {dsLimit n i fuel copied : Nat} {m : Memory}
    {s s' : Loader}
  {ecx esi edi : BitVec 32} {sectors : BitVec 16}

theorem place_lt (h : place mbr = some i) : i + 5 < mbr.length := by
  have hmem := List.mem_range.mp (List.mem_of_find?_eq_some h)
  omega

theorem patch_immediate (h : place mbr = some i) (hn : n < 65536) :
    ∃ mbr', patch mbr n = some mbr' ∧ immediate mbr' i = BitVec.ofNat 16 n := by
  have hlt := place_lt h
  refine ⟨_, by rw [patch, h]; exact if_pos hn, ?_⟩
  apply BitVec.eq_of_toNat_eq
  simp only [immediate, List.getD_eq_getElem?_getD]
  rw [List.getElem?_set_self (by simpa using hlt), List.getElem?_set_ne (by omega),
    List.getElem?_set_self (by omega)]
  simp only [Option.getD_some, BitVec.toNat_append, BitVec.toNat_ofNat]
  rw [← Nat.shiftLeft_add_eq_or_of_lt (Nat.mod_lt _ (by decide)), Nat.shiftLeft_eq]
  omega

theorem chunk_of_lt (h : sectors.toNat < 2 ^ 15) : (chunk sectors).toNat = min sectors.toNat 32 := by
  have hint : sectors.toInt = sectors.toNat := BitVec.toInt_eq_toNat_of_lt (by omega)
  have hbound : (32 : BitVec 16).toInt = 32 := by decide
  rw [chunk, BitVec.sle, hint, hbound]
  split
  next hle =>
    have := of_decide_eq_true hle
    omega
  next hle =>
    have hgt : ¬(sectors.toNat : Int) ≤ 32 := fun h => hle (decide_eq_true h)
    have htwo : (32 : BitVec 16).toNat = 32 := rfl
    omega

theorem chunk_of_ge (h : 2 ^ 15 ≤ sectors.toNat) : chunk sectors = sectors := by
  have hint : sectors.toInt = sectors.toNat - 2 ^ 16 := by
    rw [BitVec.toInt_eq_toNat_cond, if_neg (by omega)]
    rfl
  have hlt := sectors.isLt
  have hbound : (32 : BitVec 16).toInt = 32 := by decide
  refine if_pos ?_
  rw [BitVec.sle, hint, hbound]
  exact decide_eq_true (by omega)

theorem toNat_words (dcnt : BitVec 16) : (words dcnt).toNat = dcnt.toNat * 128 := by
  have hlt := dcnt.isLt
  rw [words, BitVec.toNat_ushiftRight, BitVec.toNat_shiftLeft, BitVec.toNat_setWidth,
    Nat.shiftRight_eq_div_pow, Nat.shiftLeft_eq]
  omega

theorem write32_read (m : Memory) (d a : Nat) :
    write32 m d (BitVec.ofNat 32 (readNat m a 4)) = moved m d a 4 := by
  have hlt : readNat m a 4 < 2 ^ 32 := readNat_lt m a 4
  rw [write32, BitVec.toNat_ofNat, Nat.mod_eq_of_lt hlt]
  exact writeNat_readNat m d a 4

theorem toNat_next (h : esi.toNat + 4 < 2 ^ 32) : (esi + 4).toNat = esi.toNat + 4 := by
  rw [BitVec.toNat_add]
  exact Nat.mod_eq_of_lt h

theorem toNat_dec (h : 0 < ecx.toNat) : (ecx - 1).toNat = ecx.toNat - 1 := by bv_omega

theorem dec_eq_zero_iff (h : 0 < ecx.toNat) : ecx - 1 = 0 ↔ ecx.toNat = 1 := by bv_omega

theorem cpy_eq (hpos : 0 < ecx.toNat) (hfuel : ecx.toNat ≤ fuel)
    (hlimit : esi.toNat + 4 * ecx.toNat ≤ dsLimit + 1)
    (hapart : esi.toNat + 4 * ecx.toNat ≤ edi.toNat) (htop : edi.toNat + 4 * ecx.toNat < 2 ^ 32) :
    ∃ edi', cpy dsLimit fuel ecx esi edi m = some (edi', moved m edi.toNat esi.toNat (4 * ecx.toNat)) ∧
      edi'.toNat = edi.toNat + 4 * ecx.toNat := by
  induction fuel generalizing ecx esi edi m with
  | zero => omega
  | succ fuel ih =>
    have hdi : (edi + 4).toNat = edi.toNat + 4 := toNat_next (by omega)
    have hsi : (esi + 4).toNat = esi.toNat + 4 := toNat_next (by omega)
    have hcx := toNat_dec hpos
    rw [cpy, if_pos (by omega), write32_read]
    by_cases hlast : ecx.toNat = 1
    · rw [if_pos ((dec_eq_zero_iff hpos).mpr hlast)]
      exact ⟨edi + 4, by rw [hlast], by rw [hdi, hlast]⟩
    · obtain ⟨edi', hrun, hedi'⟩ :=
        ih (m := moved m edi.toNat esi.toNat 4) (by omega) (by omega) (by omega)
        (by omega : (esi + 4).toNat + 4 * (ecx - 1).toNat ≤ (edi + 4).toNat) (by omega)
      refine ⟨edi', ?_, by omega⟩
      have hsum : 4 + 4 * (ecx - 1).toNat = 4 * ecx.toNat := by omega
      rw [if_neg (mt (dec_eq_zero_iff hpos).mp hlast), hrun, hdi, hsi, moved_append (by omega), hsum]

theorem cpy_fault (hpos : 0 < ecx.toNat) (hlimit : dsLimit + 1 < esi.toNat + 4 * ecx.toNat)
    (htop : esi.toNat + 4 * ecx.toNat < 2 ^ 32) : cpy dsLimit fuel ecx esi edi m = none := by
  induction fuel generalizing ecx esi edi m with
  | zero => rfl
  | succ fuel ih =>
    rw [cpy]
    split
    next hwithin =>
      have hlast : ecx.toNat ≠ 1 := by omega
      have hsi : (esi + 4).toNat = esi.toNat + 4 := toNat_next (by omega)
      have hcx := toNat_dec hpos
      rw [if_neg (mt (dec_eq_zero_iff hpos).mp hlast)]
      exact ih (by omega) (by omega) (by omega)
    next => rfl

theorem toNat_buffer : buffer.toNat = 0x80000 := rfl

theorem cpy_sectors {tgt : BitVec 32} (hpos : 0 < sectors.toNat)
    (hlimit : 0x80000 + sectors.toNat * 512 ≤ dsLimit + 1)
    (hapart : 0x80000 + sectors.toNat * 512 ≤ tgt.toNat)
    (htop : tgt.toNat + sectors.toNat * 512 < 2 ^ 32) :
    ∃ edi, cpy dsLimit (2 ^ 32) (words sectors) buffer tgt m =
        some (edi, moved m tgt.toNat 0x80000 (sectors.toNat * 512)) ∧
      edi.toNat = tgt.toNat + sectors.toNat * 512 := by
  have hwords := toNat_words sectors
  have hbytes : 4 * (words sectors).toNat = sectors.toNat * 512 := by omega
  have hbuffer := toNat_buffer
  rw [← hbytes, ← hbuffer]
  exact cpy_eq (by omega) (by omega) (by omega) (by omega) (by omega)

theorem cpy_sectors_fault {tgt : BitVec 32} (hpos : 0 < sectors.toNat)
    (hlimit : dsLimit + 1 < 0x80000 + sectors.toNat * 512) :
    cpy dsLimit (2 ^ 32) (words sectors) buffer tgt m = none := by
  have hwords := toNat_words sectors
  have hbuffer := toNat_buffer
  have hlt := sectors.isLt
  exact cpy_fault (by omega) (by omega) (by omega)

theorem int13_of_outside {a : Nat} (ha : a < 0x80000 ∨ 0x80000 + s.dcnt.toNat * 512 ≤ a) :
    (int13 disk s).memory a = s.memory a := by
  rw [int13, toNat_buffer]
  exact if_neg (by omega)

theorem int13_of_inside {k : Nat} (hk : k < s.dcnt.toNat * 512) :
    (int13 disk s).memory (0x80000 + k) = disk (s.dlba.toNat * 512 + k) := by
  have hin : 0x80000 ≤ 0x80000 + k ∧ 0x80000 + k < 0x80000 + s.dcnt.toNat * 512 := by omega
  simp only [int13, toNat_buffer, if_pos hin, Nat.add_sub_cancel_left]

theorem round_eq (disk : Nat → Byte) (dsLimit : Nat) (s : Loader) : round disk dsLimit s =
    (cpy dsLimit (2 ^ 32) (words (ask disk s).dcnt) buffer s.tgt (ask disk s).memory).map
      fun r => advance (ask disk s) r.1 r.2 := by
  rw [Option.map_eq_bind]
  rfl

/-- The first `copied` of `n` sectors are in memory, and the variables go on behind them. -/
structure At (disk : Nat → Byte) (n copied : Nat) (s : Loader) : Prop where
  le : copied ≤ n
  sleft : s.sleft.toNat = n - copied
  clba : s.clba.toNat = 1 + copied
  tgt : s.tgt.toNat = 0x100000 + copied * 512
  memory : ∀ k < copied * 512, s.memory (0x100000 + k) = disk (512 + k)
  requests : ∀ r ∈ s.requests, r.count ≤ 32

theorem At.memory_advance {c : Nat} (h : At disk n copied s) (hc : (ask disk s).dcnt.toNat = c)
    (hle : c ≤ 32) : ∀ k < (copied + c) * 512,
      moved (ask disk s).memory s.tgt.toNat 0x80000 (c * 512) (0x100000 + k) = disk (512 + k) := by
  intro k hk
  rw [h.tgt]
  obtain hold | hnew := lt_or_ge k (copied * 512)
  · have hbehind : 0x80000 + (ask disk s).dcnt.toNat * 512 ≤ 0x100000 + k := by rw [hc]; omega
    have hkept : (ask disk s).memory (0x100000 + k) = s.memory (0x100000 + k) :=
      int13_of_outside (.inr hbehind)
    rw [moved_of_outside (by omega), hkept]
    exact h.memory k hold
  · obtain ⟨j, rfl⟩ := Nat.exists_eq_add_of_le hnew
    have hj : j < c * 512 := by omega
    have hread : (ask disk s).memory (0x80000 + j) = disk (s.clba.toNat * 512 + j) :=
      int13_of_inside (hc ▸ hj)
    have hfrom : s.clba.toNat * 512 + j = 512 + (copied * 512 + j) := by rw [h.clba]; omega
    rw [← Nat.add_assoc, moved_of_inside hj, hread, hfrom]

section chunked

variable {d : BitVec 16}

theorem At.cpy (h : At disk n copied s) (hn : n < 2 ^ 15) (hpos : 0 < d.toNat) (hmost : d.toNat ≤ 32)
    (hlimit : 0x80000 + d.toNat * 512 ≤ dsLimit + 1) :
    ∃ edi, cpy dsLimit (2 ^ 32) (words d) buffer s.tgt m =
      some (edi, moved m s.tgt.toNat 0x80000 (d.toNat * 512)) ∧
      edi.toNat = 0x100000 + (copied + d.toNat) * 512 := by
  have htgt := h.tgt
  have hle := h.le
  obtain ⟨edi, hcpy, hedi⟩ := cpy_sectors (m := m) hpos hlimit (by omega : _ ≤ s.tgt.toNat) (by omega)
  exact ⟨edi, hcpy, by omega⟩

theorem At.toNat_sleft (h : At disk n copied s) (hd : d.toNat ≤ n - copied) :
    (s.sleft - d).toNat = n - (copied + d.toNat) := by
  have hsleft := h.sleft
  rw [BitVec.toNat_sub_of_le (BitVec.le_def.mpr (by omega))]
  omega

theorem At.toNat_clba (h : At disk n copied s) (hn : n < 2 ^ 15) :
    (s.clba + d.setWidth 32).toNat = 1 + (copied + d.toNat) := by
  have hclba := h.clba
  have hle := h.le
  rw [BitVec.toNat_add, BitVec.toNat_setWidth, Nat.mod_eq_of_lt (by omega : d.toNat < 2 ^ 32)]
  exact (Nat.mod_eq_of_lt (by omega)).trans (by omega)

theorem At.round (h : At disk n copied s) (hlt : copied < n) (hn : n < 2 ^ 15)
    (hlimit : 0x80000 + min n 32 * 512 ≤ dsLimit + 1) :
    ∃ s', round disk dsLimit s = some s' ∧ At disk n (copied + min (n - copied) 32) s' := by
  have hsleft : s.sleft.toNat < 2 ^ 15 := by
    rw [h.sleft]
    omega
  have hcount : (ask disk s).dcnt.toNat = min (n - copied) 32 := h.sleft ▸ chunk_of_lt hsleft
  have hpos : 0 < (ask disk s).dcnt.toNat := hcount ▸ lt_min (Nat.sub_pos_of_lt hlt) (by decide)
  have hleft : (ask disk s).dcnt.toNat ≤ n - copied := hcount.le.trans (Nat.min_le_left _ _)
  have hmost : (ask disk s).dcnt.toNat ≤ 32 := hcount.le.trans (Nat.min_le_right _ _)
  have hfirst : (ask disk s).dcnt.toNat ≤ min n 32 := le_min (hleft.trans (Nat.sub_le n copied)) hmost
  have hbuffer := (Nat.add_le_add_left (Nat.mul_le_mul_right 512 hfirst) 0x80000).trans hlimit
  obtain ⟨edi, hcpy, hedi⟩ := h.cpy (m := (ask disk s).memory) hn hpos hmost hbuffer
  refine ⟨advance (ask disk s) edi _, by rw [round_eq, hcpy, Option.map_some], ?_⟩
  rw [← hcount]
  refine ⟨?_, h.toNat_sleft hleft, h.toNat_clba hn, hedi, h.memory_advance rfl hmost, ?_⟩
  · exact (Nat.add_le_add_left hleft copied).trans (Nat.add_sub_cancel' hlt.le).le
  · intro r hr
    obtain hr | hr := List.mem_append.mp hr
    · exact h.requests r hr
    · obtain rfl := List.mem_singleton.mp hr
      exact hmost

end chunked

theorem At.rl (h : At disk n copied s) (hn : n < 2 ^ 15)
    (hlimit : 0x80000 + min n 32 * 512 ≤ dsLimit + 1)
    (hfuel : n - copied < fuel) : ∃ s', rl disk dsLimit fuel s = some s' ∧ At disk n n s' := by
  induction fuel generalizing copied s with
  | zero => exact absurd hfuel (Nat.not_lt_zero _)
  | succ fuel ih =>
    have hsleft := h.sleft
    rw [KernelLoad.rl]
    obtain rfl | hlt := h.le.eq_or_lt
    · have hzero : s.sleft = 0 := BitVec.eq_of_toNat_eq (by rw [hsleft, Nat.sub_self]; rfl)
      exact ⟨s, if_pos hzero, h⟩
    · have hne : s.sleft ≠ 0 := by
        intro h0
        rw [h0] at hsleft
        have hzero : (0 : BitVec 16).toNat = 0 := rfl
        omega
      obtain ⟨s₁, hround, h₁⟩ := h.round hlt hn hlimit
      rw [if_neg hne, hround, Option.bind_some]
      exact ih h₁ (by omega)

theorem at_start (disk : Nat → Byte) (m : Memory) : At disk sectors.toNat 0 (start m sectors) where
  le := Nat.zero_le _
  sleft := rfl
  clba := rfl
  tgt := rfl
  memory k hk := by omega
  requests := by rintro r ⟨⟩

theorem loads_of_small (m : Memory) (hn : sectors.toNat < 2 ^ 15)
    (hlimit : 0x80000 + min sectors.toNat 32 * 512 ≤ dsLimit + 1) :
    Loads disk sectors.toNat (load disk dsLimit m sectors) := by
  obtain ⟨s, hs, hat⟩ := (at_start disk m).rl hn hlimit (show sectors.toNat - 0 < 65536 by omega)
  exact ⟨s, hs, hat.memory, hat.requests⟩

theorem requests_round {r : Request} (h : round disk dsLimit s = some s')
    (hr : r ∈ (ask disk s).requests) : r ∈ s'.requests := by
  rw [round_eq, Option.map_eq_some_iff] at h
  obtain ⟨p, -, rfl⟩ := h
  exact hr

theorem requests_rl {r : Request} (h : rl disk dsLimit fuel s = some s') (hr : r ∈ s.requests) :
    r ∈ s'.requests := by
  induction fuel generalizing s with
  | zero => cases h
  | succ fuel ih =>
    rw [rl] at h
    split at h
    next =>
      cases h
      exact hr
    next =>
      obtain ⟨s₁, hround, hrest⟩ := Option.bind_eq_some_iff.mp h
      exact ih hrest (requests_round hround (List.mem_append_left _ hr))

theorem first_request (hpos : sectors ≠ 0) (h : load disk dsLimit m sectors = some s') :
    ⟨1, (chunk sectors).toNat⟩ ∈ s'.requests ∧
      (0 < (chunk sectors).toNat → 0x80000 + (chunk sectors).toNat * 512 ≤ dsLimit + 1) := by
  have hsleft : (start m sectors).sleft ≠ 0 := hpos
  rw [load, rl, if_neg hsleft] at h
  obtain ⟨s₁, hround, hrest⟩ := Option.bind_eq_some_iff.mp h
  refine ⟨requests_rl hrest (requests_round hround
    (List.mem_append_right _ (List.mem_singleton.mpr rfl))), ?_⟩
  intro hcount
  by_contra hlimit
  have hfault : cpy dsLimit (2 ^ 32) (words (ask disk (start m sectors)).dcnt) buffer
      (start m sectors).tgt
      (ask disk (start m sectors)).memory = none := cpy_sectors_fault hcount (not_le.mp hlimit)
  rw [round_eq, hfault] at hround
  cases hround

theorem small_of_loads (hpos : 0 < sectors.toNat)
    (h : Loads disk sectors.toNat (load disk dsLimit m sectors)) :
    sectors.toNat < 2 ^ 15 ∧ 0x80000 + min sectors.toNat 32 * 512 ≤ dsLimit + 1 := by
  obtain ⟨s, hs, -, hrequests⟩ := h
  have hne : sectors ≠ 0 := by
    rintro rfl
    exact absurd hpos (by decide)
  obtain ⟨hfirst, hlimit⟩ := first_request hne hs
  have hcount : (chunk sectors).toNat ≤ 32 := hrequests _ hfirst
  have hsmall : sectors.toNat < 2 ^ 15 := by
    by_contra hge
    rw [chunk_of_ge (not_lt.mp hge)] at hcount
    omega
  rw [chunk_of_lt hsmall] at hlimit
  exact ⟨hsmall, hlimit (by omega)⟩

/-- The loader copies the kernel exactly when the number of its sectors is not negative as a signed
word, and the buffer lies within the limit of DS. -/
theorem kernel_loaded_iff (disk : Nat → Byte) (dsLimit : Nat) (m : Memory) (hplace : place mbr = some i)
    (hpos : 1 ≤ n) (hn : n ≤ 65535) : ∃ mbr', patch mbr n = some mbr' ∧
      (Loads disk n (load disk dsLimit m (immediate mbr' i)) ↔
        n < 2 ^ 15 ∧ 0x80000 + min n 32 * 512 ≤ dsLimit + 1) := by
  obtain ⟨mbr', hpatch, himmediate⟩ := patch_immediate hplace (Nat.lt_succ_of_le hn)
  have hsectors : (BitVec.ofNat 16 n).toNat = n := by
    rw [BitVec.toNat_ofNat]
    exact Nat.mod_eq_of_lt (Nat.lt_succ_of_le hn)
  refine ⟨mbr', hpatch, ?_⟩
  rw [himmediate]
  constructor
  · intro h
    have hsmall : (BitVec.ofNat 16 n).toNat < 2 ^ 15 ∧ _ :=
      small_of_loads (by rwa [hsectors]) (by rwa [hsectors])
    rwa [hsectors] at hsmall
  · rintro ⟨hsmall, hlimit⟩
    have hloads : Loads disk (BitVec.ofNat 16 n).toNat (load disk dsLimit m (BitVec.ofNat 16 n)) :=
      loads_of_small m (by rwa [hsectors]) (by rwa [hsectors])
    rwa [hsectors] at hloads

/-- `mov dword [tgt], 0x100000`, `mov dword [clba], 1` and `mov word [sleft], 0`, with `sleft` at
`0x7CF8`. -/
def preparation : List Byte :=
  [0x66, 0xC7, 0x06, 0xF0, 0x7C, 0x00, 0x00, 0x10, 0x00] ++
    [0x66, 0xC7, 0x06, 0xF4, 0x7C, 0x01, 0x00, 0x00, 0x00] ++
    [0xC7, 0x06, 0xF8, 0x7C, 0x00, 0x00]

theorem place_preparation : place preparation = some 18 := by decide

theorem hundred_loaded : ∃ mbr, patch preparation 100 = some mbr ∧
    Loads (BitVec.ofNat 8) 100 (load (BitVec.ofNat 8) 0xFFFFFFFF (fun _ => 0) (immediate mbr 18)) := by
  obtain ⟨mbr, hpatch, hiff⟩ :=
    kernel_loaded_iff (BitVec.ofNat 8) 0xFFFFFFFF (fun _ => 0) place_preparation
      (by decide : 1 ≤ 100) (by decide)
  exact ⟨mbr, hpatch, hiff.mpr (by decide)⟩

/-- 32768 sectors are asked for at once. And with the limit that DS has in real mode, not even one
sector is copied. -/
theorem kernel_not_loaded :
    (∃ mbr, patch preparation 32768 = some mbr ∧ immediate mbr 18 = 0x8000) ∧ chunk 0x8000 = 0x8000 ∧
      (∀ disk m, ¬Loads disk 32768 (load disk 0xFFFFFFFF m 0x8000)) ∧
        ∀ disk m, load disk 0xFFFF m 1 = none := by
  refine ⟨patch_immediate place_preparation (by decide), by decide, ?_, ?_⟩
  · intro disk m h
    have hsectors : (0x8000 : BitVec 16).toNat = 32768 := rfl
    have hsmall := small_of_loads (by decide) (hsectors.symm ▸ h)
    exact absurd hsmall.1 (by decide)
  · intro disk m
    rw [Option.eq_none_iff_forall_ne_some]
    intro s hs
    have hlimit := (first_request (by decide) hs).2 (by decide)
    exact absurd hlimit (by decide)

end DeltaOS.KernelLoad
