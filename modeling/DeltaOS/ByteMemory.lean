import Mathlib

namespace DeltaOS

abbrev Byte := BitVec 8

namespace ByteMemory

abbrev Memory := Nat → Byte

/-- The little-endian number in the `n` bytes from address `a` on. -/
def readNat (m : Memory) (a : Nat) : Nat → Nat
  | 0 => 0
  | n + 1 => (m a).toNat + 256 * readNat m (a + 1) n

def writeNat (m : Memory) (a n v : Nat) : Memory :=
  fun b => if a ≤ b ∧ b < a + n then BitVec.ofNat 8 (v / 256 ^ (b - a)) else m b

def read64 (m : Memory) (a : Nat) : BitVec 64 := BitVec.ofNat 64 (readNat m a 8)

def write64 (m : Memory) (a : Nat) (v : BitVec 64) : Memory := writeNat m a 8 v.toNat

def write32 (m : Memory) (a : Nat) (v : BitVec 32) : Memory := writeNat m a 4 v.toNat

def fill (m : Memory) (a : Nat) (v : BitVec 8) (n : Nat) : Memory :=
  fun b => if a ≤ b ∧ b < a + n then v else m b

theorem readNat_congr {m m' : Memory} {a n : Nat} (h : ∀ b, a ≤ b → b < a + n → m b = m' b) :
    readNat m a n = readNat m' a n := by
  induction n generalizing a with
  | zero => rfl
  | succ n ih =>
    have hhead : m a = m' a := h a (by omega) (by omega)
    have htail : readNat m (a + 1) n = readNat m' (a + 1) n :=
      ih fun b hl hu => h b (by omega) (by omega)
    simp only [readNat, hhead, htail]

theorem readNat_writeNat_drop (m : Memory) (a n v k : Nat) :
    readNat (writeNat m a (k + n) v) (a + k) n = v / 256 ^ k % 256 ^ n := by
  induction n generalizing k with
  | zero => simp [readNat, Nat.mod_one]
  | succ n ih =>
    have hbyte : (writeNat m a (k + (n + 1)) v (a + k)).toNat = v / 256 ^ k % 256 := by
      simp [writeNat]
    have htail := ih (k + 1)
    rw [show k + 1 + n = k + (n + 1) by omega, show a + (k + 1) = a + k + 1 by omega] at htail
    rw [readNat, hbyte, htail, pow_succ 256 k, ← Nat.div_div_eq_div_mul, pow_succ' 256 n,
      Nat.mod_mul]

theorem readNat_writeNat_same (m : Memory) (a n v : Nat) :
    readNat (writeNat m a n v) a n = v % 256 ^ n := by
  simpa using readNat_writeNat_drop m a n v 0

theorem writeNat_apply_of_outside {m : Memory} {a n v b : Nat} (h : b < a ∨ a + n ≤ b) :
    writeNat m a n v b = m b := by
  have hb : ¬(a ≤ b ∧ b < a + n) := by omega
  simp only [writeNat, hb, ↓reduceIte]

theorem fill_apply_of_outside {m : Memory} {a n b : Nat} {v : BitVec 8} (h : b < a ∨ a + n ≤ b) :
    fill m a v n b = m b := by
  have hb : ¬(a ≤ b ∧ b < a + n) := by omega
  simp only [fill, hb, ↓reduceIte]

theorem readNat_fill_zero {m : Memory} {a n b k : Nat} (hl : a ≤ b) (hu : b + k ≤ a + n) :
    readNat (fill m a 0 n) b k = 0 := by
  induction k generalizing b with
  | zero => rfl
  | succ k ih =>
    have hb : a ≤ b ∧ b < a + n := by omega
    have htail := ih (b := b + 1) (by omega) (by omega)
    rw [readNat, htail]
    simp [fill, hb]

@[simp] theorem read64_write64_same (m : Memory) (a : Nat) (v : BitVec 64) :
    read64 (write64 m a v) a = v := by
  have hv : v.toNat % 256 ^ 8 = v.toNat := Nat.mod_eq_of_lt v.isLt
  rw [read64, write64, readNat_writeNat_same, hv, BitVec.ofNat_toNat, BitVec.setWidth_eq]

theorem read64_write64_of_disjoint {m : Memory} {a b : Nat} {v : BitVec 64}
    (h : b + 8 ≤ a ∨ a + 8 ≤ b) : read64 (write64 m a v) b = read64 m b := by
  unfold read64 write64
  rw [readNat_congr fun c hl hu => writeNat_apply_of_outside (by omega)]

theorem read64_write64_of_aligned {m : Memory} {a b : Nat} {v : BitVec 64}
    (ha : a % 8 = 0) (hb : b % 8 = 0) (h : b ≠ a) : read64 (write64 m a v) b = read64 m b :=
  read64_write64_of_disjoint (by omega)

theorem read64_fill_zero {m : Memory} {a n b : Nat} (hl : a ≤ b) (hu : b + 8 ≤ a + n) :
    read64 (fill m a 0 n) b = 0 := by
  rw [read64, readNat_fill_zero hl hu]
  rfl

theorem read64_fill_of_disjoint {m : Memory} {a n b : Nat} {v : BitVec 8}
    (h : b + 8 ≤ a ∨ a + n ≤ b) : read64 (fill m a v n) b = read64 m b := by
  unfold read64
  rw [readNat_congr fun c hl hu => fill_apply_of_outside (by omega)]

theorem readNat_add (m : Memory) (a k n : Nat) :
    readNat m a (k + n) = readNat m a k + 256 ^ k * readNat m (a + k) n := by
  induction k generalizing a with
  | zero => simp [readNat]
  | succ k ih =>
    have haddr : a + 1 + k = a + (k + 1) := by omega
    rw [Nat.succ_add, readNat, ih, readNat, haddr]
    ring

theorem readNat_lt (m : Memory) (a n : Nat) : readNat m a n < 256 ^ n := by
  induction n generalizing a with
  | zero => exact Nat.one_pos
  | succ n ih =>
    have hhead := (m a).isLt
    have htail := ih (a + 1)
    rw [readNat, pow_succ]
    omega

theorem readNat_of_zero {m : Memory} {a n : Nat} (h : ∀ b, a ≤ b → b < a + n → m b = 0) :
    readNat m a n = 0 := by
  have hfill : readNat m a n = readNat (fill m a 0 n) a n := by
    apply readNat_congr
    intro b hl hu
    rw [h b hl hu, fill, if_pos ⟨hl, hu⟩]
  rw [hfill, readNat_fill_zero le_rfl le_rfl]

theorem read64_write32_same {m : Memory} {a : Nat} {v : BitVec 32} (h : read64 m a = 0) :
    read64 (write32 m a v) a = v.setWidth 64 := by
  have hzero : readNat m a 8 = 0 := by
    have hnat := congrArg BitVec.toNat h
    have hlt : readNat m a 8 < 2 ^ 64 := readNat_lt m a 8
    rwa [read64, BitVec.toNat_ofNat, Nat.mod_eq_of_lt hlt] at hnat
  have hhigh : readNat (write32 m a v) (a + 4) 4 = 0 := by
    have hsplit : readNat m a 8 = readNat m a 4 + 256 ^ 4 * readNat m (a + 4) 4 := readNat_add m a 4 4
    have hkept : readNat (write32 m a v) (a + 4) 4 = readNat m (a + 4) 4 :=
      readNat_congr fun b hl hu => writeNat_apply_of_outside (.inr hl)
    omega
  have hlow : readNat (write32 m a v) a 4 = v.toNat := by
    rw [write32, readNat_writeNat_same]
    exact Nat.mod_eq_of_lt v.isLt
  rw [read64, readNat_add _ a 4 4, hhigh, hlow, Nat.mul_zero, Nat.add_zero]
  exact BitVec.ofNat_toNat 64 v

theorem read64_write32_of_disjoint {m : Memory} {a b : Nat} {v : BitVec 32} (h : b + 8 ≤ a ∨ a + 4 ≤ b) :
    read64 (write32 m a v) b = read64 m b := by
  unfold read64 write32
  rw [readNat_congr fun c hl hu => writeNat_apply_of_outside (by omega)]

def push (f : BitVec 64 × Memory) (v : BitVec 64) : BitVec 64 × Memory :=
  (f.1 - 8, write64 f.2 (f.1 - 8).toNat v)

/-- The word that lies `k` slots above a stack pointer. -/
def slot (m : Memory) (rsp : BitVec 64) (k : Nat) : BitVec 64 :=
  read64 m (rsp + BitVec.ofNat 64 (8 * k)).toNat

theorem foldl_push_pointer (ws : List (BitVec 64)) (top : BitVec 64) (m : Memory)
    (h : 8 * ws.length ≤ top.toNat) :
    (ws.foldl push (top, m)).1.toNat = top.toNat - 8 * ws.length := by
  induction ws generalizing top m with
  | nil => rfl
  | cons w ws ih =>
    simp only [List.length_cons] at h ⊢
    have htop : (top - 8).toNat = top.toNat - 8 := by bv_omega
    simp only [List.foldl_cons, push]
    rw [ih _ _ (by omega), htop]
    omega

theorem foldl_push_outside (ws : List (BitVec 64)) (top : BitVec 64) (m : Memory)
    (h : 8 * ws.length ≤ top.toNat) {a : Nat} (ha : a < top.toNat - 8 * ws.length ∨ top.toNat ≤ a) :
    (ws.foldl push (top, m)).2 a = m a := by
  induction ws generalizing top m with
  | nil => rfl
  | cons w ws ih =>
    simp only [List.length_cons] at h ha
    have htop : (top - 8).toNat = top.toNat - 8 := by bv_omega
    simp only [List.foldl_cons, push]
    rw [ih (top - 8) _ (by omega) (by omega), write64, writeNat_apply_of_outside (by omega)]

theorem read64_foldl_push_above (ws : List (BitVec 64)) (top : BitVec 64) (m : Memory)
    (h : 8 * ws.length ≤ top.toNat) {a : Nat} (ha : top.toNat ≤ a) :
    read64 (ws.foldl push (top, m)).2 a = read64 m a := by
  induction ws generalizing top m with
  | nil => rfl
  | cons w ws ih =>
    simp only [List.length_cons] at h
    have htop : (top - 8).toNat = top.toNat - 8 := by bv_omega
    simp only [List.foldl_cons, push]
    rw [ih _ _ (by omega) (by omega)]
    exact read64_write64_of_disjoint (by omega)

theorem read64_foldl_push (ws : List (BitVec 64)) (top : BitVec 64) (m : Memory)
    (h : 8 * ws.length ≤ top.toNat) {i : Nat} (hi : i < ws.length) :
    read64 (ws.foldl push (top, m)).2 (top.toNat - 8 * (i + 1)) = ws[i] := by
  induction ws generalizing top m i with
  | nil => simp at hi
  | cons w ws ih =>
    simp only [List.length_cons] at h hi
    have htop : (top - 8).toNat = top.toNat - 8 := by bv_omega
    simp only [List.foldl_cons, push]
    cases i with
    | zero =>
      rw [read64_foldl_push_above ws _ _ (by omega) (by omega), htop]
      exact read64_write64_same m _ w
    | succ i =>
      have hrest := ih (top - 8) (write64 m (top - 8).toNat w) (by omega) (i := i) (by omega)
      rw [show top.toNat - 8 * (i + 1 + 1) = (top - 8).toNat - 8 * (i + 1) by omega]
      exact hrest

theorem slot_foldl_push (ws : List (BitVec 64)) (top : BitVec 64) (m : Memory)
    (h : 8 * ws.length ≤ top.toNat) {k : Nat} (hk : k < ws.length) :
    slot (ws.foldl push (top, m)).2 (ws.foldl push (top, m)).1 k = ws.reverse.getD k 0 := by
  have hptr := foldl_push_pointer ws top m h
  have haddr : ((ws.foldl push (top, m)).1 + BitVec.ofNat 64 (8 * k)).toNat =
      top.toNat - 8 * ((ws.length - 1 - k) + 1) := by
    have htop := top.isLt
    rw [BitVec.toNat_add, hptr, BitVec.toNat_ofNat]
    omega
  rw [slot, haddr, read64_foldl_push ws top m h (by omega)]
  simp [List.getD, hk]

theorem toNat_slot {rsp : BitVec 64} {n k : Nat} (hfit : rsp.toNat + 8 * n ≤ 2 ^ 64) (hk : k < n) :
    (rsp + BitVec.ofNat 64 (8 * k)).toNat = rsp.toNat + 8 * k := by
  rw [BitVec.toNat_add, BitVec.toNat_ofNat]
  omega

theorem slot_congr {m m' : Memory} {rsp : BitVec 64} {n k : Nat} (hfit : rsp.toNat + 8 * n ≤ 2 ^ 64)
    (h : ∀ a, rsp.toNat ≤ a → a < rsp.toNat + 8 * n → m a = m' a) (hk : k < n) :
    slot m rsp k = slot m' rsp k := by
  rw [slot, slot, toNat_slot hfit hk]
  refine congrArg (BitVec.ofNat 64) (readNat_congr fun b hlo hhi => h b ?_ ?_)
  · exact (Nat.le_add_right _ _).trans hlo
  · omega

end ByteMemory

end DeltaOS
