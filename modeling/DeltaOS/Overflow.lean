import Mathlib

namespace DeltaOS.Overflow

/-- What a build does with machine arithmetic that leaves the word: a release build
wraps around, a build with overflow checks panics, which is `none`. -/
inductive Profile
  | release
  | debug
deriving DecidableEq, Repr

def usizeRange : Nat := 2 ^ 64

def plus (a b : Nat) : Nat := (a + b) % usizeRange

def add : Profile → Nat → Nat → Option Nat
  | .release, a, b => some ((a + b) % usizeRange)
  | .debug, a, b => if a + b < usizeRange then some (a + b) else none

def sub : Profile → Nat → Nat → Option Nat
  | .release, a, b => some ((a + usizeRange - b) % usizeRange)
  | .debug, a, b => if b ≤ a then some (a - b) else none

def mul : Profile → Nat → Nat → Option Nat
  | .release, a, b => some (a * b % usizeRange)
  | .debug, a, b => if a * b < usizeRange then some (a * b) else none

/-- The sum of two `i64`. -/
def addSigned : Profile → BitVec 64 → BitVec 64 → Option (BitVec 64)
  | .release, a, b => some (a + b)
  | .debug, a, b => if a.saddOverflow b then none else some (a + b)

/-- The product of two unsigned words. -/
def mulWord {w : Nat} : Profile → BitVec w → BitVec w → Option (BitVec w)
  | .release, x, y => some (x * y)
  | .debug, x, y => if x.umulOverflow y then none else some (x * y)

/-- The product of two signed words. -/
def mulSigned {w : Nat} : Profile → BitVec w → BitVec w → Option (BitVec w)
  | .release, x, y => some (x * y)
  | .debug, x, y => if x.smulOverflow y then none else some (x * y)

def negSigned {w : Nat} : Profile → BitVec w → Option (BitVec w)
  | .release, x => some (-x)
  | .debug, x => if x.negOverflow then none else some (-x)

/-- A shift by a number of bits of any integer type. Of a number outside the word, a release build
takes the low bits only. -/
def shiftLeft {w : Nat} : Profile → BitVec w → Int → Option (BitVec w)
  | .release, x, n => some (x <<< (n % w).toNat)
  | .debug, x, n => if 0 ≤ n ∧ n < w then some (x <<< n.toNat) else none

variable {profile : Profile} {a b c : Nat}

theorem plus_of_lt (h : a + b < usizeRange) : plus a b = a + b := Nat.mod_eq_of_lt h

theorem add_lt (h : add profile a b = some c) : c < usizeRange := by
  cases profile with
  | release =>
    obtain rfl := Option.some.inj h
    exact Nat.mod_lt _ (by decide)
  | debug =>
    simp only [add, Option.ite_none_right_eq_some, Option.some.injEq] at h
    exact h.2 ▸ h.1

theorem mul_lt (h : mul profile a b = some c) : c < usizeRange := by
  cases profile with
  | release =>
    obtain rfl := Option.some.inj h
    exact Nat.mod_lt _ (by decide)
  | debug =>
    simp only [mul, Option.ite_none_right_eq_some, Option.some.injEq] at h
    exact h.2 ▸ h.1

section Words

variable {w : Nat} {x y : BitVec w}

theorem mulWord_ok (h : x.toNat * y.toNat < 2 ^ w) : mulWord profile x y = some (x * y) := by
  have hfits : x.umulOverflow y = false := decide_eq_false (not_le.mpr h)
  cases profile with
  | release => rfl
  | debug => rw [mulWord, hfits]; rfl

theorem mulSigned_ok (profile : Profile) (hlow : -2 ^ (w - 1) ≤ x.toInt * y.toInt)
    (hhigh : x.toInt * y.toInt < 2 ^ (w - 1)) :
    mulSigned profile x y = some (x * y) ∧ (x * y).toInt = x.toInt * y.toInt := by
  have hfits : x.smulOverflow y = false := by
    rw [BitVec.smulOverflow, decide_eq_false (not_le.mpr hhigh), decide_eq_false (not_lt.mpr hlow),
      Bool.or_false]
  refine ⟨?_, BitVec.toInt_mul_of_not_smulOverflow (by rw [hfits]; decide)⟩
  cases profile with
  | release => rfl
  | debug => rw [mulSigned, hfits]; rfl

theorem negSigned_ok (profile : Profile) (h : -2 ^ (w - 1) < x.toInt) :
    negSigned profile x = some (-x) ∧ (-x).toInt = -x.toInt := by
  have hfits : x.negOverflow = false := beq_eq_false_iff_ne.mpr h.ne'
  refine ⟨?_, BitVec.toInt_neg_of_not_negOverflow (by rw [hfits]; decide)⟩
  cases profile with
  | release => rfl
  | debug => rw [negSigned, hfits]; rfl

theorem shiftLeft_ok {n : Nat} (h : n < w) : shiftLeft profile x n = some (x <<< n) := by
  cases profile with
  | release => rw [shiftLeft, Int.emod_eq_of_lt (by omega) (by omega), Int.toNat_natCast]
  | debug => rw [shiftLeft, if_pos (by omega), Int.toNat_natCast]

end Words

theorem add_ok (h : a + b < usizeRange) : add profile a b = some (a + b) := by
  cases profile with
  | release => rw [add, Nat.mod_eq_of_lt h]
  | debug => exact if_pos h

theorem sub_ok (ha : a < usizeRange) (h : b ≤ a) : sub profile a b = some (a - b) := by
  cases profile with
  | release =>
    have hsum : a + usizeRange - b = (a - b) + usizeRange := by omega
    rw [sub, hsum, Nat.add_mod_right, Nat.mod_eq_of_lt (by omega)]
  | debug => exact if_pos h

theorem mul_ok (h : a * b < usizeRange) : mul profile a b = some (a * b) := by
  cases profile with
  | release => rw [mul, Nat.mod_eq_of_lt h]
  | debug => exact if_pos h

theorem addSigned_ok {x y : BitVec 64} (hlow : -2 ^ 63 ≤ x.toInt + y.toInt)
    (hhigh : x.toInt + y.toInt < 2 ^ 63) : addSigned profile x y = some (x + y) := by
  have hfits : x.saddOverflow y = false := by
    simp only [BitVec.saddOverflow, Bool.or_eq_false_iff, decide_eq_false_iff_not]
    omega
  cases profile with
  | release => rfl
  | debug => rw [addSigned, hfits]; rfl

theorem toInt_addSigned {x y z : BitVec 64} (h : addSigned .debug x y = some z) :
    z.toInt = x.toInt + y.toInt := by
  simp only [addSigned, Option.ite_none_left_eq_some, Bool.not_eq_true, Option.some.injEq] at h
  obtain ⟨hfits, rfl⟩ := h
  exact BitVec.toInt_add_of_not_saddOverflow (by simpa using hfits)

theorem toNat_of_toInt_nonneg {x : BitVec 64} (h : 0 ≤ x.toInt) : x.toNat = x.toInt.toNat := by
  have hlt := x.isLt
  rw [BitVec.toInt_eq_toNat_cond] at h ⊢
  split_ifs at h ⊢
  · rfl
  · omega

theorem toInt_ofNat_of_lt (h : a < 2 ^ 63) : (BitVec.ofNat 64 a).toInt = a := by
  rw [BitVec.toInt_eq_toNat_cond, BitVec.toNat_ofNat, Nat.mod_eq_of_lt (by omega), if_pos (by omega)]

theorem sub_debug (h : b ≤ a) : sub .debug a b = some (a - b) := if_pos h

theorem add_release_total (a b : Nat) : ∃ c, add .release a b = some c := ⟨_, rfl⟩

theorem sub_release_total (a b : Nat) : ∃ c, sub .release a b = some c := ⟨_, rfl⟩

theorem add_release_of_debug (h : add .debug a b = some c) : add .release a b = some c := by
  simp only [add, Option.ite_none_right_eq_some, Option.some.injEq] at h
  obtain ⟨hlt, rfl⟩ := h
  exact add_ok hlt

theorem sub_release_of_debug (ha : a < usizeRange) (h : sub .debug a b = some c) :
    sub .release a b = some c := by
  simp only [sub, Option.ite_none_right_eq_some, Option.some.injEq] at h
  obtain ⟨hle, rfl⟩ := h
  exact sub_ok ha hle

theorem foldlM_some_of_imp {α β : Type*} {f g : β → α → Option β}
    (hfg : ∀ y x y', f y x = some y' → g y x = some y') (xs : List α) {y y' : β}
    (h : xs.foldlM f y = some y') : xs.foldlM g y = some y' := by
  induction xs generalizing y with
  | nil => exact h
  | cons x xs ih =>
    simp only [List.foldlM_cons, Option.bind_eq_bind, Option.bind_eq_some_iff] at h ⊢
    obtain ⟨y₁, hf, hrest⟩ := h
    exact ⟨y₁, hfg y x y₁ hf, ih hrest⟩

theorem foldlM_invariant {α β : Type*} {f : β → α → Option β} {P : β → Prop}
    (hf : ∀ y x y', P y → f y x = some y' → P y') (xs : List α) {y y' : β} (h0 : P y)
    (h : xs.foldlM f y = some y') : P y' := by
  induction xs generalizing y with
  | nil =>
    cases h
    exact h0
  | cons x xs ih =>
    simp only [List.foldlM_cons, Option.bind_eq_bind, Option.bind_eq_some_iff] at h
    obtain ⟨y₁, hstep, hrest⟩ := h
    exact ih (hf y x y₁ h0 hstep) hrest

theorem foldlM_total {α β : Type*} {f : β → α → Option β} {P : List α → β → Prop}
    (hf : ∀ x xs y, P (x :: xs) y → ∃ y', f y x = some y' ∧ P xs y') (xs : List α) {y : β}
    (h0 : P xs y) : ∃ y', xs.foldlM f y = some y' ∧ P [] y' := by
  induction xs generalizing y with
  | nil => exact ⟨y, rfl, h0⟩
  | cons x xs ih =>
    obtain ⟨y₁, hstep, h₁⟩ := hf x xs y h0
    obtain ⟨y₂, hrest, h₂⟩ := ih h₁
    exact ⟨y₂, by rw [List.foldlM_cons, hstep]; exact hrest, h₂⟩

theorem foldlM_range' {β : Type*} {f : β → Nat → Option β} (state : Nat → β) {y : β}
    (h0 : state 0 = y) {a n : Nat} (hf : ∀ i < n, f (state i) (a + i) = some (state (i + 1))) :
    (List.range' a n).foldlM f y = some (state n) := by
  subst h0
  induction n with
  | zero => rfl
  | succ n ih =>
    rw [List.range'_concat, Nat.one_mul, List.foldlM_append, ih fun i hi => hf i (by omega)]
    exact (bind_pure _).trans (hf n (Nat.lt_succ_self n))

theorem and_mask {k w : Nat} (ha : a < 2 ^ w) (hk : k ≤ w) :
    a &&& (2 ^ w - 2 ^ k) = a / 2 ^ k * 2 ^ k := by
  have hpos : 0 < 2 ^ k := Nat.two_pow_pos k
  have hle : 2 ^ k ≤ 2 ^ w := Nat.pow_le_pow_right (by decide) hk
  have hmask : 2 ^ w - 2 ^ k = 2 ^ w - (2 ^ k - 1 + 1) := by omega
  apply Nat.eq_of_testBit_eq
  intro i
  rw [hmask, Nat.testBit_and, Nat.testBit_two_pow_sub_succ (by omega), Nat.testBit_two_pow_sub_one,
    Nat.testBit_mul_two_pow, Nat.testBit_div_two_pow]
  by_cases hi : k ≤ i
  · have hlow : ¬i < k := by omega
    have hsum : i - k + k = i := by omega
    by_cases hbit : i < w
    · simp [hi, hlow, hbit, hsum]
    · have hzero : a.testBit i = false :=
        Nat.testBit_lt_two_pow (ha.trans_le (Nat.pow_le_pow_right (by decide) (by omega)))
      simp [hi, hsum, hzero]
  · have hlow : i < k := by omega
    simp [hi, hlow]

/-- Rounding down to a multiple of a power of two, as `x & !(align - 1)` does on words. -/
def alignDown (x align : Nat) : Nat := x &&& (usizeRange - 1 - (align - 1))

theorem alignDown_eq {k : Nat} (hx : a < usizeRange) (hk : k ≤ 64) :
    alignDown a (2 ^ k) = a / 2 ^ k * 2 ^ k := by
  have hpos : 0 < 2 ^ k := Nat.two_pow_pos k
  have hmask : usizeRange - 1 - (2 ^ k - 1) = 2 ^ 64 - 2 ^ k := by
    rw [usizeRange]
    omega
  rw [alignDown, hmask, and_mask hx hk]

theorem dvd_alignDown {k : Nat} (hx : a < usizeRange) (hk : k ≤ 64) : 2 ^ k ∣ alignDown a (2 ^ k) := by
  rw [alignDown_eq hx hk]
  exact Dvd.intro_left _ rfl

theorem alignDown_le {k : Nat} (hx : a < usizeRange) (hk : k ≤ 64) : alignDown a (2 ^ k) ≤ a := by
  rw [alignDown_eq hx hk]
  exact Nat.div_mul_le_self _ _

theorem lt_alignDown_add {k : Nat} (hx : a < usizeRange) (hk : k ≤ 64) :
    a < alignDown a (2 ^ k) + 2 ^ k := by
  rw [alignDown_eq hx hk]
  exact Nat.lt_div_mul_add (Nat.two_pow_pos k)

end DeltaOS.Overflow
