import DeltaOS.Acpi
import DeltaOS.Interrupts

namespace DeltaOS.Clocks

open Overflow Acpi Interrupts

abbrev Word := BitVec 64

/-- The statics of the timer module, and the registers of the HPET by their addresses. -/
structure Machine where
  timer : Timer
  hpetBase : Nat
  hpetPeriod : Word
  hpetAvailable : Bool
  registers : Nat → Word

namespace Pit

def baseFreq : Nat := 1193182

def divisor (frequencyHz : BitVec 32) : BitVec 16 :=
  if frequencyHz = 0 then
    0xFFFF
  else
    let d := baseFreq / frequencyHz.toNat
    if d > 65535 then 65535 else if d < 1 then 1 else BitVec.ofNat 16 d

/-- The bytes that `Pit::init` sends to ports, and the timer after it. -/
def init (frequencyHz : BitVec 32) (t : Timer) : List (Nat × BitVec 8) × Timer :=
  ([(0x43, 3 <<< 4 ||| 2 <<< 1), (0x40, (divisor frequencyHz).setWidth 8),
    (0x40, (divisor frequencyHz >>> 8).setWidth 8)], { t with timerHz := frequencyHz })

end Pit

namespace Hpet

def generalCaps : Nat := 0x000

def generalConfig : Nat := 0x010

def mainCounter : Nat := 0x0F0

def configEnable : Word := 1 <<< 0

def configLegacyRoute : Word := 1 <<< 1

def readReg (s : Machine) (offset : Nat) : Word := s.registers (s.hpetBase + offset)

def writeReg (s : Machine) (offset : Nat) (value : Word) : Machine :=
  { s with registers := Function.update s.registers (s.hpetBase + offset) value }

def config (legacyRoute : Bool) : Word := if legacyRoute then configEnable ||| configLegacyRoute
    else configEnable

def init (info : AcpiInfo) (s : Machine) : Except String Unit × Machine :=
  if info.hpetAddress = 0 then
    (.ok (), s)
  else
    let s := { s with hpetBase := info.hpetAddress }
    let caps := readReg s generalCaps
    let period := (caps >>> 32) &&& 0xFFFFFFFF
    let legacyRoute := caps &&& (1 <<< 15) != 0
    if period = 0 ∨ period > 100000000 then
      (.error "Invalid HPET period", s)
    else
      let s := { s with hpetPeriod := period, hpetAvailable := true }
      let s := writeReg s generalConfig (config legacyRoute)
      let s := writeReg s mainCounter 0
      (.ok (), s)

def counter (s : Machine) : Word := if s.hpetAvailable then readReg s mainCounter else 0

/-- No result where the multiplication or the division panics. -/
def uptimeUs (profile : Profile) (s : Machine) : Option Word :=
  if s.hpetAvailable = false then do
    let scaled ← mulWord profile s.timer.tickCount 10000
    if s.timer.timerHz = 0 then none else some (scaled / s.timer.timerHz.setWidth 64)
  else do
    let scaled ← mulWord profile (counter s) s.hpetPeriod
    some (scaled / 1000000000)

end Hpet

def uptimeMs (s : Machine) : Word := s.timer.uptimeMs

def uptimeSec (s : Machine) : Word := uptimeMs s / 1000

/-- A number of calls of `on_timer_tick`. -/
def ticks : Nat → Timer → Option Timer
  | 0, t => some t
  | n + 1, t => (ticks n t).bind onTimerTick

/-- The statics as they are before anything runs, but with a timer that runs already. -/
def withTimer (t : Timer) : Machine where
  timer := t
  hpetBase := 0
  hpetPeriod := 0
  hpetAvailable := false
  registers := fun _ => 0

/-- The timer with its counters at zero after `Pit::init`. -/
def started (frequencyHz : BitVec 32) : Timer := (Pit.init frequencyHz ⟨0, 0, 100⟩).2

/-- The clocks after `n` ticks: nothing divides by zero, and they show the time that `n` ticks take. -/
def Agree (profile : Profile) (f : BitVec 32) (n : Nat) : Prop :=
  ∃ t us, ticks n (started f) = some t ∧ Hpet.uptimeUs profile (withTimer t) = some us ∧
    (1 ≤ f.toNat → (uptimeMs (withTimer t)).toNat = 1000 * n / f.toNat ∧
      (uptimeSec (withTimer t)).toNat = n / f.toNat ∧ us.toNat = 1000000 * n / f.toNat)

variable {profile : Profile} {f : BitVec 32} {n : Nat}

theorem toNat_setWidth_hz (f : BitVec 32) : (f.setWidth 64).toNat = f.toNat := by
  rw [BitVec.toNat_setWidth, Nat.mod_eq_of_lt (f.isLt.trans (by decide))]

theorem ticks_eq (hf : f ≠ 0) (n : Nat) :
    ticks n ⟨0, 0, f⟩ = some ⟨BitVec.ofNat 64 n, BitVec.ofNat 64 (n * (1000 / f.toNat)), f⟩ := by
  induction n with
  | zero => simp [ticks]
  | succ n ih =>
    have hincrement : (1000 / f.setWidth 64 : Word) = BitVec.ofNat 64 (1000 / f.toNat) := by
      have hlt : 1000 / f.toNat < 2 ^ 64 := (Nat.div_le_self 1000 f.toNat).trans_lt (by decide)
      apply BitVec.eq_of_toNat_eq
      rw [BitVec.toNat_udiv, toNat_setWidth_hz, BitVec.toNat_ofNat, Nat.mod_eq_of_lt hlt]
      rfl
    rw [ticks, ih, Option.bind_some, onTimerTick, if_neg hf, hincrement, Nat.add_mul, Nat.one_mul,
      BitVec.ofNat_add, BitVec.ofNat_add]
    rfl

theorem ticks_zero_hz (n : Nat) : ticks (n + 1) ⟨0, 0, 0⟩ = none := by
  induction n with
  | zero => rfl
  | succ n ih => rw [ticks, ih, Option.bind_none]

theorem lt_of_div_eq {f y n : Nat} (hf : 0 < f) (hy : y ≤ n * 10000) (h : y / f = 1000000 * n / f) :
    1000000 * n < f := by
  by_contra hle
  have hpos : 1 ≤ 1000000 * n / f := (Nat.one_le_div_iff hf).mpr (not_lt.mp hle)
  have hlow : y / f * f ≤ y := Nat.div_mul_le_self y f
  have hhigh : 1000000 * n < (1000000 * n / f + 1) * f := Nat.lt_mul_of_div_lt (Nat.lt_succ_self _) hf
  rw [h] at hlow
  nlinarith

theorem toNat_mulWord {x y z : Word} (h : mulWord profile x y = some z) :
    z.toNat = x.toNat * y.toNat % 2 ^ 64 := by
  have hz : z = x * y := by
    cases profile with
    | release => exact (Option.some.inj h).symm
    | debug =>
      rw [mulWord, Option.ite_none_left_eq_some] at h
      exact (Option.some.inj h.2).symm
  rw [hz, BitVec.toNat_mul]

theorem uptimeUs_without_hpet {t : Timer} : Hpet.uptimeUs profile (withTimer t) =
    (mulWord profile t.tickCount 10000).bind fun scaled =>
      if t.timerHz = 0 then none else some (scaled / t.timerHz.setWidth 64) := rfl

theorem not_agree_zero : ¬Agree profile 0 n := by
  rintro ⟨t, us, ht, hus, -⟩
  cases n with
  | zero =>
    cases ht
    rw [uptimeUs_without_hpet, Option.bind_eq_some_iff] at hus
    obtain ⟨scaled, -, hus⟩ := hus
    cases hus
  | succ n => exact absurd ((ticks_zero_hz n).symm.trans ht) (by simp)

theorem lt_of_agree (hf : f ≠ 0) (h : Agree profile f n) : 1000000 * n < f.toNat := by
  obtain ⟨t, us, ht, hus, hall⟩ := h
  have hpos : 0 < f.toNat := Nat.pos_of_ne_zero fun h0 => hf (BitVec.eq_of_toNat_eq h0)
  obtain ⟨-, -, hexact⟩ := hall hpos
  obtain rfl := Option.some.inj ((ticks_eq hf n).symm.trans ht)
  rw [uptimeUs_without_hpet, Option.bind_eq_some_iff] at hus
  obtain ⟨scaled, hscaled, hus⟩ := hus
  rw [if_neg hf] at hus
  obtain rfl := Option.some.inj hus
  rw [BitVec.toNat_udiv, toNat_setWidth_hz] at hexact
  refine lt_of_div_eq hpos ?_ hexact
  have hcount : (BitVec.ofNat 64 n).toNat ≤ n := by
    rw [BitVec.toNat_ofNat]
    exact Nat.mod_le _ _
  calc scaled.toNat = (BitVec.ofNat 64 n).toNat * 10000 % 2 ^ 64 := toNat_mulWord hscaled
    _ ≤ (BitVec.ofNat 64 n).toNat * 10000 := Nat.mod_le _ _
    _ ≤ n * 10000 := Nat.mul_le_mul_right 10000 hcount

theorem agree_of_lt (h : 1000000 * n < f.toNat) : Agree profile f n := by
  have hf : f ≠ 0 := by
    rintro rfl
    exact absurd h (Nat.not_lt_zero _)
  have hsmall : n < 2 ^ 32 := by
    have := f.isLt
    omega
  have hcount : (BitVec.ofNat 64 n).toNat = n := by
    rw [BitVec.toNat_ofNat, Nat.mod_eq_of_lt (by omega)]
  have hms : n * (1000 / f.toNat) = 0 := by
    obtain rfl | hn := Nat.eq_zero_or_pos n
    · exact Nat.zero_mul _
    · rw [Nat.div_eq_of_lt (by omega), Nat.mul_zero]
  have hscaled : mulWord profile (BitVec.ofNat 64 n) 10000 = some (BitVec.ofNat 64 n * 10000) := by
    apply mulWord_ok
    rw [hcount]
    exact (Nat.mul_lt_mul_of_pos_right hsmall (by decide)).trans (by decide)
  refine ⟨_, BitVec.ofNat 64 n * 10000 / f.setWidth 64, ticks_eq hf n, ?_, fun _ => ⟨?_, ?_, ?_⟩⟩
  · rw [uptimeUs_without_hpet, hscaled, Option.bind_some, if_neg hf]
  · rw [uptimeMs, hms, Nat.div_eq_of_lt (by omega)]
    rfl
  · have hzero : (0 / 1000 : Word).toNat = 0 := by decide
    rw [uptimeSec, uptimeMs, hms, Nat.div_eq_of_lt (by omega)]
    exact hzero
  · have hproduct : (BitVec.ofNat 64 n * 10000 : Word).toNat = n * 10000 := by
      rw [BitVec.toNat_mul, hcount]
      exact Nat.mod_eq_of_lt ((Nat.mul_lt_mul_of_pos_right hsmall (by decide)).trans (by decide))
    rw [BitVec.toNat_udiv, hproduct, toNat_setWidth_hz, Nat.div_eq_of_lt (by omega), Nat.div_eq_of_lt h]

/-- The clocks show the time that the ticks take only as long as all of them show zero. -/
theorem clocks_agree_iff (profile : Profile) (f : BitVec 32) (n : Nat) :
    Agree profile f n ↔ 1000000 * n < f.toNat := by
  obtain rfl | hf := eq_or_ne f 0
  · exact iff_of_false not_agree_zero (Nat.not_lt_zero _)
  · exact ⟨lt_of_agree hf, agree_of_lt⟩

theorem uptimeMs_exact_iff (hf : f ≠ 0) (hn : 1000 * n < 2 ^ 64) {t : Timer}
    (ht : ticks n (started f) = some t) :
    t.uptimeMs.toNat = 1000 * n / f.toNat ↔ n * (1000 % f.toNat) < f.toNat := by
  have hpos : 0 < f.toNat := Nat.pos_of_ne_zero fun h0 => hf (BitVec.eq_of_toNat_eq h0)
  obtain rfl := Option.some.inj ((ticks_eq hf n).symm.trans ht)
  have hle : n * (1000 / f.toNat) ≤ 1000 * n := by
    rw [Nat.mul_comm 1000]
    exact Nat.mul_le_mul_left n (Nat.div_le_self 1000 f.toNat)
  have hsplit : 1000 * n = n * (1000 % f.toNat) + f.toNat * (n * (1000 / f.toNat)) := by
    conv_lhs => rw [← Nat.mod_add_div 1000 f.toNat]
    ring
  have hms : (BitVec.ofNat 64 (n * (1000 / f.toNat))).toNat = n * (1000 / f.toNat) := by
    rw [BitVec.toNat_ofNat, Nat.mod_eq_of_lt (by omega)]
  rw [hms, hsplit, Nat.add_mul_div_left _ _ hpos, Nat.right_eq_add, Nat.div_eq_zero_iff]
  omega

/-- At 100 Hz the microseconds are a hundredth of what they should be, at 3 Hz the milliseconds fall
behind, and a frequency of zero stops the first tick. -/
theorem clocks_disagree : ¬Agree .release 100 1 ∧ ¬Agree .release 3 3 ∧ ticks 1 (started 0) = none ∧
    Hpet.uptimeUs .release (withTimer ⟨1, 10, 100⟩) = some 100 ∧
    ticks 3 (started 3) = some ⟨3, 999, 3⟩ := by
  refine ⟨?_, ?_, rfl, by decide, ?_⟩
  · intro h
    exact absurd (lt_of_agree (by decide) h) (by decide)
  · intro h
    exact absurd (lt_of_agree (by decide) h) (by decide)
  · rfl

/-- The machine when the main counter has come to `c`. -/
def running (s : Machine) (c : Word) : Machine :=
  { s with registers := Function.update s.registers (s.hpetBase + Hpet.mainCounter) c }

/-- The counter `c` shows the microseconds that have passed, at a period of `period` femtoseconds. -/
def Exact (profile : Profile) (s : Machine) (c : Word) : Prop :=
  ∃ us, Hpet.uptimeUs profile (running s c) = some us ∧ us.toNat = c.toNat * s.hpetPeriod.toNat / 10 ^ 9

variable {info : AcpiInfo} {s : Machine} {c : Word}

theorem hpetInit_ok (haddr : info.hpetAddress ≠ 0) (h : (Hpet.init info s).1 = .ok ()) :
    (Hpet.init info s).2.hpetAvailable = true ∧ 1 ≤ (Hpet.init info s).2.hpetPeriod.toNat ∧
      (Hpet.init info s).2.hpetPeriod.toNat ≤ 100000000 := by
  rw [Hpet.init, if_neg haddr] at h ⊢
  dsimp only at h ⊢
  split at h
  · cases h
  case isFalse hperiod =>
    rw [if_neg hperiod]
    rw [not_or, BitVec.not_lt] at hperiod
    exact ⟨rfl, Nat.pos_of_ne_zero fun h0 => hperiod.1 (BitVec.eq_of_toNat_eq h0), hperiod.2⟩

theorem uptimeUs_running (h : s.hpetAvailable = true) :
    Hpet.uptimeUs profile (running s c) = (mulWord profile c s.hpetPeriod).map (· / 1000000000) := by
  have hcounter : Hpet.counter (running s c) = c := by
    rw [Hpet.counter, running, if_pos h]
    exact Function.update_self ..
  have havailable : (running s c).hpetAvailable ≠ false := by
    rw [running, h]
    decide
  rw [Hpet.uptimeUs, if_neg havailable, hcounter, show (running s c).hpetPeriod = s.hpetPeriod from rfl]
  cases mulWord profile c s.hpetPeriod <;> rfl

theorem mod_div_lt {x m k : Nat} (hk : 0 < k) (hkm : k ≤ m) (hx : m ≤ x) : x % m / k < x / k := by
  have hmod : x % m ≤ x - m := by
    rw [Nat.mod_eq_sub_mod hx]
    exact Nat.mod_le _ _
  calc x % m / k ≤ (x - m) / k := Nat.div_le_div_right hmod
    _ < (x - m) / k + 1 := Nat.lt_succ_self _
    _ ≤ (x - m + k) / k := (Nat.add_div_right (x - m) hk).ge
    _ ≤ x / k := Nat.div_le_div_right (by omega)

theorem exact_iff (h : s.hpetAvailable = true) :
    Exact profile s c ↔ c.toNat * s.hpetPeriod.toNat < 2 ^ 64 := by
  rw [Exact, uptimeUs_running h]
  constructor
  · rintro ⟨us, hus, hexact⟩
    rw [Option.map_eq_some_iff] at hus
    obtain ⟨scaled, hscaled, rfl⟩ := hus
    by_contra hwrap
    have hlt := mod_div_lt (k := 10 ^ 9) (by decide) (by decide : 10 ^ 9 ≤ 2 ^ 64) (not_lt.mp hwrap)
    rw [BitVec.toNat_udiv, toNat_mulWord hscaled] at hexact
    exact hlt.ne hexact
  · intro hlt
    refine ⟨c * s.hpetPeriod / 1000000000, by rw [mulWord_ok hlt, Option.map_some], ?_⟩
    rw [BitVec.toNat_udiv, BitVec.toNat_mul, Nat.mod_eq_of_lt hlt]
    rfl

theorem exact_mono {c₁ c₂ : Word} (hle : c₁ ≤ c₂) {us₁ us₂ : Word}
    (h₁ : us₁.toNat = c₁.toNat * s.hpetPeriod.toNat / 10 ^ 9)
    (h₂ : us₂.toNat = c₂.toNat * s.hpetPeriod.toNat / 10 ^ 9) : us₁ ≤ us₂ := by
  rw [BitVec.le_def, h₁, h₂]
  exact Nat.div_le_div_right (Nat.mul_le_mul_right _ hle)

/-- The HPET shows the microseconds exactly as long as the product fits in a word, and in order as
long as that of the later reading does. -/
theorem hpet_uptimeUs_exact_iff (profile : Profile) (haddr : info.hpetAddress ≠ 0)
    (h : (Hpet.init info s).1 = .ok ()) (c c₁ c₂ : Word) :
    (1 ≤ (Hpet.init info s).2.hpetPeriod.toNat ∧ (Hpet.init info s).2.hpetPeriod.toNat ≤ 100000000) ∧
    (Exact profile (Hpet.init info s).2 c ↔ c.toNat * (Hpet.init info s).2.hpetPeriod.toNat < 2 ^ 64) ∧
    (c₁ ≤ c₂ → c₂.toNat * (Hpet.init info s).2.hpetPeriod.toNat < 2 ^ 64 →
      ∃ us₁ us₂, Hpet.uptimeUs profile (running (Hpet.init info s).2 c₁) = some us₁ ∧
        Hpet.uptimeUs profile (running (Hpet.init info s).2 c₂) = some us₂ ∧ us₁ ≤ us₂) := by
  obtain ⟨havailable, hperiod⟩ := hpetInit_ok haddr h
  refine ⟨hperiod, exact_iff havailable, fun hle hlt => ?_⟩
  obtain ⟨us₂, hus₂, hexact₂⟩ : Exact profile (Hpet.init info s).2 c₂ := (exact_iff havailable).mpr hlt
  obtain ⟨us₁, hus₁, hexact₁⟩ : Exact profile (Hpet.init info s).2 c₁ :=
    (exact_iff havailable).mpr ((Nat.mul_le_mul_right _ hle).trans_lt hlt)
  exact ⟨us₁, us₂, hus₁, hus₂, exact_mono hle hexact₁ hexact₂⟩

/-- An HPET at its usual place that counts with 14.318 MHz, and firmware that announces it. -/
def hpetMachine : Machine :=
  { withTimer ⟨0, 0, 100⟩ with registers := fun a => if a = 0xFED00000 then 0x0429B17F8086A301 else 0 }

def hpetInfo : AcpiInfo := { AcpiInfo.new with hpetAddress := 0xFED00000 }

/-- After a second. -/
theorem hpetMachine_exact : (Hpet.init hpetInfo hpetMachine).2.hpetPeriod = 69841279 ∧
    Exact .debug (Hpet.init hpetInfo hpetMachine).2 14318180 :=
  ⟨by decide, ((hpet_uptimeUs_exact_iff .debug (by decide) rfl 14318180 0 0).2.1).mpr (by decide)⟩

/-- After five hours the uptime falls back to zero. -/
theorem hpetMachine_wraps :
    Hpet.uptimeUs .release (running (Hpet.init hpetInfo hpetMachine).2 264123800964) = some 18446744073 ∧
    Hpet.uptimeUs .release (running (Hpet.init hpetInfo hpetMachine).2 264123800965) = some 0 ∧
    Hpet.uptimeUs .debug (running (Hpet.init hpetInfo hpetMachine).2 264123800965) = none ∧
    ∀ profile, ¬Exact profile (Hpet.init hpetInfo hpetMachine).2 264123800965 := by
  refine ⟨by decide, by decide, by decide, fun profile h => ?_⟩
  exact absurd ((exact_iff rfl).mp h) (by decide)

end DeltaOS.Clocks
