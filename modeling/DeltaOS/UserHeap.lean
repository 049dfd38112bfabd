import DeltaOS.Overflow
import DeltaOS.Ranges
import DeltaOS.Runs

namespace DeltaOS.UserHeap

open Overflow Ranges Runs

structure Heap where
  heapStart : Nat := 0x500000
  heapCurrent : Nat := 0x500000
  heapEnd : Nat := 0x800000
deriving DecidableEq, Repr

/-- A difference of `size_t` or `uintptr_t`. -/
def minus (a b : Nat) : Nat := (a + (usizeRange - b)) % usizeRange

/-- `(size + 15) & ~15`. -/
def roundUp (size : Nat) : Nat := alignDown (plus size 15) 16

def served (size : Nat) : Nat := if size = 0 then 1 else size

/-- The end of both operators: the heap grows by `total` when the request does not fit, the call
returns null when `mmap` refuses, and the heap pointer moves on by `total`. -/
def bump (h : Heap) (ptr total : Nat) (granted : Bool) : Nat × Heap :=
  if plus h.heapCurrent total > h.heapEnd then
    if granted then
      (ptr, { h with heapCurrent := plus h.heapCurrent total, heapEnd := plus h.heapEnd total })
    else
      (0, h)
  else
    (ptr, { h with heapCurrent := plus h.heapCurrent total })

def operatorNew (h : Heap) (size : Nat) (granted : Bool) : Nat × Heap :=
  bump h h.heapCurrent (roundUp (served size)) granted

def aligned (h : Heap) (alignment : Nat) : Nat :=
  alignDown (minus (plus h.heapCurrent alignment) 1) alignment

def operatorNewAligned (h : Heap) (size alignment : Nat) (granted : Bool) : Nat × Heap :=
  let padding := minus (aligned h alignment) h.heapCurrent
  bump h (aligned h alignment) (roundUp (plus padding (served size))) granted

/-- A call of one of the operators, with a size and, of the second one, the alignment `2 ^ k`. -/
inductive Call where
  | plain (size : BitVec 64)
  | aligned (size : BitVec 64) (k : Fin 64)
deriving DecidableEq, Repr

def Call.size : Call → Nat
  | .plain size => served size.toNat
  | .aligned size _ => served size.toNat

def Call.alignment : Call → Nat
  | .plain _ => 16
  | .aligned _ k => 2 ^ k.val

def Call.run (h : Heap) (granted : Bool) : Call → Nat × Heap
  | .plain size => operatorNew h size.toNat granted
  | .aligned size k => operatorNewAligned h size.toNat (2 ^ k.val) granted

/-- A call and the answer `mmap` gives if the call asks for more memory. -/
structure Op where
  call : Call
  granted : Bool
deriving DecidableEq, Repr

structure Result where
  range : Range
  alignment : Nat
deriving DecidableEq, Repr

/-- The heap with what its callers have seen: the results that are not null, and whether the heap
is as before after every call that returned null. -/
structure State where
  heap : Heap := {}
  results : List Result := []
  kept : Bool := true
deriving DecidableEq, Repr

def step (s : State) (op : Op) : State :=
  let (ptr, heap) := op.call.run s.heap op.granted
  if ptr = 0 then
    { s with heap, kept := s.kept && heap == s.heap }
  else
    { s with heap, results := ⟨⟨ptr, op.call.size⟩, op.call.alignment⟩ :: s.results }

structure Sound (s : State) : Prop where
  apart : s.results.Pairwise fun r t => r.range.Apart t.range
  inside : ∀ r ∈ s.results, r.range.Within s.heap.heapStart s.heap.heapEnd
  aligned : ∀ r ∈ s.results, r.alignment ∣ r.range.base
  bounded : s.heap.heapCurrent ≤ s.heap.heapEnd
  kept : s.kept = true

/-- Rounding up to a multiple of `a`. -/
def ceil (x a : Nat) : Nat := (x + (a - 1)) / a * a

/-- No sum wraps in serving `size` bytes after `padding`. -/
structure Fits (h : Heap) (padding size : Nat) (granted : Bool) : Prop where
  rounded : padding + size + 15 < usizeRange
  advanced : h.heapCurrent + ceil (padding + size) 16 < usizeRange
  grown : h.heapEnd < h.heapCurrent + ceil (padding + size) 16 → granted = true →
    h.heapEnd + ceil (padding + size) 16 < usizeRange

def NoWrap (h : Heap) (granted : Bool) : Call → Prop
  | .plain size => Fits h 0 (served size.toNat) granted
  | .aligned size k => h.heapCurrent + (2 ^ k.val - 1) < usizeRange ∧
      Fits h (ceil h.heapCurrent (2 ^ k.val) - h.heapCurrent) (served size.toNat) granted

def Call.place (h : Heap) : Call → Nat
  | .plain _ => h.heapCurrent
  | .aligned _ k => UserHeap.aligned h (2 ^ k.val)

def Call.total (h : Heap) : Call → Nat
  | .plain size => roundUp (served size.toNat)
  | .aligned size k =>
    roundUp (plus (minus (UserHeap.aligned h (2 ^ k.val)) h.heapCurrent) (served size.toNat))

/-- The heap has to grow for the call, and `mmap` refuses it. -/
def Refused (h : Heap) (op : Op) : Prop :=
  h.heapEnd < plus h.heapCurrent (op.call.total h) ∧ op.granted = false

/-- The alignment takes the heap pointer around to zero, and the size brings it back to where it was. -/
def Vanishes (h : Heap) : Call → Prop
  | .plain _ => False
  | .aligned size k => usizeRange ≤ h.heapCurrent + (2 ^ k.val - 1) ∧
      served size.toNat ≤ h.heapCurrent ∧ h.heapCurrent ≤ served size.toNat + 15

/-- No sum of the call wraps, or it is refused, or nothing is left of it. -/
def Allowed (s : State) (op : Op) : Prop :=
  NoWrap s.heap op.granted op.call ∨ Refused s.heap op ∨ Vanishes s.heap op.call

/-- What holds of the heap after calls without wrapping. -/
structure Heap.Good (h : Heap) : Prop where
  positive : 0 < h.heapStart
  start_le : h.heapStart ≤ h.heapCurrent
  current_le : h.heapCurrent ≤ h.heapEnd
  end_lt : h.heapEnd < usizeRange
  current_dvd : 16 ∣ h.heapCurrent
  end_dvd : 16 ∣ h.heapEnd

structure Inv (s : State) : Prop where
  good : s.heap.Good
  behind : ∀ r ∈ s.results, r.range.Within s.heap.heapStart s.heap.heapCurrent
  apart : s.results.Pairwise fun r t => r.range.Apart t.range
  aligned : ∀ r ∈ s.results, r.alignment ∣ r.range.base
  kept : s.kept = true

variable {h h' : Heap} {padding size ptr total k : Nat} {granted : Bool} {s : State} {op : Op}

theorem roundUp_eq_mod (x : Nat) : roundUp x = (x + 15) % usizeRange / 16 * 16 :=
  alignDown_eq (k := 4) (Nat.mod_lt _ (by decide)) (by decide)

theorem roundUp_eq {x : Nat} (hlt : x + 15 < usizeRange) : roundUp x = ceil x 16 := by
  rw [roundUp_eq_mod, Nat.mod_eq_of_lt hlt]
  rfl

theorem dvd_roundUp (x : Nat) : 16 ∣ roundUp x :=
  dvd_alignDown (k := 4) (Nat.mod_lt _ (by decide)) (by decide)

theorem minus_plus_one {a b : Nat} (hpos : 0 < b) : minus (plus a b) 1 = (a + (b - 1)) % usizeRange := by
  have hsum : a + b + (usizeRange - 1) = a + (b - 1) + usizeRange := by
    unfold usizeRange
    omega
  rw [minus, plus, Nat.mod_add_mod, hsum, Nat.add_mod_right]

theorem aligned_eq (hk : k < 64) (hlt : h.heapCurrent + (2 ^ k - 1) < usizeRange) :
    aligned h (2 ^ k) = ceil h.heapCurrent (2 ^ k) := by
  rw [aligned, minus_plus_one (Nat.two_pow_pos k), Nat.mod_eq_of_lt hlt]
  exact alignDown_eq hlt hk.le

theorem aligned_eq_zero (hk : k < 64) (hcur : h.heapCurrent < usizeRange)
    (hwrap : usizeRange ≤ h.heapCurrent + (2 ^ k - 1)) : aligned h (2 ^ k) = 0 := by
  have hpow : 2 ^ k < usizeRange := Nat.pow_lt_pow_right (by decide) hk
  have hrest : (h.heapCurrent + (2 ^ k - 1)) % usizeRange < 2 ^ k := by
    rw [Nat.mod_eq_sub_mod hwrap, Nat.mod_eq_of_lt (by omega)]
    omega
  rw [aligned, minus_plus_one (Nat.two_pow_pos k), alignDown_eq (hrest.trans hpow) hk.le,
    Nat.div_eq_of_lt hrest, Nat.zero_mul]

theorem le_ceil {x a : Nat} (ha : 0 < a) : x ≤ ceil x a := by
  have hlt := Nat.lt_div_mul_add (a := x + (a - 1)) ha
  unfold ceil
  omega

theorem ceil_le {x a : Nat} : ceil x a ≤ x + (a - 1) := Nat.div_mul_le_self _ _

theorem minus_eq {a b : Nat} (ha : a < usizeRange) (hle : b ≤ a) : minus a b = a - b := by
  have hsum : a + (usizeRange - b) = a - b + usizeRange := by omega
  rw [minus, hsum, Nat.add_mod_right, Nat.mod_eq_of_lt (by omega)]

structure Advances (h h' : Heap) (padding size : Nat) : Prop where
  start_eq : h'.heapStart = h.heapStart
  current_eq : h'.heapCurrent = h.heapCurrent + ceil (padding + size) 16
  end_le : h.heapEnd ≤ h'.heapEnd
  good : h'.Good

theorem bump_of_fits (ptr : Nat) (hg : h.Good) (hfit : Fits h padding size granted) :
    bump h ptr (ceil (padding + size) 16) granted = (0, h) ∨
      ∃ h', bump h ptr (ceil (padding + size) 16) granted = (ptr, h') ∧ Advances h h' padding size := by
  obtain ⟨hpos, hstart, hcur, hend, hcurDvd, hendDvd⟩ := hg
  have hdvd : 16 ∣ ceil (padding + size) 16 := Dvd.intro_left _ rfl
  rw [bump, plus_of_lt hfit.advanced]
  split_ifs with hover hgranted
  · have hgrown := hfit.grown hover hgranted
    rw [plus_of_lt hgrown]
    exact .inr ⟨_, rfl, rfl, rfl, Nat.le_add_right _ _, hpos, by dsimp only; omega,
      Nat.add_le_add_right hcur _, hgrown, dvd_add hcurDvd hdvd, dvd_add hendDvd hdvd⟩
  · exact .inl rfl
  · exact .inr ⟨_, rfl, rfl, rfl, le_rfl, hpos, by dsimp only; omega, not_lt.mp hover, hend,
      dvd_add hcurDvd hdvd, hendDvd⟩

theorem end_of_bump {p : Nat} (hg : h.Good) (hdvd : 16 ∣ total)
    (hbump : bump h p total granted = (ptr, h')) : h'.heapEnd < usizeRange ∧ 16 ∣ h'.heapEnd := by
  rw [bump] at hbump
  split_ifs at hbump
  · obtain ⟨-, rfl⟩ := Prod.mk.inj hbump
    exact ⟨Nat.mod_lt _ (by decide), (Nat.dvd_mod_iff (by decide)).mpr (dvd_add hg.end_dvd hdvd)⟩
  · obtain ⟨-, rfl⟩ := Prod.mk.inj hbump
    exact ⟨hg.end_lt, hg.end_dvd⟩
  · obtain ⟨-, rfl⟩ := Prod.mk.inj hbump
    exact ⟨hg.end_lt, hg.end_dvd⟩

theorem fits_of_bump (hg : h.Good)
    (hbump : bump h (h.heapCurrent + padding) (roundUp (padding + size)) granted =
      (h.heapCurrent + padding, h'))
    (hin : h.heapCurrent + padding + size ≤ h'.heapEnd) (hle : h'.heapCurrent ≤ h'.heapEnd) :
    Fits h padding size granted := by
  have hend' := end_of_bump hg (dvd_roundUp _) hbump
  obtain ⟨hpos, hstart, hcur, hend, hcurDvd, hendDvd⟩ := hg
  have hround : padding + size + 15 < usizeRange := by
    unfold usizeRange at *
    omega
  have hceil : h.heapCurrent + ceil (padding + size) 16 ≤ h'.heapEnd := by
    unfold ceil
    omega
  have hadv : h.heapCurrent + ceil (padding + size) 16 < usizeRange := hceil.trans_lt hend'.1
  refine ⟨hround, hadv, ?_⟩
  intro hover hgranted
  by_contra hwrap
  rw [bump, roundUp_eq hround, plus_of_lt hadv, if_pos hover, if_pos hgranted] at hbump
  obtain ⟨-, rfl⟩ := Prod.mk.inj hbump
  have hshort : plus h.heapEnd (ceil (padding + size) 16) < h.heapCurrent +
      ceil (padding + size) 16 := by
    rw [plus, Nat.mod_eq_sub_mod (not_lt.mp hwrap)]
    exact (Nat.mod_le _ _).trans_lt (by omega)
  exact absurd hle (not_le.mpr hshort)

theorem eq_of_bump {p : Nat} (hbump : bump h p total granted = (ptr, h')) (hne : ptr ≠ 0) : p = ptr := by
  rw [bump] at hbump
  split_ifs at hbump
  · exact (Prod.mk.inj hbump).1
  · exact absurd (Prod.mk.inj hbump).1.symm hne
  · exact (Prod.mk.inj hbump).1

theorem run_of_noWrap {call : Call} (hg : h.Good) (hno : NoWrap h granted call) :
    call.run h granted = (0, h) ∨ ∃ padding h', call.run h granted = (h.heapCurrent + padding, h') ∧
      Advances h h' padding call.size ∧ call.alignment ∣ h.heapCurrent + padding := by
  cases call with
  | plain size =>
    have hfit : Fits h 0 (served size.toNat) granted := hno
    have hround : roundUp (served size.toNat) = ceil (0 + served size.toNat) 16 := by
      rw [roundUp_eq (by have := hfit.rounded; omega), Nat.zero_add]
    obtain hnull | ⟨h', hrun, hadv⟩ := bump_of_fits h.heapCurrent hg hfit
    · exact .inl (by rw [Call.run, operatorNew, hround, hnull])
    · refine .inr ⟨0, h', ?_, hadv, hg.current_dvd⟩
      rw [Call.run, operatorNew, hround, hrun, Nat.add_zero]
  | aligned size k =>
    obtain ⟨hlt, hfit⟩ := hno
    have hle : h.heapCurrent ≤ ceil h.heapCurrent (2 ^ k.val) := le_ceil (Nat.two_pow_pos _)
    have hpad : minus (ceil h.heapCurrent (2 ^ k.val)) h.heapCurrent =
        ceil h.heapCurrent (2 ^ k.val) - h.heapCurrent :=
      minus_eq (ceil_le.trans_lt hlt) hle
    have hsum := Nat.add_sub_cancel' hle
    have hrounded := hfit.rounded
    have hrun : Call.run h granted (.aligned size k) =
        bump h (ceil h.heapCurrent (2 ^ k.val))
          (ceil (ceil h.heapCurrent (2 ^ k.val) - h.heapCurrent + served size.toNat) 16) granted := by
      rw [Call.run, operatorNewAligned, aligned_eq k.isLt hlt, hpad, plus_of_lt (by omega),
        roundUp_eq hrounded]
    obtain hnull | ⟨h', hblock, hadv⟩ := bump_of_fits (ceil h.heapCurrent (2 ^ k.val)) hg hfit
    · exact .inl (hrun.trans hnull)
    · refine .inr ⟨_, h', ?_, hadv, ?_⟩
      · rw [hrun, hblock, hsum]
      · rw [hsum]
        exact Dvd.intro_left _ rfl

theorem noWrap_of_run {call : Call} (hg : h.Good) (hrun : call.run h granted = (ptr, h')) (hne : ptr ≠ 0)
    (hin : ptr + call.size ≤ h'.heapEnd) (hle : h'.heapCurrent ≤ h'.heapEnd) :
    NoWrap h granted call := by
  have hcur : h.heapCurrent < usizeRange := hg.current_le.trans_lt hg.end_lt
  cases call with
  | plain size =>
    rw [Call.run, operatorNew] at hrun
    have hend := (end_of_bump hg (dvd_roundUp _) hrun).1
    obtain rfl := eq_of_bump hrun hne
    have hserved : h.heapCurrent + served size.toNat ≤ h'.heapEnd := hin
    exact fits_of_bump hg (by rw [Nat.zero_add]; exact hrun) hserved hle
  | aligned size k =>
    rw [Call.run, operatorNewAligned] at hrun
    have hend := (end_of_bump hg (dvd_roundUp _) hrun).1
    have hptr := eq_of_bump hrun hne
    have hserved : ptr + served size.toNat ≤ h'.heapEnd := hin
    have hlt : h.heapCurrent + (2 ^ k.val - 1) < usizeRange := by
      by_contra hwrap
      exact hne (hptr.symm.trans (aligned_eq_zero k.isLt hcur (not_lt.mp hwrap)))
    have hceil : ptr = ceil h.heapCurrent (2 ^ k.val) := hptr.symm.trans (aligned_eq k.isLt hlt)
    have hbelow : h.heapCurrent ≤ ptr := hceil ▸ le_ceil (Nat.two_pow_pos _)
    have hsum : h.heapCurrent + (ptr - h.heapCurrent) = ptr := Nat.add_sub_cancel' hbelow
    rw [hptr, minus_eq (by omega) hbelow, plus_of_lt (by omega)] at hrun
    refine ⟨hlt, ?_⟩
    rw [← hceil]
    refine fits_of_bump hg ?_ (by rw [hsum]; exact hserved) hle
    rw [hsum]
    exact hrun

theorem run_eq (h : Heap) (op : Op) :
    op.call.run h op.granted = bump h (op.call.place h) (op.call.total h) op.granted := by
  cases op.call <;> rfl

theorem plus_eq_self {a b : Nat} (hb : b < usizeRange) (heq : plus a b = a) : b = 0 := by
  unfold plus usizeRange at *
  omega

theorem roundUp_lt (x : Nat) : roundUp x < usizeRange := by
  rw [roundUp_eq_mod]
  exact (Nat.div_mul_le_self _ _).trans_lt (Nat.mod_lt _ (by decide))

theorem total_lt (h : Heap) (call : Call) : call.total h < usizeRange := by
  cases call <;> exact roundUp_lt _

theorem served_lt (size : BitVec 64) : served size.toNat < usizeRange := by
  have hlt := size.isLt
  unfold served usizeRange
  split_ifs <;> omega

theorem roundUp_wrapped_iff (hg : h.Good) (hsize : size < usizeRange) :
    roundUp (plus (minus 0 h.heapCurrent) size) = 0 ↔ size ≤ h.heapCurrent ∧
      h.heapCurrent ≤ size + 15 := by
  obtain ⟨hpos, hstart, hcur, hend, hdvd, -⟩ := hg
  rw [roundUp_eq_mod]
  unfold plus minus usizeRange at *
  omega

theorem place_eq_zero_iff (hg : h.Good) (size : BitVec 64) (k : Fin 64) :
    Call.place h (.aligned size k) = 0 ↔ usizeRange ≤ h.heapCurrent + (2 ^ k.val - 1) := by
  have hlow := hg.positive.trans_le hg.start_le
  refine ⟨?_, aligned_eq_zero k.isLt (hg.current_le.trans_lt hg.end_lt)⟩
  intro hzero
  by_contra hlt
  have hle : h.heapCurrent ≤ ceil h.heapCurrent (2 ^ k.val) := le_ceil (Nat.two_pow_pos _)
  rw [← aligned_eq k.isLt (not_le.mp hlt)] at hle
  exact absurd (hle.trans hzero.le) (not_le.mpr hlow)

theorem vanishes_iff (hg : h.Good) (call : Call) :
    Vanishes h call ↔ call.place h = 0 ∧ call.total h = 0 := by
  cases call with
  | plain size => exact ⟨False.elim, fun hzero => (hg.positive.trans_le hg.start_le).ne' hzero.1⟩
  | aligned size k =>
    rw [place_eq_zero_iff hg, Vanishes]
    refine and_congr_right fun hwrap => ?_
    rw [Call.total, aligned_eq_zero k.isLt (hg.current_le.trans_lt hg.end_lt) hwrap]
    exact (roundUp_wrapped_iff hg (served_lt size)).symm

theorem run_eq_null_iff (hg : h.Good) (op : Op) :
    op.call.run h op.granted = (0, h) ↔ Refused h op ∨ Vanishes h op.call := by
  have hcur := hg.current_le.trans_lt hg.end_lt
  rw [run_eq, vanishes_iff hg]
  constructor
  · intro hnull
    by_cases hover : h.heapEnd < plus h.heapCurrent (op.call.total h)
    · refine .inl ⟨hover, Bool.eq_false_of_not_eq_true fun hgranted => ?_⟩
      rw [bump, if_pos hover, if_pos hgranted] at hnull
      have hsame : plus h.heapCurrent (op.call.total h) = h.heapCurrent :=
        congrArg Heap.heapCurrent (Prod.mk.inj hnull).2
      exact absurd hg.current_le (not_le.mpr (hsame ▸ hover))
    · rw [bump, if_neg hover] at hnull
      have hsame : plus h.heapCurrent (op.call.total h) = h.heapCurrent :=
        congrArg Heap.heapCurrent (Prod.mk.inj hnull).2
      exact .inr ⟨(Prod.mk.inj hnull).1, plus_eq_self (total_lt h op.call) hsame⟩
  · rintro (⟨hover, hgranted⟩ | ⟨hplace, htotal⟩)
    · rw [bump, if_pos hover, hgranted, if_neg Bool.false_ne_true]
    · have hsame : plus h.heapCurrent 0 = h.heapCurrent := Nat.mod_eq_of_lt hcur
      rw [bump, hplace, htotal, hsame, if_neg (not_lt.mpr hg.current_le)]

theorem Inv.sound (hi : Inv s) : Sound s where
  apart := hi.apart
  inside r hr := (hi.behind r hr).mono le_rfl hi.good.current_le
  aligned := hi.aligned
  bounded := hi.good.current_le
  kept := hi.kept

theorem step_of_null (hrun : op.call.run s.heap op.granted = (0, s.heap)) : step s op = s := by
  simp only [step, hrun, if_true, beq_self_eq_true, Bool.and_true]

theorem step_of_block (hrun : op.call.run s.heap op.granted = (ptr, h')) (hne : ptr ≠ 0) :
    step s op =
      { s with heap := h', results := ⟨⟨ptr, op.call.size⟩, op.call.alignment⟩ :: s.results } := by
  simp only [step, hrun, if_neg hne]

theorem Inv.block (hi : Inv s) (hadv : Advances s.heap h' padding op.call.size)
    (hdvd : op.call.alignment ∣ s.heap.heapCurrent + padding) :
    Inv { s with
      heap := h',
      results := ⟨⟨s.heap.heapCurrent + padding, op.call.size⟩, op.call.alignment⟩ :: s.results } where
  good := hadv.good
  behind := by
    have hstart := hadv.start_eq
    have hcur := hadv.current_eq
    have hsize : padding + op.call.size ≤ ceil (padding + op.call.size) 16 := le_ceil (by decide)
    have hlow := hi.good.start_le
    intro r hr
    obtain rfl | hr := List.mem_cons.mp hr
    · constructor <;> dsimp only <;> omega
    · exact (hi.behind r hr).mono hstart.le (by dsimp only; omega)
  apart := by
    refine List.pairwise_cons.mpr ⟨fun r hr => ?_, hi.apart⟩
    exact .inr ((hi.behind r hr).2.trans (Nat.le_add_right _ _))
  aligned := by
    intro r hr
    obtain rfl | hr := List.mem_cons.mp hr
    · exact hdvd
    · exact hi.aligned r hr
  kept := hi.kept

theorem Inv.step (hi : Inv s) (hok : Allowed s op) : Inv (step s op) := by
  obtain hno | hnull := hok
  · obtain hnull | ⟨padding, h', hrun, hadv, hdvd⟩ := run_of_noWrap hi.good hno
    · rw [step_of_null hnull]
      exact hi
    · have hpos := hi.good.positive
      have hle := hi.good.start_le
      rw [step_of_block hrun (by omega)]
      exact hi.block hadv hdvd
  · rw [step_of_null ((run_eq_null_iff hi.good op).mpr hnull)]
    exact hi

theorem Inv.allowed (hi : Inv s) (hs : Sound (UserHeap.step s op)) : Allowed s op := by
  rcases hrun : op.call.run s.heap op.granted with ⟨ptr, h'⟩
  by_cases hnull : ptr = 0
  · have hkept := hs.kept
    simp only [UserHeap.step, hrun, hnull, if_true, Bool.and_eq_true, beq_iff_eq] at hkept
    exact .inr ((run_eq_null_iff hi.good op).mp (by rw [hrun, hnull, hkept.2]))
  · rw [step_of_block hrun hnull] at hs
    exact .inl (noWrap_of_run hi.good hrun hnull (hs.inside _ List.mem_cons_self).2 hs.bounded)

theorem inv_start : Inv {} where
  good := by constructor <;> decide
  behind := by rintro r ⟨⟩
  apart := List.Pairwise.nil
  aligned := by rintro r ⟨⟩
  kept := rfl

/-- The results of a run are sound exactly when no sum wraps in any of its calls but those that
return null with nothing changed. -/
theorem heap_sound_iff (ops : List Op) : Always step Sound {} ops ↔ Guarded step Allowed {} ops :=
  always_iff_guarded (fun _ hi => hi.sound) (fun _ _ hi hok => hi.step hok)
    (fun _ _ hi hs => hi.allowed hs)
    inv_start

/-- A request for all of memory is rounded to nothing, so the next block starts where it does; a
request that `mmap` grants can move the end of the heap below the heap pointer. -/
theorem heap_unsound :
    ((run step {} [⟨.plain (BitVec.allOnes 64), true⟩, ⟨.plain 8, true⟩]).results =
        [⟨⟨0x500000, 8⟩, 16⟩, ⟨⟨0x500000, 2 ^ 64 - 1⟩, 16⟩]) ∧
      ¬Sound (run step {} [⟨.plain (BitVec.allOnes 64), true⟩, ⟨.plain 8, true⟩]) ∧
      (run step {} [⟨.plain (BitVec.ofNat 64 (2 ^ 64 - 0x500010)), true⟩]).heap =
        ⟨0x500000, 2 ^ 64 - 16, 0x2ffff0⟩ := by
  refine ⟨by decide +kernel, ?_, by decide +kernel⟩
  intro hs
  have hin := hs.inside ⟨⟨0x500000, 2 ^ 64 - 1⟩, 16⟩ (by decide +kernel)
  exact absurd hin (by decide +kernel)

end DeltaOS.UserHeap
