import Mathlib

namespace DeltaOS.FirstFit

variable {used : Nat → Bool} {count total s run : Nat}

/-- The first of the `n` indices from `i` on that is not used. -/
def firstFree (used : Nat → Bool) : Nat → Nat → Option Nat
  | 0, _ => none
  | n + 1, i => if used i then firstFree used n (i + 1) else some i

/-- One pass over the `n` indices from `i` on for `count` unused ones in a row. The pass
carries where the run it is in started and how long it is by now. -/
def firstRun (used : Nat → Bool) (count : Nat) : Nat → Nat → Option Nat → Nat → Option Nat
  | 0, _, _, _ => none
  | n + 1, i, start, run =>
    if used i then firstRun used count n (i + 1) none 0
    else if run + 1 = count then some (start.getD i)
    else firstRun used count n (i + 1) (some (start.getD i)) (run + 1)

def Window (used : Nat → Bool) (s count : Nat) : Prop := ∀ j, s ≤ j → j < s + count → used j = false

theorem window_zero (used : Nat → Bool) (s : Nat) : Window used s 0 :=
  fun _ hl hu => absurd hl (not_le.mpr hu)

theorem Window.snoc (h : Window used s run) (hi : used (s + run) = false) :
    Window used s (run + 1) := by
  intro j hl hu
  obtain rfl | hne := eq_or_ne j (s + run)
  · exact hi
  · exact h j hl (by omega)

/-- The lowest window below `total`, or none when there is no window. -/
def Fits (used : Nat → Bool) (count total : Nat) : Option Nat → Prop
  | some s => Window used s count ∧ s + count ≤ total ∧ ∀ j < s, ¬Window used j count
  | none => ∀ j, j + count ≤ total → ¬Window used j count

theorem firstFree_fits_from (used : Nat → Bool) (n i : Nat) (hbefore : ∀ j < i, ¬Window used j 1) :
    Fits used 1 (i + n) (firstFree used n i) := by
  induction n generalizing i with
  | zero => exact fun j hj => hbefore j (by omega)
  | succ n ih =>
    rw [firstFree]
    split_ifs with hused
    · rw [show i + (n + 1) = i + 1 + n by omega]
      apply ih
      intro j hj hw
      obtain rfl | hne := eq_or_ne j i
      · rw [hw j le_rfl (by omega)] at hused
        cases hused
      · exact hbefore j (by omega) hw
    · refine ⟨fun j hl hu => ?_, by omega, hbefore⟩
      rw [show j = i by omega]
      exact Bool.eq_false_iff.mpr hused

theorem firstFree_fits (used : Nat → Bool) (total : Nat) :
    Fits used 1 total (firstFree used total 0) := by
  have h := firstFree_fits_from used total 0 (by simp)
  rwa [Nat.zero_add] at h

theorem firstRun_fits_from (n i : Nat) (start : Option Nat) (hs : start.getD i + run = i)
    (hrun : run < count) (hw : Window used (start.getD i) run)
    (hbefore : ∀ j < start.getD i, ¬Window used j count) :
    Fits used count (i + n) (firstRun used count n i start run) := by
  induction n generalizing i start run with
  | zero =>
    intro j hj
    exact hbefore j (by omega)
  | succ n ih =>
    rw [firstRun, show i + (n + 1) = i + 1 + n by omega]
    obtain hused | hfree := Bool.eq_false_or_eq_true (used i)
    · rw [if_pos hused]
      refine ih (i + 1) none rfl (by omega) (window_zero used _) ?_
      intro j hj hwin
      obtain hlt | hge := lt_or_ge j (start.getD i)
      · exact hbefore j hlt hwin
      · have hlast : j ≤ i := Nat.lt_succ_iff.mp hj
        rw [hwin i hlast (by omega)] at hused
        cases hused
    · have hnext : Window used (start.getD i) (run + 1) := by
        apply hw.snoc
        rwa [hs]
      rw [if_neg (by simp [hfree])]
      split_ifs with hfull
      · subst hfull
        exact ⟨hnext, by omega, hbefore⟩
      · exact ih (i + 1) (some (start.getD i)) (show start.getD i + (run + 1) = i + 1 by omega)
          (by omega) hnext hbefore

theorem firstRun_fits (used : Nat → Bool) (total : Nat) (hcount : 0 < count) :
    Fits used count total (firstRun used count total 0 none 0) := by
  have h := firstRun_fits_from total 0 none rfl hcount (window_zero used _) (by simp)
  rwa [Nat.zero_add] at h

theorem firstRun_zero (n i run : Nat) (start : Option Nat) : firstRun used 0 n i start run = none := by
  induction n generalizing i start run with
  | zero => rfl
  | succ n ih =>
    rw [firstRun]
    split_ifs with hused hfull
    · exact ih ..
    · cases hfull
    · exact ih ..

theorem Fits.le (h : Fits used count total (some s)) {lo : Nat} (hcount : 0 < count)
    (hlow : ∀ j < lo, used j = true) : lo ≤ s := by
  by_contra hlt
  have hfree := h.1 s le_rfl (by omega)
  rw [hlow s (by omega)] at hfree
  cases hfree

theorem Fits.unique {s' : Nat} (h : Fits used count total (some s))
    (h' : Fits used count total (some s')) : s = s' := by
  obtain hlt | heq | hgt := lt_trichotomy s s'
  · exact absurd h.1 (h'.2.2 s hlt)
  · exact heq
  · exact absurd h'.1 (h.2.2 s' hgt)

theorem Fits.eq_some {lo : Nat} {r : Option Nat} (h : Fits used count total r) (hcount : 0 < count)
    (hlow : ∀ j < lo, used j = true) (hhigh : ∀ j, lo ≤ j → j < total → used j = false)
    (hroom : lo + count ≤ total) : r = some lo := by
  have hw : Window used lo count := fun j hl hu => hhigh j hl (by omega)
  cases r with
  | none => exact absurd hw (h lo hroom)
  | some s =>
    have hle := h.le hcount hlow
    have hge : s ≤ lo := not_lt.mp fun hlt => h.2.2 lo hlt hw
    rw [le_antisymm hge hle]

end DeltaOS.FirstFit
