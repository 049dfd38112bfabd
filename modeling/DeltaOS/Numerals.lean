import Mathlib

namespace DeltaOS.Numerals

variable {α : Type} {b n v : Nat} {digit : α → Option Nat} {s t : List α}

/-- The number that digits to the base `b` make when they follow those of `n`. Something that is no
digit makes none. -/
def valueFrom (b : Nat) (digit : α → Option Nat) : Nat → List α → Option Nat
  | n, [] => some n
  | n, c :: s => (digit c).bind fun d => valueFrom b digit (n * b + d) s

def value (b : Nat) (digit : α → Option Nat) (s : List α) : Option Nat := valueFrom b digit 0 s

theorem valueFrom_append : valueFrom b digit n (s ++ t) = (valueFrom b digit n s).bind fun k =>
    valueFrom b digit k t := by
  induction s generalizing n with
  | nil => rfl
  | cons c s ih =>
    rw [List.cons_append, valueFrom, valueFrom]
    cases digit c with
    | none => rfl
    | some d => exact ih

theorem le_of_valueFrom (hb : 0 < b) (h : valueFrom b digit n s = some v) : n ≤ v := by
  induction s generalizing n with
  | nil => exact (Option.some.inj h).le
  | cons c s ih =>
    rw [valueFrom, Option.bind_eq_some_iff] at h
    obtain ⟨d, -, h⟩ := h
    calc n ≤ n * b := Nat.le_mul_of_pos_right n hb
      _ ≤ n * b + d := Nat.le_add_right _ _
      _ ≤ v := ih h

theorem value_map {β : Type} (f : β → α) (s : List β) :
    value b digit (s.map f) = value b (digit ∘ f) s := by
  have hfrom (n : Nat) : valueFrom b digit n (s.map f) = valueFrom b (digit ∘ f) n s := by
    induction s generalizing n with
    | nil => rfl
    | cons c s ih => simp only [List.map_cons, valueFrom, ih, Function.comp_apply]
  exact hfrom 0

theorem value_toDigits {digit : Char → Option Nat} (hb : 1 < b)
    (hdigit : ∀ d < b, digit d.digitChar = some d) (n : Nat) :
    value b digit (Nat.toDigits b n) = some n := by
  induction n using Nat.strong_induction_on with
  | _ n ih =>
    obtain hlt | hle := Nat.lt_or_ge n b
    · rw [Nat.toDigits_of_lt_base hlt, value, valueFrom, hdigit n hlt, Option.bind_some,
        Nat.zero_mul, Nat.zero_add]
      rfl
    · have hrest := ih (n / b) (Nat.div_lt_self (by omega) hb)
      rw [value] at hrest
      rw [Nat.toDigits_of_base_le hb hle, value, valueFrom_append, hrest, Option.bind_some, valueFrom,
        hdigit (n % b) (Nat.mod_lt n (by omega)), Option.bind_some, Nat.div_add_mod']
      rfl

end DeltaOS.Numerals
