import DeltaOS.ByteMemory

namespace DeltaOS.Moves

open ByteMemory

variable {α : Type*} {m : Nat → α} {d s a b n : Nat}

/-- The memory with `n` cells at `d` that hold what was in the `n` cells at `s`. -/
def moved (m : Nat → α) (d s n : Nat) : Nat → α := fun p => if d ≤ p ∧
    p < d + n then m (s + (p - d)) else m p

theorem moved_of_inside (hi : a < n) : moved m d s n (d + a) = m (s + a) := by
  rw [moved, if_pos (by omega), Nat.add_sub_cancel_left]

theorem moved_of_outside (ha : a < d ∨ d + n ≤ a) : moved m d s n a = m a := if_neg (by omega)

@[simp] theorem moved_zero (m : Nat → α) (d s : Nat) : moved m d s 0 = m := by
  funext p
  exact moved_of_outside (by omega)

theorem moved_self (m : Nat → α) (d n : Nat) : moved m d d n = m := by
  funext p
  by_cases hp : d ≤ p ∧ p < d + n
  · rw [moved, if_pos hp, Nat.add_sub_cancel' hp.1]
  · exact if_neg hp

theorem moved_one (m : Nat → α) (d s : Nat) : moved m d s 1 = Function.update m d (m s) := by
  funext p
  obtain rfl | hp := eq_or_ne p d
  · rw [Function.update_self]
    exact moved_of_inside Nat.one_pos
  · rw [Function.update_of_ne hp]
    exact moved_of_outside (by omega)

theorem moved_append (h : d ≤ s ∨ s + (a + b) ≤ d) :
    moved (moved m d s a) (d + a) (s + a) b = moved m d s (a + b) := by
  funext p
  obtain hlow | hhigh := lt_or_ge p (d + a)
  · rw [moved_of_outside (.inl hlow)]
    simp only [moved]
    exact if_congr (by omega) rfl rfl
  · obtain hin | hout := lt_or_ge p (d + (a + b))
    · obtain ⟨k, rfl⟩ := Nat.exists_eq_add_of_le hhigh
      rw [moved_of_inside (by omega), moved_of_outside (by omega), Nat.add_assoc d,
        moved_of_inside (by omega), Nat.add_assoc s]
    · rw [moved_of_outside (by omega), moved_of_outside (by omega), moved_of_outside (by omega)]

theorem moved_prepend (h : s ≤ d) : moved (moved m (d + a) (s + a) b) d s a = moved m d s (a + b) := by
  funext p
  by_cases hin : d ≤ p ∧ p < d + a
  · obtain ⟨k, rfl⟩ := Nat.exists_eq_add_of_le hin.1
    rw [moved_of_inside (by omega), moved_of_outside (by omega), moved_of_inside (by omega)]
  · rw [moved_of_outside (by omega)]
    by_cases hlater : d + a ≤ p ∧ p < d + a + b
    · obtain ⟨k, rfl⟩ := Nat.exists_eq_add_of_le hlater.1
      rw [moved_of_inside (by omega), Nat.add_assoc d, moved_of_inside (by omega), Nat.add_assoc s]
    · rw [moved_of_outside (by omega), moved_of_outside (by omega)]

theorem readNat_div_mod (m : Memory) (hb : b < n) :
    readNat m a n / 256 ^ b % 256 = (m (a + b)).toNat := by
  obtain ⟨k, rfl⟩ := Nat.exists_eq_add_of_lt hb
  rw [Nat.add_assoc, readNat_add, Nat.add_mul_div_left _ _ (by positivity),
    Nat.div_eq_of_lt (readNat_lt m a b), Nat.zero_add, readNat, Nat.add_mul_mod_self_left]
  exact Nat.mod_eq_of_lt (m (a + b)).isLt

theorem writeNat_readNat (m : Memory) (d s n : Nat) :
    writeNat m d n (readNat m s n) = moved m d s n := by
  funext p
  by_cases hp : d ≤ p ∧ p < d + n
  · rw [writeNat, if_pos hp, moved, if_pos hp]
    apply BitVec.eq_of_toNat_eq
    rw [BitVec.toNat_ofNat]
    exact readNat_div_mod m (by omega)
  · rw [writeNat, if_neg hp, moved, if_neg hp]

end DeltaOS.Moves
