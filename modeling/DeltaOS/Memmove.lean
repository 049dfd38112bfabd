import DeltaOS.Moves
import DeltaOS.Overflow

namespace DeltaOS.Memmove

open ByteMemory Moves Overflow

variable {m : Memory} {dest src n i : Nat}

/-- `d[i] = s[i]`. -/
def copyByte (m : Memory) (d s i : Nat) : Memory := Function.update m (plus d i) (m (plus s i))

/-- `for (size_t i = 0; i < n; i++) d[i] = s[i]`. -/
def copyUp (m : Memory) (d s n : Nat) : Memory := (List.range n).foldl (fun m i => copyByte m d s i) m

/-- `for (size_t i = n; i > 0; i--) d[i - 1] = s[i - 1]`. -/
def copyDown (m : Memory) (d s : Nat) : Nat → Memory
  | 0 => m
  | i + 1 => copyDown (copyByte m d s i) d s i

/-- The pointer that is returned, and the memory after the call. -/
def memmove (m : Memory) (dest src n : Nat) : Nat × Memory :=
  if dest < src then
    (dest, copyUp m dest src n)
  else if dest > src then
    (dest, copyDown m dest src n)
  else
    (dest, m)

theorem copyByte_eq (hd : dest + i < usizeRange) (hs : src + i < usizeRange) :
    copyByte m dest src i = moved m (dest + i) (src + i) 1 := by
  rw [copyByte, plus_of_lt hd, plus_of_lt hs, moved_one]

theorem copyUp_eq (hd : dest + n ≤ usizeRange) (hs : src + n ≤ usizeRange) (h : dest ≤ src) :
    copyUp m dest src n = moved m dest src n := by
  induction n with
  | zero => exact (moved_zero m dest src).symm
  | succ n ih =>
    have hrest : (List.range n).foldl (fun m i => copyByte m dest src i) m = moved m dest src n :=
      ih (by omega) (by omega)
    rw [copyUp, List.range_succ, List.foldl_append, hrest, List.foldl_cons, List.foldl_nil,
      copyByte_eq (by omega) (by omega), moved_append (.inl h)]

theorem copyDown_eq (hd : dest + n ≤ usizeRange) (hs : src + n ≤ usizeRange) (h : src ≤ dest) :
    copyDown m dest src n = moved m dest src n := by
  induction n generalizing m with
  | zero => exact (moved_zero m dest src).symm
  | succ n ih =>
    rw [copyDown, ih (by omega) (by omega), copyByte_eq (by omega) (by omega), moved_prepend h]

theorem memmove_eq (hd : dest + n ≤ usizeRange) (hs : src + n ≤ usizeRange) :
    memmove m dest src n = (dest, moved m dest src n) := by
  rw [memmove]
  split_ifs with hbelow habove
  · rw [copyUp_eq hd hs hbelow.le]
  · rw [copyDown_eq hd hs habove.le]
  · obtain rfl : dest = src := by omega
    rw [moved_self]

theorem memmove_moves (m : Memory) (hd : dest + n ≤ usizeRange) (hs : src + n ≤ usizeRange) :
    (memmove m dest src n).1 = dest ∧
    (∀ i < n, (memmove m dest src n).2 (dest + i) = m (src + i)) ∧
    ∀ a, a < dest ∨ dest + n ≤ a → (memmove m dest src n).2 a = m a := by
  rw [memmove_eq hd hs]
  refine ⟨rfl, ?_, ?_⟩
  · intro i hi
    exact moved_of_inside hi
  · intro a ha
    exact moved_of_outside ha

/-- Three bytes by one place upwards and by one place downwards, at the end of the address space. -/
theorem overlapping_moved :
    (∀ i < 3, (memmove (fun a => BitVec.ofNat 8 a) (2 ^ 64 - 3) (2 ^ 64 - 4) 3).2 (2 ^ 64 - 3 + i) =
      BitVec.ofNat 8 (2 ^ 64 - 4 + i)) ∧
    ∀ i < 3, (memmove (fun a => BitVec.ofNat 8 a) (2 ^ 64 - 4) (2 ^ 64 - 3) 3).2 (2 ^ 64 - 4 + i) =
      BitVec.ofNat 8 (2 ^ 64 - 3 + i) :=
  ⟨(memmove_moves _ (by decide) (by decide)).2.1, (memmove_moves _ (by decide) (by decide)).2.1⟩

end DeltaOS.Memmove
