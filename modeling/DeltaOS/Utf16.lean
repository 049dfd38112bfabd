import Mathlib

namespace DeltaOS.Utf16

def units (c : Char) : List Nat :=
  if c.toNat < 0x10000 then [c.toNat]
  else [0xD800 + (c.toNat - 0x10000) / 0x400, 0xDC00 + (c.toNat - 0x10000) % 0x400]

def encode (s : List Char) : List Nat := s.flatMap units

/-- `char::from_u32`, which makes nothing of a surrogate. -/
def charFromU32 (u : Nat) : Option Char := if u.isValidChar then some (Char.ofNat u) else none

theorem charFromU32_toNat (c : Char) : charFromU32 c.toNat = some c := by
  have hvalid : c.toNat.isValidChar := c.valid
  rw [charFromU32, if_pos hvalid, Char.ofNat_toNat]

theorem charFromU32_surrogate {u : Nat} (hlo : 0xD800 ≤ u) (hhi : u < 0xE000) :
    charFromU32 u = none := by
  rw [charFromU32, if_neg]
  rintro (hlt | ⟨hgt, -⟩)
  · omega
  · omega

theorem toNat_lt (c : Char) : c.toNat < 0x110000 := by
  obtain hlt | ⟨-, hlt⟩ := c.valid
  · exact lt_trans hlt (by decide)
  · exact hlt

theorem filterMap_units (c : Char) : (units c).filterMap charFromU32 = if c.toNat < 0x10000
    then [c] else [] := by
  have hlt := toNat_lt c
  rw [units]
  split_ifs
  · rw [List.filterMap_cons_some (charFromU32_toNat c), List.filterMap_nil]
  · rw [List.filterMap_cons_none (charFromU32_surrogate (by omega) (by omega)),
      List.filterMap_cons_none (charFromU32_surrogate (by omega) (by omega)), List.filterMap_nil]

theorem filterMap_encode (s : List Char) :
    (encode s).filterMap charFromU32 = s.filter fun c => c.toNat < 0x10000 := by
  induction s with
  | nil => rfl
  | cons c s ih =>
    rw [encode, List.flatMap_cons, List.filterMap_append, ← encode, ih, filterMap_units,
      List.filter_cons]
    simp only [decide_eq_true_eq]
    split_ifs
    · rfl
    · rfl

end DeltaOS.Utf16
