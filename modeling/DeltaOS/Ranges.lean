import Mathlib

namespace DeltaOS.Ranges

@[ext] structure Range where
  base : Nat
  len : Nat
deriving DecidableEq, Repr

def Range.Apart (r s : Range) : Prop := r.base + r.len ≤ s.base ∨ s.base + s.len ≤ r.base

def Range.Within (r : Range) (lo hi : Nat) : Prop := lo ≤ r.base ∧ r.base + r.len ≤ hi

instance (r s : Range) : Decidable (r.Apart s) := inferInstanceAs (Decidable (_ ∨ _))

instance (r : Range) (lo hi : Nat) : Decidable (r.Within lo hi) := inferInstanceAs (Decidable (_ ∧ _))

variable {r s : Range} {lo mid hi len : Nat} {rs ss : List Range}

theorem Range.Apart.symm (h : r.Apart s) : s.Apart r := Or.symm h

theorem Range.Apart.shrink (h : r.Apart s) (hle : len ≤ r.len) : Range.Apart ⟨r.base, len⟩ s := by
  obtain h | h := h
  · exact .inl (show r.base + len ≤ s.base by omega)
  · exact .inr h

theorem Range.Apart.not_mem {a : Nat} (h : r.Apart s) (hr : r.base ≤ a ∧ a < r.base + r.len) :
    ¬(s.base ≤ a ∧ a < s.base + s.len) := by
  obtain h | h := h <;> omega

theorem Range.apart_of_within (hr : r.Within lo mid) (hs : s.Within mid hi) : r.Apart s :=
  .inl (hr.2.trans hs.1)

theorem Range.Within.mono {lo' hi' : Nat} (h : r.Within lo hi) (hlo : lo' ≤ lo) (hhi : hi ≤ hi') :
    r.Within lo' hi' :=
  ⟨hlo.trans h.1, h.2.trans hhi⟩

def Range.Holds (r : Range) (a : Nat) : Prop := r.base ≤ a ∧ a < r.base + r.len

instance (r : Range) (a : Nat) : Decidable (r.Holds a) := inferInstanceAs (Decidable (_ ∧ _))

theorem Range.Apart.within {t : Range} (h : r.Apart s) (ht : t.Within r.base (r.base + r.len)) :
    t.Apart s := by
  obtain ⟨hlo, hhi⟩ := ht
  obtain h | h := h
  · exact .inl (hhi.trans h)
  · exact .inr (h.trans hlo)

theorem Range.holds_max_base (h : ¬r.Apart s) (hr : 0 < r.len) (hs : 0 < s.len) :
    r.Holds (max r.base s.base) ∧ s.Holds (max r.base s.base) := by
  obtain ⟨hrs, hsr⟩ := not_or.mp h
  unfold Range.Holds
  omega

def Range.Meets (r s : Range) : Prop := ∃ a, r.Holds a ∧ s.Holds a

theorem Range.meets_iff :
    r.Meets s ↔ r.base < s.base + s.len ∧ s.base < r.base + r.len ∧ 0 < r.len ∧ 0 < s.len := by
  constructor
  · rintro ⟨a, hr, hs⟩
    unfold Range.Holds at hr hs
    omega
  · rintro ⟨hrs, hsr, hr, hs⟩
    exact ⟨_, holds_max_base (not_or.mpr ⟨not_le.mpr hsr, not_le.mpr hrs⟩) hr hs⟩

instance (r s : Range) : Decidable (r.Meets s) := decidable_of_iff' _ Range.meets_iff

/-- What is left of a range without the `len` places from `a` on. -/
def Range.cut (r : Range) (a len : Nat) : List Range :=
  if r.Holds a then
    [⟨r.base, a - r.base⟩, ⟨a + len, r.base + r.len - (a + len)⟩].filter fun t => 0 < t.len
  else [r]

theorem Range.mem_cut {t : Range} {a : Nat} (ht : t ∈ r.cut a len) :
    ¬r.Holds a ∧ t = r ∨ r.Holds a ∧ 0 < t.len ∧
      (t = ⟨r.base, a - r.base⟩ ∨ t = ⟨a + len, r.base + r.len - (a + len)⟩) := by
  rw [Range.cut] at ht
  split_ifs at ht with h
  · obtain ⟨hmem, hpos⟩ := List.mem_filter.mp ht
    exact .inr ⟨h, by simpa using hpos, by simpa using hmem⟩
  · exact .inl ⟨h, List.mem_singleton.mp ht⟩

theorem Range.cut_within {t : Range} {a : Nat} (ht : t ∈ r.cut a len) :
    t.Within r.base (r.base + r.len) := by
  unfold Range.Within
  obtain ⟨-, rfl⟩ | ⟨⟨hlo, hhi⟩, hpos, rfl | rfl⟩ := Range.mem_cut ht
  · exact ⟨le_rfl, le_rfl⟩
  · dsimp only
    omega
  · dsimp only at hpos ⊢
    omega

theorem Range.holds_of_cut {t : Range} {a b : Nat} (ht : t ∈ r.cut a len) (h : t.Holds b) :
    r.Holds b := by
  obtain ⟨hlo, hhi⟩ := Range.cut_within ht
  exact ⟨hlo.trans h.1, h.2.trans_le hhi⟩

theorem Range.cut_not_holds {t : Range} {a : Nat} (hlen : 0 < len) (ht : t ∈ r.cut a len) :
    ¬t.Holds a := by
  obtain ⟨hout, rfl⟩ | ⟨-, -, rfl | rfl⟩ := Range.mem_cut ht
  · exact hout
  · unfold Range.Holds
    dsimp only
    omega
  · unfold Range.Holds
    dsimp only
    omega

theorem Range.cut_apart (r : Range) (a len : Nat) : (r.cut a len).Pairwise Range.Apart := by
  rw [Range.cut]
  split_ifs with h
  · refine List.Pairwise.filter _ ?_
    have hapart : Range.Apart ⟨r.base, a - r.base⟩ ⟨a + len, r.base + r.len - (a + len)⟩ := by
      obtain ⟨hlo, -⟩ := h
      unfold Range.Apart
      dsimp only
      omega
    simpa using hapart
  · exact List.pairwise_singleton _ _

theorem pairwise_apart_cut (h : rs.Pairwise Range.Apart) (a len : Nat) :
    (rs.flatMap fun r => r.cut a len).Pairwise Range.Apart := by
  refine List.pairwise_flatMap.mpr ⟨fun r _ => r.cut_apart a len, h.imp fun hrs t ht u hu => ?_⟩
  exact ((hrs.within (Range.cut_within ht)).symm.within (Range.cut_within hu)).symm

structure Packed (lo hi : Nat) (rs : List Range) : Prop where
  apart : rs.Pairwise Range.Apart
  within : ∀ r ∈ rs, r.Within lo hi

theorem packed_nil (lo hi : Nat) : Packed lo hi [] := ⟨.nil, by simp⟩

theorem packed_singleton (h : r.Within lo hi) : Packed lo hi [r] := by
  refine ⟨List.pairwise_singleton _ _, ?_⟩
  simpa using h

theorem Packed.subperm (h : Packed lo hi rs) (hs : ss.Subperm rs) : Packed lo hi ss := by
  obtain ⟨ts, hperm, hsub⟩ := hs
  refine ⟨?_, fun r hr => h.within r (hsub.subset (hperm.symm.subset hr))⟩
  exact (hperm.pairwise_iff Range.Apart.symm).mp (h.apart.sublist hsub)

theorem Packed.perm (h : Packed lo hi rs) (hs : ss.Perm rs) : Packed lo hi ss := h.subperm hs.subperm

theorem Packed.append (h : Packed lo mid rs) (h' : Packed mid hi ss) (hlo : lo ≤ mid) (hhi : mid ≤ hi) :
    Packed lo hi (rs ++ ss) := by
  constructor
  · refine List.pairwise_append.mpr ⟨h.apart, h'.apart, fun r hr s hs => ?_⟩
    exact Range.apart_of_within (h.within r hr) (h'.within s hs)
  · intro r hr
    obtain hr | hr := List.mem_append.mp hr
    · exact (h.within r hr).mono le_rfl hhi
    · exact (h'.within r hr).mono hlo le_rfl

theorem Packed.mono (h : Packed lo mid rs) (hhi : mid ≤ hi) : Packed lo hi rs :=
  ⟨h.apart, fun r hr => (h.within r hr).mono le_rfl hhi⟩

theorem Packed.push {next : Nat} (h : Packed lo next rs) (hlo : lo ≤ next) :
    Packed lo (next + len) (⟨next, len⟩ :: rs) := by
  have hnew : Packed next (next + len) [⟨next, len⟩] := packed_singleton ⟨le_rfl, le_rfl⟩
  exact (h.append hnew hlo (Nat.le_add_right _ _)).perm (List.perm_append_singleton _ _).symm

/-- The first `n` blocks of a page that starts at `base`. -/
def blocks (base len n : Nat) : List Range := (List.range n).map fun j => ⟨base + j * len, len⟩

theorem blocks_succ (base len n : Nat) :
    blocks base len (n + 1) = blocks base len n ++ [⟨base + n * len, len⟩] := by
  simp [blocks, List.range_succ]

theorem packed_blocks (base len n : Nat) : Packed base (base + n * len) (blocks base len n) := by
  induction n with
  | zero => exact packed_nil _ _
  | succ n ih =>
    have hlen : base + (n + 1) * len = base + n * len + len := by rw [Nat.succ_mul, Nat.add_assoc]
    rw [blocks_succ, hlen]
    exact ih.append (packed_singleton ⟨le_rfl, le_rfl⟩) (by omega) (by omega)

end DeltaOS.Ranges
