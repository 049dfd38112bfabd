import Mathlib

namespace DeltaOS.RoundRobin

variable {α : Type*} {ring : List α} {n i j : Nat} {a b : α}

/-- The first `n` turns on a ring: whoever is at the front has its turn and goes to the back. -/
def turns : List α → Nat → List α
  | _, 0 => []
  | [], _ + 1 => []
  | a :: rest, n + 1 => a :: turns (rest ++ [a]) n

theorem turns_getElem? (ring : List α) (n i : Nat) :
    (turns ring n)[i]? = if i < n then ring[i % ring.length]? else none := by
  induction n generalizing ring i with
  | zero => simp [turns]
  | succ n ih =>
    cases ring with
    | nil => simp [turns]
    | cons a rest =>
      cases i with
      | zero => simp [turns]
      | succ i =>
        have hmod : (rest ++ [a])[i % (rest.length + 1)]? =
            (a :: rest)[(i + 1) % (rest.length + 1)]? := by
          have hrot := List.getElem?_rotate (l := a :: rest) (n := 1)
            (m := i % (rest.length + 1)) (Nat.mod_lt _ (Nat.succ_pos _))
          simpa using hrot
        simp only [turns, List.getElem?_cons_succ, ih, List.length_append, List.length_cons,
          List.length_nil, Nat.add_lt_add_iff_right, Nat.zero_add, hmod]

theorem length_turns (h : ring ≠ []) (n : Nat) : (turns ring n).length = n := by
  induction n generalizing ring with
  | zero => simp [turns]
  | succ n ih =>
    cases ring with
    | nil => exact absurd rfl h
    | cons a rest => simp [turns, ih]

theorem mem_of_mem_turns (h : a ∈ turns ring n) : a ∈ ring := by
  obtain ⟨i, hi⟩ := List.mem_iff_getElem?.mp h
  rw [turns_getElem?] at hi
  split_ifs at hi
  exact List.mem_of_getElem? hi

theorem mod_eq_of_turns (hnodup : ring.Nodup) (hi : (turns ring n)[i]? = some a)
    (hj : (turns ring n)[j]? = some a) : i % ring.length = j % ring.length := by
  rw [turns_getElem?] at hi hj
  split_ifs at hi hj
  obtain ⟨hlt, -⟩ := List.getElem?_eq_some_iff.mp hi
  exact (List.getElem?_inj hlt hnodup).mp (hi.trans hj.symm)

theorem next_turn (hnodup : ring.Nodup) (hij : i < j) (hi : (turns ring n)[i]? = some a)
    (hj : (turns ring n)[j]? = some a) (hbetween : ∀ k, i < k → k < j → (turns ring n)[k]? ≠ some a) :
    j = i + ring.length := by
  have hmod := mod_eq_of_turns hnodup hi hj
  have hpos : 0 < ring.length := by
    rw [turns_getElem?] at hi
    split_ifs at hi
    exact List.length_pos_of_mem (List.mem_of_getElem? hi)
  have hdvd : ring.length ∣ j - i := (Nat.modEq_iff_dvd' hij.le).mp hmod
  have hle : ring.length ≤ j - i := Nat.le_of_dvd (by omega) hdvd
  by_contra hne
  refine hbetween (i + ring.length) (by omega) (by omega) ?_
  have hjn : j < n := by
    rw [turns_getElem?] at hj
    split_ifs at hj with hjn
    exact hjn
  rw [turns_getElem?, if_pos (by omega)] at hi ⊢
  rwa [Nat.add_mod_right]

theorem eq_of_mod_eq {len k l : Nat} (hlo : i < l) (hkl : l ≤ k) (hhi : k < i + len)
    (h : l % len = k % len) : k = l := by
  have hdvd : len ∣ k - l := (Nat.modEq_iff_dvd' hkl).mp h
  have hzero := Nat.eq_zero_of_dvd_of_lt hdvd (by omega)
  omega

theorem existsUnique_mod {len m : Nat} (hm : m < len) (hne : m ≠ i % len) :
    ∃! k, (i < k ∧ k < i + len) ∧ k % len = m := by
  have hdiv := Nat.div_add_mod i len
  have hmod := Nat.mod_lt i (Nat.zero_lt_of_lt hm)
  obtain ⟨k, hk, hkm⟩ : ∃ k, (i < k ∧ k < i + len) ∧ k % len = m := by
    obtain hlt | hgt := lt_or_gt_of_ne hne
    · refine ⟨len * (i / len + 1) + m, ?_, by rw [Nat.mul_add_mod, Nat.mod_eq_of_lt hm]⟩
      rw [Nat.mul_add, Nat.mul_one]
      omega
    · refine ⟨len * (i / len) + m, ?_, by rw [Nat.mul_add_mod, Nat.mod_eq_of_lt hm]⟩
      omega
  refine ⟨k, ⟨hk, hkm⟩, fun l ⟨hl, hlm⟩ => ?_⟩
  obtain hle | hle := le_total l k
  · exact (eq_of_mod_eq hl.1 hle hk.2 (hlm.trans hkm.symm)).symm
  · exact eq_of_mod_eq hk.1 hle hl.2 (hkm.trans hlm.symm)

theorem fair (hnodup : ring.Nodup) (hij : i < j) (hi : (turns ring n)[i]? = some a)
    (hj : (turns ring n)[j]? = some a) (hbetween : ∀ k, i < k → k < j → (turns ring n)[k]? ≠ some a)
    (hb : b ∈ ring) (hne : b ≠ a) : ∃! k, (i < k ∧ k < j) ∧ (turns ring n)[k]? = some b := by
  obtain rfl := next_turn hnodup hij hi hj hbetween
  have hn : i + ring.length < n := by
    rw [turns_getElem?] at hj
    split_ifs at hj with hn
    exact hn
  obtain ⟨m, hm, hget⟩ := List.getElem_of_mem hb
  have hpos : 0 < ring.length := List.length_pos_of_mem hb
  have hmi : m ≠ i % ring.length := by
    rintro rfl
    rw [turns_getElem?, if_pos (by omega), List.getElem?_eq_getElem hm, hget] at hi
    exact hne (Option.some.inj hi)
  have hturn : ∀ k < n, ((turns ring n)[k]? = some b ↔ k % ring.length = m) := by
    intro k hk
    rw [turns_getElem?, if_pos hk, ← hget, ← List.getElem?_eq_getElem hm]
    exact List.getElem?_inj (Nat.mod_lt k hpos) hnodup
  obtain ⟨k, ⟨hk, hkm⟩, hunique⟩ := existsUnique_mod hm hmi
  refine ⟨k, ⟨hk, (hturn k (hk.2.trans hn)).mpr hkm⟩, fun l ⟨hl, hlb⟩ => ?_⟩
  exact hunique l ⟨hl, (hturn l (hl.2.trans hn)).mp hlb⟩

end DeltaOS.RoundRobin
