import Mathlib

namespace DeltaOS.LeastFirst

variable {α : Type*} [LinearOrder α]

/-- What is done with a set: an element is put in, or the least one that is not held back is taken
out. -/
inductive Op (α : Type*) where
  | send (a : α)
  | pop
deriving DecidableEq, Repr

/-- Taking the least element that is not held back, or none. -/
inductive Takes (held p : Finset α) : Option α → Finset α → Prop where
  | least {a : α} (h : IsLeast (p \ held : Set α) a) : Takes held p (some a) (p.erase a)
  | nothing (h : p ⊆ held) : Takes held p none p

/-- A sequence of operations, with what is taken out in turn. Only elements that are known are put in. -/
inductive Run (known held : Finset α) : Finset α → List (Op α) → List (Option α) → Finset α → Prop where
  | done (p : Finset α) : Run known held p [] [] p
  | send {p p' : Finset α} {a : α} {ops : List (Op α)} {taken : List (Option α)}
      (h : Run known held (if a ∈ known then insert a p else p) ops taken p') :
      Run known held p (.send a :: ops) taken p'
  | pop {p q p' : Finset α} {r : Option α} {ops : List (Op α)} {taken : List (Option α)}
      (ht : Takes held p r q) (h : Run known held q ops taken p') :
        Run known held p (.pop :: ops) (r :: taken) p'

variable {known held p q : Finset α} {a : α} {r : Option α} {ops : List (Op α)} {taken : List (Option α)}

theorem Takes.none_iff (h : Takes held p r q) : r = none ↔ p ⊆ held := by
  cases h with
  | least hleast => exact iff_of_false (by simp) fun hsub => hleast.1.2 (hsub hleast.1.1)
  | nothing hsub => exact iff_of_true rfl hsub

theorem Takes.some_iff (h : Takes held p r q) : r = some a ↔ IsLeast (p \ held : Set α) a := by
  cases h with
  | least hleast =>
    exact ⟨fun heq => Option.some.inj heq ▸ hleast,
      fun ha => congrArg some (hleast.unique ha)⟩
  | nothing hsub => exact iff_of_false (by simp) fun ha => ha.1.2 (hsub ha.1.1)

theorem Takes.mem_iff (h : Takes held p r q) : a ∈ q ↔ a ∈ p ∧ r ≠ some a := by
  cases h with
  | least hleast => rw [Finset.mem_erase, and_comm, ne_comm, Option.some_inj.ne]
  | nothing hsub => simp

theorem Run.mem_or_taken (h : Run known held p ops taken q) (ha : a ∈ p) : a ∈ q ∨ some a ∈ taken := by
  induction h with
  | done p => exact .inl ha
  | send h ih =>
    apply ih
    split
    · exact Finset.mem_insert_of_mem ha
    · exact ha
  | @pop p q p' r ops taken ht h ih =>
    obtain rfl | hr := eq_or_ne r (some a)
    · exact .inr List.mem_cons_self
    · exact (ih (ht.mem_iff.mpr ⟨ha, hr⟩)).imp_right (List.mem_cons_of_mem _)

theorem Run.taken_of_nothing (h : Run known held p ops taken q) (ha : a ∈ p) (hheld : a ∉ held)
    (hq : q ⊆ held) : some a ∈ taken :=
  (h.mem_or_taken ha).resolve_left fun haq => hheld (hq haq)

theorem Run.not_taken (h : Run known held p ops taken q) (ha : a ∉ p) (hops : Op.send a ∉ ops) :
    some a ∉ taken := by
  induction h with
  | done p => exact List.not_mem_nil
  | @send p p' b ops taken h ih =>
    rw [List.mem_cons, not_or] at hops
    have hne : a ≠ b := fun heq => hops.1 (congrArg Op.send heq)
    apply ih _ hops.2
    split
    · rw [Finset.mem_insert, not_or]
      exact ⟨hne, ha⟩
    · exact ha
  | pop ht h ih =>
    rw [List.mem_cons, not_or] at hops ⊢
    refine ⟨fun heq => ha ?_, ih (fun haq => ha (ht.mem_iff.mp haq).1) hops.2⟩
    exact (ht.some_iff.mp heq.symm).1.1

theorem Takes.not_mem (h : Takes held p (some a) q) : a ∉ q := fun ha => (h.mem_iff.mp ha).2 rfl

theorem Run.count_le_one (h : Run known held p ops taken q) (hops : Op.send a ∉ ops) :
    taken.count (some a) ≤ 1 := by
  induction h with
  | done p => exact Nat.zero_le 1
  | send h ih => exact ih fun hmem => hops (List.mem_cons_of_mem _ hmem)
  | @pop p q p' r ops taken ht h ih =>
    have hops : Op.send a ∉ ops := fun hmem => hops (List.mem_cons_of_mem _ hmem)
    obtain rfl | hr := eq_or_ne r (some a)
    · rw [List.count_cons_self, List.count_eq_zero_of_not_mem (h.not_taken ht.not_mem hops)]
    · rw [List.count_cons_of_ne hr]
      exact ih hops

theorem Run.held_iff (h : Run known held p ops taken q) (ha : a ∈ held) :
    a ∈ q ↔ a ∈ p ∨ a ∈ known ∧ Op.send a ∈ ops := by
  induction h with
  | done p => simp
  | @send p p' b ops taken h ih =>
    rw [ih, List.mem_cons, Op.send.injEq]
    split <;> grind
  | @pop p q p' r ops taken ht h ih =>
    have hr : r ≠ some a := fun heq => (ht.some_iff.mp heq).1.2 ha
    rw [ih, ht.mem_iff, List.mem_cons]
    simp [hr]

theorem Run.drained {n : Nat} (h : Run known held p (List.replicate n .pop) taken q)
    (hn : (p \ held).card = n) : taken = ((p \ held).sort (· ≤ ·)).map some ∧ q = p ∩ held := by
  induction n generalizing p taken with
  | zero =>
    have hsub : p ⊆ held := Finset.sdiff_eq_empty_iff_subset.mp (Finset.card_eq_zero.mp hn)
    cases h
    rw [Finset.card_eq_zero.mp hn, Finset.sort_empty, Finset.inter_eq_left.mpr hsub]
    exact ⟨rfl, rfl⟩
  | succ n ih =>
    rw [List.replicate_succ] at h
    cases h with
    | pop ht h =>
      cases ht with
      | nothing hsub =>
        rw [Finset.sdiff_eq_empty_iff_subset.mpr hsub] at hn
        cases hn
      | @least a hleast =>
        have ha : a ∈ p \ held := Finset.mem_sdiff.mpr hleast.1
        have hrest : p.erase a \ held = (p \ held).erase a := Finset.erase_sdiff_comm p held a
        obtain ⟨rfl, rfl⟩ := ih h (by rw [hrest, Finset.card_erase_of_mem ha, hn, Nat.add_sub_cancel])
        have hsort : (p \ held).sort (· ≤ ·) = a :: ((p \ held).erase a).sort (· ≤ ·) := by
          conv_lhs => rw [← Finset.insert_erase ha]
          refine Finset.sort_insert _ (fun b hb => ?_) (Finset.notMem_erase a _)
          exact hleast.2 (by simpa using Finset.mem_of_mem_erase hb)
        rw [hsort, hrest, List.map_cons]
        refine ⟨rfl, ?_⟩
        rw [Finset.erase_inter, Finset.erase_eq_of_notMem]
        exact fun hmem => hleast.1.2 (Finset.mem_inter.mp hmem).2

end DeltaOS.LeastFirst
