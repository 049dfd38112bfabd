import DeltaOS.Paging
import DeltaOS.RadixTree

namespace DeltaOS.PageTables

open ByteMemory Kernel Overflow Paging Vmm RadixTree

theorem frameOf_mod (e : Word) : frameOf e % pageSize = 0 := by
  rw [frameOf, BitVec.toNat_and, show pageSize = 2 ^ 12 from rfl, Nat.and_mod_two_pow]
  exact Nat.and_zero _

theorem and_low_eq_zero {a c : Nat} (ha : a % pageSize = 0) (hc : c < 2 ^ 12) :
    BitVec.ofNat 64 a &&& BitVec.ofNat 64 c = 0 := by
  apply BitVec.eq_of_toNat_eq
  rw [BitVec.toNat_and, BitVec.toNat_ofNat, BitVec.toNat_ofNat]
  apply Nat.eq_of_testBit_eq
  intro i
  rw [Nat.testBit_and, Nat.testBit_mod_two_pow, Nat.testBit_mod_two_pow]
  by_cases hi : i < 12
  · have hbit : a.testBit i = false := by
      rw [← Nat.div_add_mod a pageSize, ha, Nat.add_zero, Nat.mul_comm,
        show pageSize = 2 ^ 12 from rfl, Nat.testBit_mul_two_pow]
      simp [hi]
    simp [hbit]
  · have hbit : c.testBit i = false :=
      Nat.testBit_lt_two_pow (hc.trans_le (Nat.pow_le_pow_right (by decide) (by omega)))
    simp [hbit]

theorem frameOf_or {a : Nat} {b : Word} (ha : a % pageSize = 0) (hlt : a < 2 ^ 52)
    (hb : b &&& addrMask = 0) : frameOf (BitVec.ofNat 64 a ||| b) = a := by
  have hdvd : a / 2 ^ 12 * 2 ^ 12 = a := Nat.div_mul_cancel (Nat.dvd_of_mod_eq_zero ha)
  have hmod : a % 2 ^ 64 = a := Nat.mod_eq_of_lt (by omega)
  have hmask : addrMask.toNat = 2 ^ 52 - 2 ^ 12 := rfl
  have hor : (BitVec.ofNat 64 a ||| b) &&& addrMask = BitVec.ofNat 64 a &&& addrMask := by
    rw [BitVec.and_comm, BitVec.and_or_distrib_left, BitVec.and_comm addrMask b, hb, BitVec.and_comm]
    exact BitVec.or_zero
  rw [frameOf, hor, BitVec.toNat_and, BitVec.toNat_ofNat, hmod, hmask, and_mask hlt (by decide), hdvd]

theorem flags_and_addrMask (flags : PageFlags) : flags.bits &&& addrMask = 0 := by
  have hmask : addrMask = ~~~knownFlags &&& addrMask := by decide
  rw [hmask, ← BitVec.and_assoc, flags.known]
  exact BitVec.zero_and

variable {m : Memory} {t t' : Nat} {i j : Index} {v : Word}

theorem entries_apart (ht : t % pageSize = 0) (ht' : t' % pageSize = 0) (h : ¬(t' = t ∧ j = i)) :
    t' + 8 * j.val + 8 ≤ t + 8 * i.val ∨ t + 8 * i.val + 8 ≤ t' + 8 * j.val := by
  rw [pageSize] at ht ht'
  have hi : i.val < 512 := i.isLt
  have hj : j.val < 512 := j.isLt
  have hne : t' = t → j.val ≠ i.val := fun heq hval => h ⟨heq, Fin.ext hval⟩
  omega

theorem getEntry_setEntry (ht : t % pageSize = 0) (ht' : t' % pageSize = 0) :
    getEntry (setEntry m t i v) t' j = if t' = t ∧ j = i then v else getEntry m t' j := by
  split_ifs with h
  · obtain ⟨rfl, rfl⟩ := h
    exact read64_write64_same _ _ _
  · exact read64_write64_of_disjoint (entries_apart ht ht' h)

theorem getEntry_fill {f : Nat} (hf : f % pageSize = 0) (ht : t % pageSize = 0) :
    getEntry (fill m f 0 pageSize) t j = if t = f then 0 else getEntry m t j := by
  rw [pageSize] at *
  have hj : j.val < 512 := j.isLt
  split_ifs with h
  · exact read64_fill_zero (by omega) (by omega)
  · exact read64_fill_of_disjoint (by omega)

theorem isPresent_iff : isPresent m t i = true ↔ getEntry m t i &&& presentBit ≠ 0 := by
  simp [isPresent]

theorem getNextTableAddr_eq_none : getNextTableAddr m t i = none ↔ isPresent m t i = false := by
  simp [getNextTableAddr, isPresent]

theorem getNextTableAddr_eq_some :
    getNextTableAddr m t i = some t' ↔ isPresent m t i = true ∧ frameOf (getEntry m t i) = t' := by
  simp [getNextTableAddr, isPresent]

theorem isPresent_congr {m' : Memory} (h : getEntry m' t i = getEntry m t' j) :
    isPresent m' t i = isPresent m t' j := by
  simp only [isPresent, h]

theorem getNextTableAddr_congr {m' : Memory} (h : getEntry m' t i = getEntry m t i) :
    getNextTableAddr m' t i = getNextTableAddr m t i := by
  simp only [getNextTableAddr, h]

def tableEntry (f : Nat) : Word := BitVec.ofNat 64 f ||| presentBit ||| writableBit

theorem tableEntry_present (f : Nat) : tableEntry f &&& presentBit ≠ 0 := by
  rw [tableEntry, BitVec.and_comm, BitVec.and_or_distrib_left, BitVec.and_or_distrib_left]
  simp [BitVec.or_eq_zero_iff, presentBit]

theorem tableEntry_not_huge {f : Nat} (hf : f % pageSize = 0) : tableEntry f &&& hugePageBit = 0 := by
  have hlow : BitVec.ofNat 64 f &&& hugePageBit = 0 := and_low_eq_zero hf (by decide : 0x80 < 2 ^ 12)
  rw [tableEntry, BitVec.and_comm, BitVec.and_or_distrib_left, BitVec.and_or_distrib_left,
    BitVec.and_comm hugePageBit, hlow]
  rfl

theorem frameOf_tableEntry {f : Nat} (hf : f % pageSize = 0) (hlt : f < 2 ^ 52) :
    frameOf (tableEntry f) = f := by
  rw [tableEntry, BitVec.or_assoc]
  exact frameOf_or hf hlt (by decide)

def tableAt (s : Vmm) (p : List Index) : Option Nat :=
  walk (getNextTableAddr s.mem) s.pml4Addr p

/-- The tables that `map_page` builds: a tree of distinct frames of the pool below the PML4,
without huge pages. -/
structure WellFormed (s : Vmm) : Prop where
  tree : Tree (getNextTableAddr s.mem) s.pml4Addr 3
  root_aligned : s.pml4Addr % pageSize = 0
  root_outside : s.pml4Addr + pageSize ≤ vmmPagesBase ∨ vmmPagesEnd ≤ s.pml4Addr
  next_aligned : s.nextPageAddr % pageSize = 0
  next_le : s.nextPageAddr ≤ vmmPagesEnd
  next_ge : vmmPagesBase ≤ s.nextPageAddr
  pool : ∀ p t, p ≠ [] → p.length ≤ 3 → tableAt s p = some t → vmmPagesBase ≤ t ∧ t < s.nextPageAddr
  flat : ∀ p t i, p.length < 3 → tableAt s p = some t → isPresent s.mem t i = true →
    getEntry s.mem t i &&& hugePageBit = 0

variable {s : Vmm} {p : List Index}

theorem tableAt_concat_eq_some :
    tableAt s (p ++ [i]) = some t' ↔ ∃ t, tableAt s p = some t ∧ getNextTableAddr s.mem t i = some t' :=
  walk_concat_eq_some

theorem WellFormed.aligned (hs : WellFormed s) (hp : tableAt s p = some t) : t % pageSize = 0 := by
  obtain rfl | ⟨q, i, rfl⟩ := p.eq_nil_or_concat
  · cases hp
    exact hs.root_aligned
  · rw [List.concat_eq_append] at hp
    obtain ⟨t', -, hnext⟩ := tableAt_concat_eq_some.mp hp
    rw [← (getNextTableAddr_eq_some.mp hnext).2]
    exact frameOf_mod _

theorem WellFormed.ne_next (hs : WellFormed s) (hp : tableAt s p = some t) (hlen : p.length ≤ 3)
    (hroom : s.nextPageAddr + pageSize ≤ vmmPagesEnd) : t ≠ s.nextPageAddr := by
  obtain rfl | hne := eq_or_ne p []
  · cases hp
    have hout := hs.root_outside
    have hge := hs.next_ge
    rw [pageSize] at *
    omega
  · exact (hs.pool p t hne hlen hp).2.ne

/-- The state after `map_page` has put a fresh table behind an absent entry. -/
def withTable (s : Vmm) (t : Nat) (i : Index) : Vmm :=
  { s with
    nextPageAddr := s.nextPageAddr + pageSize
    mem := setEntry (fill s.mem s.nextPageAddr 0 pageSize) t i (tableEntry s.nextPageAddr) }

theorem getEntry_withTable (hs : WellFormed s) (ht : t % pageSize = 0) (ht' : t' % pageSize = 0) :
    getEntry (withTable s t i).mem t' j =
      if t' = t ∧ j = i then tableEntry s.nextPageAddr
      else if t' = s.nextPageAddr then 0 else getEntry s.mem t' j := by
  rw [withTable, getEntry_setEntry ht ht', getEntry_fill hs.next_aligned ht']

theorem isPresent_of_zero (h : getEntry m t i = 0) : isPresent m t i = false := by
  simp [isPresent, h]

/-- An absent entry of a table above the last level, with room for one more table. -/
structure Vacant (s : Vmm) (p : List Index) (t : Nat) (i : Index) : Prop where
  wellFormed : WellFormed s
  table : tableAt s p = some t
  above : p.length < 3
  absent : isPresent s.mem t i = false
  room : s.nextPageAddr + pageSize ≤ vmmPagesEnd

namespace Vacant

variable (h : Vacant s p t i)

include h

theorem entry_here : getEntry (withTable s t i).mem t i = tableEntry s.nextPageAddr := by
  have ht := h.wellFormed.aligned h.table
  rw [getEntry_withTable h.wellFormed ht ht, if_pos ⟨rfl, rfl⟩]

theorem entry_new (j : Index) : getEntry (withTable s t i).mem s.nextPageAddr j = 0 := by
  have hne := h.wellFormed.ne_next h.table h.above.le h.room
  rw [getEntry_withTable h.wellFormed (h.wellFormed.aligned h.table) h.wellFormed.next_aligned]
  simp [hne.symm]

theorem entry_old {q : List Index} (hq : tableAt s q = some t') (hlen : q.length ≤ 3)
    (hne : (t', j) ≠ (t, i)) : getEntry (withTable s t i).mem t' j = getEntry s.mem t' j := by
  have hs := h.wellFormed
  have hnext := hs.ne_next hq hlen h.room
  have hne' : ¬(t' = t ∧ j = i) := fun heq => hne (by rw [heq.1, heq.2])
  rw [getEntry_withTable hs (hs.aligned h.table) (hs.aligned hq), if_neg hne', if_neg hnext]

theorem attach :
    Attach (getNextTableAddr s.mem) (getNextTableAddr (withTable s t i).mem) s.pml4Addr 3 p t i
      s.nextPageAddr where
  parent := h.table
  above := h.above
  free := getNextTableAddr_eq_none.mpr h.absent
  fresh q hq hw := h.wellFormed.ne_next hw hq h.room rfl
  child_new := by
    have hlt : s.nextPageAddr < 2 ^ 52 := h.wellFormed.next_le.trans_lt (by decide)
    rw [getNextTableAddr_eq_some, isPresent_iff, h.entry_here]
    exact ⟨tableEntry_present _, frameOf_tableEntry h.wellFormed.next_aligned hlt⟩
  childless j := getNextTableAddr_eq_none.mpr (isPresent_of_zero (h.entry_new j))
  child_old q n j hq hw hne := getNextTableAddr_congr (h.entry_old hw hq.le hne)

theorem tableAt_iff {q : List Index} (hq : q.length ≤ 3) :
    tableAt (withTable s t i) q = some t' ↔
      (q = p ++ [i] ∧ t' = s.nextPageAddr) ∨ tableAt s q = some t' :=
  h.attach.walk_iff h.wellFormed.tree hq

theorem wellFormed_withTable : WellFormed (withTable s t i) := by
  have hs := h.wellFormed
  have hpos : 0 < pageSize := by decide
  refine ⟨h.attach.tree hs.tree, hs.root_aligned, hs.root_outside, ?_, h.room,
    hs.next_ge.trans (Nat.le_add_right _ _), ?_, ?_⟩
  · change (s.nextPageAddr + pageSize) % pageSize = 0
    rw [Nat.add_mod_right, hs.next_aligned]
  · intro q t' hne hq hw
    change _ ∧ t' < s.nextPageAddr + pageSize
    obtain ⟨-, rfl⟩ | hw := (h.tableAt_iff hq).mp hw
    · exact ⟨hs.next_ge, by omega⟩
    · obtain ⟨hlo, hhi⟩ := hs.pool q t' hne hq hw
      exact ⟨hlo, by omega⟩
  · intro q t' j hq hw hpresent
    obtain ⟨-, rfl⟩ | hw := (h.tableAt_iff hq.le).mp hw
    · rw [isPresent_of_zero (h.entry_new j)] at hpresent
      cases hpresent
    by_cases hne : (t', j) = (t, i)
    · cases hne
      rw [h.entry_here]
      exact tableEntry_not_huge hs.next_aligned
    · have hold := h.entry_old hw hq.le hne
      rw [isPresent_congr hold] at hpresent
      rw [hold]
      exact hs.flat q t' j hq hw hpresent

end Vacant

def lookup (s : Vmm) (p : List Index) (j : Index) : Option Word :=
  (tableAt s p).bind fun t => if isPresent s.mem t j then some (getEntry s.mem t j) else none

theorem lookup_eq_some {e : Word} : lookup s p j = some e ↔
    ∃ t, tableAt s p = some t ∧ isPresent s.mem t j = true ∧ getEntry s.mem t j = e := by
  simp only [lookup, Option.bind_eq_some_iff, Option.ite_none_right_eq_some, Option.some.injEq]

theorem lookup_of_tableAt (hp : tableAt s p = some t) :
    lookup s p j = if isPresent s.mem t j then some (getEntry s.mem t j) else none := by
  rw [lookup, hp, Option.bind_some]

theorem Vacant.ne_of_leaf (h : Vacant s p t i) {q : List Index} (hw : tableAt s q = some t')
    (hq : q.length = 3) : (t', j) ≠ (t, i) := by
  rintro ⟨⟩
  have hpq := h.wellFormed.tree q p t hq.le h.above.le hw h.table
  have hlen := h.above
  rw [← hpq, hq] at hlen
  omega

theorem Vacant.lookup_eq (h : Vacant s p t i) {q : List Index} (hq : q.length = 3) :
    lookup (withTable s t i) q j = lookup s q j := by
  apply Option.ext
  intro e
  rw [lookup_eq_some, lookup_eq_some]
  constructor
  · rintro ⟨t', hw, hpresent, he⟩
    obtain ⟨-, rfl⟩ | hw := (h.tableAt_iff hq.le).mp hw
    · rw [isPresent_of_zero (h.entry_new j)] at hpresent
      cases hpresent
    · have hold := h.entry_old (j := j) hw hq.le (h.ne_of_leaf hw hq)
      exact ⟨t', hw, isPresent_congr hold ▸ hpresent, hold ▸ he⟩
  · rintro ⟨t', hw, hpresent, he⟩
    have hold := h.entry_old (j := j) hw hq.le (h.ne_of_leaf hw hq)
    exact ⟨t', (h.tableAt_iff hq.le).mpr (.inr hw), (isPresent_congr hold).trans hpresent, hold.trans he⟩

/-- Tables may have been added, but the last level holds what it held. -/
structure Grown (s s' : Vmm) : Prop where
  wellFormed : WellFormed s'
  root : s'.pml4Addr = s.pml4Addr
  leaves : ∀ q j, q.length = 3 → lookup s' q j = lookup s q j

theorem Grown.refl (hs : WellFormed s) : Grown s s := ⟨hs, rfl, fun _ _ _ => rfl⟩

theorem Grown.trans {s₁ s₂ s₃ : Vmm} (h : Grown s₁ s₂) (h' : Grown s₂ s₃) : Grown s₁ s₃ :=
  ⟨h'.wellFormed, h'.root.trans h.root,
    fun q j hq => (h'.leaves q j hq).trans (h.leaves q j hq)⟩

/-- The outcomes of one level of `map_page`. -/
inductive Ensured (s : Vmm) (p : List Index) : KernelResult Nat × Vmm → Prop
  | table {c : Nat} {s' : Vmm} (grown : Grown s s') (hc : tableAt s' p = some c) :
    Ensured s p (.ok c, s')
  | full (absent : tableAt s p = none) : Ensured s p (.error .outOfMemory, s)

theorem ensureTable_spec (hs : WellFormed s) (hp : tableAt s p = some t) (hlen : p.length < 3)
    (i : Index) : Ensured s (p ++ [i]) (s.ensureTable t i) := by
  cases hpresent : isPresent s.mem t i with
  | true =>
    have hnext : getNextTableAddr s.mem t i = some (frameOf (getEntry s.mem t i)) :=
      getNextTableAddr_eq_some.mpr ⟨hpresent, rfl⟩
    simp only [ensureTable, hpresent, if_true, hnext, Option.getD_some]
    exact .table (.refl hs) (tableAt_concat_eq_some.mpr ⟨t, hp, hnext⟩)
  | false =>
    by_cases hroom : s.nextPageAddr + pageSize > vmmPagesEnd
    · simp only [ensureTable, hpresent, Bool.false_eq_true, if_false, allocPageTable, hroom, if_true,
        andThen]
      apply Ensured.full
      rw [tableAt, walk_concat, ← tableAt, hp]
      exact getNextTableAddr_eq_none.mpr hpresent
    · have hv : Vacant s p t i := ⟨hs, hp, hlen, hpresent, not_lt.mp hroom⟩
      have hnew : tableAt (withTable s t i) (p ++ [i]) = some s.nextPageAddr :=
        (hv.tableAt_iff (by rw [List.length_append, List.length_singleton]; omega)).mpr (.inl ⟨rfl, rfl⟩)
      have hnext := hv.attach.child_new
      simp only [withTable, tableEntry] at hnext
      simp only [ensureTable, hpresent, Bool.false_eq_true, if_false, allocPageTable, hroom, andThen,
        writeEntry, hnext, Option.getD_some]
      exact .table ⟨hv.wellFormed_withTable, rfl, fun q j hq => hv.lookup_eq hq⟩ hnew

theorem tableAt_append_none {q : List Index} (hp : tableAt s p = none) : tableAt s (p ++ q) = none := by
  induction q using List.reverseRecOn with
  | nil => rwa [List.append_nil]
  | append_singleton q j ih => rw [← List.append_assoc, tableAt, walk_concat, ← tableAt, ih]; rfl

section Leaf

variable (hs : WellFormed s) (hp : tableAt s p = some t) (hlen : p.length = 3)

include hs hp hlen

theorem getEntry_writeEntry {q : List Index} (hq : tableAt s q = some t') (hqlen : q.length ≤ 3) :
    getEntry (s.writeEntry t i v).mem t' j =
      if q = p ∧ j = i then v else getEntry s.mem t' j := by
  have hiff : t' = t ↔ q = p := by
    constructor
    · rintro rfl
      exact hs.tree q p t' hqlen hlen.le hq hp
    · rintro rfl
      exact Option.some.inj (hq.symm.trans hp)
  rw [writeEntry, getEntry_setEntry (hs.aligned hp) (hs.aligned hq)]
  simp only [hiff]

theorem tableAt_writeEntry {q : List Index} (hq : q.length ≤ 3) :
    tableAt (s.writeEntry t i v) q = tableAt s q := by
  refine walk_congr (fun r n j hr hw => ?_) hq
  apply getNextTableAddr_congr
  rw [getEntry_writeEntry hs hp hlen hw hr.le, if_neg]
  rintro ⟨rfl, -⟩
  omega

theorem wellFormed_writeEntry : WellFormed (s.writeEntry t i v) := by
  have htable {q : List Index} (hq : q.length ≤ 3) := tableAt_writeEntry hs hp hlen (i := i) (v := v) hq
  refine ⟨?_, hs.root_aligned, hs.root_outside, hs.next_aligned, hs.next_le, hs.next_ge, ?_, ?_⟩
  · intro q r n hq hr hwq hwr
    exact hs.tree q r n hq hr ((htable hq).symm.trans hwq) ((htable hr).symm.trans hwr)
  · intro q t' hne hq hw
    exact hs.pool q t' hne hq ((htable hq).symm.trans hw)
  · intro q t' j hq hw hpresent
    rw [htable hq.le] at hw
    have hold : getEntry (s.writeEntry t i v).mem t' j = getEntry s.mem t' j := by
      rw [getEntry_writeEntry hs hp hlen hw hq.le, if_neg]
      rintro ⟨rfl, -⟩
      omega
    rw [isPresent_congr hold] at hpresent
    rw [hold]
    exact hs.flat q t' j hq hw hpresent

theorem lookup_writeEntry {q : List Index} (hq : q.length = 3) :
    lookup (s.writeEntry t i v) q j =
      if q = p ∧ j = i then (if v &&& presentBit ≠ 0 then some v else none) else lookup s q j := by
  rw [lookup, tableAt_writeEntry hs hp hlen hq.le]
  cases hw : tableAt s q with
  | none =>
    have hne : q ≠ p := by
      rintro rfl
      rw [hp] at hw
      cases hw
    simp [hne, lookup, hw]
  | some t' =>
    have hentry := getEntry_writeEntry hs hp hlen (i := i) (v := v) (j := j) hw hq.le
    simp only [Option.bind_some, isPresent, hentry, lookup, hw]
    split_ifs <;> simp_all

end Leaf

end DeltaOS.PageTables
