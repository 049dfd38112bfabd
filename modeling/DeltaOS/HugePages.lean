import DeltaOS.AddressSpace

namespace DeltaOS.HugePages

open ByteMemory Kernel Overflow Paging Vmm PageTables AddressSpace

def entryAddr (table : Nat) (i : Index) : Nat := table + 8 * i.val

def isHuge (m : Memory) (table : Nat) (i : Index) : Bool := getEntry m table i &&& hugePageBit != 0

/-- One of the two levels of `translate` that know huge pages. -/
def descend (m : Memory) (virt shift : Nat) (t : Nat) (i : Index)
    (rest : Nat → Option Nat) : Option Nat :=
  match checkHugePage m t i virt shift with
  | some phys => some phys
  | none => (getNextTableAddr m t i).bind rest

def descendSlots (m : Memory) (t : Nat) (i : Index) (rest : Nat → List Nat) : List Nat :=
  entryAddr t i :: if isHuge m t i then [] else (getNextTableAddr m t i).elim [] rest

/-- The addresses of the entries that `translate` reads. -/
def walkSlots (s : Vmm) (virt : Nat) : List Nat :=
  entryAddr s.pml4Addr (pml4Index virt) ::
    (getNextTableAddr s.mem s.pml4Addr (pml4Index virt)).elim [] fun pdpt =>
      descendSlots s.mem pdpt (pdptIndex virt) fun pd =>
        descendSlots s.mem pd (pdIndex virt) fun pt => [entryAddr pt (ptIndex virt)]

/-- The entry that `map_page`, `unmap_page` and `update_flags` take for the one of the page:
they follow huge entries as if those pointed to tables. -/
def leafSlot (s : Vmm) (virt : Nat) : Option Nat :=
  (s.findTable virt).map fun pt => entryAddr pt (ptIndex virt)

/-- The entry the mutators change is one that `translate` reads, and holds the frame. -/
def LeafOnWalk (s : Vmm) (virt p : Nat) : Prop :=
  ∃ a, leafSlot s virt = some a ∧ a ∈ walkSlots s virt ∧ frameOf (read64 s.mem a) = p

inductive TableFrame (s : Vmm) : Nat → Nat → Prop
  | pml4 : TableFrame s 0 s.pml4Addr
  | child {level t t' : Nat} {i : Index} (above : TableFrame s level t) (hlevel : level < 3)
      (hnext : getNextTableAddr s.mem t i = some t') (hflat : 0 < level → isHuge s.mem t i = false) :
      TableFrame s (level + 1) t'

def InTables (s : Vmm) (addr : Nat) : Prop :=
  (∃ level t, TableFrame s level t ∧ t ≤ addr ∧ addr < t + pageSize) ∨
    (vmmPagesBase ≤ addr ∧ addr < vmmPagesEnd)

/-- The mutators respect a page that `translate` finds. -/
structure RespectsPage (s : Vmm) (virt p : Nat) : Prop where
  map : ∀ phys flags, phys % pageSize = 0 →
    (s.mapPage virt phys flags).1 = .error .pageAlreadyMapped ∧
      (s.mapPage virt phys flags).2.mem = s.mem
  unmap : (∃ e, (s.unmapPage virt).1 = .error e) ∨
    ((s.unmapPage virt).1 = .ok p ∧ (s.unmapPage virt).2.translate virt = none)
  frame : ∀ addr, ¬InTables s addr → ∀ phys flags,
    (s.mapPage virt phys flags).2.mem addr = s.mem addr ∧
      (s.unmapPage virt).2.mem addr = s.mem addr ∧
      (s.updateFlags virt flags).2.mem addr = s.mem addr

variable {s : Vmm} {m : Memory} {virt shift p t a b : Nat} {i : Index} {v : Word}

def readLeaf (m : Memory) (virt pt : Nat) : Option Nat :=
  if isPresent m pt (ptIndex virt) then some (frameOf (getEntry m pt (ptIndex virt)) + (virt &&& 0xFFF))
  else none

theorem translate_eq_descend (s : Vmm) (virt : Nat) :
    s.translate virt = (getNextTableAddr s.mem s.pml4Addr (pml4Index virt)).bind fun pdpt =>
      descend s.mem virt 30 pdpt (pdptIndex virt) fun pd =>
        descend s.mem virt 21 pd (pdIndex virt) (readLeaf s.mem virt) := rfl

theorem entryAddr_mod (ht : t % pageSize = 0) (i : Index) : entryAddr t i % 8 = 0 := by
  rw [pageSize] at ht
  rw [entryAddr]
  omega

theorem getEntry_write64 (ha : a % 8 = 0) (ht : t % pageSize = 0) :
    getEntry (write64 m a v) t i = if entryAddr t i = a then v else getEntry m t i := by
  split_ifs with h
  · subst a
    exact read64_write64_same _ _ _
  · exact read64_write64_of_aligned ha (entryAddr_mod ht i) h

theorem checkHugePage_eq (m : Memory) (t : Nat) (i : Index) (virt shift : Nat) :
    checkHugePage m t i virt shift =
      if isHuge m t i ∧ isPresent m t i then
        some (frameOf (getEntry m t i) + (virt &&& (2 ^ shift - 1)))
      else none := by
  simp only [checkHugePage, isHuge, isPresent, bne_iff_ne]

theorem getNextTableAddr_eq (m : Memory) (t : Nat) (i : Index) :
    getNextTableAddr m t i = if isPresent m t i then some (frameOf (getEntry m t i)) else none := by
  simp only [getNextTableAddr, isPresent, bne_iff_ne, ite_not]

theorem descend_eq (m : Memory) (virt shift t : Nat) (i : Index) (rest : Nat → Option Nat) :
    descend m virt shift t i rest =
      if isPresent m t i then
        if isHuge m t i then some (frameOf (getEntry m t i) + (virt &&& (2 ^ shift - 1)))
        else rest (frameOf (getEntry m t i))
      else none := by
  rw [descend, checkHugePage_eq, getNextTableAddr_eq]
  cases isPresent m t i <;> cases isHuge m t i <;> rfl

theorem descendSlots_eq (m : Memory) (t : Nat) (i : Index) (rest : Nat → List Nat) :
    descendSlots m t i rest = entryAddr t i ::
      if isPresent m t i then if isHuge m t i then [] else rest (frameOf (getEntry m t i)) else [] := by
  rw [descendSlots, getNextTableAddr_eq]
  cases isPresent m t i <;> cases isHuge m t i <;> rfl

section Cleared

variable (ha : a % 8 = 0) (ht : t % pageSize = 0)

include ha ht

theorem isPresent_cleared (h : entryAddr t i = a) : isPresent (write64 m a 0) t i = false := by
  apply isPresent_of_zero
  rw [getEntry_write64 ha ht, if_pos h]

theorem getEntry_cleared (h : entryAddr t i ≠ a) : getEntry (write64 m a 0) t i = getEntry m t i := by
  rw [getEntry_write64 ha ht, if_neg h]

theorem descend_cleared {rest rest' : Nat → Option Nat} {slots : Nat → List Nat}
    (hrest : ∀ t, t % pageSize = 0 → rest' t = if a ∈ slots t then none else rest t) :
    descend (write64 m a 0) virt shift t i rest' =
      if a ∈ descendSlots m t i slots then none else descend m virt shift t i rest := by
  rw [descend_eq, descend_eq, descendSlots_eq]
  by_cases h : entryAddr t i = a
  · rw [isPresent_cleared ha ht h, if_neg Bool.false_ne_true, h, if_pos List.mem_cons_self]
  · have hentry := getEntry_cleared (m := m) ha ht h
    have hne : ¬a = entryAddr t i := fun heq => h heq.symm
    simp only [isPresent, isHuge, hentry, hrest _ (frameOf_mod _), List.mem_cons, hne, false_or]
    split_ifs <;> simp_all

theorem readLeaf_cleared : readLeaf (write64 m a 0) virt t =
    if a ∈ [entryAddr t (ptIndex virt)] then none else readLeaf m virt t := by
  by_cases h : entryAddr t (ptIndex virt) = a
  · rw [readLeaf, isPresent_cleared ha ht h, if_neg Bool.false_ne_true, h, if_pos List.mem_cons_self]
  · have hentry := getEntry_cleared (m := m) ha ht h
    have hne : a ∉ [entryAddr t (ptIndex virt)] := fun hmem => h (List.mem_singleton.mp hmem).symm
    rw [if_neg hne, readLeaf, readLeaf, isPresent_congr hentry, hentry]

end Cleared

theorem translate_cleared (hroot : s.pml4Addr % pageSize = 0) (ha : a % 8 = 0) :
    Vmm.translate { s with mem := write64 s.mem a 0 } virt =
      if a ∈ walkSlots s virt then none else s.translate virt := by
  rw [translate_eq_descend, translate_eq_descend, walkSlots]
  by_cases h : entryAddr s.pml4Addr (pml4Index virt) = a
  · rw [getNextTableAddr_eq, isPresent_cleared ha hroot h, if_neg Bool.false_ne_true, h,
      if_pos List.mem_cons_self, Option.bind_none]
  · have hentry := getEntry_cleared (m := s.mem) ha hroot h
    have hne : ¬a = entryAddr s.pml4Addr (pml4Index virt) := fun heq => h heq.symm
    simp only [getNextTableAddr_congr hentry, List.mem_cons, hne, false_or]
    cases hnext : getNextTableAddr s.mem s.pml4Addr (pml4Index virt) with
    | none => simp
    | some pdpt =>
      have hpdpt : pdpt % pageSize = 0 := by
        rw [← (getNextTableAddr_eq_some.mp hnext).2]
        exact frameOf_mod _
      exact descend_cleared ha hpdpt fun pd hpd => descend_cleared ha hpd fun pt hpt =>
        readLeaf_cleared ha hpt

theorem forall_descendSlots {Q : Nat → Prop} {slots : Nat → List Nat} (hhere : Q (entryAddr t i))
    (hrest : isPresent m t i = true → isHuge m t i = false →
      ∀ b ∈ slots (frameOf (getEntry m t i)), Q b) :
    ∀ b ∈ descendSlots m t i slots, Q b := by
  intro b hb
  rw [descendSlots_eq] at hb
  obtain rfl | hb := List.mem_cons.mp hb
  · exact hhere
  · split_ifs at hb with hpresent hhuge
    · cases hb
    · exact hrest hpresent (by simpa using hhuge) b hb
    · cases hb

theorem present_of_mem_descendSlots {rest : Nat → Option Nat} {slots : Nat → List Nat}
    (h : descend m virt shift t i rest = some p)
    (hrest : ∀ t', rest t' = some p → ∀ b ∈ slots t', read64 m b &&& presentBit ≠ 0) :
    ∀ b ∈ descendSlots m t i slots, read64 m b &&& presentBit ≠ 0 := by
  rw [descend_eq] at h
  cases hpresent : isPresent m t i with
  | false =>
    rw [hpresent, if_neg Bool.false_ne_true] at h
    cases h
  | true =>
    refine forall_descendSlots (isPresent_iff.mp hpresent) fun _ hflat => hrest _ ?_
    rwa [hpresent, hflat, if_pos rfl, if_neg Bool.false_ne_true] at h

theorem present_of_mem_walkSlots (htr : s.translate virt = some p) :
    ∀ b ∈ walkSlots s virt, read64 s.mem b &&& presentBit ≠ 0 := by
  rw [translate_eq_descend, Option.bind_eq_some_iff] at htr
  obtain ⟨pdpt, hpdpt, htr⟩ := htr
  rw [walkSlots, hpdpt]
  refine List.forall_mem_cons.mpr ⟨isPresent_iff.mp (getNextTableAddr_eq_some.mp hpdpt).1, ?_⟩
  refine present_of_mem_descendSlots htr fun pd hpd => ?_
  refine present_of_mem_descendSlots hpd fun pt hpt => ?_
  rw [readLeaf, Option.ite_none_right_eq_some] at hpt
  exact List.forall_mem_singleton.mpr (isPresent_iff.mp hpt.1)

theorem tableFrame_of_mem_walkSlots :
    ∀ b ∈ walkSlots s virt, ∃ level t i, TableFrame s level t ∧ b = entryAddr t i := by
  refine List.forall_mem_cons.mpr ⟨⟨0, _, _, .pml4, rfl⟩, ?_⟩
  cases hpdpt : getNextTableAddr s.mem s.pml4Addr (pml4Index virt) with
  | none => exact List.forall_mem_nil _
  | some pdpt =>
    have h₁ : TableFrame s 1 pdpt := .child .pml4 (by decide) hpdpt fun h => absurd h (by decide)
    refine forall_descendSlots ⟨1, _, _, h₁, rfl⟩ fun hp₁ hh₁ => ?_
    have h₂ : TableFrame s 2 _ :=
      .child h₁ (by decide) (getNextTableAddr_eq_some.mpr ⟨hp₁, rfl⟩) fun _ => hh₁
    refine forall_descendSlots ⟨2, _, _, h₂, rfl⟩ fun hp₂ hh₂ => ?_
    have h₃ : TableFrame s 3 _ :=
      .child h₂ (by decide) (getNextTableAddr_eq_some.mpr ⟨hp₂, rfl⟩) fun _ => hh₂
    exact List.forall_mem_singleton.mpr ⟨3, _, _, h₃, rfl⟩

theorem ensureTable_present (hpresent : isPresent s.mem t i = true) :
    s.ensureTable t i = (.ok (frameOf (getEntry s.mem t i)), s) := by
  rw [ensureTable, if_pos hpresent, getNextTableAddr_eq_some.mpr ⟨hpresent, rfl⟩, Option.getD_some]

theorem upper_present (htr : s.translate virt = some p) :
    ∃ pdpt pd, getNextTableAddr s.mem s.pml4Addr (pml4Index virt) = some pdpt ∧
      getNextTableAddr s.mem pdpt (pdptIndex virt) = some pd := by
  rw [translate_eq_descend, Option.bind_eq_some_iff] at htr
  obtain ⟨pdpt, hpdpt, htr⟩ := htr
  rw [descend_eq] at htr
  cases hpresent : isPresent s.mem pdpt (pdptIndex virt) with
  | true => exact ⟨pdpt, _, hpdpt, getNextTableAddr_eq_some.mpr ⟨hpresent, rfl⟩⟩
  | false =>
    rw [hpresent, if_neg Bool.false_ne_true] at htr
    cases htr

theorem mapPage_eq {pdpt pd : Nat}
    (hpdpt : getNextTableAddr s.mem s.pml4Addr (pml4Index virt) = some pdpt)
    (hpd : getNextTableAddr s.mem pdpt (pdptIndex virt) = some pd) (hvirt : virt % pageSize = 0)
    {phys : Nat} (hphys : phys % pageSize = 0) (flags : PageFlags) :
    s.mapPage virt phys flags =
      andThen (s.ensureTable pd (pdIndex virt)) fun pt s => s.mapEntry pt virt phys flags := by
  obtain ⟨hp₀, rfl⟩ := getNextTableAddr_eq_some.mp hpdpt
  obtain ⟨hp₁, rfl⟩ := getNextTableAddr_eq_some.mp hpd
  have hgood : ¬(virt % pageSize ≠ 0 ∨ phys % pageSize ≠ 0) := by simp [hvirt, hphys]
  rw [mapPage, if_neg hgood, ensureTable_present hp₀]
  simp only [andThen, ensureTable_present hp₁]

theorem findTable_of_upper {pdpt pd : Nat}
    (hpdpt : getNextTableAddr s.mem s.pml4Addr (pml4Index virt) = some pdpt)
    (hpd : getNextTableAddr s.mem pdpt (pdptIndex virt) = some pd) :
    s.findTable virt = getNextTableAddr s.mem pd (pdIndex virt) := by
  simp [findTable, hpdpt, hpd]

theorem mem_ne_of_absent {phys : Nat} {flags : PageFlags} (habsent : isPresent s.mem t i = false)
    {r : KernelResult Unit × Vmm}
    (hr : r = andThen (s.ensureTable t i) fun pt s => s.mapEntry pt virt phys flags)
    (hres : r.1 = .error .pageAlreadyMapped) : r.2.mem ≠ s.mem := by
  subst r
  rw [ensureTable, habsent, if_neg Bool.false_ne_true] at hres ⊢
  rw [allocPageTable] at hres ⊢
  split_ifs at hres ⊢ with hroom
  · cases hres
  · simp only [andThen, mapEntry] at hres ⊢
    split_ifs at hres ⊢ with hpresent
    intro hmem
    have hentry : getEntry s.mem t i = tableEntry s.nextPageAddr := by
      rw [← hmem]
      exact read64_write64_same _ _ _
    have hbit := tableEntry_present s.nextPageAddr
    rw [← hentry, ← isPresent_iff, habsent] at hbit
    cases hbit

theorem map_respects_iff (hvirt : virt % pageSize = 0) (htr : s.translate virt = some p) :
    (∀ phys flags, phys % pageSize = 0 →
      (s.mapPage virt phys flags).1 = .error .pageAlreadyMapped ∧
        (s.mapPage virt phys flags).2.mem = s.mem) ↔
      ∃ pt, s.findTable virt = some pt ∧ isPresent s.mem pt (ptIndex virt) = true := by
  obtain ⟨pdpt, pd, hpdpt, hpd⟩ := upper_present htr
  rw [findTable_of_upper hpdpt hpd]
  constructor
  · intro h
    obtain ⟨hres, hmem⟩ := h 0 ⟨0, by decide⟩ rfl
    have hrun := mapPage_eq hpdpt hpd hvirt (show 0 % pageSize = 0 from rfl) ⟨0, by decide⟩
    cases hnext : getNextTableAddr s.mem pd (pdIndex virt) with
    | none => exact absurd hmem (mem_ne_of_absent (getNextTableAddr_eq_none.mp hnext) hrun hres)
    | some pt =>
      obtain ⟨hp₂, rfl⟩ := getNextTableAddr_eq_some.mp hnext
      refine ⟨_, rfl, ?_⟩
      rw [hrun, ensureTable_present hp₂] at hres
      simp only [andThen, mapEntry] at hres
      split_ifs at hres with hpresent
      exact hpresent
  · rintro ⟨pt, hnext, hpresent⟩ phys flags hphys
    obtain ⟨hp₂, rfl⟩ := getNextTableAddr_eq_some.mp hnext
    rw [mapPage_eq hpdpt hpd hvirt hphys, ensureTable_present hp₂]
    simp only [andThen, mapEntry, if_pos hpresent]
    exact ⟨trivial, trivial⟩

theorem replaceEntry_of_present {pt : Nat} (hvirt : virt % pageSize = 0)
    (hpt : s.findTable virt = some pt)
    (hpresent : isPresent s.mem pt (ptIndex virt) = true) (f : Word → Word) :
    s.replaceEntry virt f = (.ok (frameOf (getEntry s.mem pt (ptIndex virt))),
      s.writeEntry pt (ptIndex virt) (f (getEntry s.mem pt (ptIndex virt)))) := by
  rw [replaceEntry, if_neg (not_not.mpr hvirt), hpt]
  simp only [if_pos hpresent]

theorem findTable_mod {pt : Nat} (hpt : s.findTable virt = some pt) : pt % pageSize = 0 := by
  simp only [findTable, Option.bind_eq_bind, Option.bind_eq_some_iff] at hpt
  obtain ⟨pdpt, -, pd, -, hnext⟩ := hpt
  rw [← (getNextTableAddr_eq_some.mp hnext).2]
  exact frameOf_mod _

theorem writeEntry_outside {level pt t : Nat} {i j : Index} (ht : TableFrame s level t)
    (hslot : entryAddr pt j = entryAddr t i) {addr : Nat} (haddr : ¬InTables s addr) :
    (s.writeEntry pt j v).mem addr = s.mem addr := by
  have hi : i.val < 512 := i.isLt
  have hout : ¬(t ≤ addr ∧ addr < t + pageSize) := fun h => haddr (.inl ⟨level, t, ht, h⟩)
  rw [entryAddr, entryAddr] at hslot
  rw [pageSize] at hout
  apply writeNat_apply_of_outside
  rw [hslot]
  omega

/-- The mutators respect a page that `translate` finds exactly when the entry they change is
one that `translate` reads for it. Without a huge page on the way it is. -/
theorem respectsPage_iff_leafOnWalk (s : Vmm) (virt p : Nat) (hroot : s.pml4Addr % pageSize = 0)
    (hvirt : virt % pageSize = 0) (htr : s.translate virt = some p) :
    RespectsPage s virt p ↔ LeafOnWalk s virt p := by
  constructor
  · intro h
    obtain ⟨pt, hpt, hpresent⟩ := (map_respects_iff hvirt htr).mp h.map
    have hrun := replaceEntry_of_present hvirt hpt hpresent fun _ => 0
    have hunmap := h.unmap
    rw [unmapPage, hrun] at hunmap
    obtain ⟨e, he⟩ | ⟨hframe, hnone⟩ := hunmap
    · cases he
    have ha := entryAddr_mod (findTable_mod hpt) (ptIndex virt)
    have hclear : (s.writeEntry pt (ptIndex virt) 0).translate virt =
        if entryAddr pt (ptIndex virt) ∈ walkSlots s virt then none else s.translate virt :=
      translate_cleared hroot ha
    refine ⟨entryAddr pt (ptIndex virt),
      by rw [leafSlot, hpt, Option.map_some], ?_, Except.ok.inj hframe⟩
    by_contra hmem
    rw [if_neg hmem, htr] at hclear
    cases hnone.symm.trans hclear
  · rintro ⟨a, hleaf, hmem, hframe⟩
    obtain ⟨pt, hpt, rfl⟩ := Option.map_eq_some_iff.mp hleaf
    have hpresent : isPresent s.mem pt (ptIndex virt) = true :=
      isPresent_iff.mpr (present_of_mem_walkSlots htr _ hmem)
    obtain ⟨level, t, i, ht, hslot⟩ := tableFrame_of_mem_walkSlots _ hmem
    have hmap := (map_respects_iff hvirt htr).mpr ⟨pt, hpt, hpresent⟩
    have ha := entryAddr_mod (findTable_mod hpt) (ptIndex virt)
    refine ⟨hmap, .inr ?_, fun addr haddr phys flags => ⟨?_, ?_, ?_⟩⟩
    · rw [unmapPage, replaceEntry_of_present hvirt hpt hpresent]
      refine ⟨congrArg Except.ok hframe, (translate_cleared hroot ha).trans (if_pos hmem)⟩
    · by_cases hphys : phys % pageSize = 0
      · rw [(hmap phys flags hphys).2]
      · rw [mapPage, if_pos (.inr hphys)]
    · rw [unmapPage, replaceEntry_of_present hvirt hpt hpresent]
      exact writeEntry_outside ht hslot haddr
    · rw [updateFlags, replaceEntry_of_present hvirt hpt hpresent]
      exact writeEntry_outside ht hslot haddr

theorem leafOnWalk_of_flat {pdpt pd : Nat} (hvirt : virt % pageSize = 0)
    (hpdpt : getNextTableAddr s.mem s.pml4Addr (pml4Index virt) = some pdpt)
    (hpd : getNextTableAddr s.mem pdpt (pdptIndex virt) = some pd)
    (hflat : isHuge s.mem pdpt (pdptIndex virt) = false ∧ isHuge s.mem pd (pdIndex virt) = false)
    (htr : s.translate virt = some p) : LeafOnWalk s virt p := by
  obtain ⟨hp₁, rfl⟩ := getNextTableAddr_eq_some.mp hpd
  obtain ⟨hh₁, hh₂⟩ := hflat
  rw [translate_eq_descend, hpdpt, Option.bind_some, descend_eq, hp₁, hh₁, if_pos rfl,
    if_neg Bool.false_ne_true, descend_eq, hh₂, if_neg Bool.false_ne_true, readLeaf,
    Option.ite_none_right_eq_some, Option.ite_none_right_eq_some] at htr
  obtain ⟨hp₂, hp₃, htr⟩ := htr
  have hoff : virt &&& 0xFFF = 0 := (Nat.and_two_pow_sub_one_eq_mod virt 12).trans hvirt
  rw [hoff, Nat.add_zero, Option.some.injEq] at htr
  have hpt := getNextTableAddr_eq_some.mpr ⟨hp₂, rfl⟩
  have hfind := (findTable_of_upper hpdpt hpd).trans hpt
  refine ⟨_, congrArg (Option.map fun pt => entryAddr pt (ptIndex virt)) hfind, ?_, htr⟩
  simp [walkSlots, hpdpt, descendSlots_eq, hp₁, hh₁, hp₂, hh₂]

/-- Page tables with a huge page of two megabytes, as `boot.asm` builds them, and a page of
the ordinary size behind the second entry of the page directory. -/
def mixedTables : Memory :=
  let m := write64 (fun _ => 0) 0x10000 0x11003
  let m := write64 m 0x11000 0x12003
  let m := write64 m 0x12008 0x13003
  let m := write64 m 0x12010 0x400083
  write64 m 0x13000 0x5003

def mixed : Vmm := ⟨0x10000, 0x700000, mixedTables⟩

theorem mixed_respects_small : RespectsPage mixed 0x200000 0x5000 := by
  refine (respectsPage_iff_leafOnWalk mixed 0x200000 0x5000 (by decide) (by decide)
    (by decide +kernel)).mpr
    ⟨0x13000, ?_, ?_, ?_⟩
  all_goals decide +kernel

/-- `map_page` writes its entry into the contents of the huge page. -/
theorem mixed_overwrites_huge :
    mixed.translate 0x400000 = some 0x400000 ∧ ¬RespectsPage mixed 0x400000 0x400000 := by
  refine ⟨by decide +kernel, fun h => ?_⟩
  have hok : (mixed.mapPage 0x400000 0x5000 ⟨3, by decide⟩).1.toOption = some () := by decide +kernel
  rw [(h.map 0x5000 ⟨3, by decide⟩ (by decide)).1] at hok
  cases hok

end DeltaOS.HugePages
