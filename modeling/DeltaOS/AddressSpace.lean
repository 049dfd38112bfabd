import DeltaOS.PageTables
import DeltaOS.Runs

namespace DeltaOS.AddressSpace

open ByteMemory Kernel Overflow Paging Vmm PageTables RadixTree Runs

/-- What an address space is for: a frame and flags for some of the virtual pages. -/
structure Mapping where
  frame : Nat
  flags : PageFlags
deriving DecidableEq

abbrev PageMap := Nat → Option Mapping

def flagsOf (e : Word) : PageFlags := ⟨e &&& knownFlags, by rw [BitVec.and_assoc]; simp⟩

def mappingOf (e : Word) : Mapping := ⟨frameOf e, flagsOf e⟩

def path (virt : Nat) : List Index := [pml4Index virt, pdptIndex virt, pdIndex virt]

def mappings (s : Vmm) : PageMap := fun n =>
  if n < 2 ^ 36 then (lookup s (path (n * pageSize)) (ptIndex (n * pageSize))).map mappingOf else none

theorem index_page (virt : Nat) {shift : Nat} (hshift : 12 ≤ shift) :
    index (virt / pageSize * pageSize) shift = index virt shift := by
  obtain ⟨k, rfl⟩ := Nat.exists_eq_add_of_le hshift
  apply Fin.ext
  rw [index_val, index_val, pow_add, ← Nat.div_div_eq_div_mul, ← Nat.div_div_eq_div_mul]
  exact congrArg (· / 2 ^ k % 512) (Nat.mul_div_cancel _ (by decide))

theorem path_page (virt : Nat) : path (virt / pageSize * pageSize) = path virt := by
  simp only [path, pml4Index, pdptIndex, pdIndex, index_page virt (by decide : 12 ≤ 39),
    index_page virt (by decide : 12 ≤ 30), index_page virt (by decide : 12 ≤ 21)]

theorem ptIndex_page (virt : Nat) : ptIndex (virt / pageSize * pageSize) = ptIndex virt :=
  index_page virt le_rfl

theorem page_eq_iff {n virt : Nat} (hn : n < 2 ^ 36) (hvirt : virt < 2 ^ 48) :
    (path (n * pageSize) = path virt ∧ ptIndex (n * pageSize) = ptIndex virt) ↔ n = virt / pageSize := by
  constructor
  · rintro ⟨hpath, hpt⟩
    simp only [path, List.cons.injEq, pml4Index, pdptIndex, pdIndex, ptIndex, Fin.ext_iff, index_val,
      and_true] at hpath hpt
    rw [pageSize] at *
    omega
  · rintro rfl
    exact ⟨path_page virt, ptIndex_page virt⟩

variable {s : Vmm} {virt phys : Nat} {flags : PageFlags}

theorem mappings_page (s : Vmm) (hvirt : virt < 2 ^ 48) :
    mappings s (virt / pageSize) = (lookup s (path virt) (ptIndex virt)).map mappingOf := by
  have hn : virt / pageSize < 2 ^ 36 := by
    rw [pageSize]
    omega
  rw [mappings, if_pos hn, path_page, ptIndex_page]

theorem checkHugePage_eq_none {p : List Index} {t : Nat} (hs : WellFormed s) (hp : tableAt s p = some t)
    (hlen : p.length < 3) (i : Index) (virt shift : Nat) :
    checkHugePage s.mem t i virt shift = none := by
  rw [checkHugePage, if_neg]
  rintro ⟨hhuge, hpresent⟩
  exact hhuge (hs.flat p t i hlen hp (isPresent_iff.mpr hpresent))

theorem translate_eq (hs : WellFormed s) (virt : Nat) :
    s.translate virt = (lookup s (path virt) (ptIndex virt)).map fun e =>
      frameOf e + (virt &&& 0xFFF) := by
  simp only [Vmm.translate, lookup, path, tableAt, walk_cons, Option.bind_eq_bind]
  cases h₁ : getNextTableAddr s.mem s.pml4Addr (pml4Index virt) with
  | none => rfl
  | some pdpt =>
    have hw₁ : tableAt s [pml4Index virt] = some pdpt := by simp [tableAt, walk_cons, h₁, walk_nil]
    simp only [Option.bind_some, checkHugePage_eq_none hs hw₁ (by decide : 1 < 3)]
    cases h₂ : getNextTableAddr s.mem pdpt (pdptIndex virt) with
    | none => rfl
    | some pd =>
      have hw₂ : tableAt s [pml4Index virt, pdptIndex virt] = some pd := by
        simp [tableAt, walk_cons, h₁, h₂, walk_nil]
      simp only [Option.bind_some, checkHugePage_eq_none hs hw₂ (by decide : 2 < 3)]
      cases h₃ : getNextTableAddr s.mem pd (pdIndex virt) with
      | none => rfl
      | some pt =>
        simp only [Option.bind_some, walk_nil]
        split_ifs <;> rfl

theorem translate_eq_mappings (hs : WellFormed s) (hvirt : virt < 2 ^ 48) :
    s.translate virt = (mappings s (virt / pageSize)).map fun mp => mp.frame + virt % pageSize := by
  have hoff : virt &&& 0xFFF = virt % pageSize := Nat.and_two_pow_sub_one_eq_mod _ 12
  rw [translate_eq hs, mappings_page s hvirt, Option.map_map, hoff]
  rfl

theorem mappingOf_or {a : Word} (ha : a &&& addrMask = a) (flags : PageFlags) :
    mappingOf (a ||| flags.bits) = ⟨a.toNat, flags⟩ := by
  have hframe : (a ||| flags.bits) &&& addrMask = a := by
    rw [BitVec.and_comm, BitVec.and_or_distrib_left, BitVec.and_comm addrMask flags.bits,
      flags_and_addrMask, BitVec.and_comm, ha]
    exact BitVec.or_zero
  have hzero : a &&& knownFlags = 0 := by
    rw [← ha, BitVec.and_assoc, show addrMask &&& knownFlags = 0 from rfl]
    exact BitVec.and_zero
  have hbits : flags.bits &&& knownFlags = flags.bits := by
    have hsplit : flags.bits &&& (knownFlags ||| ~~~knownFlags) = flags.bits := BitVec.and_allOnes
    rw [BitVec.and_or_distrib_left, flags.known] at hsplit
    exact (BitVec.or_zero).symm.trans hsplit
  have hflags : (a ||| flags.bits) &&& knownFlags = flags.bits := by
    rw [BitVec.and_comm, BitVec.and_or_distrib_left, BitVec.and_comm knownFlags a, hzero,
      BitVec.and_comm, hbits]
    exact BitVec.zero_or
  simp only [mappingOf, frameOf, flagsOf, hframe, hflags]

theorem present_or {a : Word} (ha : a &&& addrMask = a) (flags : PageFlags) :
    (a ||| flags.bits) &&& presentBit ≠ 0 ↔ flags.present = true := by
  have hzero : a &&& presentBit = 0 := by
    rw [← ha, BitVec.and_assoc, show addrMask &&& presentBit = 0 from rfl]
    exact BitVec.and_zero
  have hor : (a ||| flags.bits) &&& presentBit = flags.bits &&& presentBit := by
    rw [BitVec.and_comm, BitVec.and_or_distrib_left, BitVec.and_comm presentBit a, hzero,
      BitVec.and_comm]
    exact BitVec.zero_or
  rw [hor, PageFlags.present, bne_iff_ne]

theorem ofNat_and_addrMask {a : Nat} (ha : a % pageSize = 0) (hlt : a < 2 ^ 52) :
    BitVec.ofNat 64 a &&& addrMask = BitVec.ofNat 64 a := by
  have hframe := frameOf_or (b := 0) ha hlt BitVec.zero_and
  have hmod : a % 2 ^ 64 = a := Nat.mod_eq_of_lt (by omega)
  apply BitVec.eq_of_toNat_eq
  rw [BitVec.toNat_ofNat, hmod]
  simpa [frameOf] using hframe

def entered (frame : Nat) (flags : PageFlags) : Option Mapping :=
  if flags.present then some ⟨frame, flags⟩ else none

def PageMap.put (A : PageMap) (virt frame : Nat) (flags : PageFlags) : PageMap :=
  Function.update A (virt / pageSize) (entered frame flags)

theorem mappings_grown {s' : Vmm} (h : Grown s s') : mappings s' = mappings s := by
  funext n
  simp only [mappings, h.leaves (path (n * pageSize)) (ptIndex (n * pageSize)) rfl]

theorem mappings_writeEntry (hs : WellFormed s) {pt : Nat} (hpt : tableAt s (path virt) = some pt)
    (hvirt : virt < 2 ^ 48) (v : Word) :
    mappings (s.writeEntry pt (ptIndex virt) v) = Function.update (mappings s) (virt / pageSize)
      (if v &&& presentBit ≠ 0 then some (mappingOf v) else none) := by
  funext n
  by_cases hn : n < 2 ^ 36
  · have hiff := page_eq_iff hn hvirt
    rw [mappings, if_pos hn, lookup_writeEntry hs hpt rfl rfl]
    by_cases heq : n = virt / pageSize
    · rw [if_pos (hiff.mpr heq), heq, Function.update_self]
      split_ifs <;> rfl
    · rw [if_neg (mt hiff.mp heq), Function.update_of_ne heq, mappings, if_pos hn]
  · have hne : n ≠ virt / pageSize := by
      rw [pageSize]
      omega
    rw [Function.update_of_ne hne, mappings, mappings, if_neg hn, if_neg hn]

theorem mappings_writeEntry_or (hs : WellFormed s) {pt : Nat} (hpt : tableAt s (path virt) = some pt)
    (hvirt : virt < 2 ^ 48) {a : Word} (ha : a &&& addrMask = a) (flags : PageFlags) :
    mappings (s.writeEntry pt (ptIndex virt) (a ||| flags.bits)) =
      (mappings s).put virt a.toNat flags := by
  rw [mappings_writeEntry hs hpt hvirt, mappingOf_or ha]
  simp only [present_or ha, PageMap.put, entered]

/-- The results `map_page` may have on the abstract map. -/
inductive Maps (A : PageMap) (virt phys : Nat) (flags : PageFlags) : KernelResult Unit → PageMap → Prop
  | invalid (h : virt % pageSize ≠ 0 ∨ phys % pageSize ≠ 0) :
      Maps A virt phys flags (.error .invalidArgument) A
  | taken (hv : virt % pageSize = 0) (hp : phys % pageSize = 0) (h : A (virt / pageSize) ≠ none) :
      Maps A virt phys flags (.error .pageAlreadyMapped) A
  | full (hv : virt % pageSize = 0) (hp : phys % pageSize = 0) (h : A (virt / pageSize) = none) :
      Maps A virt phys flags (.error .outOfMemory) A
  | done (hv : virt % pageSize = 0) (hp : phys % pageSize = 0) (h : A (virt / pageSize) = none) :
      Maps A virt phys flags (.ok ()) (A.put virt phys flags)

theorem mappings_eq_none {p q : List Index} (habsent : tableAt s p = none) (hpath : path virt = p ++ q)
    (hvirt : virt < 2 ^ 48) : mappings s (virt / pageSize) = none := by
  rw [mappings_page s hvirt, lookup, hpath, tableAt_append_none habsent]
  rfl

theorem maps_full {s' : Vmm} {p q : List Index} (hg : Grown s s') (habsent : tableAt s' p = none)
    (hpath : path virt = p ++ q) (hvirt : virt < 2 ^ 48) (hv : virt % pageSize = 0)
    (hp : phys % pageSize = 0) :
    WellFormed s' ∧ Maps (mappings s) virt phys flags (.error .outOfMemory) (mappings s') := by
  have hnone := mappings_eq_none habsent hpath hvirt
  rw [mappings_grown hg] at hnone ⊢
  exact ⟨hg.wellFormed, .full hv hp hnone⟩

theorem mapEntry_spec {s' : Vmm} {pt : Nat} (hg : Grown s s') (hpt : tableAt s' (path virt) = some pt)
    (hvirt : virt < 2 ^ 48) (hphys : phys < 2 ^ 52) (hv : virt % pageSize = 0)
    (hp : phys % pageSize = 0) :
    WellFormed (s'.mapEntry pt virt phys flags).2 ∧
      Maps (mappings s) virt phys flags (s'.mapEntry pt virt phys flags).1
        (mappings (s'.mapEntry pt virt phys flags).2) := by
  have hpage := mappings_page s' hvirt
  rw [lookup_of_tableAt hpt] at hpage
  rw [← mappings_grown hg, mapEntry]
  split_ifs with hpresent
  · rw [if_pos hpresent] at hpage
    exact ⟨hg.wellFormed, .taken hv hp (by rw [hpage]; simp)⟩
  · rw [if_neg hpresent] at hpage
    have hput := mappings_writeEntry_or hg.wellFormed hpt hvirt (ofNat_and_addrMask hp hphys) flags
    have hmod : phys % 2 ^ 64 = phys := Nat.mod_eq_of_lt (by omega)
    rw [BitVec.toNat_ofNat, hmod] at hput
    refine ⟨wellFormed_writeEntry hg.wellFormed hpt rfl, ?_⟩
    rw [hput]
    exact .done hv hp hpage

theorem mapPage_spec (hs : WellFormed s) (hvirt : virt < 2 ^ 48) (hphys : phys < 2 ^ 52) :
    WellFormed (s.mapPage virt phys flags).2 ∧
      Maps (mappings s) virt phys flags (s.mapPage virt phys flags).1
        (mappings (s.mapPage virt phys flags).2) := by
  by_cases hbad : virt % pageSize ≠ 0 ∨ phys % pageSize ≠ 0
  · simp only [mapPage, if_pos hbad]
    exact ⟨hs, .invalid hbad⟩
  obtain ⟨hv, hp⟩ : virt % pageSize = 0 ∧ phys % pageSize = 0 := by simpa using hbad
  simp only [mapPage, if_neg hbad]
  have h₁ := ensureTable_spec hs (p := []) rfl (by decide) (pml4Index virt)
  generalize s.ensureTable s.pml4Addr (pml4Index virt) = x₁ at h₁ ⊢
  cases h₁ with
  | full habsent => exact maps_full (.refl hs) habsent rfl hvirt hv hp
  | @table pdpt s₁ hg₁ ht₁ =>
    have h₂ := ensureTable_spec hg₁.wellFormed ht₁ (show 1 < 3 by decide) (pdptIndex virt)
    change WellFormed (andThen (s₁.ensureTable pdpt (pdptIndex virt)) _).2 ∧ _
    simp only [andThen]
    generalize s₁.ensureTable pdpt (pdptIndex virt) = x₂ at h₂ ⊢
    cases h₂ with
    | full habsent => exact maps_full hg₁ habsent rfl hvirt hv hp
    | @table pd s₂ hg₂ ht₂ =>
      have h₃ := ensureTable_spec hg₂.wellFormed ht₂ (show 2 < 3 by decide) (pdIndex virt)
      simp only
      generalize s₂.ensureTable pd (pdIndex virt) = x₃ at h₃ ⊢
      cases h₃ with
      | full habsent => exact maps_full (q := []) (hg₁.trans hg₂) habsent rfl hvirt hv hp
      | @table pt s₃ hg₃ ht₃ =>
        exact mapEntry_spec (hg₁.trans (hg₂.trans hg₃)) ht₃ hvirt hphys hv hp

inductive Unmaps (A : PageMap) (virt : Nat) : KernelResult Nat → PageMap → Prop
  | invalid (h : virt % pageSize ≠ 0) : Unmaps A virt (.error .invalidArgument) A
  | absent (hv : virt % pageSize = 0) (h : A (virt / pageSize) = none) :
      Unmaps A virt (.error .pageNotMapped) A
  | done {mp : Mapping} (hv : virt % pageSize = 0) (h : A (virt / pageSize) = some mp) :
      Unmaps A virt (.ok mp.frame) (Function.update A (virt / pageSize) none)

inductive Updates (A : PageMap) (virt : Nat) (flags : PageFlags) : KernelResult Unit → PageMap → Prop
  | invalid (h : virt % pageSize ≠ 0) : Updates A virt flags (.error .invalidArgument) A
  | absent (hv : virt % pageSize = 0) (h : A (virt / pageSize) = none) :
      Updates A virt flags (.error .pageNotMapped) A
  | done {mp : Mapping} (hv : virt % pageSize = 0) (h : A (virt / pageSize) = some mp) :
      Updates A virt flags (.ok ()) (A.put virt mp.frame flags)

theorem findTable_eq (s : Vmm) (virt : Nat) : s.findTable virt = tableAt s (path virt) := by
  simp only [findTable, tableAt, path, walk_cons, walk_nil, Option.bind_eq_bind]
  cases getNextTableAddr s.mem s.pml4Addr (pml4Index virt) with
  | none => rfl
  | some pdpt =>
    simp only [Option.bind_some]
    cases getNextTableAddr s.mem pdpt (pdptIndex virt) with
    | none => rfl
    | some pd => simp

theorem replaceEntry_absent (hv : virt % pageSize = 0) (hl : lookup s (path virt) (ptIndex virt) = none)
    (f : Word → Word) : s.replaceEntry virt f = (.error .pageNotMapped, s) := by
  rw [replaceEntry, if_neg (not_not.mpr hv), findTable_eq]
  cases hpt : tableAt s (path virt) with
  | none => rfl
  | some pt =>
    rw [lookup_of_tableAt hpt] at hl
    simp only
    split_ifs at hl ⊢
    rfl

theorem replaceEntry_present (hv : virt % pageSize = 0) {e : Word}
    (hl : lookup s (path virt) (ptIndex virt) = some e) (f : Word → Word) :
    ∃ pt, tableAt s (path virt) = some pt ∧
      s.replaceEntry virt f = (.ok (frameOf e), s.writeEntry pt (ptIndex virt) (f e)) := by
  obtain ⟨pt, hpt, hpresent, rfl⟩ := lookup_eq_some.mp hl
  refine ⟨pt, hpt, ?_⟩
  rw [replaceEntry, if_neg (not_not.mpr hv), findTable_eq, hpt]
  simp only [if_pos hpresent]

theorem unmapPage_spec (hs : WellFormed s) (hvirt : virt < 2 ^ 48) :
    WellFormed (s.unmapPage virt).2 ∧
      Unmaps (mappings s) virt (s.unmapPage virt).1 (mappings (s.unmapPage virt).2) := by
  rw [unmapPage]
  by_cases hv : virt % pageSize = 0
  · have hpage := mappings_page s hvirt
    cases hl : lookup s (path virt) (ptIndex virt) with
    | none =>
      rw [hl] at hpage
      rw [replaceEntry_absent hv hl]
      exact ⟨hs, .absent hv hpage⟩
    | some e =>
      rw [hl] at hpage
      obtain ⟨pt, hpt, hrun⟩ := replaceEntry_present hv hl fun _ => 0
      rw [hrun, mappings_writeEntry hs hpt hvirt]
      exact ⟨wellFormed_writeEntry hs hpt rfl, .done hv hpage⟩
  · rw [replaceEntry, if_pos hv]
    exact ⟨hs, .invalid hv⟩

theorem updateFlags_spec (hs : WellFormed s) (hvirt : virt < 2 ^ 48) :
    WellFormed (s.updateFlags virt flags).2 ∧
      Updates (mappings s) virt flags (s.updateFlags virt flags).1
        (mappings (s.updateFlags virt flags).2) := by
  rw [updateFlags]
  by_cases hv : virt % pageSize = 0
  · have hpage := mappings_page s hvirt
    cases hl : lookup s (path virt) (ptIndex virt) with
    | none =>
      rw [hl] at hpage
      rw [replaceEntry_absent hv hl]
      exact ⟨hs, .absent hv hpage⟩
    | some e =>
      rw [hl] at hpage
      obtain ⟨pt, hpt, hrun⟩ :=
        replaceEntry_present hv hl fun old => old &&& addrMask ||| flags.bits
      have hframe : e &&& addrMask &&& addrMask = e &&& addrMask := by
        rw [BitVec.and_assoc, BitVec.and_self]
      have hput := mappings_writeEntry_or hs hpt hvirt hframe flags
      rw [hrun]
      refine ⟨wellFormed_writeEntry hs hpt rfl, ?_⟩
      change Updates _ _ _ _ (mappings (s.writeEntry pt _ _))
      rw [hput]
      exact .done hv hpage
  · rw [replaceEntry, if_pos hv]
    exact ⟨hs, .invalid hv⟩

end DeltaOS.AddressSpace
