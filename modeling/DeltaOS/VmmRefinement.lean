import DeltaOS.AddressSpace

namespace DeltaOS.VmmRefinement

open ByteMemory Kernel Overflow Paging Vmm PageTables AddressSpace RadixTree Runs

variable {s : Vmm} {flags : PageFlags}

/-- `identity_map` on the abstract map: page after page until one of them fails. -/
inductive MapsAll (flags : PageFlags) : PageMap → List Nat → KernelResult Unit → PageMap → Prop
  | nil {A : PageMap} : MapsAll flags A [] (.ok ()) A
  | cons {A A₁ A₂ : PageMap} {addr : Nat} {rest : List Nat} {r : KernelResult Unit}
      (first : Maps A addr addr flags (.ok ()) A₁) (others : MapsAll flags A₁ rest r A₂) :
      MapsAll flags A (addr :: rest) r A₂
  | stop {A A₁ : PageMap} {addr : Nat} {rest : List Nat} {e : KernelError}
      (first : Maps A addr addr flags (.error e) A₁) : MapsAll flags A (addr :: rest) (.error e) A₁

/-- The pages that overlap the range from `start` to `stop`. -/
def pageAddrs (start stop : Nat) : List Nat :=
  (List.range' (start / pageSize) ((stop + pageSize - 1) / pageSize - start / pageSize)).map
    (· * pageSize)

theorem identityMapLoop_spec {stop fuel n a : Nat} (hs : WellFormed s) (hfuel : n < fuel)
    (hstop : stop ≤ 2 ^ 48) (hn : (stop + pageSize - 1) / pageSize - a = n) :
    ∃ x, identityMapLoop flags stop fuel s (a * pageSize) = some x ∧ WellFormed x.2 ∧
      MapsAll flags (mappings s) ((List.range' a n).map (· * pageSize)) x.1 (mappings x.2) := by
  have hsize : pageSize = 4096 := rfl
  induction n generalizing s fuel a with
  | zero =>
    obtain ⟨fuel, rfl⟩ := Nat.exists_eq_succ_of_ne_zero hfuel.ne'
    have hend : ¬a * pageSize < stop := by
      rw [hsize] at hn ⊢
      omega
    exact ⟨(.ok (), s), by rw [identityMapLoop, if_neg hend], hs, .nil⟩
  | succ n ih =>
    obtain ⟨fuel, rfl⟩ := Nat.exists_eq_succ_of_ne_zero (Nat.ne_zero_of_lt hfuel)
    have hlt : a * pageSize < stop := by
      rw [hsize] at hn ⊢
      omega
    have hvirt : a * pageSize < 2 ^ 48 := hlt.trans_le hstop
    have hmap : WellFormed (s.mapPage (a * pageSize) (a * pageSize) flags).2 ∧ _ :=
      mapPage_spec hs hvirt (hvirt.trans (by decide))
    rw [identityMapLoop, if_pos hlt, List.range'_succ, List.map_cons]
    generalize s.mapPage (a * pageSize) (a * pageSize) flags = x at hmap ⊢
    obtain ⟨_ | _, s'⟩ := x
    · exact ⟨_, rfl, hmap.1, .stop hmap.2⟩
    · have hnext : (a * pageSize + pageSize) % usizeRange = (a + 1) * pageSize := by
        rw [Nat.succ_mul, Nat.mod_eq_of_lt]
        exact (Nat.add_lt_add_right hvirt _).trans (by decide)
      obtain ⟨x, hrun, hwf, hall⟩ := ih (a := a + 1) hmap.1 (show n < fuel by omega) (by omega)
      refine ⟨x, ?_, hwf, .cons hmap.2 hall⟩
      rw [← hrun, ← hnext]

theorem identityMap_spec (hs : WellFormed s) {start stop : Nat} (hstart : start < 2 ^ 48)
    (hstop : stop ≤ 2 ^ 48) :
    ∃ x, s.identityMap start stop flags = some x ∧ WellFormed x.2 ∧
      MapsAll flags (mappings s) (pageAddrs start stop) x.1 (mappings x.2) := by
  have hdown : alignDown start pageSize = start / pageSize * pageSize :=
    alignDown_eq (k := 12) (hstart.trans (by decide)) (by decide)
  rw [identityMap, hdown]
  refine identityMapLoop_spec hs ?_ hstop rfl
  rw [pageSize]
  omega

inductive Op
  | mapPage (virt phys : Nat) (flags : PageFlags)
  | unmapPage (virt : Nat)
  | updateFlags (virt : Nat) (flags : PageFlags)
  | identityMap (start stop : Nat) (flags : PageFlags)

/-- Virtual addresses below `2 ^ 48` and physical ones below `2 ^ 52`. -/
def InRange : Op → Prop
  | .mapPage virt phys _ => virt < 2 ^ 48 ∧ phys < 2 ^ 52
  | .unmapPage virt => virt < 2 ^ 48
  | .updateFlags virt _ => virt < 2 ^ 48
  | .identityMap start stop _ => start < 2 ^ 48 ∧ stop ≤ 2 ^ 48

/-- One call, where `none` is a loop that does not end. -/
def step : Option Vmm → Op → Option Vmm
  | none, _ => none
  | some s, .mapPage virt phys flags => some (s.mapPage virt phys flags).2
  | some s, .unmapPage virt => some (s.unmapPage virt).2
  | some s, .updateFlags virt flags => some (s.updateFlags virt flags).2
  | some s, .identityMap start stop flags => (s.identityMap start stop flags).map Prod.snd

/-- A call does to the mappings what the abstract operation does, with the same result. -/
def Refines (s : Vmm) : Op → Prop
  | .mapPage virt phys flags =>
    Maps (mappings s) virt phys flags (s.mapPage virt phys flags).1
      (mappings (s.mapPage virt phys flags).2)
  | .unmapPage virt => Unmaps (mappings s) virt (s.unmapPage virt).1 (mappings (s.unmapPage virt).2)
  | .updateFlags virt flags =>
    Updates (mappings s) virt flags (s.updateFlags virt flags).1 (mappings (s.updateFlags virt flags).2)
  | .identityMap start stop flags => ∃ x, s.identityMap start stop flags = some x ∧
    MapsAll flags (mappings s) (pageAddrs start stop) x.1 (mappings x.2)

theorem step_spec (hs : WellFormed s) {op : Op} (hop : InRange op) :
    Refines s op ∧ ∃ s', step (some s) op = some s' ∧ WellFormed s' := by
  cases op with
  | mapPage virt phys flags =>
    obtain ⟨hwf, hmap⟩ := mapPage_spec hs hop.1 hop.2
    exact ⟨hmap, _, rfl, hwf⟩
  | unmapPage virt =>
    obtain ⟨hwf, hmap⟩ := unmapPage_spec hs hop
    exact ⟨hmap, _, rfl, hwf⟩
  | updateFlags virt flags =>
    obtain ⟨hwf, hmap⟩ := updateFlags_spec hs hop
    exact ⟨hmap, _, rfl, hwf⟩
  | identityMap start stop flags =>
    obtain ⟨x, hrun, hwf, hmap⟩ := identityMap_spec hs hop.1 hop.2
    exact ⟨⟨x, hrun, hmap⟩, x.2, by rw [step, hrun, Option.map_some], hwf⟩

/-- An empty PML4 outside of the pool of page tables. -/
structure Empty (s : Vmm) : Prop where
  root_aligned : s.pml4Addr % pageSize = 0
  root_outside : s.pml4Addr + pageSize ≤ vmmPagesBase ∨ vmmPagesEnd ≤ s.pml4Addr
  next_aligned : s.nextPageAddr % pageSize = 0
  next_le : s.nextPageAddr ≤ vmmPagesEnd
  next_ge : vmmPagesBase ≤ s.nextPageAddr
  entries : ∀ i, getEntry s.mem s.pml4Addr i = 0

theorem Empty.tableAt_eq_some (h : Empty s) {p : List Index} {t : Nat} (hp : tableAt s p = some t) :
    p = [] ∧ t = s.pml4Addr := by
  cases p with
  | nil =>
    cases hp
    exact ⟨rfl, rfl⟩
  | cons i p =>
    have hnone : getNextTableAddr s.mem s.pml4Addr i = none :=
      getNextTableAddr_eq_none.mpr (isPresent_of_zero (h.entries i))
    rw [tableAt, walk_cons, hnone] at hp
    cases hp

theorem Empty.wellFormed (h : Empty s) : WellFormed s := by
  refine ⟨?_, h.root_aligned, h.root_outside, h.next_aligned, h.next_le, h.next_ge, ?_, ?_⟩
  · intro p q n _ _ hwp hwq
    exact (h.tableAt_eq_some hwp).1.trans (h.tableAt_eq_some hwq).1.symm
  · intro p t hne _ hp
    exact absurd (h.tableAt_eq_some hp).1 hne
  · intro p t i _ hp hpresent
    obtain ⟨-, rfl⟩ := h.tableAt_eq_some hp
    rw [isPresent_of_zero (h.entries i)] at hpresent
    cases hpresent

theorem Empty.mappings_eq (h : Empty s) : mappings s = fun _ => none := by
  funext n
  have hnone : tableAt s (path (n * pageSize)) = none := by
    cases hp : tableAt s (path (n * pageSize)) with
    | none => rfl
    | some t => cases (h.tableAt_eq_some hp).1
  simp [mappings, lookup, hnone]

/-- From an empty PML4 on, every call does what it does to the abstract map, and `translate`
reads that map. -/
theorem vmm_refines (s : Vmm) (hs : Empty s) (ops : List Op) (hops : ∀ op ∈ ops, InRange op) :
    mappings s = (fun _ => none) ∧
      Guarded step (fun o op => ∃ s', o = some s' ∧ Refines s' op) (some s) ops ∧
      Always step (fun o => ∃ s', o = some s' ∧ ∀ virt < 2 ^ 48, s'.translate virt =
        (mappings s' (virt / pageSize)).map fun mp => mp.frame + virt % pageSize) (some s) ops := by
  have h0 : ∃ s', some s = some s' ∧ WellFormed s' := ⟨s, rfl, hs.wellFormed⟩
  have hg : Guarded step (fun _ op => InRange op) (some s) ops := guarded_of_forall hops
  have hstep : ∀ o op, (∃ s', o = some s' ∧ WellFormed s') → InRange op →
      (∃ s', o = some s' ∧ Refines s' op) ∧ ∃ s', step o op = some s' ∧ WellFormed s' := by
    rintro _ op ⟨s', rfl, hs'⟩ hop
    obtain ⟨href, hnext⟩ := step_spec hs' hop
    exact ⟨⟨s', rfl, href⟩, hnext⟩
  refine ⟨hs.mappings_eq, ?_, ?_⟩
  · exact hg.imp (fun o op h hop => (hstep o op h hop).2) (fun o op h hop => (hstep o op h hop).1) h0
  · refine (hg.always (fun o op h hop => (hstep o op h hop).2) h0).mono ?_
    rintro _ ⟨s', rfl, hs'⟩
    exact ⟨s', rfl, fun virt hvirt => translate_eq_mappings hs' hvirt⟩

def blank : Vmm := ⟨0x1000, 0x700000, fun _ => 0⟩

theorem blank_empty : Empty blank := by
  refine ⟨by decide, by decide, by decide, by decide, by decide, fun i => ?_⟩
  simp [blank, getEntry, read64, readNat]

/-- `PageFlags::default()`. -/
def defaultFlags : PageFlags := ⟨presentBit ||| writableBit, by decide⟩

def mapAndUnmap : List Op := [.mapPage 0x1000 0x5000 defaultFlags, .unmapPage 0x1000]

theorem mapAndUnmap_refines :
    mappings blank = (fun _ => none) ∧
      Guarded step (fun o op => ∃ s', o = some s' ∧ Refines s' op) (some blank) mapAndUnmap ∧
      Always step (fun o => ∃ s', o = some s' ∧ ∀ virt < 2 ^ 48, s'.translate virt =
        (mappings s' (virt / pageSize)).map fun mp => mp.frame + virt % pageSize)
        (some blank) mapAndUnmap :=
  vmm_refines blank blank_empty mapAndUnmap (by simp [mapAndUnmap, InRange])

/-- With its second page taken, `identity_map` of two pages fails and leaves the first one mapped. -/
theorem identityMap_error_maps_first :
    let s := (blank.mapPage 0x1000 0x5000 defaultFlags).2
    s.translate 0 = none ∧
      (s.identityMap 0 0x2000 defaultFlags).map (fun x => (x.1.toOption, x.2.translate 0)) =
        some (none, some 0) := by
  decide +kernel

end DeltaOS.VmmRefinement
