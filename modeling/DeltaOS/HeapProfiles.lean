import DeltaOS.Heap

/-! A call that runs through with overflow checks does the same in a release build. -/

namespace DeltaOS.HeapProfiles

open Overflow Heap SlabAllocator

theorem forall_profile {α : Type*} (run : Profile → Option α) {P : α → Prop}
    (hagree : ∀ a, run .debug = some a → run .release = some a) (hrun : ∃ a, run .release = some a ∧ P a)
    (profile : Profile) :
    (profile = .release → run profile ≠ none) ∧ ∀ a, run profile = some a → P a := by
  obtain ⟨a, hrun, ha⟩ := hrun
  have hsame {b : α} (hb : run .release = some b) : P b := Option.some.inj (hrun.symm.trans hb) ▸ ha
  cases profile with
  | release =>
    refine ⟨fun _ hnone => ?_, fun b hb => hsame hb⟩
    rw [hrun] at hnone
    cases hnone
  | debug => exact ⟨nofun, fun b hb => hsame (hagree b hb)⟩

theorem addBlocks_release {page n : Nat} {slab slab' : SlabClass}
    (h : slab.addBlocks .debug page n = some slab') : slab.addBlocks .release page n = some slab' := by
  refine foldlM_some_of_imp (fun slab j slab' h => ?_) _ h
  simp only [SlabClass.addBlock, Option.bind_eq_bind, Option.bind_eq_some_iff] at h ⊢
  obtain ⟨addr, hadd, hrest⟩ := h
  exact ⟨addr, add_release_of_debug hadd, hrest⟩

theorem init_release {h h' : SlabAllocator} {start size : Nat}
    (hrun : h.init .debug start size = some h') : h.init .release start size = some h' := by
  unfold init at hrun ⊢
  split_ifs at hrun ⊢
  · exact hrun
  simp only [Option.bind_eq_bind, Option.bind_eq_some_iff] at hrun ⊢
  obtain ⟨s, hfold, hret⟩ := hrun
  refine ⟨s, foldlM_some_of_imp (fun s i s' h => ?_) _ hfold, hret⟩
  simp only [initClass, Option.bind_eq_bind, Option.bind_eq_some_iff] at h ⊢
  obtain ⟨page, hpage, slab, hblocks, offset, hoffset, hret⟩ := h
  exact ⟨page, add_release_of_debug hpage, slab, addBlocks_release hblocks, offset,
    add_release_of_debug hoffset, hret⟩

variable {h : SlabAllocator} {r : Nat × SlabAllocator}

theorem allocFromSlab_release {i : Fin slabClasses} (hrun : h.allocFromSlab .debug i = some r) :
    h.allocFromSlab .release i = some r := by
  cases hpop : (h.slabs i).pop with
  | some p =>
    simp only [allocFromSlab, hpop] at hrun ⊢
    exact hrun
  | none =>
    simp only [allocFromSlab, hpop, Option.bind_eq_bind, Option.bind_eq_some_iff] at hrun ⊢
    obtain ⟨next, hnext, hrest⟩ := hrun
    refine ⟨next, add_release_of_debug hnext, ?_⟩
    split_ifs at hrest ⊢
    · exact hrest
    simp only [Option.bind_eq_some_iff] at hrest ⊢
    obtain ⟨page, hpage, room, hroom, slab, hblocks, hret⟩ := hrest
    exact ⟨page, add_release_of_debug hpage, room, sub_release_of_debug (by decide) hroom, slab,
      addBlocks_release hblocks, hret⟩

theorem allocFromSlab_of_debug {i : Fin slabClasses} (hrun : h.allocFromSlab .debug i = some r)
    (profile : Profile) : h.allocFromSlab profile i = some r := by
  cases profile with
  | release => exact allocFromSlab_release hrun
  | debug => exact hrun

theorem allocBump_release {size align : Nat} (hrun : h.allocBump .debug size align = some r) :
    h.allocBump .release size align = some r := by
  simp only [allocBump, Option.bind_eq_bind, Option.bind_eq_some_iff] at hrun ⊢
  obtain ⟨sum, hsum, top, htop, offset, hoffset, hrest⟩ := hrun
  refine ⟨sum, add_release_of_debug hsum, top, sub_release_of_debug (add_lt hsum) htop, offset,
    add_release_of_debug hoffset, ?_⟩
  split_ifs at hrest ⊢
  · exact hrest
  simp only [Option.bind_eq_some_iff] at hrest ⊢
  obtain ⟨ptr, hptr, hret⟩ := hrest
  exact ⟨ptr, add_release_of_debug hptr, hret⟩

theorem alloc_release {l : Layout} (hrun : h.alloc .debug l = some r) :
    h.alloc .release l = some r := by
  unfold SlabAllocator.alloc at hrun ⊢
  split at hrun
  · split_ifs at hrun ⊢
    · exact allocFromSlab_release hrun
    · exact allocBump_release hrun
  · exact allocBump_release hrun

theorem step_release {s s' : State} {op : Op} (hrun : step .debug (some s) op = some s') :
    step .release (some s) op = some s' := by
  cases op with
  | dealloc ptr l => exact hrun
  | alloc l =>
    obtain ⟨r, halloc, hs⟩ := Option.map_eq_some_iff.mp hrun
    exact Option.map_eq_some_iff.mpr ⟨r, alloc_release halloc, hs⟩

theorem start_release {mem : ByteMemory.Memory} {base size : Nat} {s : State}
    (hrun : start .debug mem base size = some s) : start .release mem base size = some s := by
  obtain ⟨h, hinit, hs⟩ := Option.map_eq_some_iff.mp hrun
  exact Option.map_eq_some_iff.mpr ⟨h, init_release hinit, hs⟩

end DeltaOS.HeapProfiles
