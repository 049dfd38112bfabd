import DeltaOS.Ranges
import DeltaOS.VmmRefinement

namespace DeltaOS.IdentityMap

open Kernel Overflow Paging Vmm PageTables AddressSpace VmmRefinement Ranges

variable {s : Vmm} {flags : PageFlags} {A A' : PageMap} {start stop a k n virt : Nat}

/-- The `k` pages from page `a` on are mapped to themselves. -/
def filled (A : PageMap) (flags : PageFlags) (a k : Nat) : PageMap := fun m =>
  if a ≤ m ∧ m < a + k then entered (m * pageSize) flags else A m

/-- Why page `m` cannot be mapped. -/
def Fails (A : PageMap) (m : Nat) (e : KernelError) : Prop :=
  e = .pageAlreadyMapped ∧ A m ≠ none ∨ e = .outOfMemory ∧ A m = none

def Exhausting {α : Type} (x : KernelResult α × Vmm) : Prop :=
  x.1 = .error .outOfMemory → x.2.nextPageAddr + pageSize > vmmPagesEnd

def pageCount (start stop : Nat) : Nat := (stop + pageSize - 1) / pageSize - start / pageSize

/-- The first `k` pages of the range are mapped, and page `k` fails if there is one. -/
structure Runs (s : Vmm) (start stop : Nat) (flags : PageFlags) (k : Nat)
    (x : KernelResult Unit × Vmm) : Prop where
  wellFormed : WellFormed x.2
  le : k ≤ pageCount start stop
  mappings : mappings x.2 = filled (mappings s) flags (start / pageSize) k
  free : ∀ m, start / pageSize ≤ m → m < start / pageSize + k → AddressSpace.mappings s m = none
  ok : x.1 = .ok () → k = pageCount start stop
  failed : ∀ e, x.1 = .error e → k < pageCount start stop ∧
    Fails (AddressSpace.mappings s) (start / pageSize + k) e
  exhausting : Exhausting x

variable {x : KernelResult Unit × Vmm}

theorem Fails.translate {e : KernelError} {m : Nat} (h : Fails (mappings s) m e) (hs : WellFormed s)
    (hm : m * pageSize < 2 ^ 48) : e = .pageAlreadyMapped ∧ s.translate (m * pageSize) ≠ none ∨
      e = .outOfMemory ∧ s.translate (m * pageSize) = none := by
  rw [translate_eq_mappings hs hm, Nat.mul_div_cancel m (by decide : 0 < pageSize)]
  obtain ⟨he, htaken⟩ | ⟨he, hnone⟩ := h
  · exact .inl ⟨he, mt Option.map_eq_none_iff.mp htaken⟩
  · exact .inr ⟨he, Option.map_eq_none_iff.mpr hnone⟩

end DeltaOS.IdentityMap
