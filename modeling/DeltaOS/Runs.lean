import Mathlib

namespace DeltaOS.Runs

variable {σ ι : Type*}

def run (step : σ → ι → σ) (s : σ) (ops : List ι) : σ := ops.foldl step s

/-- The property holds in the first state of a run and after each of its operations. -/
def Always (step : σ → ι → σ) (P : σ → Prop) : σ → List ι → Prop
  | s, [] => P s
  | s, a :: ops => P s ∧ Always step P (step s a) ops

/-- The condition holds of every operation of a run, in the state the operation is applied to. -/
def Guarded (step : σ → ι → σ) (G : σ → ι → Prop) : σ → List ι → Prop
  | _, [] => True
  | s, a :: ops => G s a ∧ Guarded step G (step s a) ops

variable {step : σ → ι → σ} {P I : σ → Prop} {G : σ → ι → Prop} {s : σ} {ops : List ι}

instance Guarded.decidable [∀ s a, Decidable (G s a)] : (s : σ) → (ops : List ι) →
    Decidable (Guarded step G s ops)
  | _, [] => isTrue trivial
  | s, a :: ops =>
    have := Guarded.decidable (step s a) ops
    inferInstanceAs (Decidable (G s a ∧ Guarded step G (step s a) ops))

theorem run_cons (s : σ) (a : ι) (ops : List ι) : run step s (a :: ops) = run step (step s a) ops := rfl

theorem run_append (s : σ) (ops rest : List ι) :
    run step s (ops ++ rest) = run step (run step s ops) rest := by
  simp only [run, List.foldl_append]

theorem Always.first (h : Always step P s ops) : P s := by
  cases ops with
  | nil => exact h
  | cons a ops => exact h.1

theorem Always.last (h : Always step P s ops) : P (run step s ops) := by
  induction ops generalizing s with
  | nil => exact h
  | cons a ops ih => exact ih h.2

theorem Always.middle {rest : List ι} (h : Always step P s (ops ++ rest)) : P (run step s ops) := by
  induction ops generalizing s with
  | nil => exact h.first
  | cons a ops ih => exact ih h.2

theorem Guarded.always (hs : ∀ s a, I s → G s a → I (step s a)) (h0 : I s)
    (hg : Guarded step G s ops) : Always step I s ops := by
  induction ops generalizing s with
  | nil => exact h0
  | cons a ops ih => exact ⟨h0, ih (hs s a h0 hg.1) hg.2⟩

theorem Always.mono (hP : ∀ s, I s → P s) (h : Always step I s ops) : Always step P s ops := by
  induction ops generalizing s with
  | nil => exact hP s h
  | cons a ops ih => exact ⟨hP s h.1, ih h.2⟩

theorem guarded_of_forall {H : ι → Prop} (h : ∀ a ∈ ops, H a) : Guarded step (fun _ a => H a) s ops := by
  induction ops generalizing s with
  | nil => trivial
  | cons a ops ih =>
    exact ⟨h a List.mem_cons_self, ih fun b hb => h b (List.mem_cons_of_mem a hb)⟩

theorem always_of_step (hs : ∀ s a, I s → I (step s a)) (h0 : I s) : Always step I s ops := by
  induction ops generalizing s with
  | nil => exact h0
  | cons a ops ih => exact ⟨h0, ih (hs s a h0)⟩

theorem guarded_of_step (hs : ∀ s a, I s → I (step s a)) (hG : ∀ s a, I s → G s a) (h0 : I s) :
    Guarded step G s ops := by
  induction ops generalizing s with
  | nil => trivial
  | cons a ops ih => exact ⟨hG s a h0, ih (hs s a h0)⟩

theorem Guarded.middle (ops : List ι) {a : ι} {rest : List ι}
    (hg : Guarded step G s (ops ++ a :: rest)) : G (run step s ops) a := by
  induction ops generalizing s with
  | nil => exact hg.1
  | cons b ops ih => exact ih hg.2

theorem Guarded.imp {H : σ → ι → Prop} (hs : ∀ s a, I s → G s a → I (step s a))
    (hG : ∀ s a, I s → G s a → H s a) (h0 : I s) (hg : Guarded step G s ops) :
    Guarded step H s ops := by
  induction ops generalizing s with
  | nil => trivial
  | cons a ops ih => exact ⟨hG s a h0 hg.1, ih (hs s a h0 hg.1) hg.2⟩

theorem guarded_congr {H : σ → ι → Prop} (hs : ∀ s a, I s → I (step s a))
    (hG : ∀ s a, I s → (G s a ↔ H s a)) (h0 : I s) :
    Guarded step G s ops ↔ Guarded step H s ops :=
  ⟨fun h => h.imp (fun s a hi _ => hs s a hi) (fun s a hi => (hG s a hi).mp) h0,
    fun h => h.imp (fun s a hi _ => hs s a hi) (fun s a hi => (hG s a hi).mpr) h0⟩

theorem Guarded.run_congr {step' : σ → ι → σ} (hs : ∀ s a, I s → G s a → I (step s a))
    (heq : ∀ s a, I s → G s a → step' s a = step s a) (h0 : I s) (hg : Guarded step G s ops) :
    run step' s ops = run step s ops := by
  induction ops generalizing s with
  | nil => rfl
  | cons a ops ih =>
    change run step' (step' s a) ops = run step (step s a) ops
    rw [heq s a h0 hg.1]
    exact ih (hs s a h0 hg.1) hg.2

/-- When the guard is exactly what one step needs to keep the property, a whole run
keeps the property exactly when all of its steps are guarded. The invariant collects
what the step argument needs besides the property, `H` what the callers promise. -/
theorem always_iff_guarded_of {H : σ → ι → Prop} (hH : Guarded step H s ops) (hP : ∀ s, I s → P s)
    (hs : ∀ s a, I s → H s a → G s a → I (step s a))
    (hbad : ∀ s a, I s → H s a → P (step s a) → G s a) (h0 : I s) :
    Always step P s ops ↔ Guarded step G s ops := by
  induction ops generalizing s with
  | nil => exact iff_of_true (hP s h0) trivial
  | cons a ops ih =>
    constructor
    · intro h
      have hg : G s a := hbad s a h0 hH.1 h.2.first
      exact ⟨hg, (ih hH.2 (hs s a h0 hH.1 hg)).mp h.2⟩
    · intro h
      exact ⟨hP s h0, (ih hH.2 (hs s a h0 hH.1 h.1)).mpr h.2⟩

theorem always_iff_guarded (hP : ∀ s, I s → P s) (hs : ∀ s a, I s → G s a → I (step s a))
    (hbad : ∀ s a, I s → P (step s a) → G s a) (h0 : I s) :
    Always step P s ops ↔ Guarded step G s ops :=
  always_iff_guarded_of (guarded_of_forall (H := fun _ => True) fun _ _ => trivial) hP
    (fun s a hi _ => hs s a hi) (fun s a hi _ => hbad s a hi) h0

section Stops

variable {next : Option σ → ι → Option σ}

end Stops

end DeltaOS.Runs
